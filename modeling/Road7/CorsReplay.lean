import Road7.CacheReplies
import Road7.PlainProxy

namespace Road7

/-- One of the three CORS headers: its name, where a configuration has its value, and what an
entry gets in place of an absent value. -/
structure CorsField where
  name : HeaderName
  value : CorsConfig → Option Str
  fallback : Str

def corsFields : List CorsField :=
  [⟨allowOriginHeader, CorsConfig.allowOrigin, "*".toList⟩,
    ⟨allowHeadersHeader, CorsConfig.allowHeaders, "*".toList⟩,
    ⟨allowMethodsHeader, CorsConfig.allowMethods, "GET,POST,PUT,DELETE,OPTIONS,PATCH".toList⟩]

def SameCors (resp resp' : Response) : Prop :=
  ∀ f ∈ corsFields, resp.headers.getAll f.name = resp'.headers.getAll f.name

/-- The values that a response out of the cache has for a header. -/
def CorsField.storedValues (f : CorsField) (target : Option CorsConfig) (upstream : HeaderMap) :
    List HeaderValue :=
  match target with
  | some config => [utf8 ((f.value config).getD f.fallback)]
  | none => upstream.getAll f.name

/-- The value that the fresh path gives a header, if there is one. -/
def CorsField.freshValue (f : CorsField) (target default : Option CorsConfig) : Option Str :=
  match target <|> default with
  | some config => if config.enabled then f.value config else none
  | none => none

def CorsField.freshValues (f : CorsField) (target default : Option CorsConfig)
    (upstream : HeaderMap) : List HeaderValue :=
  (f.freshValue target default).elim (upstream.getAll f.name) (fun value => [utf8 value])

/-- The fresh path gives a header of the upstream the value that the entry has for it. With a
CORS configuration of the target that is its own value or the fallback, and without one it is
what the upstream has sent. -/
def CorsField.Agrees (f : CorsField) (target default : Option CorsConfig) (upstream : HeaderMap) :
    Prop :=
  match target with
  | some config => (config.enabled = true ∧ (f.value config).isSome = true) ∨
      upstream.getAll f.name = [utf8 ((f.value config).getD f.fallback)]
  | none => ∀ config, default = some config → config.enabled = true →
      ∀ value, f.value config = some value → upstream.getAll f.name = [utf8 value]

def CorsAgrees (target default : Option CorsConfig) (upstream : HeaderMap) : Prop :=
  ∀ f ∈ corsFields, f.Agrees target default upstream

/-- The response that goes to the request whose exchange is stored. -/
def Exchange.fresh (proxy : Proxy) (x : Exchange) : Except Panic Response := do
  let headers ← insertFreshCors x.response.headers x.selected.corsConfig proxy.defaultCorsConfig
  let headers ← applySecurityHeaders headers proxy.securityHeadersConfig
  .ok { x.response.readOut with headers }

theorem corsFields_cases {P : CorsField → Prop} :
    (∀ f ∈ corsFields, P f) ↔
      P ⟨allowOriginHeader, CorsConfig.allowOrigin, "*".toList⟩ ∧
      P ⟨allowHeadersHeader, CorsConfig.allowHeaders, "*".toList⟩ ∧
      P ⟨allowMethodsHeader, CorsConfig.allowMethods,
        "GET,POST,PUT,DELETE,OPTIONS,PATCH".toList⟩ := by
  simp [corsFields]

theorem corsField_not_other {f : CorsField} (hf : f ∈ corsFields) :
    f.name ≠ etagHeader ∧ f.name ≠ lastModifiedHeader ∧ f.name ∉ securityHeaderNames := by
  have hall : ∀ n ∈ corsFields.map CorsField.name,
      n ≠ etagHeader ∧ n ≠ lastModifiedHeader ∧ n ∉ securityHeaderNames := by decide
  exact hall f.name (List.mem_map_of_mem hf)

theorem allowNames_ne : allowOriginHeader ≠ allowHeadersHeader ∧
    allowOriginHeader ≠ allowMethodsHeader ∧ allowHeadersHeader ≠ allowMethodsHeader := by
  decide

/-- The entry's CORS headers take the places of those that the upstream has sent. -/
theorem getAll_insertCorsHeaders {target : Option CorsConfig} {cors : Option CorsHeaders}
    (h : storedCors target = .ok cors) (upstream : HeaderMap) :
    ∀ f ∈ corsFields,
      (insertCorsHeaders upstream cors).getAll f.name = f.storedValues target upstream := by
  obtain ⟨horigin, hmethods, hmethods'⟩ := allowNames_ne
  unfold storedCors at h
  split at h
  next config =>
    obtain ⟨allowOrigin, ho, h⟩ := bind_eq_ok.mp h
    obtain ⟨allowHeaders, hh, h⟩ := bind_eq_ok.mp h
    obtain ⟨allowMethods, hm, h⟩ := bind_eq_ok.mp h
    cases h
    rw [corsFields_cases]
    simp only [insertCorsHeaders, HeaderMap.getAll_insert, CorsField.storedValues]
    refine ⟨?_, ?_, ?_⟩
    · simp [horigin, hmethods, headerFromStrUnwrap_ok ho]
    · simp [hmethods', headerFromStrUnwrap_ok hh]
    · simp [headerFromStrUnwrap_ok hm]
  next =>
    cases h
    exact fun f _ => rfl

theorem getAll_insertHeader_self {name : HeaderName} {value : Option Str}
    {headers headers' : HeaderMap} (h : insertHeader name value headers = .ok headers') :
    headers'.getAll name = value.elim (headers.getAll name) (fun v => [utf8 v]) := by
  unfold insertHeader at h
  split at h
  next value =>
    obtain ⟨v, hv, rfl⟩ := map_eq_ok.mp h
    rw [HeaderMap.getAll_insert, if_pos rfl, headerFromStrUnwrap_ok hv]
    rfl
  next =>
    cases h
    rfl

theorem CorsField.freshValues_of_chosen (f : CorsField) {target default : Option CorsConfig}
    {config : CorsConfig} (h : (target <|> default) = some config) (upstream : HeaderMap) :
    f.freshValues target default upstream =
      (if config.enabled then f.value config else none).elim (upstream.getAll f.name)
        (fun value => [utf8 value]) := by
  rw [freshValues, freshValue, h]

theorem CorsField.freshValues_of_none (f : CorsField) {target default : Option CorsConfig}
    (h : (target <|> default) = none) (upstream : HeaderMap) :
    f.freshValues target default upstream = upstream.getAll f.name := by
  rw [freshValues, freshValue, h]
  rfl

theorem getAll_insertFreshCors {target default : Option CorsConfig} {upstream headers : HeaderMap}
    (h : insertFreshCors upstream target default = .ok headers) :
    ∀ f ∈ corsFields, headers.getAll f.name = f.freshValues target default upstream := by
  obtain ⟨horigin, hmethods, hmethods'⟩ := allowNames_ne
  unfold insertFreshCors at h
  split at h
  next config hconfig =>
    have hfresh := fun f : CorsField => f.freshValues_of_chosen hconfig upstream
    split at h
    next henabled =>
      obtain ⟨h1, ho, h⟩ := bind_eq_ok.mp h
      obtain ⟨h2, hh, hm⟩ := bind_eq_ok.mp h
      simp only [hfresh, henabled, if_true]
      rw [corsFields_cases]
      refine ⟨?_, ?_, ?_⟩
      · rw [getAll_insertHeader hm hmethods, getAll_insertHeader hh horigin]
        exact getAll_insertHeader_self ho
      · rw [getAll_insertHeader hm hmethods', getAll_insertHeader_self hh,
          getAll_insertHeader ho horigin.symm]
      · rw [getAll_insertHeader_self hm, getAll_insertHeader hh hmethods'.symm,
          getAll_insertHeader ho hmethods.symm]
    next hdisabled =>
      cases h
      intro f _
      rw [hfresh f, if_neg hdisabled]
      rfl
  next hnone =>
    cases h
    exact fun f _ => (f.freshValues_of_none hnone upstream).symm

theorem getAll_toResponse {entry : CacheEntry} {security : Option SecurityHeadersConfig}
    {resp : Response} (h : entry.toResponse security = .ok resp) {f : CorsField}
    (hf : f ∈ corsFields) : resp.headers.getAll f.name =
      (insertCorsHeaders entry.headers entry.corsHeaders).getAll f.name := by
  obtain ⟨hetag, hlast, hsecurity⟩ := corsField_not_other hf
  obtain ⟨h1, he, h⟩ := bind_eq_ok.mp h
  obtain ⟨h2, hl, h⟩ := bind_eq_ok.mp h
  obtain ⟨h3, hs, h⟩ := bind_eq_ok.mp h
  cases h
  rw [getAll_applySecurityHeaders hs hsecurity, getAll_insertHeader hl hlast,
    getAll_insertHeader he hetag]

theorem Exchange.getAll_fresh {proxy : Proxy} {x : Exchange} {fresh : Response}
    (h : x.fresh proxy = .ok fresh) {f : CorsField} (hf : f ∈ corsFields) :
    fresh.headers.getAll f.name =
      f.freshValues x.selected.corsConfig proxy.defaultCorsConfig x.response.headers := by
  obtain ⟨_, _, hsecurity⟩ := corsField_not_other hf
  obtain ⟨h1, hcors, h⟩ := bind_eq_ok.mp h
  obtain ⟨h2, hs, h⟩ := bind_eq_ok.mp h
  cases h
  rw [getAll_applySecurityHeaders hs hsecurity, getAll_insertFreshCors hcors f hf]

/-- The two codings of the CORS decision come to the same values exactly when they agree. -/
theorem CorsField.agrees_iff (f : CorsField) (target default : Option CorsConfig)
    (upstream : HeaderMap) : f.storedValues target upstream =
      f.freshValues target default upstream ↔ f.Agrees target default upstream := by
  cases target with
  | some config =>
    have hfresh : f.freshValue (some config) default =
        if config.enabled then f.value config else none := rfl
    simp only [storedValues, freshValues, Agrees, hfresh]
    by_cases henabled : config.enabled = true
    · cases hvalue : f.value config with
      | some value => simp [henabled]
      | none =>
        simp only [henabled, if_true, Option.elim_none, Option.isSome_none, Bool.false_eq_true,
          and_false, false_or]
        exact eq_comm
    · simp only [henabled, if_false, Option.elim_none, false_and, false_or, Bool.false_eq_true]
      exact eq_comm
  | none =>
    simp only [storedValues, freshValues, freshValue, Agrees]
    cases default with
    | some config =>
      by_cases henabled : config.enabled = true
      · cases hvalue : f.value config with
        | some value => simp [henabled, hvalue]
        | none => simp [henabled, hvalue]
      · simp [henabled]
    | none => simp

namespace CacheClients

variable {proxy : Proxy} {c d : CacheClients} {e : CacheEvent}

/-- The request whose exchange is stored has got the fresh response. -/
def Answered (proxy : Proxy) (c : CacheClients) : Prop :=
  ∀ x ∈ c.stored, ∀ fresh, x.fresh proxy = .ok fresh → ∃ reply ∈ c.replies,
    reply.request = x.request ∧ reply.ending = .upstream fresh

theorem fresh_eq {env : Surroundings} {request : Request} {ctx : LoopContext} {x : Exchange}
    (hadmits : proxy.Admits env request ctx) (hselected : x.selected = ctx.selected) :
    ctx.finishResponse x.response.readOut = x.fresh proxy := by
  have hcors : ctx.defaultCorsConfig = proxy.defaultCorsConfig := by
    rw [hadmits.context]
    rfl
  have hsecurity : ctx.securityHeadersConfig = proxy.securityHeadersConfig := by
    rw [hadmits.context]
    rfl
  rw [LoopContext.finishResponse, Exchange.fresh, hcors, hsecurity, hselected]
  rfl

theorem answered_step (h : c.Sound proxy) (hc : c.Answered proxy) (hstep : c.step proxy e = some d) :
    d.Answered proxy := by
  intro x hx fresh hfresh
  have hold : ∀ x ∈ c.stored, x.fresh proxy = .ok fresh → ∃ reply ∈ d.replies,
      reply.request = x.request ∧ reply.ending = .upstream fresh := by
    intro x hx hfresh
    obtain ⟨reply, hreply, hends⟩ := hc x hx fresh hfresh
    exact ⟨reply, replies_subset_of_step hstep hreply, hends⟩
  rcases exchange_of_step hstep with
    hsame | ⟨id, r, env, request, ctx, s, y, source, _, hid, hy, hstored, hreplies⟩
  · exact hold x (hsame ▸ hx) hfresh
  · rcases List.mem_cons.mp (hstored ▸ hx) with rfl | hx
    · obtain ⟨config, hex⟩ := LoopContext.exchange_some hy
      have hadmits := (h.clients hid).1
      have hnext := hex.next
      rw [fresh_eq hadmits hex.selected, hfresh] at hnext
      have hended : BreakerClients.turned ctx s (c.onCaches r) = .ended (.upstream fresh) := by
        rw [BreakerClients.turned, hnext]
        rfl
      exact ⟨_, hreplies _ hended, hex.request.symm, rfl⟩
    · exact hold x hx hfresh

theorem answered_run {ok : CacheClients → CacheEvent → Prop} {es : List CacheEvent} {now : Nat}
    (h : Run (step proxy) ok (idle now) es c) : c.Answered proxy := by
  have hboth : c.Sound proxy ∧ c.Answered proxy := by
    refine h.invariant (P := fun c => c.Sound proxy ∧ c.Answered proxy) ?_
      ⟨idle_sound now, fun x hx => by cases hx⟩
    rintro c e d ⟨hsound, hanswered⟩ _ hstep
    exact ⟨sound_step hsound hstep, answered_step hsound hanswered hstep⟩
  exact hboth.2

end CacheClients

theorem sameCors_iff {proxy : Proxy} {x : Exchange} {resp fresh : Response} (h : x.Sound proxy)
    (hresp : x.filed.toResponse proxy.securityHeadersConfig = .ok resp)
    (hfresh : x.fresh proxy = .ok fresh) : SameCors resp fresh ↔
      CorsAgrees x.selected.corsConfig proxy.defaultCorsConfig x.response.headers := by
  obtain ⟨_, hentry, cache, hfiled⟩ := h
  obtain ⟨hheaders, hcors, _⟩ := storedEntry_ok hentry
  have hkept : x.filed.headers = x.response.headers ∧ x.filed.corsHeaders = x.entry.corsHeaders := by
    rw [hfiled]
    exact ⟨hheaders, rfl⟩
  refine forall₂_congr (fun f hf => ?_)
  rw [getAll_toResponse hresp hf, hkept.1, hkept.2, getAll_insertCorsHeaders hcors _ f hf,
    Exchange.getAll_fresh hfresh hf]
  exact f.agrees_iff _ _ _

/-- A response out of the cache has the CORS headers of the response that went to the request
that stored it exactly when the two codings of the CORS decision agree. -/
theorem cached_cors_eq_fresh_iff {proxy : Proxy} {start : Nat} {es : List CacheEvent}
    {c : CacheClients} (h : Run (CacheClients.step proxy) anyStep (CacheClients.idle start) es c)
    {reply : Reply} {resp : Response} (hmem : reply ∈ c.replies)
    (hcached : reply.ending = .cached resp) :
    ∃ x ∈ c.stored, reply.source = some x ∧
      x.filed.toResponse proxy.securityHeadersConfig = .ok resp ∧
      ∀ fresh, x.fresh proxy = .ok fresh →
        (∃ reply' ∈ c.replies, reply'.request = x.request ∧ reply'.ending = .upstream fresh) ∧
        (SameCors resp fresh ↔
          CorsAgrees x.selected.corsConfig proxy.defaultCorsConfig x.response.headers) := by
  obtain ⟨x, hx, hsource, hresp⟩ := CacheClients.sourced_run h reply hmem resp hcached
  refine ⟨x, hx, hsource, hresp, fun fresh hfresh => ⟨?_, ?_⟩⟩
  · exact CacheClients.answered_run h x hx fresh hfresh
  · exact sameCors_iff ((CacheClients.sound_run h).exchanges x hx) hresp hfresh

def cachingCorsConfig (target default : Option CorsConfig) : ProxyConfig :=
  { plainConfig [{ cachingTarget "/api".toList ["http://localhost:5001".toList] with
      corsConfig := target }] with
    defaultCorsConfig := default }

def openCors : CorsConfig :=
  ⟨true, some "*".toList, some "Content-Type".toList, some "GET,POST".toList⟩

set_option maxRecDepth 2000 in
theorem cached_cors_eq_fresh_iff_enabled :
    ∃ (proxy : Proxy) (env : Surroundings) (c : CacheClients) (reply : Reply)
      (resp fresh : Response),
    Proxy.ofConfig hashingCrates (cachingCorsConfig (some openCors) none) = .ok proxy ∧
    env.targetOrder = proxy.targetMap.entries ∧
    Run (CacheClients.step proxy) anyStep (CacheClients.idle 0)
      (fetchedThen env (getRequest "/api/users".toList [])
        (plainRound (.response (textResponse [] "users"))) (getRequest "/api/users".toList [])) c ∧
    reply ∈ c.replies ∧ reply.ending = .cached resp ∧
    (∃ reply' ∈ c.replies, reply'.ending = .upstream fresh) ∧ SameCors resp fresh := by
  have htrace : ∃ (proxy : Proxy) (env : Surroundings) (c : CacheClients) (reply : Reply)
      (resp fresh : Response) (x : Exchange),
      Proxy.ofConfig hashingCrates (cachingCorsConfig (some openCors) none) = .ok proxy ∧
      env.targetOrder = proxy.targetMap.entries ∧
      Run (CacheClients.step proxy) anyStep (CacheClients.idle 0)
        (fetchedThen env (getRequest "/api/users".toList [])
          (plainRound (.response (textResponse [] "users"))) (getRequest "/api/users".toList [])) c ∧
      c.replies.head? = some reply ∧ reply.ending = .cached resp ∧ c.stored = [x] ∧
      x.selected.corsConfig = some openCors ∧ x.fresh proxy = .ok fresh :=
    ⟨_, plainSurroundings _ (fun _ => plainRound .timedOut), _, _, _, _, _, rfl, rfl,
      .cons trivial rfl (.cons trivial rfl (.cons trivial rfl (.cons trivial rfl (.nil _)))),
      rfl, rfl, rfl, rfl, rfl⟩
  obtain ⟨proxy, env, c, reply, resp, fresh, y, hproxy, horder, hrun, hhead, hcached, hstored,
    hcors, hfresh⟩ := htrace
  have hmem := List.mem_of_head? hhead
  obtain ⟨x, hx, _, _, hsame⟩ := cached_cors_eq_fresh_iff hrun hmem hcached
  obtain rfl : x = y := by simpa [hstored] using hx
  obtain ⟨⟨reply', hmem', _, hupstream⟩, hiff⟩ := hsame fresh hfresh
  refine ⟨proxy, env, c, reply, resp, fresh, hproxy, horder, hrun, hmem, hcached,
    ⟨reply', hmem', hupstream⟩, hiff.mpr ?_⟩
  unfold CorsAgrees
  rw [hcors, corsFields_cases]
  exact ⟨.inl ⟨rfl, rfl⟩, .inl ⟨rfl, rfl⟩, .inl ⟨rfl, rfl⟩⟩

set_option maxRecDepth 2000 in
/-- A target without a CORS configuration of its own: the fresh response has the default headers,
the one out of the cache has none. -/
theorem cached_reply_lacks_default_cors :
    ∃ (proxy : Proxy) (env : Surroundings) (c : CacheClients) (reply reply' : Reply)
      (resp fresh : Response) (x : Exchange),
    Proxy.ofConfig hashingCrates (cachingCorsConfig none (some openCors)) = .ok proxy ∧
    env.targetOrder = proxy.targetMap.entries ∧
    Run (CacheClients.step proxy) anyStep (CacheClients.idle 0)
      (fetchedThen env (getRequest "/api/users".toList [])
        (plainRound (.response (textResponse [] "users"))) (getRequest "/api/users".toList [])) c ∧
    c.stored = [x] ∧ c.replies = [reply, reply'] ∧
    reply.ending = .cached resp ∧ reply.source = some x ∧ reply'.ending = .upstream fresh ∧
    fresh.headers.getAll allowOriginHeader = [utf8 "*".toList] ∧
    resp.headers.getAll allowOriginHeader = [] :=
  ⟨_, plainSurroundings _ (fun _ => plainRound .timedOut), _, _, _, _, _, _, rfl, rfl,
    .cons trivial rfl (.cons trivial rfl (.cons trivial rfl (.cons trivial rfl (.nil _)))),
    rfl, rfl, rfl, rfl, rfl, rfl, rfl⟩

end Road7
