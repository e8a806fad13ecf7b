import Road7.ReplayedReplies

namespace Road7

def ownStatuses : List Nat := [200, 400, 401, 403, 404, 429, 500, 503, 504]

/-- The statuses of the upstream that no client sees. -/
def withheldStatuses : List Nat := notModified :: retryStatuses

/-- What the server sends for the end of a request; a panic comes to it as a failed task. -/
def Ending.response : Ending → Response
  | .upstream resp | .cached resp | .ownReply resp => resp
  | .refused e => e.toResponse
  | .panicked _ => ⟨500, [], Body.ofBytes (utf8 "Internal Server Error".toList)⟩

/-- The response has each configured security header once, with its value. -/
def Secured (security : Option SecurityHeadersConfig) (resp : Response) : Prop :=
  ∀ config, security = some config → ∀ e ∈ config.inserts, ∀ v, e.2 = some v →
    resp.headers.getAll e.1 = [utf8 v]

def Ending.isMade : Ending → Bool
  | .upstream _ | .cached _ => false
  | _ => true

/-- A response that the proxy makes itself. -/
structure Ending.Own (e : Ending) : Prop where
  made : e.isMade = true
  status : e.response.status ∈ ownStatuses
  headers : ∀ name ∈ securityHeaderNames, e.response.headers.getAll name = []

/-- A response of the upstream that the proxy passes on. -/
structure PassedOn (security : Option SecurityHeadersConfig) (resp : Response) : Prop where
  status : resp.status ∉ withheldStatuses
  secured : Secured security resp

def Ending.Presented (security : Option SecurityHeadersConfig) : Ending → Prop
  | .upstream resp | .cached resp => PassedOn security resp
  | e => e.Own

namespace Progress

variable {α β : Type} {P Q : Ending → Prop}

/-- The part ends, if it does, in one of some ends. -/
def EndsIn (P : Ending → Prop) (x : Progress α) : Prop := ∀ e, x = ended e → P e

theorem EndsIn.bind {x : Progress α} {f : α → Progress β} (h : x.EndsIn P)
    (hrest : ∀ a, x = going a → (f a).EndsIn P) : (x >>= f).EndsIn P := by
  intro e hended
  rcases bind_eq_ended.mp hended with hx | ⟨a, ha, hf⟩
  · exact h e hx
  · exact hrest a ha e hf

theorem EndsIn.mono {x : Progress α} (h : x.EndsIn P) (hle : ∀ e, P e → Q e) : x.EndsIn Q :=
  fun e hended => hle e (h e hended)

theorem endsIn_going (a : α) : (going a).EndsIn P := by
  intro e h
  cases h

theorem endsIn_ended {e : Ending} (h : P e) : (ended e : Progress α).EndsIn P := by
  intro e' heq
  cases heq
  exact h

end Progress

section Own

variable {proxy : Proxy} {env : Surroundings} {req : Request}

theorem own_refused (e : ProxyError) : (Ending.refused e).Own := by
  refine ⟨rfl, ?_, fun _ _ => rfl⟩
  cases e <;> simp [Ending.response, ProxyError.toResponse, ProxyError.status, ownStatuses]

theorem own_panicked (p : Panic) : (Ending.panicked p).Own :=
  ⟨rfl, by simp [Ending.response, ownStatuses], fun _ _ => rfl⟩

theorem contentType_not_security : ∀ name ∈ securityHeaderNames, contentTypeHeader ≠ name := by
  decide

/-- The proxy's own replies name at most the type of their content. -/
theorem own_reply {status : Nat} (hstatus : status ∈ ownStatuses) {headers : HeaderMap}
    (hheaders : ∀ e ∈ headers, e.1 = contentTypeHeader) (body : Body) :
    (Ending.ownReply ⟨status, headers, body⟩).Own := by
  refine ⟨rfl, hstatus, fun name hname => ?_⟩
  have hne := contentType_not_security name hname
  have hnone : headers.filter (fun e => e.1 = name) = [] := by
    refine List.filter_eq_nil_iff.mpr (fun e he => ?_)
    rw [hheaders e he]
    simpa using hne
  simp [Ending.response, HeaderMap.getAll, hnone]

theorem own_orPanic {α : Type} (x : Except Panic α) : (Progress.orPanic x).EndsIn Ending.Own := by
  cases x with
  | ok a => exact Progress.endsIn_going a
  | error p => exact Progress.endsIn_ended (own_panicked p)

theorem own_validate : (proxy.validate req).EndsIn Ending.Own := by
  unfold Proxy.validate
  split
  next =>
    dsimp only
    split
    next => exact Progress.endsIn_going _
    next => exact Progress.endsIn_ended (own_panicked _)
  next => exact Progress.endsIn_ended (own_refused _)

theorem own_ownPaths (path : Str) : (ownPaths env path).EndsIn Ending.Own := by
  have hok : 200 ∈ ownStatuses := by decide
  have hmissing : 404 ∈ ownStatuses := by decide
  unfold ownPaths textReply
  split
  next => exact Progress.endsIn_ended (own_reply hok (List.forall_mem_nil _) _)
  next =>
    split
    next => exact Progress.endsIn_ended (own_reply hok (List.forall_mem_singleton.mpr rfl) _)
    next =>
      split
      next => exact Progress.endsIn_ended (own_reply hok (List.forall_mem_singleton.mpr rfl) _)
      next =>
        split
        next => exact Progress.endsIn_going _
        next => exact Progress.endsIn_ended (own_reply hmissing (List.forall_mem_nil _) _)
        next => exact Progress.endsIn_ended (own_panicked _)
        next => exact Progress.endsIn_ended (own_reply hok (List.forall_mem_nil _) _)

theorem own_route : (proxy.route env req).EndsIn Ending.Own := by
  unfold Proxy.route
  split
  next => exact Progress.endsIn_going _
  next => exact Progress.endsIn_ended (own_refused _)
  next => exact Progress.endsIn_ended (own_panicked _)

theorem own_receive : (proxy.receive env req).EndsIn Ending.Own :=
  own_validate.bind fun _ _ => (own_ownPaths _).bind fun _ _ =>
    own_route.bind fun _ _ => Progress.endsIn_going _

theorem own_takeToken (path : Str) : (takeToken env path).EndsIn Ending.Own := by
  unfold takeToken
  split
  next =>
    split
    next => exact Progress.endsIn_going _
    next => exact Progress.endsIn_ended (own_refused _)
  next => exact Progress.endsIn_going _

theorem own_authGate {crates : Crates} {systemTime : Nat} {auth : Option AuthenticationConfig} :
    (authGate crates systemTime auth req).EndsIn Ending.Own := by
  unfold authGate
  split
  next => exact Progress.endsIn_going _
  next => exact Progress.endsIn_ended (own_refused _)

theorem own_checkBreaker : (Proxy.checkBreaker env).EndsIn Ending.Own := by
  unfold Proxy.checkBreaker
  split
  next => exact Progress.endsIn_going _
  next => exact Progress.endsIn_ended (own_refused _)

theorem own_addConditionalHeaders (cacheKey : Str) (caches : Caches) (now : Nat) :
    (addConditionalHeaders cacheKey caches now req).EndsIn Ending.Own := by
  unfold addConditionalHeaders
  split
  next =>
    exact (own_orPanic _).bind fun _ _ => (own_orPanic _).bind fun _ _ => Progress.endsIn_going _
  next => exact Progress.endsIn_going _
  next =>
    intro e h
    cases h

end Own

theorem Ending.Own.presented {e : Ending} (h : e.Own) (security : Option SecurityHeadersConfig) :
    e.Presented security := by
  have hmade := h.made
  cases e with
  | upstream resp => cases hmade
  | cached resp => cases hmade
  | ownReply resp => exact h
  | refused e => exact h
  | panicked p => exact h

/-- An end of its own, or out of the cache. -/
def Ending.OwnOrCached (e : Ending) : Prop := e.Own ∨ ∃ resp, e = .cached resp

theorem own_or_cached_endWith {α : Type} (result : Except Panic Response) :
    (Progress.endWith .cached result : Progress α).EndsIn Ending.OwnOrCached := by
  cases result with
  | ok resp => exact Progress.endsIn_ended (.inr ⟨resp, rfl⟩)
  | error p => exact Progress.endsIn_ended (.inl (own_panicked p))

theorem own_or_cached_serveFromCache {proxy : Proxy} {env : Surroundings} {selected : Selected}
    {url cacheKey : Str} {req : Request} :
    (proxy.serveFromCache env selected url cacheKey req).EndsIn Ending.OwnOrCached := by
  have hblocked : (Progress.blocked : Progress Unit).EndsIn Ending.OwnOrCached := by
    intro e h
    cases h
  unfold Proxy.serveFromCache
  split
  next => exact Progress.endsIn_going _
  next =>
    split
    next => exact Progress.endsIn_going _
    next => exact hblocked
    next =>
      dsimp only
      split
      next => exact Progress.endsIn_going _
      next => exact hblocked
      next => exact own_or_cached_endWith _

theorem own_or_cached_arrive {proxy : Proxy} {env : Surroundings} {req : Request} :
    (proxy.arrive env req).EndsIn Ending.OwnOrCached := by
  have hown : ∀ e : Ending, e.Own → e.OwnOrCached := fun _ h => .inl h
  refine (own_receive.mono hown).bind fun r _ => Progress.EndsIn.bind ?_ fun ctx _ => ?_
  · refine ((own_takeToken _).mono hown).bind fun _ _ => (own_authGate.mono hown).bind fun _ _ => ?_
    refine ((own_orPanic _).mono hown).bind fun url _ => ?_
    exact own_or_cached_serveFromCache.bind fun _ _ => Progress.endsIn_going _
  · exact (own_checkBreaker.mono hown).bind fun _ _ => Progress.endsIn_going _

theorem getAll_insertAll_of_mem {inserts : List (HeaderName × Option Str)}
    {headers headers' : HeaderMap} (h : insertAll inserts headers = .ok headers')
    (hnames : (inserts.map Prod.fst).Nodup) {e : HeaderName × Option Str} (he : e ∈ inserts) :
    headers'.getAll e.1 = e.2.elim (headers.getAll e.1) (fun v => [utf8 v]) := by
  induction inserts generalizing headers with
  | nil => cases he
  | cons a inserts ih =>
    obtain ⟨headers1, h1, hrest⟩ := bind_eq_ok.mp h
    rw [List.map_cons, List.nodup_cons] at hnames
    rcases List.mem_cons.mp he with rfl | he
    · rw [getAll_insertAll hrest hnames.1, getAll_insertHeader_self h1]
    · have hne : e.1 ≠ a.1 := fun heq => hnames.1 (heq ▸ List.mem_map_of_mem he)
      rw [ih hrest hnames.2 he, getAll_insertHeader h1 hne]

theorem secured_of_applied {security : Option SecurityHeadersConfig} {headers headers' : HeaderMap}
    (h : applySecurityHeaders headers security = .ok headers') (status : Nat) (body : Body) :
    Secured security ⟨status, headers', body⟩ := by
  rintro config rfl e he v hv
  have hnames : (config.inserts.map Prod.fst).Nodup := by
    have hall : securityHeaderNames.Nodup := by decide
    exact hall
  rw [applySecurityHeaders_some] at h
  rw [getAll_insertAll_of_mem h hnames he, hv]
  rfl

namespace LoopContext

variable {ctx : LoopContext} {s : LoopState} {url : Str} {resp resp' : Response} {r : Round}

theorem finishResponse_ok (h : ctx.finishResponse resp = .ok resp') :
    resp'.status = resp.status ∧ Secured ctx.securityHeadersConfig resp' := by
  obtain ⟨h1, _, h⟩ := bind_eq_ok.mp h
  obtain ⟨h2, hs, h⟩ := bind_eq_ok.mp h
  cases h
  exact ⟨rfl, secured_of_applied hs _ _⟩

theorem store_status {caches : Caches} (h : ctx.store s url resp r = (.ok resp', caches)) :
    resp'.status = resp.status := by
  rw [readOut_of_store h]
  split <;> rfl

theorem answer_presented (hstatus : resp.status ∉ withheldStatuses) :
    (ctx.answer s url resp r).1.EndsIn (Ending.Presented ctx.securityHeadersConfig) := by
  unfold answer
  split
  next resp' caches hstore =>
    dsimp only
    cases hfinish : ctx.finishResponse resp' with
    | error p => exact Progress.endsIn_ended (own_panicked p)
    | ok resp'' =>
      obtain ⟨hsame, hsecured⟩ := finishResponse_ok hfinish
      refine Progress.endsIn_ended ⟨?_, hsecured⟩
      rw [hsame, store_status hstore]
      exact hstatus
  next p _ _ => exact Progress.endsIn_ended (own_panicked p)

theorem own_reported (report : Report) (err : ProxyError) :
    (r.reported report err).EndsIn Ending.Own := by
  obtain ⟨e, hended, rfl | rfl⟩ := r.reported_ended report err <;> rw [hended]
  · exact Progress.endsIn_ended (own_refused err)
  · exact Progress.endsIn_ended (own_panicked .overflow)

/-- A turn ends in an answer that can be shown, or out of the cache. -/
theorem turn_presented : (ctx.turn s r).next.EndsIn
    (fun e => e.Presented ctx.securityHeadersConfig ∨ ∃ resp, e = .cached resp) := by
  have hown : ∀ e : Ending, e.Own →
      e.Presented ctx.securityHeadersConfig ∨ ∃ resp, e = .cached resp :=
    fun _ he => .inl (he.presented _)
  rcases ctx.turn_cases s r with ⟨_, _, _, e, hnext⟩ | ⟨_, _, _, _, p, hnext⟩ |
    ⟨_, url, req, _, _, _, _, hnext⟩
  · rw [hnext]
    exact (own_reported .exhausted e).mono hown
  · rw [hnext]
    exact Progress.endsIn_ended (.inl (own_panicked p))
  have hretry : (ctx.retry s.bodyRead).EndsIn
      (fun e => e.Presented ctx.securityHeadersConfig ∨ ∃ resp, e = .cached resp) := by
    rcases ctx.retry_cases s.bodyRead with ⟨_, d, hd⟩ | ⟨_, p, _, hp⟩
    · rw [hd]
      exact Progress.endsIn_going _
    · rw [hp]
      exact Progress.endsIn_ended (.inl (own_panicked p))
  rw [hnext]
  unfold settle
  split
  next resp hresp =>
    split
    next => exact hretry
    next hstatus =>
      dsimp only
      split
      next =>
        unfold replay
        split
        next entry _ =>
          cases entry.toResponse ctx.securityHeadersConfig with
          | ok resp => exact Progress.endsIn_ended (.inr ⟨resp, rfl⟩)
          | error p => exact Progress.endsIn_ended (.inl (own_panicked p))
        next => exact Progress.endsIn_going _
        next =>
          intro e h
          cases h
      next hmodified =>
        refine (answer_presented ?_).mono fun e he => .inl he
        rw [withheldStatuses, List.mem_cons, Response.applyTransforms_status, not_or]
        exact ⟨hmodified, hstatus⟩
  next =>
    split
    next => exact hretry
    next => exact (own_reported _ _).mono hown
  next =>
    split
    next => exact (own_reported _ _).mono hown
    next =>
      split
      next => exact hretry
      next => exact (own_reported _ _).mono hown

theorem exchange_status {id : Nat} {client : Request} {x : Exchange}
    (h : ctx.exchange id client s r = some x) : x.response.status ∉ withheldStatuses := by
  obtain ⟨y, hy, hxy⟩ := offered_of_exchange h
  obtain ⟨config, ho⟩ := offered_some hy
  rw [hxy, withheldStatuses, List.mem_cons, or_comm]
  exact ho.status

end LoopContext

theorem passedOn_of_source {proxy : Proxy} {x : Exchange} {resp : Response} (h : x.Sound proxy)
    (hstatus : x.response.status ∉ withheldStatuses)
    (hresp : x.filed.toResponse proxy.securityHeadersConfig = .ok resp) :
    PassedOn proxy.securityHeadersConfig resp := by
  obtain ⟨_, hentry, cache, hfiled⟩ := h
  obtain ⟨hsame, _, headers, hs, _⟩ := CacheEntry.toResponse_parts hresp
  have hkept : x.entry.status = x.response.status := storedEntry_status hentry
  refine ⟨?_, secured_of_applied hs resp.status resp.body⟩
  rw [hsame, hfiled, show (cache.filed proxy.crates.toVec x.entry x.now).status = x.entry.status
    from rfl, hkept]
  exact hstatus

namespace CacheClients

variable {proxy : Proxy} {c d : CacheClients} {e : CacheEvent}

/-- Nothing is stored of a response that is tried again, or of a 304. -/
def StoresNoWithheld (c : CacheClients) : Prop :=
  ∀ x ∈ c.stored, x.response.status ∉ withheldStatuses

theorem StoresNoWithheld.step (h : c.StoresNoWithheld) (hstep : c.step proxy e = some d) :
    d.StoresNoWithheld := by
  rcases exchange_of_step hstep with hsame | ⟨_, _, _, _, _, _, y, _, _, _, hy, hstored, _⟩
  · unfold StoresNoWithheld
    rw [hsame]
    exact h
  · unfold StoresNoWithheld
    rw [hstored]
    exact List.forall_mem_cons.mpr ⟨LoopContext.exchange_status hy, h⟩

/-- What a step answers can be shown. -/
theorem presented_of_answer {reply : Reply} (hc : c.Sound proxy) (hstored : c.StoresNoWithheld)
    (hreply : Answers proxy c e reply) : reply.ending.Presented proxy.securityHeadersConfig := by
  have hcached : ∀ resp, reply.ending = .cached resp →
      reply.ending.Presented proxy.securityHeadersConfig := by
    intro resp hcached
    obtain ⟨x, hx, _, hresp⟩ := source_of_answer hc hreply hcached
    rw [hcached]
    exact passedOn_of_source (hc.exchanges x hx) (hstored x hx) hresp
  cases hreply with
  | @arrival id env req swept ending hended =>
    rcases Progress.bind_eq_ended.mp hended with hended | ⟨_, _, hended⟩
    · rcases own_or_cached_arrive ending hended with hown | ⟨resp, rfl⟩
      · exact hown.presented _
      · exact hcached resp rfl
    · simp at hended
  | preparation hid hended =>
    rcases Progress.bind_eq_ended.mp hended with hended | ⟨_, _, hended⟩
    · exact (own_addConditionalHeaders _ _ _ _ hended).presented _
    · simp at hended
  | @turn id r env request ctx s ending hid hended =>
    have hsecurity : ctx.securityHeadersConfig = proxy.securityHeadersConfig := by
      rw [(hc.clients hid).1.context]
      rfl
    rcases Progress.bind_eq_ended.mp hended with hended | ⟨_, _, hended⟩
    · rcases LoopContext.turn_presented ending hended with hshown | ⟨resp, rfl⟩
      · rw [← hsecurity]
        exact hshown
      · exact hcached resp rfl
    · simp at hended

theorem presented_run {ok : CacheClients → CacheEvent → Prop} {es : List CacheEvent} {now : Nat}
    (h : Run (step proxy) ok (idle now) es c) :
    ∀ reply ∈ c.replies, reply.ending.Presented proxy.securityHeadersConfig := by
  have hall : c.Sound proxy ∧ c.StoresNoWithheld ∧
      ∀ reply ∈ c.replies, reply.ending.Presented proxy.securityHeadersConfig := by
    refine h.invariant (P := fun c => c.Sound proxy ∧ c.StoresNoWithheld ∧
      ∀ reply ∈ c.replies, reply.ending.Presented proxy.securityHeadersConfig) ?_
      ⟨idle_sound now, List.forall_mem_nil _, List.forall_mem_nil _⟩
    rintro c e d ⟨hsound, hstored, hreplies⟩ _ hstep
    refine ⟨sound_step hsound hstep, hstored.step hstep, ?_⟩
    rcases replies_of_step hstep with hsame | ⟨reply, hreply, hd⟩
    · rw [hsame]
      exact hreplies
    · rw [hd]
      exact List.forall_mem_cons.mpr ⟨presented_of_answer hsound hstored hreply, hreplies⟩
  exact hall.2.2

end CacheClients

/-- In every run each response that is passed on, fresh or out of the cache, has each configured
security header once and no status that is tried again; what the proxy makes itself has no
security header at all. No client sees a 304, a 408 or a 502. -/
theorem responses_presented {proxy : Proxy} {start : Nat} {es : List CacheEvent} {c : CacheClients}
    (h : Run (CacheClients.step proxy) anyStep (CacheClients.idle start) es c)
    {reply : Reply} (hmem : reply ∈ c.replies) :
    (reply.ending.isMade = false → PassedOn proxy.securityHeadersConfig reply.ending.response) ∧
    (reply.ending.isMade = true → reply.ending.Own) ∧
    ∀ status, status ∈ [304, 408, 502] → reply.ending.response.status ≠ status := by
  have hpresented := CacheClients.presented_run h reply hmem
  have hwithheld : ∀ status ∈ [304, 408, 502],
      status ∈ withheldStatuses ∧ status ∉ ownStatuses := by decide
  have hpassed : ∀ resp, PassedOn proxy.securityHeadersConfig resp →
      ∀ status, status ∈ [304, 408, 502] → resp.status ≠ status := by
    rintro resp hpassed status hstatus rfl
    exact hpassed.status (hwithheld _ hstatus).1
  have hown : ∀ e : Ending, e.Own →
      ∀ status, status ∈ [304, 408, 502] → e.response.status ≠ status := by
    rintro e hown status hstatus rfl
    exact (hwithheld _ hstatus).2 hown.status
  cases hending : reply.ending with
  | upstream resp =>
    rw [hending] at hpresented
    exact ⟨fun _ => hpresented, nofun, hpassed resp hpresented⟩
  | cached resp =>
    rw [hending] at hpresented
    exact ⟨fun _ => hpresented, nofun, hpassed resp hpresented⟩
  | ownReply resp =>
    rw [hending] at hpresented
    exact ⟨nofun, fun _ => hpresented, hown _ hpresented⟩
  | refused e =>
    rw [hending] at hpresented
    exact ⟨nofun, fun _ => hpresented, hown _ hpresented⟩
  | panicked p =>
    rw [hending] at hpresented
    exact ⟨nofun, fun _ => hpresented, hown _ hpresented⟩

def securityDefaults : SecurityHeadersConfig :=
  ⟨none, none, none, none, none, none, none, none⟩

set_option maxRecDepth 2000 in
theorem responses_presented_from_cache :
    ∃ (proxy : Proxy) (env : Surroundings) (c : CacheClients) (reply : Reply) (resp : Response),
    Proxy.ofConfig hashingCrates { cachingConfig ["http://localhost:5001".toList] with
      securityHeadersConfig := some securityDefaults } = .ok proxy ∧
    env.targetOrder = proxy.targetMap.entries ∧
    Run (CacheClients.step proxy) anyStep (CacheClients.idle 0)
      (fetchedThen env (getRequest "/api/users".toList [])
        (plainRound (.response (textResponse [] "users"))) (getRequest "/api/users".toList [])) c ∧
    reply ∈ c.replies ∧ reply.ending = .cached resp ∧
    resp.headers.getAll "x-xss-protection".toList = [utf8 defaultXXssProtection] := by
  have htrace : ∃ (proxy : Proxy) (env : Surroundings) (c : CacheClients) (reply : Reply)
      (resp : Response),
      Proxy.ofConfig hashingCrates { cachingConfig ["http://localhost:5001".toList] with
        securityHeadersConfig := some securityDefaults } = .ok proxy ∧
      env.targetOrder = proxy.targetMap.entries ∧
      Run (CacheClients.step proxy) anyStep (CacheClients.idle 0)
        (fetchedThen env (getRequest "/api/users".toList [])
          (plainRound (.response (textResponse [] "users")))
          (getRequest "/api/users".toList [])) c ∧
      c.replies.head? = some reply ∧ reply.ending = .cached resp ∧
      proxy.securityHeadersConfig = some securityDefaults :=
    ⟨_, plainSurroundings _ (fun _ => plainRound .timedOut), _, _, _, rfl, rfl,
      .cons trivial rfl (.cons trivial rfl (.cons trivial rfl (.cons trivial rfl (.nil _)))),
      rfl, rfl, rfl⟩
  obtain ⟨proxy, env, c, reply, resp, hproxy, horder, hrun, hreply, hcached, hsecurity⟩ := htrace
  have hmem := List.mem_of_head? hreply
  obtain ⟨hpassed, _, _⟩ := responses_presented hrun hmem
  rw [hcached] at hpassed
  have hsecured := (hpassed rfl).secured securityDefaults hsecurity
  refine ⟨proxy, env, c, reply, resp, hproxy, horder, hrun, hmem, hcached, ?_⟩
  exact hsecured ("x-xss-protection".toList, some defaultXXssProtection)
    (by simp [SecurityHeadersConfig.inserts, securityDefaults]) _ rfl

end Road7
