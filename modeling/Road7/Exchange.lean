import Road7.CacheEntries
import Road7.RetryTurn

namespace Road7

/-- The entry that is put for a response: it is made from the response without its body, and
gets the body back. -/
def storedEntry (md5 : Bytes → Str) (now : Nat) (resp : Response)
    (corsConfig : Option CorsConfig) : Except Panic CacheEntry :=
  (CacheEntry.fromResponse md5 now { resp with body := Body.empty } corsConfig).map
    (fun made => { made.1 with response := resp.body.toBytes.1.getD [] })

/-- A response whose body has been read and put back. -/
def Response.readOut (resp : Response) : Response :=
  { resp with body := Body.ofBytes (resp.body.toBytes.1.getD []) }

/-- An exchange with the upstream whose response has been stored: the request of the client with
its number, that request as it stood when the key was made of it, the response with its
transforms, the entry that was put, and the entry as the cache has filed it. -/
structure Exchange where
  id : Nat
  request : Request
  kept : Request
  targetUrl : Str
  selected : Selected
  response : Response
  entry : CacheEntry
  filed : CacheEntry
  now : Nat

def Exchange.stream (x : Exchange) : Bytes :=
  cacheKeyStream x.targetUrl x.kept x.entry.varyHeaders

def Exchange.key (hash : Bytes → Nat) (x : Exchange) : Str :=
  createCacheKey hash x.targetUrl x.kept x.entry.varyHeaders

namespace LoopContext

/-- The exchange that a turn of the loop puts, before a cache has filed its entry. -/
def offered (ctx : LoopContext) (id : Nat) (client : Request) (s : LoopState) (r : Round) :
    Option Exchange :=
  if s.retries < ctx.maxAttempts then
    match (ctx.attemptUrl r).2, r.outcome, ctx.selected.cacheConfig with
    | .ok targetUrl, .response resp, some _ =>
      match rebuildRequest ctx.crates.uriParser s.originalReq targetUrl ctx.selected.targetUrlLen
          ctx.clientIp with
      | .error _ => none
      | .ok (_, kept) =>
        if resp.status ∈ retryStatuses ∨ resp.status = notModified then none
        else
          let response := resp.applyTransforms ctx.selected.responseTransforms
          match storedEntry ctx.crates.md5 r.now response ctx.selected.corsConfig with
          | .error _ => none
          | .ok entry =>
            some ⟨id, client, kept, targetUrl, ctx.selected, response, entry, entry, r.now⟩
    | _, _, _ => none
  else none

/-- The exchange of a turn of the loop, if there is one to be stored: what is put is filed, unless
it expires past the last `Instant`. -/
def exchange (ctx : LoopContext) (id : Nat) (client : Request) (s : LoopState) (r : Round) :
    Option Exchange :=
  (ctx.offered id client s r).bind fun x => ctx.selected.cacheConfig.bind fun config =>
    let cache := r.caches.cacheFor config (x.key ctx.crates.hashers.defaultHash)
    if r.now + cache.ttl < instantEnd then
      some { x with filed := cache.filed ctx.crates.toVec x.entry r.now }
    else none

/-- What an exchange that is put comes from, and what its turn does. -/
structure Offered (ctx : LoopContext) (id : Nat) (client : Request) (s : LoopState) (r : Round)
    (x : Exchange) (config : CacheConfig) : Prop where
  id : x.id = id
  request : x.request = client
  kept : x.kept = s.originalReq.bodyRead
  selected : x.selected = ctx.selected
  configured : ctx.selected.cacheConfig = some config
  targetUrl : (ctx.attemptUrl r).2 = .ok x.targetUrl
  entry : storedEntry ctx.crates.md5 r.now x.response ctx.selected.corsConfig = .ok x.entry
  now : x.now = r.now
  status : ¬(x.response.status ∈ retryStatuses ∨ x.response.status = notModified)
  turn : ((ctx.turn s r).next, (ctx.turn s r).caches) =
    ctx.answer { s with originalReq := x.kept } x.targetUrl x.response r

/-- What an exchange that is stored comes from. -/
structure Exchanged (ctx : LoopContext) (id : Nat) (client : Request) (s : LoopState) (r : Round)
    (x : Exchange) (config : CacheConfig) : Prop where
  id : x.id = id
  request : x.request = client
  kept : x.kept = s.originalReq.bodyRead
  selected : x.selected = ctx.selected
  configured : ctx.selected.cacheConfig = some config
  targetUrl : (ctx.attemptUrl r).2 = .ok x.targetUrl
  entry : storedEntry ctx.crates.md5 r.now x.response ctx.selected.corsConfig = .ok x.entry
  filed : x.filed = (r.caches.cacheFor config (x.key ctx.crates.hashers.defaultHash)).filed
    ctx.crates.toVec x.entry r.now
  now : x.now = r.now
  inTime : r.now + (r.caches.cacheFor config (x.key ctx.crates.hashers.defaultHash)).ttl <
    instantEnd
  caches : (ctx.turn s r).caches = r.caches.afterStore ctx.crates.toVec config
    (x.key ctx.crates.hashers.defaultHash) x.entry r.now
  next : (ctx.turn s r).next = Progress.endWith .upstream (ctx.finishResponse x.response.readOut)

end LoopContext

/-- The CORS headers that an entry gets. -/
def storedCors (corsConfig : Option CorsConfig) : Except Panic (Option CorsHeaders) :=
  match corsConfig with
  | some config => do
    let allowOrigin ← headerFromStrUnwrap (config.allowOrigin.getD "*".toList)
    let allowHeaders ← headerFromStrUnwrap (config.allowHeaders.getD "*".toList)
    let allowMethods ← headerFromStrUnwrap
      (config.allowMethods.getD "GET,POST,PUT,DELETE,OPTIONS,PATCH".toList)
    .ok (some ⟨allowOrigin, allowHeaders, allowMethods⟩)
  | none => .ok none

def storedEtag (md5 : Bytes → Str) (headers : HeaderMap) (bytes : Bytes) : Except Panic Str :=
  match headers.get etagHeader with
  | some v => headerToStrUnwrap v
  | none => .ok ('"' :: md5 bytes ++ ['"'])

def storedLastModified (headers : HeaderMap) : Except Panic (Option Str) :=
  match headers.get lastModifiedHeader with
  | some v => (headerToStrUnwrap v).map some
  | none => .ok none

/-- The parts of an entry, one after the other. -/
theorem fromResponse_eq (md5 : Bytes → Str) (now : Nat) (response : Response)
    (corsConfig : Option CorsConfig) :
    CacheEntry.fromResponse md5 now response corsConfig = (do
      let corsHeaders ← storedCors corsConfig
      let etag ← storedEtag md5 response.headers (response.body.toBytes.1.getD [])
      let lastModified ← storedLastModified response.headers
      .ok (⟨response.body.toBytes.1.getD [], response.headers, response.status, now, corsHeaders,
        some etag, lastModified,
        ((response.headers.get varyHeader).bind headerToStr).map splitVary⟩,
        { response with body := response.body.toBytes.2 })) := by
  unfold CacheEntry.fromResponse storedCors storedEtag storedLastModified
  dsimp only
  cases corsConfig with
  | none =>
    cases response.headers.get etagHeader with
    | none => cases response.headers.get lastModifiedHeader <;> rfl
    | some etag =>
      cases response.headers.get lastModifiedHeader <;> rfl
  | some config =>
    dsimp only
    cases headerFromStrUnwrap (config.allowOrigin.getD "*".toList) with
    | error p => rfl
    | ok allowOrigin =>
      cases headerFromStrUnwrap (config.allowHeaders.getD "*".toList) with
      | error p => rfl
      | ok allowHeaders =>
        cases headerFromStrUnwrap
          (config.allowMethods.getD "GET,POST,PUT,DELETE,OPTIONS,PATCH".toList) with
        | error p => rfl
        | ok allowMethods =>
          cases response.headers.get etagHeader <;>
            cases response.headers.get lastModifiedHeader <;> rfl

/-- What an entry that is put is made of. -/
theorem storedEntry_ok {md5 : Bytes → Str} {now : Nat} {response : Response}
    {corsConfig : Option CorsConfig} {entry : CacheEntry}
    (h : storedEntry md5 now response corsConfig = .ok entry) :
    entry.headers = response.headers ∧ storedCors corsConfig = .ok entry.corsHeaders ∧
      (∃ etag, storedEtag md5 response.headers [] = .ok etag ∧ entry.etag = some etag) ∧
      storedLastModified response.headers = .ok entry.lastModified ∧
      entry.varyHeaders = ((response.headers.get varyHeader).bind headerToStr).map splitVary := by
  unfold storedEntry at h
  rw [fromResponse_eq] at h
  obtain ⟨made, hmade, rfl⟩ := map_eq_ok.mp h
  obtain ⟨cors, hcors, hmade⟩ := bind_eq_ok.mp hmade
  obtain ⟨etag, hetag, hmade⟩ := bind_eq_ok.mp hmade
  obtain ⟨lastModified, hlast, hmade⟩ := bind_eq_ok.mp hmade
  cases hmade
  exact ⟨rfl, hcors, ⟨etag, hetag, rfl⟩, hlast, rfl⟩

namespace LoopContext

/-- With a cache the reply is stored and goes on to the client with its body read. -/
theorem store_eq (ctx : LoopContext) (s : LoopState) (targetUrl : Str) (resp : Response)
    (r : Round) : ctx.store s targetUrl resp r =
      match ctx.selected.cacheConfig with
      | none => (.ok resp, r.caches)
      | some config =>
        match storedEntry ctx.crates.md5 r.now resp ctx.selected.corsConfig with
        | .error p => (.error p, r.caches)
        | .ok entry =>
          let stored := r.caches.store ctx.crates.toVec config
            (createCacheKey ctx.crates.hashers.defaultHash targetUrl s.originalReq
              entry.varyHeaders) entry r.now
          (stored.1.map (fun _ => resp.readOut), stored.2) := by
  unfold store storedEntry
  cases ctx.selected.cacheConfig with
  | none => rfl
  | some config =>
    simp only [fromResponse_eq]
    cases storedCors ctx.selected.corsConfig with
    | error p => rfl
    | ok cors =>
      cases storedEtag ctx.crates.md5 resp.headers (Body.empty.toBytes.1.getD []) with
      | error p => rfl
      | ok etag =>
        cases storedLastModified resp.headers with
        | error p => rfl
        | ok lastModified => rfl

variable {ctx : LoopContext} {id : Nat} {client : Request} {s : LoopState} {r : Round}
  {x : Exchange}

theorem readOut_of_store {url : Str} {resp resp' : Response} {caches : Caches}
    (h : ctx.store s url resp r = (.ok resp', caches)) :
    resp' = if ctx.selected.cacheConfig.isSome then resp.readOut else resp := by
  rw [store_eq] at h
  cases hconfig : ctx.selected.cacheConfig with
  | none =>
    rw [hconfig] at h
    cases h
    rfl
  | some config =>
    rw [hconfig] at h
    dsimp only at h
    split at h
    next => cases h
    next =>
      obtain ⟨_, _, hentry⟩ := map_eq_ok.mp (Prod.mk.inj h).1
      cases hentry
      rfl

/-- An answer leaves the caches alone where there is nothing to store. -/
theorem answer_caches (ctx : LoopContext) (s : LoopState) (targetUrl : Str) (resp : Response)
    (r : Round) : (ctx.answer s targetUrl resp r).2 = r.caches ∨
      ∃ config entry, ctx.selected.cacheConfig = some config ∧
        storedEntry ctx.crates.md5 r.now resp ctx.selected.corsConfig = .ok entry := by
  unfold answer
  rw [store_eq]
  cases hconfig : ctx.selected.cacheConfig with
  | none => exact .inl rfl
  | some config =>
    cases hentry : storedEntry ctx.crates.md5 r.now resp ctx.selected.corsConfig with
    | error p => exact .inl rfl
    | ok entry => exact .inr ⟨config, entry, rfl, rfl⟩

section Stored

variable {config : CacheConfig} {entry : CacheEntry} {targetUrl key : Str} {resp : Response}

theorem answer_stored (hconfig : ctx.selected.cacheConfig = some config)
    (hentry : storedEntry ctx.crates.md5 r.now resp ctx.selected.corsConfig = .ok entry)
    (hkey : key = createCacheKey ctx.crates.hashers.defaultHash targetUrl s.originalReq
      entry.varyHeaders)
    (hnow : r.now + (r.caches.cacheFor config key).ttl < instantEnd) :
    ctx.answer s targetUrl resp r =
      (Progress.endWith .upstream (ctx.finishResponse resp.readOut),
        r.caches.afterStore ctx.crates.toVec config key entry r.now) := by
  subst hkey
  unfold answer
  rw [store_eq]
  simp only [hconfig, hentry, Caches.store_of_lt hnow]
  rfl

/-- A store that panics leaves a cache that has been made for it. -/
theorem answer_overflow (hconfig : ctx.selected.cacheConfig = some config)
    (hentry : storedEntry ctx.crates.md5 r.now resp ctx.selected.corsConfig = .ok entry)
    (hkey : key = createCacheKey ctx.crates.hashers.defaultHash targetUrl s.originalReq
      entry.varyHeaders)
    (hnow : instantEnd ≤ r.now + (r.caches.cacheFor config key).ttl) :
    ctx.answer s targetUrl resp r =
      (.ended (.panicked .overflow), r.caches.afterOpen config key) := by
  subst hkey
  unfold answer
  rw [store_eq]
  simp only [hconfig, hentry, Caches.store_of_le hnow]
  rfl

end Stored

/-- A turn that sends a request leaves what settling its outcome leaves. -/
theorem turn_settles {targetUrl : Str} {req kept : Request} (hlt : s.retries < ctx.maxAttempts)
    (hurl : (ctx.attemptUrl r).2 = .ok targetUrl)
    (hreq : rebuildRequest ctx.crates.uriParser s.originalReq targetUrl ctx.selected.targetUrlLen
      ctx.clientIp = .ok (req, kept)) :
    ((ctx.turn s r).next, (ctx.turn s r).caches) =
      (ctx.settle { s with originalReq := kept } targetUrl r).2 := by
  have hpick : ctx.attemptUrl r = ((ctx.attemptUrl r).1, .ok targetUrl) := Prod.ext rfl hurl
  rw [turn, if_pos hlt, attempt, hpick]
  simp only [hreq]

/-- An exchange that is put comes from an answer of the upstream. -/
theorem offered_some (h : ctx.offered id client s r = some x) :
    ∃ config, Offered ctx id client s r x config := by
  unfold offered at h
  split at h
  next hlt =>
    split at h
    next targetUrl resp config hurl hresp hconfig =>
      split at h
      next => simp at h
      next req kept hreq =>
        split at h
        next => simp at h
        next hstatus =>
          dsimp only at h
          split at h
          next => simp at h
          next entry hentry =>
            cases h
            have hkept := hstatus
            simp only [not_or] at hstatus
            have hsettle : ctx.settle { s with originalReq := kept } targetUrl r =
                (some .success, ctx.answer { s with originalReq := kept }
                  targetUrl (resp.applyTransforms ctx.selected.responseTransforms) r) := by
              simp only [settle, hresp, Response.applyTransforms_status, hstatus, if_false]
            have hturn := turn_settles hlt hurl hreq
            rw [hsettle] at hturn
            refine ⟨config, rfl, rfl, (rebuildRequest_ok hreq).2.2, rfl, hconfig, hurl, hentry, rfl,
              ?_, hturn⟩
            rw [Response.applyTransforms_status]
            exact hkept
    next => simp at h
  next => simp at h

/-- What is stored has been put. -/
theorem offered_of_exchange (h : ctx.exchange id client s r = some x) :
    ∃ y, ctx.offered id client s r = some y ∧ x = { y with filed := x.filed } := by
  obtain ⟨y, hy, h⟩ := Option.bind_eq_some_iff.mp h
  obtain ⟨config, _, h⟩ := Option.bind_eq_some_iff.mp h
  obtain ⟨_, h⟩ := Option.ite_none_right_eq_some.mp h
  cases h
  exact ⟨y, hy, rfl⟩

/-- An exchange is stored by its turn. -/
theorem exchange_some (h : ctx.exchange id client s r = some x) :
    ∃ config, Exchanged ctx id client s r x config := by
  obtain ⟨y, hy, h⟩ := Option.bind_eq_some_iff.mp h
  obtain ⟨config, hconfig, h⟩ := Option.bind_eq_some_iff.mp h
  obtain ⟨hnow, h⟩ := Option.ite_none_right_eq_some.mp h
  cases h
  obtain ⟨config', ho⟩ := offered_some hy
  cases hconfig.symm.trans ho.configured
  have hturn := ho.turn
  rw [answer_stored (s := { s with originalReq := y.kept }) hconfig ho.entry rfl hnow] at hturn
  obtain ⟨hnext, hcaches⟩ := Prod.mk.inj hturn
  exact ⟨config, ho.id, ho.request, ho.kept, ho.selected, hconfig, ho.targetUrl, ho.entry, rfl,
    ho.now, hnow, hcaches, hnext⟩

/-- A turn that puts nothing leaves the caches alone. -/
theorem caches_of_not_offered (h : ctx.offered id client s r = none) :
    (ctx.turn s r).caches = r.caches := by
  by_cases hlt : s.retries < ctx.maxAttempts
  · cases hurl : (ctx.attemptUrl r).2 with
    | error p =>
      have hpick : ctx.attemptUrl r = ((ctx.attemptUrl r).1, .error p) := Prod.ext rfl hurl
      rw [turn, if_pos hlt, attempt, hpick]
    | ok targetUrl =>
      cases hreq : rebuildRequest ctx.crates.uriParser s.originalReq targetUrl
          ctx.selected.targetUrlLen ctx.clientIp with
      | error p =>
        have hpick : ctx.attemptUrl r = ((ctx.attemptUrl r).1, .ok targetUrl) := Prod.ext rfl hurl
        rw [turn, if_pos hlt, attempt, hpick]
        simp only [hreq]
      | ok built =>
        obtain ⟨req, kept⟩ := built
        obtain ⟨_, hcaches⟩ := Prod.mk.inj (turn_settles hlt hurl hreq)
        rw [hcaches]
        unfold settle
        split
        next resp hresp =>
          split
          next => rfl
          next hretry =>
            dsimp only
            split
            next => rfl
            next hstatus =>
              rcases ctx.answer_caches { s with originalReq := kept } targetUrl
                (resp.applyTransforms ctx.selected.responseTransforms) r with
                hsame | ⟨config, entry, hconfig, hentry⟩
              · exact hsame
              · have hstatus' : ¬(resp.status ∈ retryStatuses ∨ resp.status = notModified) :=
                  not_or.mpr ⟨hretry, hstatus⟩
                simp [offered, hlt, hurl, hresp, hconfig, hreq, hstatus', hentry] at h
        next => split <;> rfl
        next =>
          split
          next => rfl
          next => split <;> rfl
  · rw [turn, if_neg hlt]

/-- A turn without an exchange leaves the caches alone, or its store panics. -/
theorem turn_of_no_exchange (h : ctx.exchange id client s r = none) :
    (ctx.turn s r).caches = r.caches ∨
      ∃ config key, ctx.selected.cacheConfig = some config ∧
        instantEnd ≤ r.now + (r.caches.cacheFor config key).ttl ∧
        (ctx.turn s r).caches = r.caches.afterOpen config key ∧
        (ctx.turn s r).next = .ended (.panicked .overflow) := by
  cases hx : ctx.offered id client s r with
  | none => exact .inl (caches_of_not_offered hx)
  | some x =>
    obtain ⟨config, ho⟩ := offered_some hx
    have hlate : instantEnd ≤
        r.now + (r.caches.cacheFor config (x.key ctx.crates.hashers.defaultHash)).ttl := by
      refine Nat.le_of_not_lt fun hnow => ?_
      simp [exchange, hx, ho.configured, hnow] at h
    have hturn := ho.turn
    rw [answer_overflow (s := { s with originalReq := x.kept }) ho.configured ho.entry rfl hlate]
      at hturn
    obtain ⟨hnext, hcaches⟩ := Prod.mk.inj hturn
    exact .inr ⟨config, _, ho.configured, hlate, hcaches, hnext⟩

theorem entryAt_of_no_exchange (h : ctx.exchange id client s r = none) (K k : Str) :
    (ctx.turn s r).caches.entryAt K k = r.caches.entryAt K k := by
  rcases turn_of_no_exchange h with hsame | ⟨config, key, _, _, hopen, _⟩
  · rw [hsame]
  · rw [hopen, Caches.entryAt_afterOpen]

/-- A reply out of the cache in the loop answers a 304 with the entry under the plain key. -/
theorem cached_of_turn {resp : Response} (h : (ctx.turn s r).next = .ended (.cached resp)) :
    r.isNotModified = true ∧ ∃ entry, r.caches.entryAt ctx.cacheKey ctx.cacheKey = some entry ∧
      r.now < entry.expiresAt ∧ entry.toResponse ctx.securityHeadersConfig = .ok resp := by
  rcases ctx.turn_cases s r with ⟨_, _, _, e, hnext⟩ | ⟨_, _, _, _, p, hnext⟩ |
    ⟨_, url, req, _, _, _, _, hnext⟩
  · obtain ⟨ending, hending, rfl | rfl⟩ := r.reported_ended .exhausted e <;>
      simp [hnext, hending] at h
  · simp [hnext] at h
  rw [hnext] at h
  rcases ctx.settle_cases s.bodyRead url r with ⟨_, _, hn⟩ | ⟨_, _, hmod, hn⟩ |
    ⟨_, _, resp', hn⟩ | ⟨_, _, e, hn⟩ <;> rw [hn] at h
  · rcases ctx.retry_cases s.bodyRead with ⟨_, d, hd⟩ | ⟨_, p, _, hp⟩
    · simp [hd] at h
    · simp [hp] at h
  · refine ⟨hmod, ?_⟩
    unfold replay at h
    split at h
    next entry hentry =>
      obtain ⟨hfound, hlive⟩ := Caches.findCached_hit.mp hentry
      exact ⟨entry, hfound, hlive, Progress.endWith_cached.mp h⟩
    next => simp at h
    next => simp at h
  · rcases ctx.answer_cases s.bodyRead url resp' r with ⟨_, he⟩ | ⟨_, he⟩ <;> simp [he] at h
  · obtain ⟨ending, hending, rfl | rfl⟩ := r.reported_ended .failure e <;> simp [hending] at h

end LoopContext

end Road7
