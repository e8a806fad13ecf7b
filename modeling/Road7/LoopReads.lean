import Road7.BreakerTable
import Road7.Exchange

namespace Road7

namespace Caches

theorem lookup_store_of_ne {key K : Str} (hK : K ≠ key) (toVec : Bytes → Option Bytes)
    (caches : Caches) (config : CacheConfig) (entry : CacheEntry) (now : Nat) :
    (caches.store toVec config key entry now).2.lookup K = caches.lookup K := by
  rcases Nat.lt_or_ge (now + (caches.cacheFor config key).ttl) instantEnd with hnow | hlate
  · rw [store_of_lt hnow, lookup_afterStore, if_neg hK]
  · rw [store_of_le hlate, lookup_afterOpen, if_neg hK]

/-- What a store leaves under a key depends on what has been there. -/
theorem lookup_store_congr {caches caches' : Caches} {K : Str}
    (h : caches'.lookup K = caches.lookup K) (toVec : Bytes → Option Bytes) (config : CacheConfig)
    (key : Str) (entry : CacheEntry) (now : Nat) :
    (caches'.store toVec config key entry now).2.lookup K =
      (caches.store toVec config key entry now).2.lookup K := by
  by_cases hK : K = key
  · subst hK
    unfold store
    rw [h]
    dsimp only
    split
    next => rw [AList.lookup_insert, AList.lookup_insert]
    next => rw [AList.lookup_insert, AList.lookup_insert]
  · rw [lookup_store_of_ne hK, lookup_store_of_ne hK, h]

end Caches

namespace LoopContext

variable {ctx : LoopContext} {s : LoopState} {r r' : Round} {url : Str} {id : Nat}
  {request : Request} {x : Exchange} {K : Str}

/-- Two rounds in which an attempt goes to the same url, at the same times, with the same outcome
and the same end of a failure. -/
structure MeetsAlike (ctx : LoopContext) (r r' : Round) : Prop where
  url : (ctx.attemptUrl r').2 = (ctx.attemptUrl r).2
  outcome : r'.outcome = r.outcome
  reported : ∀ report e, r'.reported report e = r.reported report e
  now : r'.now = r.now
  elapsed : r'.elapsed = r.elapsed

/-- A put under the key of a response is in time in both rounds or in neither. -/
def PutsAlike (ctx : LoopContext) (r r' : Round) : Prop :=
  ∀ config url req vary, ctx.selected.cacheConfig = some config →
    let key := createCacheKey ctx.crates.hashers.defaultHash url req vary
    (r'.now + (r'.caches.cacheFor config key).ttl < instantEnd ↔
      r.now + (r.caches.cacheFor config key).ttl < instantEnd)

theorem answer_congr (h : ctx.MeetsAlike r r') (hputs : ctx.PutsAlike r r') (resp : Response) :
    (ctx.answer s url resp r').1 = (ctx.answer s url resp r).1 := by
  have hstored : (ctx.store s url resp r').1 = (ctx.store s url resp r).1 := by
    rw [store_eq, store_eq, h.now]
    cases hconfig : ctx.selected.cacheConfig with
    | none => rfl
    | some config =>
      dsimp only
      cases storedEntry ctx.crates.md5 r.now resp ctx.selected.corsConfig with
      | error p => rfl
      | ok entry =>
        have hiff := hputs config url s.originalReq entry.varyHeaders hconfig
        rw [h.now] at hiff
        dsimp only at hiff ⊢
        by_cases hnow : r.now + (r.caches.cacheFor config (createCacheKey
            ctx.crates.hashers.defaultHash url s.originalReq entry.varyHeaders)).ttl < instantEnd
        · rw [Caches.store_of_lt hnow, Caches.store_of_lt (hiff.mpr hnow)]
        · have hnow' := fun hlt => hnow (hiff.mp hlt)
          rw [Caches.store_of_le (Nat.not_lt.mp hnow), Caches.store_of_le (Nat.not_lt.mp hnow')]
  unfold answer
  generalize ctx.store s url resp r = stored at hstored ⊢
  generalize ctx.store s url resp r' = stored' at hstored ⊢
  obtain ⟨result, caches⟩ := stored
  obtain ⟨result', caches'⟩ := stored'
  cases (hstored : result' = result)
  cases result <;> rfl

/-- Settling an outcome looks at the caches for the answer to a 304 and for a put only. -/
theorem settle_congr (h : ctx.MeetsAlike r r') (hputs : ctx.PutsAlike r r')
    (hfind : r.isNotModified = true → findCached r'.caches ctx.cacheKey ctx.cacheKey r.now =
      findCached r.caches ctx.cacheKey ctx.cacheKey r.now) :
    (ctx.settle s url r').1 = (ctx.settle s url r).1 ∧
      (ctx.settle s url r').2.1 = (ctx.settle s url r).2.1 := by
  unfold settle
  rw [h.outcome, h.elapsed]
  cases houtcome : r.outcome with
  | response resp =>
    dsimp only
    split
    next => exact ⟨rfl, rfl⟩
    next =>
      split
      next hstatus =>
        have hmodified : r.isNotModified = true := by
          simpa [Round.isNotModified, houtcome] using hstatus
        simp only [replay, h.now, hfind hmodified, and_self]
      next => exact ⟨rfl, answer_congr h hputs _⟩
  | failed err =>
    dsimp only
    split
    next => exact ⟨rfl, rfl⟩
    next => exact ⟨rfl, h.reported _ _⟩
  | timedOut =>
    dsimp only
    split
    next => exact ⟨rfl, h.reported _ _⟩
    next =>
      split
      next => exact ⟨rfl, rfl⟩
      next => exact ⟨rfl, h.reported _ _⟩

/-- What a turn reports and how it goes on. -/
theorem turn_congr (h : ctx.MeetsAlike r r') (hputs : ctx.PutsAlike r r')
    (hfind : r.isNotModified = true → findCached r'.caches ctx.cacheKey ctx.cacheKey r.now =
      findCached r.caches ctx.cacheKey ctx.cacheKey r.now) :
    (ctx.turn s r').report = (ctx.turn s r).report ∧
      (ctx.turn s r').next = (ctx.turn s r).next := by
  unfold turn
  split
  next =>
    have hurl := h.url
    unfold attempt
    generalize ctx.attemptUrl r = pick at hurl ⊢
    generalize ctx.attemptUrl r' = pick' at hurl ⊢
    obtain ⟨balancer, picked⟩ := pick
    obtain ⟨balancer', picked'⟩ := pick'
    cases (hurl : picked' = picked)
    cases picked with
    | error p => exact ⟨rfl, rfl⟩
    | ok targetUrl =>
      dsimp only
      cases rebuildRequest ctx.crates.uriParser s.originalReq targetUrl ctx.selected.targetUrlLen
          ctx.clientIp with
      | error p => exact ⟨rfl, rfl⟩
      | ok built => exact settle_congr h hputs hfind
  next => exact ⟨rfl, h.reported _ _⟩

theorem offered_congr (h : ctx.MeetsAlike r r') :
    ctx.offered id request s r' = ctx.offered id request s r := by
  unfold offered
  rw [h.url, h.outcome, h.now]

theorem caches_of_offered (h : ctx.offered id request s r = some x) :
    ∃ config, ctx.selected.cacheConfig = some config ∧ (ctx.turn s r).caches =
      (r.caches.store ctx.crates.toVec config (x.key ctx.crates.hashers.defaultHash) x.entry
        r.now).2 := by
  obtain ⟨config, ho⟩ := offered_some h
  have hcaches : (ctx.turn s r).caches =
      (ctx.answer { s with originalReq := x.kept } x.targetUrl x.response r).2 :=
    congrArg Prod.snd ho.turn
  have hanswer : ∀ s url resp, (ctx.answer s url resp r).2 = (ctx.store s url resp r).2 := by
    intro s url resp
    unfold answer
    split
    next hstored => rw [hstored]
    next hstored => rw [hstored]
  refine ⟨config, ho.configured, ?_⟩
  rw [hcaches, hanswer, store_eq, ho.configured]
  dsimp only
  rw [ho.entry]
  rfl

/-- What a turn leaves under a key of the caches depends on what has been there. -/
theorem lookup_turn_congr (h : ctx.MeetsAlike r r') (hK : r'.caches.lookup K = r.caches.lookup K) :
    (ctx.turn s r').caches.lookup K = (ctx.turn s r).caches.lookup K := by
  have hsame : ctx.offered 0 s.originalReq s r' = ctx.offered 0 s.originalReq s r :=
    offered_congr h
  cases hx : ctx.offered 0 s.originalReq s r with
  | none =>
    rw [caches_of_not_offered hx, caches_of_not_offered (hsame.trans hx)]
    exact hK
  | some x =>
    obtain ⟨config, hconfig, hcaches⟩ := caches_of_offered hx
    obtain ⟨config', hconfig', hcaches'⟩ := caches_of_offered (hsame.trans hx)
    cases hconfig.symm.trans hconfig'
    rw [hcaches, hcaches', h.now]
    exact Caches.lookup_store_congr hK _ _ _ _ _

end LoopContext

namespace Proxy

variable {proxy : Proxy} {env : Surroundings} {req : Request} {hitCaches varyCaches : Caches}

/-- On its way to the breaker a request looks at the caches under its plain key only. -/
theorem comeToBreaker_congr (env : Surroundings) (b : CircuitBreaker)
    (h : ∀ key, proxy.plainKey env req = some key →
      hitCaches.lookup key = env.hitCaches.lookup key ∧
        varyCaches.lookup key = env.varyCaches.lookup key) :
    proxy.comeToBreaker { env with hitCaches, varyCaches, breaker := b } req =
      proxy.comeToBreaker env req := by
  have hreceive : proxy.receive { env with hitCaches, varyCaches, breaker := b } req =
      proxy.receive env req := rfl
  unfold comeToBreaker
  rw [hreceive]
  cases hreceived : proxy.receive env req with
  | ended ending => rfl
  | blocked => rfl
  | going received =>
    obtain ⟨req', selected⟩ := received
    have happroach : proxy.approach { env with hitCaches, varyCaches, breaker := b } req' selected =
        proxy.approach env req' selected := by
      unfold approach
      cases hurl : firstUrl selected.targetUrls with
      | error p => rfl
      | ok url =>
        have hkey : proxy.plainKey env req = some (proxy.key url req' none) := by
          simp [plainKey, hreceived, firstUrl_eq_ok.mp hurl]
        obtain ⟨hhit, hvary⟩ := h _ hkey
        have hserve : proxy.serveFromCache { env with hitCaches, varyCaches, breaker := b }
              selected url (proxy.key url req' none) req' =
            proxy.serveFromCache env selected url (proxy.key url req' none) req' := by
          simp only [serveFromCache, Caches.findCached_congr hhit, Caches.findCached_congr hvary]
        exact congrArg (fun p : Progress Unit => takeToken env req'.uri.path >>= fun _ =>
          authGate proxy.crates env.systemTime selected.authConfig req' >>= fun _ => p >>= fun _ =>
            .going (proxy.loopContext env req' selected (proxy.key url req' none))) hserve
    simp only [Progress.going_bind]
    rw [happroach]

end Proxy

end Road7
