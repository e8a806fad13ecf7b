import Road7.CacheEntries
import Road7.RequestStages

namespace Road7

def Proxy.key (proxy : Proxy) (url : Str) (req : Request) (varyHeaders : Option (List Str)) : Str :=
  createCacheKey proxy.crates.hashers.defaultHash url req varyHeaders

/-- From the arrival of a request to its admission by the breaker. -/
def Proxy.arrive (proxy : Proxy) (env : Surroundings) (req : Request) :
    Progress (LoopContext × Request) := do
  let (req, selected) ← proxy.receive env req
  let ctx ← proxy.approach env req selected
  checkBreaker env
  .going (ctx, req)

/-- The key that a request is looked up under: of the first url of its target, without `Vary`. -/
def Proxy.plainKey (proxy : Proxy) (env : Surroundings) (req : Request) : Option Str :=
  match proxy.receive env req with
  | .going (req, selected) => selected.targetUrls.head?.map (fun url => proxy.key url req none)
  | _ => none

/-- What holds of a request that its breaker has admitted. -/
structure Proxy.Admits (proxy : Proxy) (env : Surroundings) (req : Request)
    (ctx : LoopContext) : Prop where
  receives : proxy.receive env req = .going (req.bodyRead, ctx.selected)
  authenticates :
    authenticate proxy.crates env.systemTime ctx.selected.authConfig req.bodyRead = .ok ()
  url : ∃ url, ctx.selected.targetUrls.head? = some url ∧
    ctx.cacheKey = proxy.key url req.bodyRead none
  context : ctx = proxy.loopContext env req.bodyRead ctx.selected ctx.cacheKey

namespace Proxy

variable {proxy : Proxy} {env : Surroundings} {req req' : Request} {selected : Selected}
  {ctx : LoopContext} {url : Str} {resp : Response}

/-- `begin` is the arrival, and the conditional headers behind the admission. -/
theorem begin_eq (proxy : Proxy) (env : Surroundings) (req : Request) :
    proxy.begin env req = proxy.arrive env req >>= fun (ctx, req) =>
      addConditionalHeaders ctx.cacheKey env.conditionalCaches env.conditionalNow req >>= fun req =>
        .going (ctx, LoopState.start req) := by
  simp only [begin, enterLoop, arrive, Progress.bind_assoc, Progress.going_bind]

theorem firstUrl_eq_ok {urls : List Str} : firstUrl urls = .ok url ↔ urls.head? = some url := by
  unfold firstUrl
  cases urls.head? <;> simp

theorem authGate_eq {crates : Crates} {systemTime : Nat} {auth : Option AuthenticationConfig} :
    authGate crates systemTime auth req = .going () ↔
      authenticate crates systemTime auth req = .ok () := by
  unfold authGate
  cases authenticate crates systemTime auth req with
  | error err => simp [Progress.refuse]
  | ok u => simp

theorem arrive_going (h : proxy.arrive env req = .going (ctx, req')) :
    proxy.Admits env req ctx ∧ req' = req.bodyRead := by
  obtain ⟨⟨r, selected⟩, hreceive, h⟩ := Progress.bind_eq_going.mp h
  obtain ⟨_, rfl, _⟩ := receive_going hreceive
  obtain ⟨c, happroach, h⟩ := Progress.bind_eq_going.mp h
  obtain ⟨_, _, h⟩ := Progress.bind_eq_going.mp h
  cases h
  obtain ⟨_, _, happroach⟩ := Progress.bind_eq_going.mp happroach
  obtain ⟨_, hgate, happroach⟩ := Progress.bind_eq_going.mp happroach
  obtain ⟨url, hurl, happroach⟩ := Progress.bind_eq_going.mp happroach
  obtain ⟨_, _, happroach⟩ := Progress.bind_eq_going.mp happroach
  cases happroach
  have hurl' := firstUrl_eq_ok.mp (Progress.orPanic_eq_going.mp hurl)
  exact ⟨⟨hreceive, authGate_going hgate, ⟨url, hurl', rfl⟩, rfl⟩, rfl⟩

/-- The hit path answers with the entry under the key with the headers that the entry under the
plain key names. -/
theorem serveFromCache_cached {cacheKey : Str} :
    proxy.serveFromCache env selected url cacheKey req = .ended (.cached resp) ↔
      selected.cacheConfig.isSome ∧ ∃ entry found,
        findCached env.hitCaches cacheKey cacheKey env.hitNow = .hit entry ∧
        findCached env.varyCaches cacheKey (proxy.key url req entry.varyHeaders) env.varyNow =
          .hit found ∧
        found.toResponse proxy.securityHeadersConfig = .ok resp := by
  unfold serveFromCache
  cases selected.cacheConfig with
  | none => simp
  | some config =>
    simp only [Option.isSome_some, true_and]
    cases findCached env.hitCaches cacheKey cacheKey env.hitNow with
    | miss => simp
    | blocked => simp
    | hit entry =>
      simp only [Lookup.hit.injEq, exists_and_left, exists_eq_left', key]
      cases findCached env.varyCaches cacheKey (createCacheKey proxy.crates.hashers.defaultHash url
          req entry.varyHeaders) env.varyNow with
      | miss => simp
      | blocked => simp
      | hit found => simp [Progress.endWith_cached]

theorem takeToken_not_cached {path : Str} : takeToken env path ≠ .ended (.cached resp) := by
  unfold takeToken
  split
  next => split <;> simp [Progress.refuse]
  next => simp

theorem authGate_not_cached {crates : Crates} {systemTime : Nat}
    {auth : Option AuthenticationConfig} :
    authGate crates systemTime auth req ≠ .ended (.cached resp) := by
  unfold authGate
  split <;> simp [Progress.refuse]

theorem orPanic_not_cached {α : Type} {x : Except Panic α} :
    Progress.orPanic x ≠ .ended (.cached resp) := by
  cases x <;> simp [Progress.orPanic]

theorem checkBreaker_not_cached : checkBreaker env ≠ .ended (.cached resp) := by
  unfold checkBreaker
  split <;> simp [Progress.refuse]

theorem receive_not_cached : proxy.receive env req ≠ .ended (.cached resp) := by
  intro h
  rcases Progress.bind_eq_ended.mp h with h | ⟨r, _, h⟩
  · unfold validate at h
    split at h
    next =>
      dsimp only at h
      split at h <;> simp at h
    next => simp [Progress.refuse] at h
  rcases Progress.bind_eq_ended.mp h with h | ⟨_, _, h⟩
  · unfold ownPaths textReply at h
    split at h
    next => simp at h
    next =>
      split at h
      next => simp at h
      next =>
        split at h
        next => simp at h
        next => split at h <;> simp at h
  rcases Progress.bind_eq_ended.mp h with h | ⟨_, _, h⟩
  · unfold route at h
    split at h <;> simp [Progress.refuse] at h
  · simp at h

/-- Of the steps in front of the breaker only the hit path answers from the cache. -/
theorem approach_cached : proxy.approach env req selected = .ended (.cached resp) ↔
    takeToken env req.uri.path = .going () ∧
      authenticate proxy.crates env.systemTime selected.authConfig req = .ok () ∧
      ∃ url, selected.targetUrls.head? = some url ∧
        proxy.serveFromCache env selected url (proxy.key url req none) req =
          .ended (.cached resp) := by
  constructor
  · intro h
    rcases Progress.bind_eq_ended.mp h with h | ⟨_, htoken, h⟩
    · exact absurd h takeToken_not_cached
    rcases Progress.bind_eq_ended.mp h with h | ⟨_, hgate, h⟩
    · exact absurd h authGate_not_cached
    rcases Progress.bind_eq_ended.mp h with h | ⟨url, hurl, h⟩
    · exact absurd h orPanic_not_cached
    rcases Progress.bind_eq_ended.mp h with h | ⟨_, _, h⟩
    · exact ⟨htoken, authGate_going hgate, url,
        firstUrl_eq_ok.mp (Progress.orPanic_eq_going.mp hurl), h⟩
    · simp at h
  · rintro ⟨htoken, hgate, url, hurl, hserve⟩
    unfold approach
    rw [htoken, authGate_eq.mpr hgate, firstUrl_eq_ok.mpr hurl]
    exact congrArg (fun p : Progress Unit => p >>= fun _ => Progress.going _) hserve

theorem arrive_cached : proxy.arrive env req = .ended (.cached resp) ↔
    ∃ selected, proxy.receive env req = .going (req.bodyRead, selected) ∧
      proxy.approach env req.bodyRead selected = .ended (.cached resp) := by
  constructor
  · intro h
    rcases Progress.bind_eq_ended.mp h with h | ⟨⟨r, selected⟩, hreceive, h⟩
    · exact absurd h receive_not_cached
    obtain ⟨_, rfl, _⟩ := receive_going hreceive
    rcases Progress.bind_eq_ended.mp h with h | ⟨_, _, h⟩
    · exact ⟨selected, hreceive, h⟩
    rcases Progress.bind_eq_ended.mp h with h | ⟨_, _, h⟩
    · exact absurd h checkBreaker_not_cached
    · simp at h
  · rintro ⟨selected, hreceive, happroach⟩
    have harrive : proxy.arrive env req = proxy.approach env req.bodyRead selected >>= fun ctx =>
        checkBreaker env >>= fun _ => .going (ctx, req.bodyRead) := by
      simp [arrive, hreceive]
    rw [harrive, happroach]
    rfl

end Proxy

end Road7
