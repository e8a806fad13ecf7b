import Road7.CacheKey
import Road7.CacheReplies
import Road7.PlainProxy

namespace Road7

namespace CacheClients

/-- The inputs that are hashed for a request and for the exchanges stored before it. -/
def hashed (c : CacheClients) (url : Str) (req : Request) : Set Bytes :=
  { b | (∃ x ∈ c.stored, b = x.stream) ∨ b = cacheKeyStream url req none ∨
    ∃ x ∈ c.stored, b = cacheKeyStream url req x.filed.varyHeaders }

/-- The header maps agree on a name. -/
def AgreeOn (req req' : Request) (varyHeaders : Option (List Str)) : Prop :=
  ∀ name ∈ varyHeaders.getD [], req.headers.get (toLowerAscii name) =
    req'.headers.get (toLowerAscii name)

end CacheClients

/-- A request that the hit path answers gets the entry of an earlier request with its URI that
agrees with it on the headers that the entry varies by. -/
theorem cache_hit_same_request {proxy : Proxy} {start : Nat} {es : List CacheEvent}
    {c : CacheClients} (h : Run (CacheClients.step proxy) anyStep (CacheClients.idle start) es c)
    {env : Surroundings} {req : Request} {swept : List (Str × Str)} {resp : Response}
    {selected : Selected} {url : Str}
    (hreceive : proxy.receive env req = .going (req.bodyRead, selected))
    (hurl : selected.targetUrls.head? = some url)
    (hinj : Set.InjOn proxy.crates.hashers.defaultHash (c.hashed url req))
    (hreply : proxy.arrive (c.seenBy env swept) req = .ended (.cached resp)) :
    (∀ K cache, c.caches.lookup K = some cache → ∀ k ∈ cache.entries, k = K) ∧
    ∃ x ∈ c.stored, c.caches.entryAt (proxy.key url req none) (proxy.key url req none) =
        some x.filed ∧
      x.filed.toResponse proxy.securityHeadersConfig = .ok resp ∧
      x.request.uri.toStr = req.uri.toStr ∧
      CacheClients.AgreeOn x.request req x.filed.varyHeaders := by
  have hsound := CacheClients.sound_run h
  constructor
  · intro K cache hcache k hk
    obtain ⟨entry, hentry⟩ := Option.isSome_iff_exists.mp (AList.lookup_isSome.mpr hk)
    exact (hsound.entries (show c.caches.entryAt K k = some entry by
      simp [Caches.entryAt, hcache, hentry])).1
  · obtain ⟨selected', url', x, hreceive', hurl', hhit, hx, hvary, _, hresp⟩ :=
      CacheClients.hit_source hsound hreply
    cases hreceive.symm.trans hreceive'
    cases hurl.symm.trans hurl'
    have hentry := (Caches.findCached_hit.mp hhit).1
    obtain ⟨hmem, hkey⟩ := CacheClients.mem_of_lastStored hx
    obtain ⟨hkept, _, cache, hfiled⟩ := hsound.exchanges x hmem
    have hvaryHeaders : x.filed.varyHeaders = x.entry.varyHeaders := by rw [hfiled]; rfl
    have hplain : cacheKeyStream url req none ∈ c.hashed url req := .inr (.inl rfl)
    -- The second key is the first one, so the request carries nothing that the entry varies by.
    have hnone : req.CarriesNone x.filed.varyHeaders := by
      have hstream := (createCacheKey_inj hinj (.inr (.inr ⟨x, hmem, rfl⟩)) hplain).mp hvary
      exact (cacheKeyStream_eq_none_iff.mp hstream).2.2
    -- The entry stands under that key, so the request it was stored for carried nothing either.
    have hstored : x.kept.uri.toStr = req.uri.toStr ∧ x.kept.CarriesNone x.entry.varyHeaders := by
      have hstream := (createCacheKey_inj hinj (.inl ⟨x, hmem, rfl⟩) hplain).mp hkey
      exact (cacheKeyStream_eq_none_iff.mp hstream).2
    refine ⟨x, hmem, hentry, hresp, ?_, fun name hname => ?_⟩
    · rw [← hkept.uri]
      exact hstored.1
    · have hstoredNone := hstored.2 name (hvaryHeaders ▸ hname)
      rw [hkept.headers _ hstoredNone, hnone name hname]

set_option maxRecDepth 2000 in
theorem cache_hit_same_request_repeated :
    ∃ (proxy : Proxy) (env : Surroundings) (c : CacheClients) (resp : Response),
    Proxy.ofConfig hashingCrates (cachingConfig ["http://localhost:5001".toList]) = .ok proxy ∧
    env.targetOrder = proxy.targetMap.entries ∧
    Run (CacheClients.step proxy) anyStep (CacheClients.idle 0)
      (fetched 0 env (getRequest "/api/users".toList [])
        (plainRound (.response (textResponse [(varyHeader, utf8 "Accept".toList)] "users")))) c ∧
    proxy.arrive (c.seenBy env []) (getRequest "/api/users".toList []) = .ended (.cached resp) ∧
    ∃ x ∈ c.stored, x.filed.toResponse proxy.securityHeadersConfig = .ok resp ∧
      CacheClients.AgreeOn x.request (getRequest "/api/users".toList []) x.filed.varyHeaders := by
  have htrace : ∃ (proxy : Proxy) (env : Surroundings) (c : CacheClients) (resp : Response)
      (selected : Selected) (url : Str),
      Proxy.ofConfig hashingCrates (cachingConfig ["http://localhost:5001".toList]) = .ok proxy ∧
      env.targetOrder = proxy.targetMap.entries ∧
      proxy.crates.hashers.defaultHash = digitsHash ∧
      Run (CacheClients.step proxy) anyStep (CacheClients.idle 0)
        (fetched 0 env (getRequest "/api/users".toList [])
          (plainRound (.response (textResponse [(varyHeader, utf8 "Accept".toList)] "users")))) c ∧
      proxy.receive env (getRequest "/api/users".toList []) =
        .going ((getRequest "/api/users".toList []).bodyRead, selected) ∧
      selected.targetUrls.head? = some url ∧
      proxy.arrive (c.seenBy env []) (getRequest "/api/users".toList []) = .ended (.cached resp) :=
    ⟨_, plainSurroundings _ (fun _ => plainRound .timedOut), _, _, _, _, rfl, rfl, rfl,
      .cons trivial rfl (.cons trivial rfl (.cons trivial rfl (.nil _))), rfl, rfl, rfl⟩
  obtain ⟨proxy, env, c, resp, selected, url, hproxy, horder, hhash, hrun, hreceive, hurl, hreply⟩ :=
    htrace
  have hinj : Set.InjOn proxy.crates.hashers.defaultHash
      (c.hashed url (getRequest "/api/users".toList [])) := by
    rw [hhash]
    exact digitsHash_injective.injOn
  obtain ⟨_, x, hx, _, hresp, _, hagree⟩ :=
    cache_hit_same_request hrun hreceive hurl hinj hreply
  exact ⟨proxy, env, c, resp, hproxy, horder, hrun, hreply, x, hx, hresp, hagree⟩

namespace CacheClients

/-- The condition that a request that comes to a live entry, on its arrival or with a 304, has
the method of the exchange that was last stored under its key. -/
def SameMethod (proxy : Proxy) (c : CacheClients) : CacheEvent → Prop
  | .arrive _ env req _ => ∀ key entry x, proxy.plainKey env req = some key →
      findCached c.caches key key env.hitNow = .hit entry → c.lastStored proxy key = some x →
      x.request.method = req.method
  | .turn id r => ∀ env request ctx s entry x, c.running id = some ⟨env, request, .looping ctx s⟩ →
      r.isNotModified = true → findCached c.caches ctx.cacheKey ctx.cacheKey r.now = .hit entry →
      c.lastStored proxy ctx.cacheKey = some x → x.request.method = request.method
  | _ => True

theorem method_of_answer {proxy : Proxy} {c : CacheClients} {e : CacheEvent} {reply : Reply}
    {resp : Response} {x : Exchange} (h : c.Sound proxy) (hok : c.SameMethod proxy e)
    (hreply : Answers proxy c e reply) (hcached : reply.ending = .cached resp)
    (hsource : reply.source = some x) : x.request.method = reply.request.method := by
  cases hreply with
  | @arrival id env req swept ending hended =>
    cases hcached
    rcases Progress.bind_eq_ended.mp hended with hended | ⟨_, _, hended⟩
    · obtain ⟨selected, url, y, hreceive, hurl, hhit, hy, _⟩ := hit_source h hended
      have hkey : proxy.plainKey env req = some (proxy.key url req.bodyRead none) := by
        simp [Proxy.plainKey, hreceive, hurl]
      simp only [hkey, Option.bind_some] at hsource
      exact hok _ _ _ hkey hhit hsource
    · simp at hended
  | preparation hid hended =>
    cases hcached
    exact absurd hended prepared_not_cached
  | turn hid hended =>
    cases hcached
    obtain ⟨_, hmodified, hhit, _⟩ := replay_source h (h.clients hid).1 hended
    exact hok _ _ _ _ _ _ hid hmodified hhit hsource

end CacheClients

/-- In every run whose steps meet the condition, a response out of the cache goes to a request
with the method of the exchange that it was stored from. -/
theorem cached_replies_keep_method {proxy : Proxy} {start : Nat} {es : List CacheEvent}
    {c : CacheClients}
    (h : Run (CacheClients.step proxy) (CacheClients.SameMethod proxy) (CacheClients.idle start)
      es c) :
    ∀ reply ∈ c.replies, ∀ resp, reply.ending = .cached resp → ∃ x ∈ c.stored,
      reply.source = some x ∧ x.filed.toResponse proxy.securityHeadersConfig = .ok resp ∧
        x.request.method = reply.request.method := by
  intro reply hmem resp hcached
  obtain ⟨x, hx, hsource, hresp⟩ := CacheClients.sourced_run h reply hmem resp hcached
  have hmethod := CacheClients.replies_run
    (Q := fun reply => ∀ resp x, reply.ending = .cached resp → reply.source = some x →
      x.request.method = reply.request.method)
    (fun hsound hok hreply _ _ => CacheClients.method_of_answer hsound hok hreply) h
  exact ⟨x, hx, hsource, hresp, hmethod reply hmem resp x hcached hsource⟩

theorem sameMethod_of_stored {proxy : Proxy} {c : CacheClients} {id : Nat} {env : Surroundings}
    {req : Request} {swept : List (Str × Str)}
    (h : ∀ x ∈ c.stored, x.request.method = req.method) :
    c.SameMethod proxy (.arrive id env req swept) :=
  fun _ _ _ _ _ hx => h _ (CacheClients.mem_of_lastStored hx).1

theorem sameMethod_of_nothing_stored {proxy : Proxy} {c : CacheClients} (h : c.stored = [])
    (e : CacheEvent) : c.SameMethod proxy e := by
  have hnone : ∀ key x, c.lastStored proxy key ≠ some x := by
    intro key x hx
    have hmem := (CacheClients.mem_of_lastStored hx).1
    simp [h] at hmem
  cases e with
  | arrive id env req swept => exact fun key _ x _ _ hx => absurd hx (hnone key x)
  | prepare id now => trivial
  | turn id r => exact fun _ _ ctx _ _ x _ _ _ hx => absurd hx (hnone ctx.cacheKey x)
  | sweep cacheKey key now => trivial

set_option maxRecDepth 2000 in
theorem cached_replies_keep_method_get :
    ∃ (proxy : Proxy) (env : Surroundings) (c : CacheClients) (reply : Reply) (resp : Response),
    Proxy.ofConfig hashingCrates (cachingConfig ["http://localhost:5001".toList]) = .ok proxy ∧
    env.targetOrder = proxy.targetMap.entries ∧
    Run (CacheClients.step proxy) (CacheClients.SameMethod proxy) (CacheClients.idle 0)
      (fetchedThen env (getRequest "/api/users".toList [])
        (plainRound (.response (textResponse [] "users"))) (getRequest "/api/users".toList [])) c ∧
    reply ∈ c.replies ∧ reply.ending = .cached resp ∧
    ∃ x ∈ c.stored, reply.source = some x ∧ x.request.method = reply.request.method := by
  have htrace : ∃ (proxy : Proxy) (env : Surroundings) (c : CacheClients) (reply : Reply)
      (resp : Response),
      Proxy.ofConfig hashingCrates (cachingConfig ["http://localhost:5001".toList]) = .ok proxy ∧
      env.targetOrder = proxy.targetMap.entries ∧
      Run (CacheClients.step proxy) (CacheClients.SameMethod proxy) (CacheClients.idle 0)
        (fetchedThen env (getRequest "/api/users".toList [])
          (plainRound (.response (textResponse [] "users"))) (getRequest "/api/users".toList [])) c ∧
      c.replies.head? = some reply ∧ reply.ending = .cached resp :=
    ⟨_, plainSurroundings _ (fun _ => plainRound .timedOut), _, _, _, rfl, rfl,
      .cons (sameMethod_of_nothing_stored rfl _) rfl
        (.cons (sameMethod_of_nothing_stored rfl _) rfl
        (.cons (sameMethod_of_nothing_stored rfl _) rfl
        (.cons (sameMethod_of_stored (List.forall_mem_singleton.mpr rfl)) rfl (.nil _)))),
      rfl, rfl⟩
  obtain ⟨proxy, env, c, reply, resp, hproxy, horder, hrun, hreply, hcached⟩ := htrace
  have hmem := List.mem_of_head? hreply
  obtain ⟨x, hx, hsource, _, hmethod⟩ := cached_replies_keep_method hrun reply hmem resp hcached
  exact ⟨proxy, env, c, reply, resp, hproxy, horder, hrun, hmem, hcached, x, hx, hsource, hmethod⟩

set_option maxRecDepth 2000 in
/-- The answer to a POST is served to a GET of the same path. -/
theorem post_answer_served_to_get :
    ∃ (proxy : Proxy) (env : Surroundings) (c : CacheClients) (reply : Reply) (resp : Response)
      (x : Exchange),
    Proxy.ofConfig hashingCrates (cachingConfig ["http://localhost:5001".toList]) = .ok proxy ∧
    env.targetOrder = proxy.targetMap.entries ∧
    Run (CacheClients.step proxy) anyStep (CacheClients.idle 0)
      (fetchedThen env (plainRequest "/api/users".toList [] (utf8 "name=ada".toList))
        (plainRound (.response (textResponse [] "created"))) (getRequest "/api/users".toList [])) c ∧
    c.replies.head? = some reply ∧ reply.ending = .cached resp ∧
    resp.body = Body.ofBytes (utf8 "created".toList) ∧ reply.source = some x ∧
    x.request.method = "POST".toList ∧ reply.request.method = "GET".toList :=
  ⟨_, plainSurroundings _ (fun _ => plainRound .timedOut), _, _, _, _, rfl, rfl,
    .cons trivial rfl (.cons trivial rfl (.cons trivial rfl (.cons trivial rfl (.nil _)))),
    rfl, rfl, rfl, rfl, rfl, rfl⟩

end Road7
