import Road7.ReadThrough

namespace Road7

def CacheEvent.arrives (id : Nat) : CacheEvent → Bool
  | .arrive id' _ _ _ => id' = id
  | _ => false

namespace CacheClients

variable {proxy : Proxy} {c d f : CacheClients} {e : CacheEvent} {es : List CacheEvent}
  {K : Str} {now id : Nat} {env : Surroundings} {req : Request} {swept : List (Str × Str)}

/-- The step leaves what is live under a key: it stores nothing there and removes nothing there
that has not expired. -/
def Keeps (proxy : Proxy) (K : Str) (c : CacheClients) : CacheEvent → Prop
  | .arrive _ env _ swept => (K, K) ∈ swept → ∀ entry, c.caches.entryAt K K = some entry →
      entry.expiresAt ≤ env.varyNow
  | .prepare _ _ => True
  | .turn id r => ∀ x, c.exchangeAt (.turn id r) = some x →
      x.key proxy.crates.hashers.defaultHash ≠ K
  | .sweep cacheKey key now => cacheKey = K ∧ key = K → ∀ entry,
      c.caches.entryAt K K = some entry → entry.expiresAt ≤ now

theorem liveAt_removed {removed : List (Str × Str)} {t : Nat}
    (h : (K, K) ∈ removed → ∀ entry, c.caches.entryAt K K = some entry → entry.expiresAt ≤ t)
    (ht : t ≤ now) :
    liveAt { c with caches := c.caches.removeEntries removed } K K now = c.liveAt K K now := by
  unfold liveAt
  rw [Caches.entryAt_removeEntries]
  split
  next hmem =>
    cases hentry : c.caches.entryAt K K with
    | none => rfl
    | some entry =>
      have hdead : entry.expiresAt ≤ t := h hmem entry hentry
      exact (filter_live_of_le (Nat.le_trans hdead ht)).symm
  next => rfl

theorem liveAt_kept (hc : c.Sound proxy) (h : c.step proxy e = some d) (hok : c.Keeps proxy K e)
    (ht : d.clock ≤ now) : d.liveAt K K now = c.liveAt K K now := by
  cases hx : c.exchangeAt e with
  | some x =>
    obtain ⟨config, _, _, _, hcaches⟩ := exchangeAt_some hc h hx
    have hne : x.key proxy.crates.hashers.defaultHash ≠ K := by
      cases e with
      | turn id r => exact hok x hx
      | arrive => cases hx
      | prepare => cases hx
      | sweep => cases hx
    unfold liveAt
    rw [hcaches, Caches.entryAt_afterStore, if_neg (fun heq => hne heq.1.symm)]
  | none =>
    obtain ⟨c', heffect, rfl⟩ := step_effected h
    cases heffect with
    | arrive _ => exact (liveAt_congr (by rw [caches_settle])).trans (liveAt_removed hok ht)
    | prepare _ => exact liveAt_congr (by rw [caches_settle])
    | turn hid =>
      simp only [exchangeAt, hid] at hx
      refine liveAt_congr ?_
      rw [caches_settle]
      exact LoopContext.entryAt_of_no_exchange hx K K
    | @sweep cacheKey key t =>
      have hdead : (K, K) ∈ [(cacheKey, key)] → ∀ entry, c.caches.entryAt K K = some entry →
          entry.expiresAt ≤ t := by
        intro hmem
        obtain ⟨hK, hk⟩ := Prod.mk.inj (List.mem_singleton.mp hmem)
        exact hok ⟨hK.symm, hk.symm⟩
      exact liveAt_removed hdead ht

/-- Nothing is stored or lost under a key, and no request gets a number that is given away. -/
def KeepsFor (proxy : Proxy) (K : Str) (id : Nat) (c : CacheClients) (e : CacheEvent) : Prop :=
  c.Keeps proxy K e ∧ e.arrives id = false

theorem liveAt_kept_run (hc : c.Sound proxy) (h : Run (step proxy) (KeepsFor proxy K id) c es d)
    (ht : d.clock ≤ now) : d.liveAt K K now = c.liveAt K K now := by
  induction h with
  | nil => rfl
  | cons hok hstep hrest ih =>
    have hclock := clock_le_run hrest
    rw [ih (sound_step hc hstep) ht, liveAt_kept hc hstep hok.1 (Nat.le_trans hclock ht)]

/-- A request that is on its way has been on its way before, as it arrived. -/
theorem running_of_step (h : c.step proxy e = some d) (hno : e.arrives id = false)
    {client : Client} (hid : d.running id = some client) (hactive : client.stage ≠ .blocked) :
    ∃ client', c.running id = some client' ∧ client'.stage ≠ .blocked ∧
      client'.env = client.env ∧ client'.request = client.request := by
  obtain ⟨c', heffect, rfl⟩ := step_effected h
  cases heffect with
  | @arrive id' _ _ _ _ =>
    have hne : id' ≠ id := by simpa [CacheEvent.arrives] using hno
    rcases running_settle hid hactive with ⟨heq, _⟩ | ⟨_, hsame⟩
    · exact absurd heq.symm hne
    · exact ⟨client, hsame, hactive, rfl, rfl⟩
  | @prepare id' _ _ _ _ _ hrunning =>
    rcases running_settle hid hactive with ⟨rfl, stage, _, rfl⟩ | ⟨_, hsame⟩
    · exact ⟨_, hrunning, nofun, rfl, rfl⟩
    · exact ⟨client, hsame, hactive, rfl, rfl⟩
  | @turn id' _ _ _ _ _ hrunning =>
    rcases running_settle hid hactive with ⟨rfl, stage, _, rfl⟩ | ⟨_, hsame⟩
    · exact ⟨_, hrunning, nofun, rfl, rfl⟩
    · exact ⟨client, hsame, hactive, rfl, rfl⟩
  | sweep => exact ⟨client, hid, hactive, rfl, rfl⟩

theorem running_of_run (h : Run (step proxy) (KeepsFor proxy K id) c es d) {client : Client}
    (hid : d.running id = some client) (hactive : client.stage ≠ .blocked) :
    ∃ client', c.running id = some client' ∧ client'.stage ≠ .blocked ∧
      client'.env = client.env ∧ client'.request = client.request := by
  induction h with
  | nil => exact ⟨client, hid, hactive, rfl, rfl⟩
  | cons hok hstep _ ih =>
    obtain ⟨client', hid', hactive', henv', hrequest'⟩ := ih hid
    obtain ⟨client'', hid'', hactive'', henv'', hrequest''⟩ :=
      running_of_step hstep hok.2 hid' hactive'
    exact ⟨client'', hid'', hactive'', henv''.trans henv', hrequest''.trans hrequest'⟩

/-- A request is on its way after its arrival when its breaker has admitted it. -/
theorem admitted_of_arrive (h : c.step proxy (.arrive id env req swept) = some d) {client : Client}
    (hid : d.running id = some client) (hactive : client.stage ≠ .blocked) :
    client.env = env ∧ client.request = req ∧
      ∃ admitted, proxy.arrive (c.seenBy env swept) req = .going admitted := by
  obtain ⟨c', heffect, rfl⟩ := step_effected h
  cases heffect with
  | arrive _ =>
    rcases running_settle hid hactive with ⟨_, stage, hgoing, rfl⟩ | ⟨hne, _⟩
    · obtain ⟨admitted, harrive, _⟩ := Progress.bind_eq_going.mp hgoing
      exact ⟨rfl, rfl, admitted, harrive⟩
    · exact absurd rfl hne

/-- What is live for an admitted request under its plain key was not served to it on its arrival:
the key with the headers that it varies by is another one. -/
theorem vary_key_ne {selected : Selected} {url : Str} {entry : CacheEntry}
    {admitted : LoopContext × Request}
    (harrive : proxy.arrive (c.seenBy env swept) req = .going admitted)
    (hreceive : proxy.receive env req = .going (req.bodyRead, selected))
    (hurl : selected.targetUrls.head? = some url) (hcache : selected.cacheConfig.isSome = true)
    (hswept : (proxy.key url req none, proxy.key url req none) ∈ swept → ∀ entry,
      c.caches.entryAt (proxy.key url req none) (proxy.key url req none) = some entry →
        entry.expiresAt ≤ env.varyNow)
    (hentry : c.caches.entryAt (proxy.key url req none) (proxy.key url req none) = some entry)
    (hlive : env.varyNow < entry.expiresAt) (hnow : env.hitNow ≤ env.varyNow) :
    proxy.key url req entry.varyHeaders ≠ proxy.key url req none := by
  intro hkey
  obtain ⟨config, hconfig⟩ := Option.isSome_iff_exists.mp hcache
  obtain ⟨⟨r, selected'⟩, hreceive', harrive⟩ := Progress.bind_eq_going.mp harrive
  cases hreceive.symm.trans hreceive'
  obtain ⟨ctx, happroach, _⟩ := Progress.bind_eq_going.mp harrive
  obtain ⟨_, _, happroach⟩ := Progress.bind_eq_going.mp happroach
  obtain ⟨_, _, happroach⟩ := Progress.bind_eq_going.mp happroach
  obtain ⟨url', hurl', happroach⟩ := Progress.bind_eq_going.mp happroach
  cases hurl.symm.trans (Proxy.firstUrl_eq_ok.mp (Progress.orPanic_eq_going.mp hurl'))
  obtain ⟨_, hserve, _⟩ := Progress.bind_eq_going.mp happroach
  have hhit : findCached (c.seenBy env swept).hitCaches (proxy.key url req none)
      (proxy.key url req none) (c.seenBy env swept).hitNow = .hit entry :=
    Caches.findCached_hit.mpr ⟨hentry, Nat.lt_of_le_of_lt hnow hlive⟩
  have hkept : (proxy.key url req none, proxy.key url req none) ∉ swept := by
    intro hmem
    have hdead := hswept hmem entry hentry
    omega
  have hfound : findCached (c.seenBy env swept).varyCaches (proxy.key url req none)
      (proxy.key url req.bodyRead entry.varyHeaders) (c.seenBy env swept).varyNow =
        .hit entry := by
    refine Caches.findCached_hit.mpr ⟨?_, hlive⟩
    rw [show (c.seenBy env swept).varyCaches = c.caches.removeEntries swept from rfl,
      Caches.entryAt_removeEntries, show proxy.key url req.bodyRead entry.varyHeaders =
        proxy.key url req none from hkey, if_neg hkept]
    exact hentry
  unfold Proxy.serveFromCache at hserve
  rw [hconfig] at hserve
  dsimp only at hserve
  rw [show createCacheKey proxy.crates.hashers.defaultHash url req.bodyRead none =
    proxy.key url req none from rfl, hhit] at hserve
  dsimp only at hserve
  rw [show createCacheKey proxy.crates.hashers.defaultHash url req.bodyRead entry.varyHeaders =
    proxy.key url req.bodyRead entry.varyHeaders from rfl, hfound] at hserve
  dsimp only at hserve
  rcases @Progress.endWith_cases Unit .cached
    (entry.toResponse proxy.securityHeadersConfig) with ⟨resp, hend⟩ | ⟨p, hend⟩
  · rw [hend] at hserve
    cases hserve
  · rw [hend] at hserve
    cases hserve

theorem key_eq_of_carriesNone {url : Str} {vary : Option (List Str)} (h : req.CarriesNone vary) :
    proxy.key url req vary = proxy.key url req none := by
  have hstream : cacheKeyStream url req vary = cacheKeyStream url req none :=
    cacheKeyStream_eq_none_iff.mpr ⟨rfl, rfl, h⟩
  rw [Proxy.key, Proxy.key, createCacheKey, createCacheKey, hstream]

/-- A request on its way behind its arrival is the one that has arrived and was admitted. -/
theorem client_of_run (harrive : c.step proxy (.arrive id env req swept) = some d)
    (hrest : Run (step proxy) (KeepsFor proxy K id) d es f) {client : Client}
    (hid : f.running id = some client) (hactive : client.stage ≠ .blocked) :
    client.env = env ∧ client.request = req ∧
      ∃ admitted, proxy.arrive (c.seenBy env swept) req = .going admitted := by
  obtain ⟨client', hid', hactive', henv, hrequest⟩ := running_of_run hrest hid hactive
  obtain ⟨henv', hrequest', hadmitted⟩ := admitted_of_arrive harrive hid' hactive'
  exact ⟨henv.symm.trans henv', hrequest.symm.trans hrequest', hadmitted⟩

/-- What an admitted request finds under its plain key behind its arrival, with nothing stored or
lost there since, varies by a header that it carries; or its own target has no cache. -/
theorem found_of_other_variant {url : Str} {selected : Selected} {entry : CacheEntry}
    {admitted : LoopContext × Request} (hc : c.Sound proxy)
    (harrive : c.step proxy (.arrive id env req swept) = some d)
    (hadmitted : proxy.arrive (c.seenBy env swept) req = .going admitted)
    (hswept : c.Keeps proxy (proxy.key url req none) (.arrive id env req swept))
    (hrest : Run (step proxy) (KeepsFor proxy (proxy.key url req none) id) d es f)
    (hreceive : proxy.receive env req = .going (req.bodyRead, selected))
    (hurl : selected.targetUrls.head? = some url) (hnow : f.clock ≤ now)
    (hlive : f.liveAt (proxy.key url req none) (proxy.key url req none) now = some entry) :
    selected.cacheConfig = none ∨ ¬req.CarriesNone entry.varyHeaders := by
  by_cases hcache : selected.cacheConfig.isSome = true
  · refine .inr fun hnone => ?_
    obtain ⟨_, htime, c', _, rfl⟩ := step_eq_some harrive
    have hclock : env.varyNow ≤ f.clock := clock_le_run hrest
    rw [liveAt_kept_run (sound_step hc harrive) hrest hnow,
      liveAt_kept hc harrive hswept (Nat.le_trans hclock hnow)] at hlive
    obtain ⟨hentry, hlive⟩ := liveAt_eq_some.mp hlive
    exact vary_key_ne hadmitted hreceive hurl hcache hswept hentry (by omega) htime
      (key_eq_of_carriesNone hnone)
  · exact .inl (Option.not_isSome_iff_eq_none.mp hcache)

/-- Without collisions what is stored under the plain key of a request has been stored for a
request that carried nothing that it varies by. -/
theorem stored_under_plain_key {url : Str} {x : Exchange} (hf : f.Sound proxy) (hx : x ∈ f.stored)
    (hkey : x.key proxy.crates.hashers.defaultHash = proxy.key url req none)
    (hinj : Set.InjOn proxy.crates.hashers.defaultHash (f.hashed url req)) :
    x.request.uri.toStr = req.uri.toStr ∧ x.request.CarriesNone x.filed.varyHeaders := by
  obtain ⟨hkept, _, cache, hfiled⟩ := hf.exchanges x hx
  have hvary : x.filed.varyHeaders = x.entry.varyHeaders := by
    rw [hfiled]
    rfl
  have hplain : cacheKeyStream url req none ∈ f.hashed url req := .inr (.inl rfl)
  have hstream := (createCacheKey_inj hinj (.inl ⟨x, hx, rfl⟩) hplain).mp hkey
  obtain ⟨_, huri, hnone⟩ := cacheKeyStream_eq_none_iff.mp hstream
  rw [hvary, ← hkept.uri]
  exact ⟨huri, fun name hname => hkept.headers _ (hnone name hname)⟩

end CacheClients

/-- When nothing is stored or lost under the key of a request between its arrival and a 304, the
response that it gets out of the cache is of another variant: the request carries a header that
the response varies by, and the request that it was stored for carried none of them. Else its own
target has no cache. -/
theorem replay_of_other_variant {proxy : Proxy} {start id : Nat} {es es' : List CacheEvent}
    {c d f g : CacheClients} {env : Surroundings} {req : Request} {swept : List (Str × Str)}
    {selected : Selected} {url : Str} {r : Round} {resp : Response} {source : Option Exchange}
    (h : Run (CacheClients.step proxy) anyStep (CacheClients.idle start) es c)
    (hreceive : proxy.receive env req = .going (req.bodyRead, selected))
    (hurl : selected.targetUrls.head? = some url)
    (harrive : c.step proxy (.arrive id env req swept) = some d)
    (hswept : c.Keeps proxy (proxy.key url req none) (.arrive id env req swept))
    (hrest : Run (CacheClients.step proxy)
      (CacheClients.KeepsFor proxy (proxy.key url req none) id) d es' f)
    (hturn : f.step proxy (.turn id r) = some g)
    (hreplies : g.replies = ⟨id, req, .cached resp, source⟩ :: f.replies) :
    ∃ x ∈ f.stored, source = some x ∧
      x.filed.toResponse proxy.securityHeadersConfig = .ok resp ∧
      (selected.cacheConfig = none ∨ ¬req.CarriesNone x.filed.varyHeaders) ∧
      (Set.InjOn proxy.crates.hashers.defaultHash (f.hashed url req) →
        x.request.uri.toStr = req.uri.toStr ∧ x.request.CarriesNone x.filed.varyHeaders) := by
  have hf : f.Sound proxy := by
    have hd := CacheClients.sound_step (CacheClients.sound_run h) harrive
    exact hrest.invariant (fun hs _ hstep => CacheClients.sound_step hs hstep) hd
  have hanswer : CacheClients.Answers proxy f (.turn id r) ⟨id, req, .cached resp, source⟩ := by
    rcases CacheClients.replies_of_step hturn with hsame | ⟨reply, hanswer, hreply⟩
    · have hlength := congrArg List.length (hreplies.symm.trans hsame)
      simp at hlength
    · cases hreplies.symm.trans hreply
      exact hanswer
  obtain ⟨hclock, _, _⟩ := CacheClients.step_eq_some hturn
  cases hanswer with
  | @turn _ _ env' _ ctx s _ hid hended =>
    obtain ⟨henv, hrequest, admitted, hadmitted⟩ :=
      CacheClients.client_of_run harrive hrest hid nofun
    have hadmits := (hf.clients hid).1
    obtain ⟨x, _, hhit, hx, hresp⟩ := CacheClients.replay_source hf hadmits hended
    dsimp only at henv hadmits
    rw [henv] at hadmits
    obtain ⟨hmem, hkey⟩ := CacheClients.mem_of_lastStored hx
    have hplain : ctx.cacheKey = proxy.key url req none := by
      cases hreceive.symm.trans hadmits.receives
      obtain ⟨url', hurl', hkey'⟩ := hadmits.url
      cases hurl.symm.trans hurl'
      exact hkey'
    rw [hplain] at hhit hkey
    have hlive : f.liveAt (proxy.key url req none) (proxy.key url req none) r.now = some x.filed :=
      CacheClients.liveAt_eq_some.mpr (Caches.findCached_hit.mp hhit)
    refine ⟨x, hmem, hx, hresp, ?_, CacheClients.stored_under_plain_key hf hmem hkey⟩
    exact CacheClients.found_of_other_variant (CacheClients.sound_run h) harrive hadmitted hswept
      hrest hreceive hurl hclock hlive

set_option maxRecDepth 2000 in
/-- A 304 to the request with an `Accept` header is answered with what was stored for the request
without one. -/
theorem replay_of_other_variant_accept :
    ∃ (proxy : Proxy) (env : Surroundings) (c d f g : CacheClients) (resp : Response)
      (source : Option Exchange),
    Proxy.ofConfig hashingCrates (cachingConfig ["http://localhost:5001".toList]) = .ok proxy ∧
    env.targetOrder = proxy.targetMap.entries ∧
    Run (CacheClients.step proxy) anyStep (CacheClients.idle 0)
      (fetched 0 env (getRequest "/api/users".toList [])
        (plainRound (.response (textResponse [(varyHeader, utf8 "Accept".toList)] "users")))) c ∧
    c.step proxy (.arrive 1 env (getRequest "/api/users".toList [acceptHeader]) []) = some d ∧
    d.step proxy (.prepare 1 0) = some f ∧
    f.step proxy (.turn 1 (plainRound (.response ⟨304, [], Body.empty⟩))) = some g ∧
    g.replies = ⟨1, getRequest "/api/users".toList [acceptHeader], .cached resp, source⟩ ::
      f.replies ∧
    ∃ x ∈ f.stored, source = some x ∧ x.request.CarriesNone x.filed.varyHeaders ∧
      ¬(getRequest "/api/users".toList [acceptHeader]).CarriesNone x.filed.varyHeaders := by
  have htrace : ∃ (proxy : Proxy) (env : Surroundings) (c d f g : CacheClients) (resp : Response)
      (source : Option Exchange) (selected : Selected) (url : Str),
      Proxy.ofConfig hashingCrates (cachingConfig ["http://localhost:5001".toList]) = .ok proxy ∧
      env.targetOrder = proxy.targetMap.entries ∧ proxy.crates = hashingCrates ∧
      Run (CacheClients.step proxy) anyStep (CacheClients.idle 0)
        (fetched 0 env (getRequest "/api/users".toList [])
          (plainRound (.response
            (textResponse [(varyHeader, utf8 "Accept".toList)] "users")))) c ∧
      c.step proxy (.arrive 1 env (getRequest "/api/users".toList [acceptHeader]) []) = some d ∧
      d.step proxy (.prepare 1 0) = some f ∧
      f.step proxy (.turn 1 (plainRound (.response ⟨304, [], Body.empty⟩))) = some g ∧
      g.replies = ⟨1, getRequest "/api/users".toList [acceptHeader], .cached resp, source⟩ ::
        f.replies ∧
      proxy.receive env (getRequest "/api/users".toList [acceptHeader]) =
        .going ((getRequest "/api/users".toList [acceptHeader]).bodyRead, selected) ∧
      selected.targetUrls.head? = some url ∧ selected.cacheConfig.isSome = true :=
    ⟨_, plainSurroundings _ (fun _ => plainRound .timedOut), _, _, _, _, _, _, _, _, rfl, rfl, rfl,
      .cons trivial rfl (.cons trivial rfl (.cons trivial rfl (.nil _))), rfl, rfl, rfl, rfl, rfl,
      rfl, rfl⟩
  obtain ⟨proxy, env, c, d, f, g, resp, source, selected, url, hproxy, horder, hcrates, hrun,
    harrive, hprepare, hturn, hreplies, hreceive, hurl, hcache⟩ := htrace
  have hswept : c.Keeps proxy (proxy.key url (getRequest "/api/users".toList [acceptHeader]) none)
      (.arrive 1 env (getRequest "/api/users".toList [acceptHeader]) []) :=
    fun hmem => absurd hmem List.not_mem_nil
  have hrest : Run (CacheClients.step proxy) (CacheClients.KeepsFor proxy
      (proxy.key url (getRequest "/api/users".toList [acceptHeader]) none) 1) d [.prepare 1 0] f :=
    .cons ⟨trivial, rfl⟩ hprepare (.nil f)
  obtain ⟨x, hx, hsource, _, hother, hnone⟩ := replay_of_other_variant hrun hreceive hurl harrive
    hswept hrest hturn hreplies
  have hinj : Set.InjOn proxy.crates.hashers.defaultHash
      (f.hashed url (getRequest "/api/users".toList [acceptHeader])) := by
    rw [hcrates]
    exact digitsHash_injective.injOn
  have hvaries : ¬(getRequest "/api/users".toList [acceptHeader]).CarriesNone
      x.filed.varyHeaders := by
    rcases hother with hcacheless | hvaries
    · rw [hcacheless] at hcache
      cases hcache
    · exact hvaries
  exact ⟨proxy, env, c, d, f, g, resp, source, hproxy, horder, hrun, harrive, hprepare, hturn,
    hreplies, x, hx, hsource, (hnone hinj).2, hvaries⟩

end Road7
