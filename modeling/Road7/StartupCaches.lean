import Road7.CacheReplies
import Road7.LoopReads

namespace Road7

/-- The caches that `run_proxy` makes before the first request, one for the path of each target
that has a cache. -/
def startupCaches (targetMap : StrMap TargetEntry) : Caches :=
  (targetMap.entries.filterMap fun e => e.2.cacheConfig.map fun config =>
    (⟨e.1, Cache.new config⟩ : Sigma fun _ : Str => Cache)).toAList

theorem lookup_startupCaches {targetMap : StrMap TargetEntry} {K : Str} {cache : Cache}
    (h : (startupCaches targetMap).lookup K = some cache) :
    K ∈ targetMap ∧ cache.entries = ∅ := by
  have hmem : (⟨K, cache⟩ : Sigma fun _ : Str => Cache) ∈
      targetMap.entries.filterMap fun e => e.2.cacheConfig.map fun config =>
        (⟨e.1, Cache.new config⟩ : Sigma fun _ : Str => Cache) := by
    rw [startupCaches, AList.lookup_to_alist] at h
    exact List.of_mem_dlookup h
  obtain ⟨e, he, hcache⟩ := List.mem_filterMap.mp hmem
  obtain ⟨config, _, hmade⟩ := Option.map_eq_some_iff.mp hcache
  cases hmade
  exact ⟨List.mem_map_of_mem he, rfl⟩

theorem slash_not_mem_toDigits (n : Nat) : '/' ∉ Nat.toDigits 16 n := by
  have hdigit : ∀ d < 16, Nat.digitChar d ≠ '/' := by decide
  induction n using Nat.strongRecOn with
  | ind n ih =>
    rw [Nat.toDigits_eq_if (by decide)]
    split
    next hlt =>
      rw [List.mem_singleton]
      exact (hdigit n hlt).symm
    next hge =>
      have hrest := ih (n / 16) (by omega)
      have hlast := hdigit (n % 16) (by omega)
      rw [List.mem_append, List.mem_singleton, not_or]
      exact ⟨hrest, hlast.symm⟩

theorem slash_not_mem_key (proxy : Proxy) (url : Str) (req : Request) (vary : Option (List Str)) :
    '/' ∉ proxy.key url req vary :=
  slash_not_mem_toDigits _

/-- No request has the path of a target for a key. -/
def Proxy.KeysApart (proxy : Proxy) : Prop :=
  ∀ path, path ∈ proxy.targetMap → ∀ url req vary, proxy.key url req vary ≠ path

theorem keysApart_of_slash {proxy : Proxy} (h : ∀ path, path ∈ proxy.targetMap → '/' ∈ path) :
    proxy.KeysApart := by
  rintro path hpath url req vary rfl
  exact slash_not_mem_key proxy url req vary (h _ hpath)

theorem key_not_mem_startupCaches {proxy : Proxy} (h : proxy.KeysApart) (url : Str) (req : Request)
    (vary : Option (List Str)) : proxy.key url req vary ∉ startupCaches proxy.targetMap := by
  intro hmem
  obtain ⟨cache, hcache⟩ := Option.isSome_iff_exists.mp (AList.lookup_isSome.mpr hmem)
  exact h _ (lookup_startupCaches hcache).1 url req vary rfl

theorem plainKey_eq_key {proxy : Proxy} {env : Surroundings} {req : Request} {key : Str}
    (h : proxy.plainKey env req = some key) : ∃ url req', key = proxy.key url req' none := by
  unfold Proxy.plainKey at h
  split at h
  next req' selected _ =>
    obtain ⟨url, _, rfl⟩ := Option.map_eq_some_iff.mp h
    exact ⟨url, req', rfl⟩
  next => cases h

namespace CacheClients

variable {proxy : Proxy} {c d c' d' : CacheClients} {e : CacheEvent} {starts : Caches}
  {es : List CacheEvent}

/-- The caches as `run_proxy` starts with them. -/
def starting (proxy : Proxy) (now : Nat) : CacheClients :=
  { idle now with caches := startupCaches proxy.targetMap }

/-- The states differ in the caches of the start alone, and these are empty in the first. -/
structure StartedAs (starts : Caches) (c d : CacheClients) : Prop where
  caches : ∀ K, K ∉ starts → c.caches.lookup K = d.caches.lookup K
  unused : ∀ K cache, K ∈ starts → c.caches.lookup K = some cache → cache.entries = ∅
  running : c.running = d.running
  replies : c.replies = d.replies
  stored : c.stored = d.stored
  clock : c.clock = d.clock

theorem StartedAs.settle (h : StartedAs starts c d) (id : Nat) (env : Surroundings)
    (request : Request) (source : Option Exchange) (p : Progress Stage) :
    StartedAs starts (c.settle id env request source p) (d.settle id env request source p) := by
  cases p with
  | going stage =>
    refine ⟨h.caches, h.unused, ?_, h.replies, h.stored, h.clock⟩
    exact congrArg (fun running => Function.update running id _) h.running
  | ended ending =>
    refine ⟨h.caches, h.unused, ?_, ?_, h.stored, h.clock⟩
    · exact congrArg (fun running => Function.update running id none) h.running
    · exact congrArg (fun replies => _ :: replies) h.replies
  | blocked =>
    refine ⟨h.caches, h.unused, ?_, h.replies, h.stored, h.clock⟩
    exact congrArg (fun running => Function.update running id _) h.running

theorem StartedAs.later (h : StartedAs starts c d) (now : Nat) :
    StartedAs starts { c with clock := now } { d with clock := now } :=
  ⟨h.caches, h.unused, h.running, h.replies, h.stored, rfl⟩

theorem lookup_removeEntries_some {K : Str} {cache : Cache} {caches : Caches}
    {removed : List (Str × Str)} (h : (caches.removeEntries removed).lookup K = some cache) :
    ∃ before, caches.lookup K = some before ∧ (before.entries = ∅ → cache.entries = ∅) := by
  induction removed generalizing caches with
  | nil => exact ⟨cache, h, id⟩
  | cons e removed ih =>
    obtain ⟨middle, hmiddle, hempty⟩ := ih h
    rw [Caches.lookup_removeEntry] at hmiddle
    obtain ⟨before, hbefore, hmade⟩ := Option.map_eq_some_iff.mp hmiddle
    refine ⟨before, hbefore, fun hnone => hempty ?_⟩
    rw [← hmade]
    split
    next =>
      dsimp only
      rw [hnone]
      rfl
    next => exact hnone

theorem StartedAs.removeEntries (h : StartedAs starts c d) (removed : List (Str × Str)) :
    StartedAs starts { c with caches := c.caches.removeEntries removed }
      { d with caches := d.caches.removeEntries removed } := by
  refine ⟨fun K hK => ?_, fun K cache hK hcache => ?_, h.running, h.replies, h.stored, h.clock⟩
  · exact Caches.lookup_removeEntries_congr removed (h.caches K hK)
  · obtain ⟨before, hbefore, hempty⟩ := lookup_removeEntries_some hcache
    exact hempty (h.unused K before hK hbefore)

/-- The rounds on the two states differ in the caches only. -/
theorem meetsAlike_onCaches (ctx : LoopContext) (r : Round) :
    ctx.MeetsAlike (c.onCaches r) (d.onCaches r) where
  url := rfl
  outcome := rfl
  reported _ _ := rfl
  now := rfl
  elapsed := rfl

section Keys

variable {ctx : LoopContext} {s : LoopState} {r : Round} {id : Nat} {request : Request}

theorem exchange_started (h : StartedAs starts c d)
    (hkeys : ∀ url req vary, proxy.key url req vary ∉ starts) (hcrates : ctx.crates = proxy.crates) :
    ctx.exchange id request s (c.onCaches r) = ctx.exchange id request s (d.onCaches r) := by
  have hsame : ctx.offered id request s (c.onCaches r) = ctx.offered id request s (d.onCaches r) :=
    LoopContext.offered_congr (meetsAlike_onCaches ctx r)
  unfold LoopContext.exchange
  rw [hsame]
  cases ctx.offered id request s (d.onCaches r) with
  | none => rfl
  | some x =>
    have hlookup : c.caches.lookup (x.key ctx.crates.hashers.defaultHash) =
        d.caches.lookup (x.key ctx.crates.hashers.defaultHash) := by
      refine h.caches _ ?_
      rw [hcrates]
      exact hkeys x.targetUrl x.kept x.entry.varyHeaders
    have hcache : ∀ config, (c.onCaches r).caches.cacheFor config
        (x.key ctx.crates.hashers.defaultHash) = (d.onCaches r).caches.cacheFor config
          (x.key ctx.crates.hashers.defaultHash) := fun config =>
      congrArg (fun cache => cache.getD (Cache.new config)) hlookup
    simp only [Option.bind_some, hcache]
    rfl

theorem putsAlike_started (h : StartedAs starts c d)
    (hkeys : ∀ url req vary, proxy.key url req vary ∉ starts) (hcrates : ctx.crates = proxy.crates) :
    ctx.PutsAlike (c.onCaches r) (d.onCaches r) := by
  intro config url req vary _
  have hcache : (c.onCaches r).caches.cacheFor config (proxy.key url req vary) =
      (d.onCaches r).caches.cacheFor config (proxy.key url req vary) :=
    congrArg (fun cache => cache.getD (Cache.new config)) (h.caches _ (hkeys url req vary))
  rw [hcrates]
  show _ + ((d.onCaches r).caches.cacheFor config (proxy.key url req vary)).ttl < _ ↔
    _ + ((c.onCaches r).caches.cacheFor config (proxy.key url req vary)).ttl < _
  rw [hcache]
  rfl

theorem lookup_afterTurn_of_start (hkeys : ∀ url req vary, proxy.key url req vary ∉ starts)
    (hcrates : ctx.crates = proxy.crates) {K : Str} (hK : K ∈ starts) :
    (c.afterTurn ctx id request s r).caches.lookup K = c.caches.lookup K := by
  unfold afterTurn
  dsimp only
  cases hx : ctx.offered id request s (c.onCaches r) with
  | none =>
    rw [LoopContext.caches_of_not_offered hx]
    rfl
  | some x =>
    obtain ⟨config, _, hcaches⟩ := LoopContext.caches_of_offered hx
    have hne : K ≠ x.key ctx.crates.hashers.defaultHash := by
      rintro rfl
      rw [hcrates] at hK
      exact hkeys x.targetUrl x.kept x.entry.varyHeaders hK
    rw [hcaches, Caches.lookup_store_of_ne hne]
    rfl

theorem StartedAs.afterTurn (h : StartedAs starts c d)
    (hkeys : ∀ url req vary, proxy.key url req vary ∉ starts) (hcrates : ctx.crates = proxy.crates) :
    StartedAs starts (c.afterTurn ctx id request s r) (d.afterTurn ctx id request s r) := by
  refine ⟨fun K hK => ?_, fun K cache hK hcache => ?_, h.running, h.replies, ?_, h.clock⟩
  · exact (LoopContext.lookup_turn_congr (meetsAlike_onCaches ctx r) (h.caches K hK).symm).symm
  · rw [lookup_afterTurn_of_start hkeys hcrates hK] at hcache
    exact h.unused K cache hK hcache
  · exact congrArg₂ (fun x stored => Option.toList x ++ stored)
      (exchange_started h hkeys hcrates) h.stored

end Keys

/-- The states make the same steps. -/
theorem started_step (h : StartedAs starts c d)
    (hkeys : ∀ url req vary, proxy.key url req vary ∉ starts) (hd : d.Sound proxy)
    (hstep : c.step proxy e = some c') :
    ∃ d', d.step proxy e = some d' ∧ StartedAs starts c' d' := by
  obtain ⟨hstart, htime, c'', heffect, rfl⟩ := step_eq_some hstep
  have hdone : ∀ d'', d.effect proxy e = some d'' → StartedAs starts c'' d'' →
      ∃ d', d.step proxy e = some d' ∧ StartedAs starts { c'' with clock := e.time } d' := by
    intro d'' hd'' hsame
    refine ⟨{ d'' with clock := e.time }, ?_, hsame.later e.time⟩
    rw [h.clock] at hstart
    rw [step, if_pos ⟨hstart, htime⟩, hd'']
    rfl
  have hlast : ∀ key, c.lastStored proxy key = d.lastStored proxy key := by
    intro key
    rw [lastStored, h.stored, lastStored]
  cases effected heffect with
  | @arrive id env req swept hid =>
    refine hdone _ (by rw [effect, if_pos (h.running ▸ hid)]) ?_
    have hsame : arrival proxy (c.seenBy env swept) req =
        arrival proxy (d.seenBy env swept) req := by
      have hlookup : ∀ key, proxy.plainKey env req = some key →
          c.caches.lookup key = d.caches.lookup key := by
        intro key hkey
        obtain ⟨url, req', rfl⟩ := plainKey_eq_key hkey
        exact h.caches _ (hkeys url req' none)
      have hcome : proxy.comeToBreaker (c.seenBy env swept) req =
          proxy.comeToBreaker (d.seenBy env swept) req :=
        Proxy.comeToBreaker_congr (d.seenBy env swept) env.breaker fun key hkey =>
          ⟨hlookup key hkey, Caches.lookup_removeEntries_congr swept (hlookup key hkey)⟩
      rw [arrival, arrival, Proxy.arrive_eq, Proxy.arrive_eq, hcome]
      rfl
    rw [hsame, show c.lastStored proxy = d.lastStored proxy from funext hlast]
    exact (h.removeEntries swept).settle _ _ _ _ _
  | @prepare id now env request req ctx hid =>
    have hid' : d.running id = some ⟨env, request, .admitted ctx req⟩ := h.running ▸ hid
    refine hdone (d.settle id env request none (BreakerClients.prepared ctx d.caches now req))
      (by simp only [effect, hid']) ?_
    obtain ⟨url, _, hkey⟩ := (hd.clients hid').1.url
    have hlookup := h.caches ctx.cacheKey (hkey ▸ hkeys url _ none)
    have hsame : BreakerClients.prepared ctx c.caches now req =
        BreakerClients.prepared ctx d.caches now req := by
      simp only [BreakerClients.prepared, addConditionalHeaders, Caches.findCached_congr hlookup]
    rw [hsame]
    exact h.settle _ _ _ _ _
  | @turn id r env request ctx s hid =>
    have hid' : d.running id = some ⟨env, request, .looping ctx s⟩ := h.running ▸ hid
    refine hdone ((d.afterTurn ctx id request s r).settle id env request
      (d.lastStored proxy ctx.cacheKey) (BreakerClients.turned ctx s (d.onCaches r)))
      (by simp only [effect, hid']) ?_
    obtain ⟨url, _, hkey⟩ := (hd.clients hid').1.url
    have hlookup := h.caches ctx.cacheKey (hkey ▸ hkeys url _ none)
    have hcrates := crates_of_admits (hd.clients hid').1
    have hnext : (ctx.turn s (d.onCaches r)).next = (ctx.turn s (c.onCaches r)).next :=
      (LoopContext.turn_congr (meetsAlike_onCaches ctx r) (putsAlike_started h hkeys hcrates)
        fun _ => Caches.findCached_congr hlookup.symm _ _).2
    have hsame : BreakerClients.turned ctx s (c.onCaches r) =
        BreakerClients.turned ctx s (d.onCaches r) := by
      rw [BreakerClients.turned, BreakerClients.turned, hnext]
    rw [hsame, hlast]
    exact (h.afterTurn hkeys hcrates).settle _ _ _ _ _
  | @sweep cacheKey key _ => exact hdone _ rfl (h.removeEntries [(cacheKey, key)])

/-- Whether a step can be made does not depend on the caches. -/
theorem exists_step_of_running (hrunning : c.running = d.running) (hclock : c.clock = d.clock)
    (h : d.step proxy e = some d') : ∃ c', c.step proxy e = some c' := by
  obtain ⟨hstart, htime, d'', heffect, _⟩ := step_eq_some h
  rw [← hclock] at hstart
  have heffect' : ∃ c'', c.effect proxy e = some c'' := by
    cases effected heffect with
    | arrive hid => exact ⟨_, by rw [effect, if_pos (hrunning ▸ hid)]⟩
    | @prepare id now env request req ctx hid =>
      have hid' : c.running id = some ⟨env, request, .admitted ctx req⟩ := hrunning ▸ hid
      simp only [effect, hid']
      exact ⟨_, rfl⟩
    | @turn id r env request ctx s hid =>
      have hid' : c.running id = some ⟨env, request, .looping ctx s⟩ := hrunning ▸ hid
      simp only [effect, hid']
      exact ⟨_, rfl⟩
    | sweep => exact ⟨_, rfl⟩
  obtain ⟨c'', hc''⟩ := heffect'
  refine ⟨{ c'' with clock := e.time }, ?_⟩
  rw [step, if_pos ⟨hstart, htime⟩, hc'']
  rfl

theorem started_run (es : List CacheEvent)
    (hkeys : ∀ url req vary, proxy.key url req vary ∉ starts) (h : StartedAs starts c d)
    (hd : d.Sound proxy) :
    (∀ c', Run (step proxy) anyStep c es c' →
      ∃ d', Run (step proxy) anyStep d es d' ∧ StartedAs starts c' d') ∧
    ∀ d', Run (step proxy) anyStep d es d' →
      ∃ c', Run (step proxy) anyStep c es c' ∧ StartedAs starts c' d' := by
  induction es generalizing c d with
  | nil =>
    refine ⟨fun c' hrun => ?_, fun d' hrun => ?_⟩
    · cases hrun
      exact ⟨d, .nil d, h⟩
    · cases hrun
      exact ⟨c, .nil c, h⟩
  | cons e es ih =>
    refine ⟨fun c' hrun => ?_, fun d' hrun => ?_⟩
    · cases hrun with
      | cons _ hstep hrest =>
        obtain ⟨d₁, hstep', hsame⟩ := started_step h hkeys hd hstep
        obtain ⟨d', hrun', hends⟩ := (ih hsame (sound_step hd hstep')).1 c' hrest
        exact ⟨d', .cons trivial hstep' hrun', hends⟩
    · cases hrun with
      | cons _ hstep hrest =>
        obtain ⟨c₁, hstep₁⟩ := exists_step_of_running h.running h.clock hstep
        obtain ⟨d₁, hstep', hsame⟩ := started_step h hkeys hd hstep₁
        cases hstep.symm.trans hstep'
        obtain ⟨c', hrun', hends⟩ := (ih hsame (sound_step hd hstep)).2 d' hrest
        exact ⟨c', .cons trivial hstep₁ hrun', hends⟩

/-- The start differs from the idle state in its caches alone. -/
theorem starting_startedAs (proxy : Proxy) (now : Nat) :
    StartedAs (startupCaches proxy.targetMap) (starting proxy now) (idle now) := by
  refine ⟨fun K hK => ?_, fun K cache _ hcache => (lookup_startupCaches hcache).2, rfl, rfl, rfl,
    rfl⟩
  exact AList.lookup_eq_none.mpr hK

end CacheClients

/-- The caches that are made for the paths of the targets are never used: with them and without
them the same runs are made, with the same replies and the same stores, and they stay empty. -/
theorem startup_caches_unused {proxy : Proxy} (hkeys : proxy.KeysApart) (start : Nat)
    (es : List CacheEvent) :
    (∀ d, Run (CacheClients.step proxy) anyStep (CacheClients.idle start) es d →
      ∃ c, Run (CacheClients.step proxy) anyStep (CacheClients.starting proxy start) es c) ∧
    ∀ c, Run (CacheClients.step proxy) anyStep (CacheClients.starting proxy start) es c →
      ∃ d, Run (CacheClients.step proxy) anyStep (CacheClients.idle start) es d ∧
        c.replies = d.replies ∧ c.stored = d.stored ∧ c.running = d.running ∧
        ∀ K cache, c.caches.lookup K = some cache →
          if K ∈ startupCaches proxy.targetMap then cache.entries = ∅
          else d.caches.lookup K = some cache := by
  obtain ⟨hforward, hback⟩ := CacheClients.started_run es (key_not_mem_startupCaches hkeys)
    (CacheClients.starting_startedAs proxy start) (CacheClients.idle_sound start)
  constructor
  · intro d hrun
    obtain ⟨c, hrun', _⟩ := hback d hrun
    exact ⟨c, hrun'⟩
  · intro c hrun
    obtain ⟨d, hrun', hends⟩ := hforward c hrun
    refine ⟨d, hrun', hends.replies, hends.stored, hends.running, fun K cache hcache => ?_⟩
    split
    next hK => exact hends.unused K cache hK hcache
    next hK =>
      rw [← hends.caches K hK]
      exact hcache

set_option maxRecDepth 2000 in
theorem startup_caches_unused_repeated :
    ∃ (proxy : Proxy) (env : Surroundings) (c d : CacheClients) (reply : Reply) (resp : Response),
    Proxy.ofConfig hashingCrates (cachingConfig ["http://localhost:5001".toList]) = .ok proxy ∧
    env.targetOrder = proxy.targetMap.entries ∧
    Run (CacheClients.step proxy) anyStep (CacheClients.starting proxy 0)
      (fetchedThen env (getRequest "/api/users".toList [])
        (plainRound (.response (textResponse [] "users"))) (getRequest "/api/users".toList [])) c ∧
    Run (CacheClients.step proxy) anyStep (CacheClients.idle 0)
      (fetchedThen env (getRequest "/api/users".toList [])
        (plainRound (.response (textResponse [] "users"))) (getRequest "/api/users".toList [])) d ∧
    c.replies = d.replies ∧ reply ∈ c.replies ∧ reply.ending = .cached resp ∧
    ∃ cache, c.caches.lookup "/api".toList = some cache ∧ cache.entries = ∅ := by
  have htrace : ∃ (proxy : Proxy) (env : Surroundings) (c : CacheClients) (reply : Reply)
      (resp : Response) (cache : Cache),
      Proxy.ofConfig hashingCrates (cachingConfig ["http://localhost:5001".toList]) = .ok proxy ∧
      env.targetOrder = proxy.targetMap.entries ∧
      Run (CacheClients.step proxy) anyStep (CacheClients.starting proxy 0)
        (fetchedThen env (getRequest "/api/users".toList [])
          (plainRound (.response (textResponse [] "users")))
          (getRequest "/api/users".toList [])) c ∧
      c.replies.head? = some reply ∧ reply.ending = .cached resp ∧
      proxy.targetMap.keys = ["/api".toList] ∧
      (startupCaches proxy.targetMap).keys = ["/api".toList] ∧
      c.caches.lookup "/api".toList = some cache :=
    ⟨_, plainSurroundings _ (fun _ => plainRound .timedOut), _, _, _, _, rfl, rfl,
      .cons trivial rfl (.cons trivial rfl (.cons trivial rfl (.cons trivial rfl (.nil _)))),
      rfl, rfl, rfl, rfl, rfl⟩
  obtain ⟨proxy, env, c, reply, resp, cache, hproxy, horder, hrun, hreply, hcached, hkeys, hstarts,
    hcache⟩ := htrace
  have hpaths : ∀ path, path ∈ proxy.targetMap → '/' ∈ path := by
    intro path hpath
    rw [AList.mem_keys, hkeys, List.mem_singleton] at hpath
    subst hpath
    decide
  obtain ⟨d, hrun', hreplies, _, _, hcaches⟩ :=
    (startup_caches_unused (keysApart_of_slash hpaths) 0 _).2 c hrun
  have hstart : "/api".toList ∈ startupCaches proxy.targetMap := by
    rw [AList.mem_keys, hstarts]
    exact List.mem_singleton_self _
  have hempty := hcaches _ cache hcache
  rw [if_pos hstart] at hempty
  exact ⟨proxy, env, c, d, reply, resp, hproxy, horder, hrun, hrun', hreplies,
    List.mem_of_head? hreply, hcached, cache, hcache, hempty⟩

end Road7
