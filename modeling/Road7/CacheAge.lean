import Road7.ReadThrough

namespace Road7

/-- What of a cache no put, get or sweep ever changes. -/
def Cache.settings (cache : Cache) : Nat × Bool := (cache.ttl, cache.serialize)

def CacheConfig.settings (config : CacheConfig) : Nat × Bool :=
  (fromSecs config.ttlSeconds, config.serialize)

theorem Cache.filed_congr {toVec : Bytes → Option Bytes} {a b : Cache}
    (h : a.settings = b.settings) (response : CacheEntry) (now : Nat) :
    a.filed toVec response now = b.filed toVec response now := by
  obtain ⟨httl, hserialize⟩ := Prod.mk.inj h
  rw [Cache.filed, httl, hserialize]
  rfl

theorem Caches.settings_removeEntries (removed : List (Str × Str)) (caches : Caches) (K : Str) :
    ((caches.removeEntries removed).lookup K).map Cache.settings =
      (caches.lookup K).map Cache.settings := by
  induction removed generalizing caches with
  | nil => rfl
  | cons e removed ih =>
    have hfirst : ((caches.removeEntry e.1 e.2).lookup K).map Cache.settings =
        (caches.lookup K).map Cache.settings := by
      rw [lookup_removeEntry, Option.map_map]
      congr 1
      funext cache
      rw [Function.comp_apply]
      split <;> rfl
    exact (ih (caches.removeEntry e.1 e.2)).trans hfirst

namespace CacheClients

/-- The exchange that was stored first under a key. -/
def founder (proxy : Proxy) (c : CacheClients) (K : Str) : Option Exchange :=
  (c.stored.filter (fun x => x.key proxy.crates.hashers.defaultHash = K)).getLast?

/-- The settings that the first exchange under a key has asked for. -/
def founded (proxy : Proxy) (c : CacheClients) (K : Str) : Option (Nat × Bool) :=
  ((c.founder proxy K).bind fun y => y.selected.cacheConfig).map CacheConfig.settings

/-- A cache that a panicking put has made: its `ttl` is past the last `Instant` at any later time,
so that no put to it returns. -/
def Barren (c : CacheClients) (K : Str) : Prop :=
  ∃ settings, (c.caches.lookup K).map Cache.settings = some settings ∧
    instantEnd ≤ c.clock + settings.1

/-- A cache is made by the first exchange that is stored under its key, and keeps the settings of
that exchange's target, whatever targets store there later. -/
structure Founded (proxy : Proxy) (c : CacheClients) : Prop where
  caches : ∀ K, (c.caches.lookup K).map Cache.settings = c.founded proxy K ∨
    c.founded proxy K = none ∧ c.Barren K
  configured : ∀ x ∈ c.stored, x.selected.cacheConfig.isSome = true
  filed : ∀ x ∈ c.stored, ∀ cache : Cache,
    c.founded proxy (x.key proxy.crates.hashers.defaultHash) = some cache.settings →
      x.filed = cache.filed proxy.crates.toVec x.entry x.now
  times : ∀ x ∈ c.stored, x.now ≤ c.clock

variable {proxy : Proxy} {c d : CacheClients} {e : CacheEvent} {x : Exchange} {K : Str}

theorem founder_cons (h : d.stored = x :: c.stored) (K : Str) : d.founder proxy K =
    (c.founder proxy K).or
      (if x.key proxy.crates.hashers.defaultHash = K then some x else none) := by
  unfold founder
  rw [h, List.filter_cons]
  by_cases hkey : x.key proxy.crates.hashers.defaultHash = K
  · simp only [hkey, decide_true, if_true, List.getLast?_cons]
    cases (c.stored.filter fun y => decide (y.key proxy.crates.hashers.defaultHash = K)).getLast? <;>
      rfl
  · simp [hkey]

theorem mem_of_founder {y : Exchange} (h : c.founder proxy K = some y) :
    y ∈ c.stored ∧ y.key proxy.crates.hashers.defaultHash = K := by
  obtain ⟨hmem, hkey⟩ := List.mem_filter.mp (List.mem_of_getLast? h)
  exact ⟨hmem, of_decide_eq_true hkey⟩

theorem idle_founded (now : Nat) : (idle now).Founded proxy :=
  ⟨fun _ => .inl rfl, List.forall_mem_nil _, List.forall_mem_nil _, List.forall_mem_nil _⟩

theorem Barren.later (h : c.Barren K)
    (hsame : (d.caches.lookup K).map Cache.settings = (c.caches.lookup K).map Cache.settings)
    (hclock : c.clock ≤ d.clock) : d.Barren K := by
  obtain ⟨settings, hsettings, hlate⟩ := h
  exact ⟨settings, hsame.trans hsettings, by omega⟩

/-- A step without a store changes no settings, but a panicking one may make a cache. -/
theorem settings_of_no_exchange (h : c.step proxy e = some d) (hnone : c.exchangeAt e = none)
    (K : Str) : (d.caches.lookup K).map Cache.settings =
        (c.caches.lookup K).map Cache.settings ∨
      c.caches.lookup K = none ∧ d.Barren K := by
  obtain ⟨c', heffect, rfl⟩ := step_effected h
  cases heffect with
  | arrive _ =>
    left
    rw [show ∀ c' : CacheClients, ({ c' with clock := _ } : CacheClients).caches = c'.caches from
      fun _ => rfl, caches_settle]
    exact Caches.settings_removeEntries _ _ _
  | prepare _ =>
    left
    rw [show ∀ c' : CacheClients, ({ c' with clock := _ } : CacheClients).caches = c'.caches from
      fun _ => rfl, caches_settle]
  | @turn id r _ _ ctx s hid =>
    simp only [exchangeAt, hid] at hnone
    have hcaches : ∀ c' : CacheClients, ({ c' with clock := r.now } : CacheClients).caches =
        c'.caches := fun _ => rfl
    unfold Barren
    rw [show CacheEvent.time (.turn id r) = r.now from rfl, hcaches, caches_settle]
    unfold afterTurn
    dsimp only
    rcases LoopContext.turn_of_no_exchange hnone with hsame | ⟨config, key, _, hlate, hopen, _⟩
    · left
      rw [hsame]
      rfl
    · rw [hopen, Caches.lookup_afterOpen]
      by_cases hK : K = key
      · subst hK
        rw [if_pos rfl]
        cases hlookup : c.caches.lookup K with
        | none => exact .inr ⟨rfl, _, rfl, hlate⟩
        | some cache =>
          left
          rw [Caches.cacheFor, show (c.onCaches r).caches.lookup K = some cache from hlookup]
          rfl
      · left
        rw [if_neg hK]
        rfl
  | @sweep cacheKey key _ =>
    left
    exact Caches.settings_removeEntries [(cacheKey, key)] c.caches K

theorem founded_of_mem (h : c.Founded proxy) (hx : x ∈ c.stored) :
    ∃ settings, c.founded proxy (x.key proxy.crates.hashers.defaultHash) = some settings := by
  have hmem : x ∈ c.stored.filter fun y => decide (y.key proxy.crates.hashers.defaultHash =
      x.key proxy.crates.hashers.defaultHash) := List.mem_filter.mpr ⟨hx, by simp⟩
  have hy := List.getLast?_eq_some_getLast (List.ne_nil_of_mem hmem)
  obtain ⟨config, hconfig⟩ := Option.isSome_iff_exists.mp
    (h.configured _ (mem_of_founder (c := c) hy).1)
  refine ⟨config.settings, ?_⟩
  rw [founded, founder, hy, Option.bind_some, hconfig, Option.map_some]

/-- A store founds a cache only where there is none under its key. -/
theorem founded_cons (h : c.Founded proxy) (hd : d.stored = x :: c.stored) {config : CacheConfig}
    (hconfig : x.selected.cacheConfig = some config) (K : Str) : d.founded proxy K =
      (c.founded proxy K).or
        (if x.key proxy.crates.hashers.defaultHash = K then some config.settings else none) := by
  unfold founded
  rw [founder_cons hd]
  cases hfounder : c.founder proxy K with
  | none =>
    rw [Option.none_or, Option.bind_none, Option.map_none, Option.none_or]
    split
    next => rw [Option.bind_some, hconfig, Option.map_some]
    next => rfl
  | some y =>
    obtain ⟨config', hconfig'⟩ := Option.isSome_iff_exists.mp
      (h.configured y (mem_of_founder hfounder).1)
    rw [Option.some_or, Option.bind_some, hconfig', Option.map_some, Option.some_or]

/-- The cache that a store goes to has the settings of the first store under its key. -/
theorem settings_cacheFor (h : c.Founded proxy) {config : CacheConfig}
    (htime : c.clock + (c.caches.cacheFor config K).ttl < instantEnd) :
    (c.caches.cacheFor config K).settings = (c.founded proxy K).getD config.settings := by
  have hcaches := h.caches K
  unfold Caches.cacheFor at htime ⊢
  unfold Barren at hcaches
  cases hlookup : c.caches.lookup K with
  | none =>
    rw [hlookup, Option.map_none] at hcaches
    rcases hcaches with hcaches | ⟨_, _, hbarren, _⟩
    · rw [← hcaches]
      rfl
    · cases hbarren
  | some cache =>
    rw [hlookup, Option.map_some] at hcaches
    rw [hlookup] at htime
    rcases hcaches with hcaches | ⟨_, _, hsettings, hlate⟩
    · rw [← hcaches]
      rfl
    · cases hsettings
      exact absurd hlate (Nat.not_le.mpr htime)

/-- An exchange is stored at the moment of its step. -/
theorem now_of_exchangeAt (h : c.step proxy e = some d) (hx : c.exchangeAt e = some x) :
    x.now = d.clock := by
  obtain ⟨_, _, c', heffect, rfl⟩ := step_eq_some h
  cases effected heffect with
  | arrive _ => simp [exchangeAt] at hx
  | prepare _ => simp [exchangeAt] at hx
  | sweep => simp [exchangeAt] at hx
  | turn hid =>
    simp only [exchangeAt, hid] at hx
    obtain ⟨_, hex⟩ := LoopContext.exchange_some hx
    exact hex.now

/-- A put that returns has filed its entry with an end that is an `Instant`. -/
theorem inTime_of_exchangeAt (hc : c.Sound proxy) (h : c.step proxy e = some d)
    (hx : c.exchangeAt e = some x) {config : CacheConfig}
    (hconfig : x.selected.cacheConfig = some config) :
    c.clock + (c.caches.cacheFor config (x.key proxy.crates.hashers.defaultHash)).ttl <
      instantEnd := by
  obtain ⟨hstart, _, c', heffect, rfl⟩ := step_eq_some h
  cases effected heffect with
  | arrive _ => simp [exchangeAt] at hx
  | prepare _ => simp [exchangeAt] at hx
  | sweep => simp [exchangeAt] at hx
  | turn hid =>
    simp only [exchangeAt, hid] at hx
    obtain ⟨config', hex⟩ := LoopContext.exchange_some hx
    rw [hex.selected] at hconfig
    cases hconfig.symm.trans hex.configured
    have htime := hex.inTime
    rw [crates_of_admits (hc.clients hid).1] at htime
    exact Nat.lt_of_le_of_lt (Nat.add_le_add_right hstart _) htime

theorem founded_step (hc : c.Sound proxy) (h : c.Founded proxy) (hstep : c.step proxy e = some d) :
    d.Founded proxy := by
  have hstored := stored_of_step hstep
  have hclock := clock_le_step hstep
  cases hx : c.exchangeAt e with
  | none =>
    rw [hx, Option.toList_none, List.nil_append] at hstored
    have hfounded : d.founded proxy = c.founded proxy := by
      funext K
      rw [founded, founder, hstored]
      rfl
    refine ⟨fun K => ?_, ?_, ?_, ?_⟩
    · rw [hfounded]
      rcases settings_of_no_exchange hstep hx K with hsame | ⟨hnone, hbarren⟩
      · rw [hsame]
        exact (h.caches K).imp id fun hb => ⟨hb.1, hb.2.later hsame hclock⟩
      · refine .inr ⟨?_, hbarren⟩
        rcases h.caches K with hcaches | ⟨hfounded', _⟩
        · rw [← hcaches, hnone, Option.map_none]
        · exact hfounded'
    · rw [hstored]
      exact h.configured
    · rw [hstored, hfounded]
      exact h.filed
    · rw [hstored]
      exact fun y hy => Nat.le_trans (h.times y hy) hclock
  | some x =>
    obtain ⟨config, hconfig, _, hfiled, hcaches⟩ := exchangeAt_some hc hstep hx
    rw [hx] at hstored
    have hfounded := founded_cons h hstored hconfig
    have hsettings := settings_cacheFor h (inTime_of_exchangeAt hc hstep hx hconfig)
    refine ⟨fun K => ?_, ?_, ?_, ?_⟩
    · have hlookup := Caches.lookup_afterStore (K := K) proxy.crates.toVec c.caches config
        (x.key proxy.crates.hashers.defaultHash) x.entry x.now
      rw [← hcaches] at hlookup
      rw [hfounded]
      by_cases hK : x.key proxy.crates.hashers.defaultHash = K
      · subst hK
        left
        rw [hlookup, if_pos rfl, if_pos rfl, Option.map_some]
        refine (congrArg some hsettings).trans ?_
        cases c.founded proxy (x.key proxy.crates.hashers.defaultHash) <;> rfl
      · rw [if_neg (Ne.symm hK)] at hlookup
        rw [if_neg hK, Option.or_none, hlookup]
        exact (h.caches K).imp id fun hb => ⟨hb.1, hb.2.later (by rw [hlookup]) hclock⟩
    · rw [hstored]
      exact List.forall_mem_cons.mpr ⟨by rw [hconfig]; rfl, h.configured⟩
    · rw [hstored]
      refine List.forall_mem_cons.mpr ⟨fun cache hcache => ?_, fun y hy cache hcache => ?_⟩
      · rw [hfounded, if_pos rfl] at hcache
        have hsame : (c.caches.cacheFor config
            (x.key proxy.crates.hashers.defaultHash)).settings = cache.settings := by
          rw [hsettings]
          cases hold : c.founded proxy (x.key proxy.crates.hashers.defaultHash) with
          | none => simpa [hold] using hcache
          | some settings => simpa [hold] using hcache
        rw [hfiled]
        exact Cache.filed_congr hsame _ _
      · obtain ⟨settings, hold⟩ := founded_of_mem h hy
        rw [hfounded, hold, Option.some_or] at hcache
        exact h.filed y hy cache (hold.trans hcache)
    · rw [hstored]
      refine List.forall_mem_cons.mpr ⟨?_, fun y hy => Nat.le_trans (h.times y hy) hclock⟩
      exact Nat.le_of_eq (now_of_exchangeAt hstep hx)

theorem founded_run {ok : CacheClients → CacheEvent → Prop} {es : List CacheEvent} {now : Nat}
    (h : Run (step proxy) ok (idle now) es c) : c.Founded proxy := by
  have hboth : c.Sound proxy ∧ c.Founded proxy := by
    refine h.invariant (P := fun c => c.Sound proxy ∧ c.Founded proxy) ?_
      ⟨idle_sound now, idle_founded now⟩
    rintro c e d ⟨hsound, hfounded⟩ _ hstep
    exact ⟨sound_step hsound hstep, founded_step hsound hfounded hstep⟩
  exact hboth.2

/-- Every exchange is filed as a new cache of its founder's target would file it. -/
theorem filed_of_founder (h : c.Founded proxy) (hx : x ∈ c.stored) :
    ∃ y config, c.founder proxy (x.key proxy.crates.hashers.defaultHash) = some y ∧
      y.selected.cacheConfig = some config ∧
      x.filed = (Cache.new config).filed proxy.crates.toVec x.entry x.now := by
  obtain ⟨settings, hsettings⟩ := founded_of_mem h hx
  obtain ⟨config, hconfig, rfl⟩ := Option.map_eq_some_iff.mp hsettings
  obtain ⟨y, hy, hconfig⟩ := Option.bind_eq_some_iff.mp hconfig
  exact ⟨y, config, hy, hconfig, h.filed x hx (Cache.new config) hsettings⟩

/-- What is answered out of the cache is alive at the moment of the answer. -/
theorem live_of_answer {reply : Reply} {resp : Response} (hc : c.Sound proxy)
    (h : c.step proxy e = some d) (hreply : Answers proxy c e reply)
    (hcached : reply.ending = .cached resp) :
    ∃ x ∈ c.stored, reply.source = some x ∧ e.time < x.filed.expiresAt := by
  cases hreply with
  | @arrival id env req swept ending hended =>
    cases hcached
    rcases Progress.bind_eq_ended.mp hended with hended | ⟨_, _, hended⟩
    · obtain ⟨selected, url, x, hreceive, hurl, _, hx, _, hlive, _⟩ := hit_source hc hended
      refine ⟨x, (mem_of_lastStored hx).1, ?_, hlive⟩
      simp [Proxy.plainKey, hreceive, hurl, hx]
    · simp at hended
  | preparation hid hended =>
    cases hcached
    exact absurd hended prepared_not_cached
  | turn hid hended =>
    cases hcached
    obtain ⟨x, _, hhit, hx, _⟩ := replay_source hc (hc.clients hid).1 hended
    exact ⟨x, (mem_of_lastStored hx).1, hx, (Caches.findCached_hit.mp hhit).2⟩

end CacheClients

/-- In every run a response out of the cache is filed, and lives, as the target of the first
exchange under its key has it, and not as the target has it whose exchange it is. -/
theorem cached_reply_age {proxy : Proxy} {start : Nat} {es : List CacheEvent} {c d : CacheClients}
    {e : CacheEvent}
    (h : Run (CacheClients.step proxy) anyStep (CacheClients.idle start) es c)
    (hstep : c.step proxy e = some d) {reply : Reply} {resp : Response}
    (hreply : d.replies = reply :: c.replies) (hcached : reply.ending = .cached resp) :
    ∃ x y config, reply.source = some x ∧ x ∈ c.stored ∧
      c.founder proxy (x.key proxy.crates.hashers.defaultHash) = some y ∧
      y.selected.cacheConfig = some config ∧
      x.filed = (Cache.new config).filed proxy.crates.toVec x.entry x.now ∧
      x.now ≤ e.time ∧ e.time < x.now + fromSecs config.ttlSeconds := by
  have hsound := CacheClients.sound_run h
  have hfounded := CacheClients.founded_run h
  have hanswer : CacheClients.Answers proxy c e reply := by
    rcases CacheClients.replies_of_step hstep with hsame | ⟨reply', hanswer, hreplies⟩
    · have hlength := congrArg List.length (hreply.symm.trans hsame)
      simp at hlength
    · cases hreply.symm.trans hreplies
      exact hanswer
  obtain ⟨x, hx, hsource, hlive⟩ := CacheClients.live_of_answer hsound hstep hanswer hcached
  obtain ⟨y, config, hy, hconfig, hfiled⟩ := CacheClients.filed_of_founder hfounded hx
  obtain ⟨hstart, htime, _, _, _⟩ := CacheClients.step_eq_some hstep
  have hmade := hfounded.times x hx
  refine ⟨x, y, config, hsource, hx, hy, hconfig, hfiled, by omega, ?_⟩
  rw [hfiled] at hlive
  exact hlive

set_option maxRecDepth 2000 in
theorem cached_reply_age_repeated :
    ∃ (proxy : Proxy) (env : Surroundings) (c d : CacheClients) (reply : Reply) (resp : Response),
    Proxy.ofConfig hashingCrates (cachingConfig ["http://localhost:5001".toList]) = .ok proxy ∧
    env.targetOrder = proxy.targetMap.entries ∧
    Run (CacheClients.step proxy) anyStep (CacheClients.idle 0)
      (fetched 0 env (getRequest "/api/users".toList [])
        (plainRound (.response (textResponse [] "users")))) c ∧
    c.step proxy (.arrive 1 env (getRequest "/api/users".toList []) []) = some d ∧
    d.replies = reply :: c.replies ∧ reply.ending = .cached resp ∧
    ∃ x ∈ c.stored, reply.source = some x ∧ env.varyNow < x.now + fromSecs 60 := by
  have htrace : ∃ (proxy : Proxy) (env : Surroundings) (c d : CacheClients) (reply : Reply)
      (resp : Response) (x : Exchange),
      Proxy.ofConfig hashingCrates (cachingConfig ["http://localhost:5001".toList]) = .ok proxy ∧
      env.targetOrder = proxy.targetMap.entries ∧
      Run (CacheClients.step proxy) anyStep (CacheClients.idle 0)
        (fetched 0 env (getRequest "/api/users".toList [])
          (plainRound (.response (textResponse [] "users")))) c ∧
      c.step proxy (.arrive 1 env (getRequest "/api/users".toList []) []) = some d ∧
      d.replies = reply :: c.replies ∧ reply.ending = .cached resp ∧ c.stored = [x] ∧
      x.selected.cacheConfig = some ⟨60, 10, false, 60⟩ :=
    ⟨_, plainSurroundings _ (fun _ => plainRound .timedOut), _, _, _, _, _, rfl, rfl,
      .cons trivial rfl (.cons trivial rfl (.cons trivial rfl (.nil _))), rfl, rfl, rfl, rfl, rfl⟩
  obtain ⟨proxy, env, c, d, reply, resp, x, hproxy, horder, hrun, hstep, hreply, hcached, hstored,
    hconfig⟩ := htrace
  obtain ⟨x', y, config, hsource, hx, hy, hfirst, _, _, hlive⟩ :=
    cached_reply_age hrun hstep hreply hcached
  have hmem := (CacheClients.mem_of_founder hy).1
  rw [hstored, List.mem_singleton] at hmem
  subst hmem
  cases hconfig.symm.trans hfirst
  exact ⟨proxy, env, c, d, reply, resp, hproxy, horder, hrun, hstep, hreply, hcached, x', hx,
    hsource, hlive⟩

end Road7
