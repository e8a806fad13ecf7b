import Road7.CacheHistory

namespace Road7

/-- A call of `clean_expired_entries` on its way: the time it has read, whether it is still
iterating, and the keys it has collected and not removed yet. -/
structure Sweep where
  now : Nat
  iterating : Bool
  collected : List Str
deriving DecidableEq, Repr

structure SweptCache where
  cache : Cache
  sweeps : List Sweep
  clock : Nat

/-- A put that returns takes effect; a sweep reads the time, comes to an entry, ends its iteration,
removes the next key it has collected. -/
inductive SweepEvent where
  | put (key : Str) (response : CacheEntry) (now : Nat)
  | start (now : Nat)
  | visit (i : Nat) (key : Str) (now : Nat)
  | collect (i : Nat) (now : Nat)
  | remove (i : Nat) (now : Nat)

def SweepEvent.time : SweepEvent → Nat
  | .put _ _ now => now
  | .start now => now
  | .visit _ _ now => now
  | .collect _ now => now
  | .remove _ now => now

def SweepEvent.put? : SweepEvent → Option CacheCall
  | .put key response now => some (.put key response now)
  | _ => none

namespace SweptCache

def start (config : CacheConfig) (now : Nat) : SweptCache := ⟨Cache.new config, [], now⟩

def effect (toVec : Bytes → Option Bytes) (c : SweptCache) : SweepEvent → Option SweptCache
  | .put key response now =>
    (c.cache.put toVec key response now).toOption.map (fun cache => { c with cache })
  | .start now => some { c with sweeps := c.sweeps ++ [⟨now, true, []⟩] }
  | .visit i key _ =>
    match c.sweeps[i]?, c.cache.entries.lookup key with
    | some ⟨now, true, collected⟩, some entry =>
      if entry.expiresAt ≤ now then
        some { c with sweeps := c.sweeps.set i ⟨now, true, collected ++ [key]⟩ }
      else some c
    | _, _ => none
  | .collect i _ =>
    match c.sweeps[i]? with
    | some ⟨now, true, collected⟩ =>
      some { c with sweeps := c.sweeps.set i ⟨now, false, collected⟩ }
    | _ => none
  | .remove i _ =>
    match c.sweeps[i]? with
    | some ⟨now, false, key :: collected⟩ =>
      some { c with
        cache := { c.cache with entries := c.cache.entries.erase key }
        sweeps := c.sweeps.set i ⟨now, false, collected⟩ }
    | _ => none

def step (toVec : Bytes → Option Bytes) (c : SweptCache) (e : SweepEvent) : Option SweptCache :=
  if c.clock ≤ e.time then (c.effect toVec e).map (fun d => { d with clock := e.time }) else none

/-- The condition that a put is not to a key that a sweep has collected and not removed yet. -/
def SparesCollected (c : SweptCache) : SweepEvent → Prop
  | .put key _ _ => ∀ s ∈ c.sweeps, key ∉ s.collected
  | _ => True

instance (c : SweptCache) (e : SweepEvent) : Decidable (c.SparesCollected e) :=
  match e with
  | .put key _ _ => inferInstanceAs (Decidable (∀ s ∈ c.sweeps, key ∉ s.collected))
  | .start _ | .visit _ _ _ | .collect _ _ | .remove _ _ => isTrue trivial

end SweptCache

/-- What a sweep has collected was expired when it started. -/
def Sweep.Sound (cache : Cache) (clock : Nat) (s : Sweep) : Prop :=
  s.now ≤ clock ∧ ∀ key ∈ s.collected, ∀ entry,
    cache.entries.lookup key = some entry → entry.expiresAt ≤ s.now

namespace Sweep

variable {toVec : Bytes → Option Bytes} {cache : Cache} {clock now : Nat} {s : Sweep} {key : Str}

theorem Sound.later (h : s.Sound cache clock) (hle : clock ≤ now) : s.Sound cache now :=
  ⟨Nat.le_trans h.1 hle, h.2⟩

theorem Sound.put (h : s.Sound cache clock) (hkey : key ∉ s.collected) (response : CacheEntry) :
    s.Sound (cache.afterPut toVec key response now) clock := by
  refine ⟨h.1, fun k hk entry hentry => h.2 k hk entry ?_⟩
  have hne : k ≠ key := by
    rintro rfl
    exact hkey hk
  rwa [Cache.afterPut, AList.lookup_insert_ne hne] at hentry

theorem Sound.erase (h : s.Sound cache clock) (key : Str) :
    s.Sound { cache with entries := cache.entries.erase key } clock := by
  refine ⟨h.1, fun k hk entry hentry => h.2 k hk entry ?_⟩
  by_cases hk' : k = key
  · subst hk'
    simp [AList.lookup_erase] at hentry
  · rwa [AList.lookup_erase_ne hk'] at hentry

end Sweep

namespace SweptCache

def Sound (c : SweptCache) : Prop := ∀ s ∈ c.sweeps, s.Sound c.cache c.clock

def timed (c : SweptCache) : TimedCache := ⟨c.cache, c.clock⟩

variable {toVec : Bytes → Option Bytes} {c d : SweptCache} {e : SweepEvent}
  {es : List SweepEvent} {key : Str} {last : Option (CacheEntry × Nat)}

theorem step_eq_some (h : c.step toVec e = some d) :
    c.clock ≤ e.time ∧ ∃ c', c.effect toVec e = some c' ∧ d = { c' with clock := e.time } := by
  unfold step at h
  split at h
  next hclock =>
    obtain ⟨c', hc', rfl⟩ := Option.map_eq_some_iff.mp h
    exact ⟨hclock, c', hc', rfl⟩
  next => simp at h

theorem sound_set {sweeps : List Sweep} {cache : Cache} {clock i : Nat} {s : Sweep}
    (h : ∀ s ∈ sweeps, s.Sound cache clock) (hs : s.Sound cache clock) :
    ∀ s' ∈ sweeps.set i s, s'.Sound cache clock := by
  intro s' hs'
  rcases List.mem_or_eq_of_mem_set hs' with hold | rfl
  · exact h s' hold
  · exact hs

theorem effect_put {key : Str} {response : CacheEntry} {now : Nat}
    (h : c.effect toVec (.put key response now) = some d) :
    now + c.cache.ttl < instantEnd ∧
      d = { c with cache := c.cache.afterPut toVec key response now } := by
  obtain ⟨after, hafter, rfl⟩ := Option.map_eq_some_iff.mp h
  rcases Nat.lt_or_ge (now + c.cache.ttl) instantEnd with hlt | hge
  · rw [Cache.put_of_lt response hlt] at hafter
    cases hafter
    exact ⟨hlt, rfl⟩
  · rw [Cache.put_of_le response hge] at hafter
    cases hafter

/-- A step that spares the collected keys leaves the sweeps with expired keys only. -/
theorem sound_step (h : c.Sound) (hok : c.SparesCollected e) (hstep : c.step toVec e = some d) :
    d.Sound := by
  obtain ⟨hclock, c', heffect, rfl⟩ := step_eq_some hstep
  have hsound : ∀ s ∈ c.sweeps, s.Sound c.cache e.time := fun s hs => (h s hs).later hclock
  cases e with
  | put key response now =>
    obtain ⟨_, rfl⟩ := effect_put heffect
    exact fun s hs => (hsound s hs).put (hok s hs) response
  | start now =>
    cases heffect
    intro s hs
    rcases List.mem_append.mp hs with hold | hnew
    · exact hsound s hold
    · cases List.mem_singleton.mp hnew
      exact ⟨Nat.le_refl _, by simp⟩
  | visit i key now =>
    simp only [effect] at heffect
    split at heffect
    next started collected entry hi hentry =>
      have hs := hsound _ (List.mem_of_getElem? hi)
      split at heffect
      next hexpired =>
        cases heffect
        refine sound_set hsound ⟨hs.1, fun k hk found hfound => ?_⟩
        rcases List.mem_append.mp hk with hold | hnew
        · exact hs.2 k hold found hfound
        · cases List.mem_singleton.mp hnew
          cases hentry.symm.trans hfound
          exact hexpired
      next =>
        cases heffect
        exact hsound
    next => simp at heffect
  | collect i now =>
    simp only [effect] at heffect
    split at heffect
    next started collected hi =>
      cases heffect
      have hs := hsound _ (List.mem_of_getElem? hi)
      exact sound_set hsound ⟨hs.1, hs.2⟩
    next => simp at heffect
  | remove i now =>
    simp only [effect] at heffect
    split at heffect
    next started key collected hi =>
      cases heffect
      have hs := (hsound _ (List.mem_of_getElem? hi)).erase key
      refine sound_set (fun s hs => (hsound s hs).erase key) ⟨hs.1, fun k hk => ?_⟩
      exact hs.2 k (List.mem_cons_of_mem _ hk)
    next => simp at heffect

theorem remove_eq {i now : Nat} (hstep : c.step toVec (.remove i now) = some d) :
    ∃ s ∈ c.sweeps, ∃ key ∈ s.collected,
      d.cache = { c.cache with entries := c.cache.entries.erase key } := by
  obtain ⟨_, c', heffect, rfl⟩ := step_eq_some hstep
  simp only [effect] at heffect
  split at heffect
  next started key collected hi =>
    cases heffect
    exact ⟨_, List.mem_of_getElem? hi, key, List.mem_cons_self, rfl⟩
  next => simp at heffect

/-- A removal finds an entry that was expired when its sweep started. -/
theorem cache_of_remove {i now : Nat} (h : c.Sound) (hstep : c.step toVec (.remove i now) = some d) :
    ∃ key, d.cache = { c.cache with entries := c.cache.entries.erase key } ∧
      ∀ entry, c.cache.entries.lookup key = some entry → entry.expiresAt ≤ c.clock := by
  obtain ⟨s, hs, key, hkey, hcache⟩ := remove_eq hstep
  have hsound := h s hs
  exact ⟨key, hcache, fun entry hentry => Nat.le_trans (hsound.2 key hkey entry hentry) hsound.1⟩

/-- Other steps than puts and removals do not touch the entries. -/
theorem cache_of_step (hstep : c.step toVec e = some d) :
    (∃ i now, e = .remove i now) ∨
      d.cache = e.put?.elim c.cache (c.cache.effect toVec) := by
  obtain ⟨_, c', heffect, rfl⟩ := step_eq_some hstep
  cases e with
  | put =>
    obtain ⟨hlt, rfl⟩ := effect_put heffect
    exact .inr (TimedCache.effect_put_of_lt hlt).symm
  | start => cases heffect; exact .inr rfl
  | visit i key now =>
    simp only [effect] at heffect
    split at heffect
    next =>
      split at heffect <;> cases heffect <;> exact .inr rfl
    next => simp at heffect
  | collect i now =>
    simp only [effect] at heffect
    split at heffect
    next => cases heffect; exact .inr rfl
    next => simp at heffect
  | remove i now => exact .inl ⟨i, now, rfl⟩

/-- The removal of an expired entry does not show. -/
theorem filter_live_erase {cache : Cache} {key k : Str} {now : Nat}
    (h : ∀ entry, cache.entries.lookup key = some entry → entry.expiresAt ≤ now) :
    ((cache.entries.erase key).lookup k).filter (·.live now) =
      (cache.entries.lookup k).filter (·.live now) := by
  by_cases hk : k = key
  · subst hk
    rw [AList.lookup_erase]
    cases hentry : cache.entries.lookup k with
    | none => rfl
    | some entry => exact (filter_live_of_le (h entry hentry)).symm
  · rw [AList.lookup_erase_ne hk]

theorem agrees_step (hsound : c.Sound) (h : c.timed.Agrees toVec key last)
    (hstep : c.step toVec e = some d) :
    d.timed.Agrees toVec key (e.put?.elim last (recordPut key last)) := by
  obtain ⟨hclock, c', heffect, hd⟩ := step_eq_some hstep
  have htime : d.clock = e.time := by rw [hd]
  rcases cache_of_step hstep with ⟨i, now, rfl⟩ | hcache
  · obtain ⟨k, hcache, hexpired⟩ := cache_of_remove hsound hstep
    intro t ht
    have ht' : c.clock ≤ t := Nat.le_trans hclock (htime ▸ ht)
    have hold := h t ht'
    simp only [timed, hcache] at hold ⊢
    rw [filter_live_erase (fun entry hentry => Nat.le_trans (hexpired entry hentry) ht')]
    exact hold
  · cases e with
    | put k response now =>
      have hput : c.timed.step toVec (.put k response now) = some d.timed := by
        have hle : c.timed.clock ≤ (CacheCall.put k response now).time := hclock
        have hd : d.timed = ⟨c.cache.effect toVec (.put k response now), now⟩ := by
          rw [timed, hcache, htime]
          rfl
        rw [TimedCache.step, if_pos hle, hd]
        rfl
      refine TimedCache.agrees_step h (fun response' now' heq => ?_) hput
      cases heq
      exact (effect_put heffect).1
    | _ =>
      intro t ht
      have hold := h t (Nat.le_trans hclock (htime ▸ ht))
      rw [timed, hcache]
      exact hold

theorem config_of_step (hstep : c.step toVec e = some d) :
    d.cache.ttl = c.cache.ttl ∧ d.cache.serialize = c.cache.serialize := by
  rcases cache_of_step hstep with ⟨i, now, rfl⟩ | hcache
  · obtain ⟨_, _, _, _, hcache⟩ := remove_eq hstep
    rw [hcache]
    exact ⟨rfl, rfl⟩
  · rw [hcache]
    cases e with
    | put key response now =>
      exact ⟨TimedCache.effect_ttl c.cache (.put key response now),
        TimedCache.effect_serialize c.cache (.put key response now)⟩
    | _ => exact ⟨rfl, rfl⟩

theorem sound_run (h : Run (step toVec) SparesCollected c es d) (hsound : c.Sound) : d.Sound := by
  induction h with
  | nil => exact hsound
  | cons hok hstep _ ih => exact ih (sound_step hsound hok hstep)

theorem agrees_run (h : Run (step toVec) SparesCollected c es d) (hsound : c.Sound)
    (hc : c.timed.Agrees toVec key last) :
    d.timed.Agrees toVec key ((es.filterMap SweepEvent.put?).foldl (recordPut key) last) := by
  induction h generalizing last with
  | nil => exact hc
  | @cons _ _ _ e es hok hstep _ ih =>
    have hnext := ih (sound_step hsound hok hstep) (agrees_step hsound hc hstep)
    cases hput : e.put? with
    | none => simpa [hput] using hnext
    | some call => simpa [hput] using hnext

/-- A put to a key that a sweep is about to remove is lost, however long it was to live. -/
theorem put_to_collected_lost {i started put now : Nat} {collected : List Str}
    (hi : c.sweeps[i]? = some ⟨started, false, key :: collected⟩) (response : CacheEntry)
    (hput : c.clock ≤ put) (hintime : put + c.cache.ttl < instantEnd) (hnow : put ≤ now) :
    ∃ d f, c.step toVec (.put key response put) = some d ∧
      d.step toVec (.remove i now) = some f ∧ (f.cache.get key now).1 = none := by
  let d : SweptCache := { c with cache := c.cache.afterPut toVec key response put, clock := put }
  have hremove : d.step toVec (.remove i now) = some ⟨{ d.cache with
      entries := d.cache.entries.erase key }, d.sweeps.set i ⟨started, false, collected⟩, now⟩ := by
    simp [d, step, effect, SweepEvent.time, hnow, hi]
  refine ⟨d, _, ?_, hremove, ?_⟩
  · simp [d, step, effect, SweepEvent.time, hput, Cache.put_of_lt response hintime, Except.toOption]
  · rw [Cache.get_eq, AList.lookup_erase]
    rfl

/-- The events of a sweep of `c` that nothing comes between. -/
def sweepAt (c : SweptCache) (now : Nat) : List SweepEvent :=
  let i := c.sweeps.length
  let expired := c.cache.entries.entries.filter (fun e => e.2.expiresAt ≤ now)
  .start now :: c.cache.entries.entries.map (fun e => .visit i e.1 now) ++
    .collect i now :: expired.map (fun _ => .remove i now)

theorem visits_run (sweeps : List Sweep) (cache : Cache) (now : Nat)
    {entries : List (Sigma (fun _ : Str => CacheEntry))}
    (h : ∀ e ∈ entries, cache.entries.lookup e.1 = some e.2) (collected : List Str) :
    Run (step toVec) anyStep ⟨cache, sweeps ++ [⟨now, true, collected⟩], now⟩
      (entries.map (fun e => .visit sweeps.length e.1 now))
      ⟨cache, sweeps ++ [⟨now, true, collected ++
        (entries.filter (fun e => e.2.expiresAt ≤ now)).map Sigma.fst⟩], now⟩ := by
  induction entries generalizing collected with
  | nil => simpa using Run.nil _
  | cons e entries ih =>
    have hrest := ih (fun e he => h e (List.mem_cons_of_mem _ he))
    have he := h e List.mem_cons_self
    by_cases hexpired : e.2.expiresAt ≤ now
    · have hnext := hrest (collected ++ [e.1])
      simp only [List.append_assoc, List.singleton_append] at hnext
      simp only [List.filter_cons, hexpired, decide_true, if_true, List.map_cons]
      refine .cons trivial ?_ hnext
      simp [step, effect, SweepEvent.time, he, hexpired]
    · simp only [List.filter_cons, hexpired, decide_false, List.map_cons]
      refine .cons trivial ?_ (hrest collected)
      simp [step, effect, SweepEvent.time, he, hexpired]

theorem removes_run (sweeps : List Sweep) (now : Nat) (keys : List Str) (cache : Cache) :
    Run (step toVec) anyStep ⟨cache, sweeps ++ [⟨now, false, keys⟩], now⟩
      (keys.map (fun _ => .remove sweeps.length now))
      ⟨{ cache with entries := keys.foldl (fun m key => m.erase key) cache.entries },
        sweeps ++ [⟨now, false, []⟩], now⟩ := by
  induction keys generalizing cache with
  | nil => exact .nil _
  | cons key keys ih =>
    refine .cons trivial ?_ (ih { cache with entries := cache.entries.erase key })
    simp [step, effect, SweepEvent.time]

/-- A sweep that nothing comes between does what `cleanExpiredEntries` says. -/
theorem sweepAt_run {now : Nat} (hnow : c.clock ≤ now) :
    Run (step toVec) anyStep c (c.sweepAt now)
      ⟨c.cache.cleanExpiredEntries now, c.sweeps ++ [⟨now, false, []⟩], now⟩ := by
  have hstart : c.step toVec (.start now) = some ⟨c.cache, c.sweeps ++ [⟨now, true, []⟩], now⟩ := by
    simp [step, effect, SweepEvent.time, hnow]
  have hvisits : Run (step toVec) anyStep _ _ _ := visits_run c.sweeps c.cache now
    (fun e he => AList.mem_lookup_iff.mpr he) []
  have hcollect : step toVec ⟨c.cache, c.sweeps ++ [⟨now, true, [] ++
      (c.cache.entries.entries.filter (fun e => e.2.expiresAt ≤ now)).map Sigma.fst⟩], now⟩
      (.collect c.sweeps.length now) = some ⟨c.cache, c.sweeps ++ [⟨now, false,
        (c.cache.entries.entries.filter (fun e => e.2.expiresAt ≤ now)).map Sigma.fst⟩], now⟩ := by
    simp [step, effect, SweepEvent.time]
  have hremoves : Run (step toVec) anyStep _ _ _ := removes_run c.sweeps now
    ((c.cache.entries.entries.filter (fun e => e.2.expiresAt ≤ now)).map Sigma.fst) c.cache
  simp only [List.map_map] at hremoves
  exact .cons trivial hstart (hvisits.append (.cons trivial hcollect hremoves))

end SweptCache

/-- As long as no put is to a key between its collection by a sweep and its removal, no sweep
removes an entry that is still to live, and a get finds of every key what was last put there. -/
theorem sweep_keeps_live_entries {toVec : Bytes → Option Bytes} {config : CacheConfig}
    {now : Nat} {es : List SweepEvent} {c : SweptCache}
    (h : Run (SweptCache.step toVec) SweptCache.SparesCollected (SweptCache.start config now) es c) :
    (∀ i t d key entry, c.step toVec (.remove i t) = some d →
      c.cache.entries.lookup key = some entry → t < entry.expiresAt →
      d.cache.entries.lookup key = some entry) ∧
    ∀ key t, c.clock ≤ t → (c.cache.get key t).1 =
      (Cache.new config).expected toVec (lastPut key (es.filterMap SweepEvent.put?)) t := by
  have hsound : (SweptCache.start config now).Sound := fun s hs => by cases hs
  have hcache : c.cache.ttl = (Cache.new config).ttl ∧
      c.cache.serialize = (Cache.new config).serialize := by
    refine h.invariant (P := fun c => c.cache.ttl = (Cache.new config).ttl ∧
      c.cache.serialize = (Cache.new config).serialize) ?_ ⟨rfl, rfl⟩
    rintro c e d ⟨httl, hserialize⟩ _ hstep
    obtain ⟨httl', hserialize'⟩ := SweptCache.config_of_step hstep
    exact ⟨httl'.trans httl, hserialize'.trans hserialize⟩
  constructor
  · intro i t d key entry hstep hentry hlive
    have hc := SweptCache.sound_run h hsound
    obtain ⟨k, hd, hexpired⟩ := SweptCache.cache_of_remove hc hstep
    have hclock := (SweptCache.step_eq_some hstep).1
    have hne : key ≠ k := by
      rintro rfl
      have hle := hexpired entry hentry
      have ht : c.clock ≤ t := hclock
      omega
    rw [hd, AList.lookup_erase_ne hne]
    exact hentry
  · intro key t ht
    have hstart : (SweptCache.start config now).timed.Agrees toVec key none := fun _ _ => rfl
    have hagrees := SweptCache.agrees_run h hsound hstart t ht
    simp only [TimedCache.expected_eq, Cache.filed, SweptCache.timed, hcache] at hagrees
    rw [Cache.get_eq, hagrees, TimedCache.expected_eq]
    rfl

theorem sweep_keeps_live_entries_disjoint : ∃ c : SweptCache,
    Run (SweptCache.step some) SweptCache.SparesCollected
      (SweptCache.start ⟨1, 10, false, 60⟩ 0)
      [.put "a".toList (plainEntry []) 0, .start (fromSecs 2), .visit 0 "a".toList (fromSecs 2),
        .collect 0 (fromSecs 2), .put "b".toList (plainEntry []) (fromSecs 2),
        .remove 0 (fromSecs 2)] c ∧
    (c.cache.get "a".toList (fromSecs 2)).1 = none ∧
    (c.cache.get "b".toList (fromSecs 2)).1 =
      some { plainEntry [] with expiresAt := fromSecs 3 } := by
  have hrun : Run (SweptCache.step some) SweptCache.SparesCollected
      (SweptCache.start ⟨1, 10, false, 60⟩ 0)
      [.put "a".toList (plainEntry []) 0, .start (fromSecs 2), .visit 0 "a".toList (fromSecs 2),
        .collect 0 (fromSecs 2), .put "b".toList (plainEntry []) (fromSecs 2),
        .remove 0 (fromSecs 2)] _ :=
    .cons (by decide) rfl (.cons trivial rfl (.cons trivial rfl (.cons trivial rfl
      (.cons (by decide) rfl (.cons trivial rfl (.nil _))))))
  have hkeeps := (sweep_keeps_live_entries hrun).2
  exact ⟨_, hrun, hkeeps "a".toList _ (by decide), hkeeps "b".toList _ (by decide)⟩

/-- A put under a key that the sweep has collected and not removed: the new entry, with a
second to live, is removed. -/
theorem sweep_removes_live_entry : ∃ (c d : SweptCache) (entry : CacheEntry),
    Run (SweptCache.step some) anyStep (SweptCache.start ⟨1, 10, false, 60⟩ 0)
      [.put "a".toList (plainEntry []) 0, .start (fromSecs 2), .visit 0 "a".toList (fromSecs 2),
        .collect 0 (fromSecs 2), .put "a".toList (plainEntry []) (fromSecs 2)] c ∧
    c.cache.entries.lookup "a".toList = some entry ∧ fromSecs 2 < entry.expiresAt ∧
    c.step some (.remove 0 (fromSecs 2)) = some d ∧ d.cache.entries.lookup "a".toList = none :=
  ⟨_, _, _, .cons trivial rfl (.cons trivial rfl (.cons trivial rfl (.cons trivial rfl
    (.cons trivial rfl (.nil _))))), rfl, by decide, rfl, rfl⟩

end Road7
