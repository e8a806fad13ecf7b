import Road7.CacheStore
import Road7.Runs

namespace Road7

/-- The calls on one cache, each at the moment at which it takes effect. -/
inductive CacheCall where
  | put (key : Str) (response : CacheEntry) (now : Nat)
  | get (key : Str) (now : Nat)
  | cleanExpiredEntries (now : Nat)

def CacheCall.time : CacheCall → Nat
  | .put _ _ now => now
  | .get _ now => now
  | .cleanExpiredEntries now => now

/-- A cache with the time of its last call. -/
structure TimedCache where
  cache : Cache
  clock : Nat

/-- What a call leaves; a `put` that panics has not inserted anything. -/
def Cache.effect (toVec : Bytes → Option Bytes) (cache : Cache) : CacheCall → Cache
  | .put key response now => (cache.put toVec key response now).toOption.getD cache
  | .get key now => (cache.get key now).2
  | .cleanExpiredEntries now => cache.cleanExpiredEntries now

def TimedCache.step (toVec : Bytes → Option Bytes) (c : TimedCache) (call : CacheCall) :
    Option TimedCache :=
  if c.clock ≤ call.time then some ⟨c.cache.effect toVec call, call.time⟩ else none

/-- What a store with a time to live is for: it knows of each key what was last put there, and
when. -/
def recordPut (key : Str) (last : Option (CacheEntry × Nat)) :
    CacheCall → Option (CacheEntry × Nat)
  | .put k response now => if k = key then some (response, now) else last
  | _ => last

def lastPut (key : Str) (calls : List CacheCall) : Option (CacheEntry × Nat) :=
  calls.foldl (recordPut key) none

/-- What `get` has to answer, given the last put. -/
def Cache.expected (toVec : Bytes → Option Bytes) (cache : Cache)
    (last : Option (CacheEntry × Nat)) (now : Nat) : Option CacheEntry :=
  match last with
  | some (response, put) =>
    if now < put + cache.ttl then some (cache.filed toVec response put) else none
  | none => none

namespace TimedCache

variable {toVec : Bytes → Option Bytes} {c d : TimedCache} {call : CacheCall}
  {calls : List CacheCall} {key : Str} {last : Option (CacheEntry × Nat)}

/-- From its last call on, the cache shows of a key the entry last put there as long as that is
to live. -/
def Agrees (toVec : Bytes → Option Bytes) (key : Str) (c : TimedCache)
    (last : Option (CacheEntry × Nat)) : Prop :=
  ∀ now, c.clock ≤ now →
    (c.cache.entries.lookup key).filter (·.live now) = c.cache.expected toVec last now

theorem step_eq_some (h : c.step toVec call = some d) :
    c.clock ≤ call.time ∧ d = ⟨c.cache.effect toVec call, call.time⟩ := by
  unfold step at h
  split at h
  next hclock => exact ⟨hclock, (Option.some.inj h).symm⟩
  next => simp at h

/-- The condition that what is put under the key expires at an `Instant`. -/
def PutsInTime (key : Str) (c : TimedCache) (call : CacheCall) : Prop :=
  ∀ response now, call = .put key response now → now + c.cache.ttl < instantEnd

theorem effect_put_of_lt {cache : Cache} {response : CacheEntry} {now : Nat}
    (h : now + cache.ttl < instantEnd) : cache.effect toVec (.put key response now) =
      cache.afterPut toVec key response now := by
  rw [Cache.effect, Cache.put_of_lt response h]
  rfl

theorem effect_put_of_le {cache : Cache} {response : CacheEntry} {now : Nat}
    (h : instantEnd ≤ now + cache.ttl) : cache.effect toVec (.put key response now) = cache := by
  rw [Cache.effect, Cache.put_of_le response h]
  rfl

theorem effect_ttl (cache : Cache) (call : CacheCall) :
    (cache.effect toVec call).ttl = cache.ttl := by
  cases call with
  | put key response now =>
    rcases Nat.lt_or_ge (now + cache.ttl) instantEnd with h | h
    · rw [effect_put_of_lt h]
      rfl
    · rw [effect_put_of_le h]
  | get key now =>
    simp only [Cache.effect, Cache.get]
    split
    next => split <;> rfl
    next => rfl
  | cleanExpiredEntries => rfl

theorem effect_serialize (cache : Cache) (call : CacheCall) :
    (cache.effect toVec call).serialize = cache.serialize := by
  cases call with
  | put key response now =>
    rcases Nat.lt_or_ge (now + cache.ttl) instantEnd with h | h
    · rw [effect_put_of_lt h]
      rfl
    · rw [effect_put_of_le h]
  | get key now =>
    simp only [Cache.effect, Cache.get]
    split
    next => split <;> rfl
    next => rfl
  | cleanExpiredEntries => rfl

theorem filed_effect (cache : Cache) (response : CacheEntry) (now : Nat) :
    (cache.effect toVec call).filed toVec response now = cache.filed toVec response now := by
  simp only [Cache.filed, effect_ttl, effect_serialize]

theorem expected_eq (cache : Cache) (last : Option (CacheEntry × Nat)) (now : Nat) :
    cache.expected toVec last now =
      (last.map (fun put => cache.filed toVec put.1 put.2)).filter (·.live now) := by
  cases last with
  | none => rfl
  | some put =>
    simp only [Cache.expected]
    split
    next hlive => exact (filter_live_of_lt hlive).symm
    next hdead => exact (filter_live_of_le (Nat.not_lt.mp hdead)).symm

theorem filter_live_mono {found : Option CacheEntry} {t now : Nat} (h : t ≤ now) :
    (found.filter (·.live t)).filter (·.live now) = found.filter (·.live now) := by
  cases found with
  | none => rfl
  | some entry =>
    by_cases hlive : t < entry.expiresAt
    · rw [filter_live_of_lt hlive]
    · rw [filter_live_of_le (Nat.not_lt.mp hlive), filter_live_of_le (by omega)]
      rfl

/-- Only a put that returns shows: a get and a sweep take away what no later get would return. -/
theorem lookup_effect (cache : Cache) {now : Nat} (h : call.time ≤ now) :
    ((cache.effect toVec call).entries.lookup key).filter (·.live now) =
      match call with
      | .put k response put =>
        if k = key ∧ put + cache.ttl < instantEnd then
          (some (cache.filed toVec response put)).filter (·.live now)
        else (cache.entries.lookup key).filter (·.live now)
      | _ => (cache.entries.lookup key).filter (·.live now) := by
  cases call with
  | put k response put =>
    rcases Nat.lt_or_ge (put + cache.ttl) instantEnd with hlt | hge
    · rw [effect_put_of_lt hlt]
      simp only [Cache.afterPut, hlt, and_true]
      split
      next hk =>
        subst hk
        rw [AList.lookup_insert]
      next hk => rw [AList.lookup_insert_ne (Ne.symm hk)]
    · rw [effect_put_of_le hge]
      simp [Nat.not_lt.mpr hge]
  | get k t =>
    simp only [Cache.effect, Cache.lookup_get]
    split
    next => exact filter_live_mono h
    next => rfl
  | cleanExpiredEntries t =>
    simp only [Cache.effect, Cache.lookup_cleanExpiredEntries]
    exact filter_live_mono h

theorem agrees_step (h : c.Agrees toVec key last) (hok : c.PutsInTime key call)
    (hstep : c.step toVec call = some d) : d.Agrees toVec key (recordPut key last call) := by
  obtain ⟨hclock, rfl⟩ := step_eq_some hstep
  intro now hnow
  have hold := h now (Nat.le_trans hclock hnow)
  rw [lookup_effect c.cache hnow]
  simp only [expected_eq, filed_effect] at hold ⊢
  cases call with
  | put k response put =>
    simp only [recordPut]
    split
    next hk =>
      rw [if_pos hk.1]
      rfl
    next hk =>
      rw [if_neg (fun heq => hk ⟨heq, hok response put (heq ▸ rfl)⟩)]
      exact hold
  | get => exact hold
  | cleanExpiredEntries => exact hold

theorem agrees_run (h : Run (step toVec) (PutsInTime key) c calls d) (hc : c.Agrees toVec key last) :
    d.Agrees toVec key (calls.foldl (recordPut key) last) := by
  induction h generalizing last with
  | nil => exact hc
  | cons hok hstep _ ih => exact ih (agrees_step hc hok hstep)

theorem config_of_run {ok : TimedCache → CacheCall → Prop} (h : Run (step toVec) ok c calls d) :
    d.cache.ttl = c.cache.ttl ∧ d.cache.serialize = c.cache.serialize := by
  refine h.invariant (P := fun d => d.cache.ttl = c.cache.ttl ∧
    d.cache.serialize = c.cache.serialize) ?_ ⟨rfl, rfl⟩
  rintro d call d' ⟨httl, hserialize⟩ _ hstep
  obtain ⟨_, rfl⟩ := step_eq_some hstep
  exact ⟨by rw [effect_ttl, httl], by rw [effect_serialize, hserialize]⟩

/-- A get answers as the last put and the time to live say, whatever was called since. -/
theorem get_of_run (h : Run (step toVec) (PutsInTime key) c calls d) (hempty : c.cache.entries = ∅)
    {now : Nat} (hnow : d.clock ≤ now) :
    (d.cache.get key now).1 = c.cache.expected toVec (lastPut key calls) now := by
  have hstart : c.Agrees toVec key none := by
    intro t _
    rw [hempty]
    rfl
  obtain ⟨httl, hserialize⟩ := config_of_run h
  have hend := agrees_run h hstart now hnow
  rw [Cache.get_eq, hend]
  simp only [lastPut, expected_eq, Cache.filed, httl, hserialize]

end TimedCache

/-- A cache that stores its bodies as they are refines the store of the last put: a get returns
that entry while its time to live lasts, and nothing from then on, where no put of the key has
panicked. -/
theorem cache_get_eq_last_put {toVec : Bytes → Option Bytes} {ttl start : Nat} {c : TimedCache}
    {calls : List CacheCall} {key : Str}
    (h : Run (TimedCache.step toVec) (TimedCache.PutsInTime key) ⟨⟨∅, ttl, false⟩, start⟩ calls c)
    {now : Nat} (hnow : c.clock ≤ now) :
    (c.cache.get key now).1 =
      match lastPut key calls with
      | some (response, put) =>
        if now < put + ttl then some { response with expiresAt := put + ttl } else none
      | none => none :=
  TimedCache.get_of_run h rfl hnow

def plainEntry (body : Bytes) : CacheEntry := ⟨body, [], 200, 0, none, none, none, none⟩

theorem cache_get_eq_last_put_live : ∃ (c : TimedCache) (entry : CacheEntry),
    Run (TimedCache.step some) anyStep ⟨⟨∅, fromSecs 60, false⟩, 0⟩
      [.put "a".toList entry 0, .cleanExpiredEntries 1, .get "b".toList 2] c ∧
    (c.cache.get "a".toList 3).1 = some { entry with expiresAt := fromSecs 60 } := by
  let entry := plainEntry (utf8 "test response".toList)
  have hput : ∀ call, TimedCache.PutsInTime "a".toList ⟨⟨∅, fromSecs 60, false⟩, 0⟩
      (.put "a".toList call 0) := by
    rintro call response now heq
    cases heq
    show 0 + fromSecs 60 < instantEnd
    decide
  have hrun : Run (TimedCache.step some) (TimedCache.PutsInTime "a".toList)
      ⟨⟨∅, fromSecs 60, false⟩, 0⟩
      [.put "a".toList entry 0, .cleanExpiredEntries 1, .get "b".toList 2] _ :=
    .cons (hput entry) rfl (.cons nofun rfl (.cons nofun rfl (.nil _)))
  exact ⟨_, entry, hrun.mono (fun _ _ _ => trivial), cache_get_eq_last_put hrun (by decide)⟩

/-- With the longest time to live that a configuration can have nothing is stored from the first
second of the clock on. -/
theorem put_past_last_instant_panics : ∃ c : TimedCache,
    Run (TimedCache.step some) anyStep ⟨⟨∅, fromSecs (2 ^ 63 - 1), false⟩, 0⟩
      [.put "a".toList (plainEntry []) (fromSecs 1)] c ∧
    lastPut "a".toList [.put "a".toList (plainEntry []) (fromSecs 1)] =
      some (plainEntry [], fromSecs 1) ∧
    fromSecs 2 < fromSecs 1 + fromSecs (2 ^ 63 - 1) ∧
    (c.cache.get "a".toList (fromSecs 2)).1 = none :=
  ⟨_, .cons trivial rfl (.nil _), rfl, by decide, rfl⟩

/-- The entries are the same but for their time of expiry. -/
def CacheEntry.SameContent (a b : CacheEntry) : Prop := { a with expiresAt := b.expiresAt } = b

instance (a b : CacheEntry) : Decidable (a.SameContent b) :=
  inferInstanceAs (Decidable ({ a with expiresAt := b.expiresAt } = b))

def NoPutTo (key : Str) (_ : TimedCache) (call : CacheCall) : Prop :=
  ∀ response now, call ≠ .put key response now

theorem foldl_recordPut_of_noPutTo {toVec : Bytes → Option Bytes} {c d : TimedCache}
    {calls : List CacheCall} {key : Str} (last : Option (CacheEntry × Nat))
    (h : Run (TimedCache.step toVec) (NoPutTo key) c calls d) :
    calls.foldl (recordPut key) last = last := by
  induction h with
  | nil => rfl
  | @cons _ _ _ call _ hno _ _ ih =>
    have hcall : recordPut key last call = last := by
      cases call with
      | put k response now =>
        have hk : k ≠ key := by
          rintro rfl
          exact hno response now rfl
        simp [recordPut, hk]
      | get => rfl
      | cleanExpiredEntries => rfl
    rw [List.foldl_cons, hcall, ih]

theorem length_le_utf8 (s : Str) : s.length ≤ (utf8 s).length := by
  induction s with
  | nil => exact Nat.le_refl 0
  | cons c s ih =>
    have hc : 0 < (String.utf8EncodeChar c).length := by
      rw [String.length_utf8EncodeChar]
      exact c.utf8Size_pos
    simp only [utf8, List.flatMap_cons, List.length_append, List.length_cons] at ih ⊢
    omega

theorem length_le_jsonItems (bytes : Bytes) : bytes.length ≤ (jsonItems bytes).length := by
  induction bytes with
  | nil => exact Nat.le_refl 0
  | cons b bs ih =>
    have hdigits : 0 < (Nat.toDigits 10 b.toNat).length := Nat.length_toDigits_pos
    cases bs with
    | nil => exact hdigits
    | cons b' bs =>
      simp only [jsonItems, List.length_append, List.length_cons] at ih ⊢
      omega

/-- The array is longer than the bytes. -/
theorem jsonArray_ne (bytes : Bytes) : jsonArray bytes ≠ bytes := by
  intro h
  have hitems := length_le_jsonItems bytes
  have hutf8 := length_le_utf8 ('[' :: jsonItems bytes ++ [']'])
  have hlen : (jsonArray bytes).length = bytes.length := by rw [h]
  simp only [jsonArray, List.length_append, List.length_cons] at hutf8 hlen
  omega

theorem sameContent_filed_iff {toVec : Bytes → Option Bytes} {cache : Cache}
    {response : CacheEntry} {put : Nat}
    (hjson : ∀ bytes json, toVec bytes = some json → json = jsonArray bytes) :
    (cache.filed toVec response put).SameContent response ↔
      cache.serialize = false ∨ toVec response.response = none := by
  constructor
  · intro h
    have hbody := congrArg CacheEntry.response (show { cache.filed toVec response put with
      expiresAt := response.expiresAt } = response from h)
    cases hserialize : cache.serialize with
    | false => exact .inl rfl
    | true =>
      cases hvec : toVec response.response with
      | none => exact .inr rfl
      | some json =>
        simp only [Cache.filed, hserialize, hvec, if_true, Option.getD_some] at hbody
        exact absurd ((hjson _ _ hvec).symm.trans hbody) (jsonArray_ne _)
  · rintro (hserialize | hvec)
    · simp [CacheEntry.SameContent, Cache.filed, hserialize]
    · simp [CacheEntry.SameContent, Cache.filed, hvec]

/-- A put returns, and a get before expiry returns what was put, exactly when the entry expires at
an `Instant` and the cache does not serialise its bodies, or could not serialise this one. -/
theorem cache_put_get_iff {toVec : Bytes → Option Bytes}
    (hjson : ∀ bytes json, toVec bytes = some json → json = jsonArray bytes)
    {config : CacheConfig} {start put now : Nat} {c d f : TimedCache}
    {before between : List CacheCall} {key : Str} {response : CacheEntry}
    (hbefore : Run (TimedCache.step toVec) anyStep ⟨Cache.new config, start⟩ before c)
    (hput : c.step toVec (.put key response put) = some d)
    (hbetween : Run (TimedCache.step toVec) (NoPutTo key) d between f)
    (hnow : f.clock ≤ now) (hlive : now < put + fromSecs config.ttlSeconds) :
    ((∃ after, c.cache.put toVec key response put = .ok after) ∧
      ∃ entry, (f.cache.get key now).1 = some entry ∧ entry.SameContent response) ↔
      put + fromSecs config.ttlSeconds < instantEnd ∧
        (config.serialize = false ∨ toVec response.response = none) := by
  have httl : c.cache.ttl = fromSecs config.ttlSeconds := (TimedCache.config_of_run hbefore).1
  obtain ⟨httl', hserialize⟩ := TimedCache.config_of_run (hbefore.snoc trivial hput)
  have hreturns : (∃ after, c.cache.put toVec key response put = .ok after) ↔
      put + fromSecs config.ttlSeconds < instantEnd := by
    rw [← httl]
    exact ⟨fun ⟨_, hafter⟩ => (Cache.put_eq_ok.mp hafter).1,
      fun h => ⟨_, Cache.put_of_lt response h⟩⟩
  rw [hreturns]
  refine and_congr_right (fun hintime => ?_)
  -- The put shows from its time on, and nothing is put to the key after it.
  have hd : d.Agrees toVec key (some (response, put)) := by
    obtain ⟨_, rfl⟩ := TimedCache.step_eq_some hput
    intro t ht
    have hlt : put + c.cache.ttl < instantEnd := by rwa [httl]
    rw [TimedCache.lookup_effect c.cache ht, TimedCache.expected_eq]
    simp only [hlt, and_self, if_true, Option.map_some, TimedCache.filed_effect]
  have hf := TimedCache.agrees_run
    (hbetween.mono (fun _ _ hno response now heq => absurd heq (hno response now))) hd
  rw [foldl_recordPut_of_noPutTo _ hbetween] at hf
  obtain ⟨hfttl, hfserialize⟩ := TimedCache.config_of_run hbetween
  have hlive' : now < put + f.cache.ttl := by rwa [hfttl, httl']
  have hserialize' : f.cache.serialize = config.serialize := hfserialize.trans hserialize
  rw [Cache.get_eq, hf now hnow]
  simp only [Cache.expected, if_pos hlive', Option.some.injEq, exists_eq_left']
  rw [← hserialize']
  exact sameContent_filed_iff hjson

theorem cache_put_get_iff_plain : ∃ (f : TimedCache) (entry : CacheEntry),
    Run (TimedCache.step (fun b => some (jsonArray b))) anyStep ⟨Cache.new ⟨60, 10, false, 60⟩, 0⟩
      [.put "a".toList (plainEntry (utf8 "ok".toList)) 0, .cleanExpiredEntries 1] f ∧
    (f.cache.get "a".toList 2).1 = some entry ∧
    entry.SameContent (plainEntry (utf8 "ok".toList)) := by
  let d : TimedCache := ⟨(Cache.new ⟨60, 10, false, 60⟩).afterPut (fun b => some (jsonArray b))
    "a".toList (plainEntry (utf8 "ok".toList)) 0, 0⟩
  let f : TimedCache := ⟨d.cache.cleanExpiredEntries 1, 1⟩
  have hput : TimedCache.step (fun b => some (jsonArray b)) ⟨Cache.new ⟨60, 10, false, 60⟩, 0⟩
      (.put "a".toList (plainEntry (utf8 "ok".toList)) 0) = some d := rfl
  have hclean : Run (TimedCache.step (fun b => some (jsonArray b))) (NoPutTo "a".toList) d
      [.cleanExpiredEntries 1] f := .cons (fun _ _ h => by cases h) rfl (.nil _)
  have hnow : f.clock ≤ 2 := by decide
  have hlive : 2 < 0 + fromSecs 60 := by decide
  obtain ⟨_, entry, hget, hsame⟩ := (cache_put_get_iff (fun _ _ h => (Option.some.inj h).symm)
    (.nil _) hput hclean hnow hlive).mpr ⟨by decide, .inl rfl⟩
  exact ⟨f, entry, .cons trivial hput (hclean.mono (fun _ _ _ => trivial)), hget, hsame⟩

/-- A serialising cache gives the text of an array back. -/
theorem serialized_body_stays_encoded : ∃ (c : TimedCache) (entry : CacheEntry),
    Run (TimedCache.step (fun b => some (jsonArray b))) anyStep ⟨Cache.new ⟨60, 10, true, 60⟩, 0⟩
      [.put "a".toList (plainEntry (utf8 "ok".toList)) 0] c ∧
    (c.cache.get "a".toList 1).1 = some entry ∧ entry.response = utf8 "[111,107]".toList ∧
    ¬entry.SameContent (plainEntry (utf8 "ok".toList)) :=
  ⟨_, _, .cons trivial rfl (.nil _), rfl, by decide, by decide⟩

end Road7
