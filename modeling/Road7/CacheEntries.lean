import Road7.CacheStore

namespace Road7

/-- What a sweep of a cache does at one of the keys it has collected. -/
def Caches.removeEntry (caches : Caches) (cacheKey key : Str) : Caches :=
  match caches.lookup cacheKey with
  | some cache => caches.insert cacheKey { cache with entries := cache.entries.erase key }
  | none => caches

def Caches.removeEntries (caches : Caches) (removed : List (Str × Str)) : Caches :=
  removed.foldl (fun caches e => caches.removeEntry e.1 e.2) caches

/-- The entry under a key of the cache under a key. -/
def Caches.entryAt (caches : Caches) (cacheKey key : Str) : Option CacheEntry :=
  (caches.lookup cacheKey).bind (fun cache => cache.entries.lookup key)

/-- The cache that `caches.entry(key).or_insert_with(..)` comes to. -/
def Caches.cacheFor (caches : Caches) (config : CacheConfig) (key : Str) : Cache :=
  (caches.lookup key).getD (Cache.new config)

/-- The caches after a store that returns. -/
def Caches.afterStore (toVec : Bytes → Option Bytes) (caches : Caches) (config : CacheConfig)
    (key : Str) (entry : CacheEntry) (now : Nat) : Caches :=
  caches.insert key ((caches.cacheFor config key).afterPut toVec key entry now)

/-- The caches after a store that panics. -/
def Caches.afterOpen (caches : Caches) (config : CacheConfig) (key : Str) : Caches :=
  caches.insert key (caches.cacheFor config key)

namespace Caches

variable {caches : Caches} {cacheKey key K k : Str} {now : Nat} {entry : CacheEntry}

theorem findCached_eq (caches : Caches) (cacheKey key : Str) (now : Nat) :
    findCached caches cacheKey key now =
      match caches.entryAt cacheKey key with
      | some entry => if entry.expiresAt ≤ now then .blocked else .hit entry
      | none => .miss := by
  unfold findCached entryAt
  cases caches.lookup cacheKey with
  | none => rfl
  | some cache =>
    simp only [Option.elim_some, Option.bind_some, Cache.find, Cache.getBlocks, Cache.get_eq]
    cases cache.entries.lookup key with
    | none => rfl
    | some entry =>
      by_cases hle : entry.expiresAt ≤ now
      · simp [hle]
      · have hlive : (some entry).filter (·.live now) = some entry :=
          filter_live_of_lt (Nat.not_le.mp hle)
        simp only [Option.any_some, hle, decide_false, if_false, Bool.false_eq_true]
        exact congrArg (fun found => found.elim Lookup.miss Lookup.hit) hlive

theorem findCached_hit : findCached caches cacheKey key now = .hit entry ↔
    caches.entryAt cacheKey key = some entry ∧ now < entry.expiresAt := by
  rw [findCached_eq]
  cases caches.entryAt cacheKey key with
  | none => simp
  | some found =>
    by_cases hle : found.expiresAt ≤ now
    · simp only [hle, if_true, reduceCtorEq, Option.some.injEq, false_iff, not_and, Nat.not_lt]
      rintro rfl
      exact hle
    · simp only [hle, if_false, Lookup.hit.injEq, Option.some.injEq]
      constructor
      · rintro rfl
        exact ⟨rfl, Nat.not_le.mp hle⟩
      · exact fun h => h.1

theorem store_of_lt {toVec : Bytes → Option Bytes} {config : CacheConfig}
    (h : now + (caches.cacheFor config key).ttl < instantEnd) :
    caches.store toVec config key entry now =
      (.ok (), caches.afterStore toVec config key entry now) := by
  have hput : (caches.cacheFor config key).put toVec key entry now =
      .ok ((caches.cacheFor config key).afterPut toVec key entry now) := Cache.put_of_lt entry h
  unfold cacheFor at hput
  rw [store, hput]
  rfl

theorem store_of_le {toVec : Bytes → Option Bytes} {config : CacheConfig}
    (h : instantEnd ≤ now + (caches.cacheFor config key).ttl) :
    caches.store toVec config key entry now = (.error .overflow, caches.afterOpen config key) := by
  have hput : (caches.cacheFor config key).put toVec key entry now = .error .overflow :=
    Cache.put_of_le entry h
  unfold cacheFor at hput
  rw [store, hput]
  rfl

theorem lookup_afterStore (toVec : Bytes → Option Bytes) (caches : Caches) (config : CacheConfig)
    (key : Str) (entry : CacheEntry) (now : Nat) :
    (caches.afterStore toVec config key entry now).lookup K =
      if K = key then some ((caches.cacheFor config key).afterPut toVec key entry now)
      else caches.lookup K := by
  unfold afterStore
  split
  next hK =>
    subst hK
    exact AList.lookup_insert _
  next hK => exact AList.lookup_insert_ne hK

theorem lookup_afterOpen (caches : Caches) (config : CacheConfig) (key : Str) :
    (caches.afterOpen config key).lookup K =
      if K = key then some (caches.cacheFor config key) else caches.lookup K := by
  unfold afterOpen
  split
  next hK =>
    subst hK
    exact AList.lookup_insert _
  next hK => exact AList.lookup_insert_ne hK

theorem lookup_cacheFor (caches : Caches) (config : CacheConfig) (key k : Str) :
    (caches.cacheFor config key).entries.lookup k = caches.entryAt key k := by
  unfold cacheFor entryAt
  cases caches.lookup key with
  | none => rfl
  | some cache => rfl

/-- A store files its entry, and leaves the other entries as they are. -/
theorem entryAt_afterStore (toVec : Bytes → Option Bytes) (caches : Caches) (config : CacheConfig)
    (key : Str) (entry : CacheEntry) (now : Nat) :
    (caches.afterStore toVec config key entry now).entryAt K k =
      if K = key ∧ k = key then some ((caches.cacheFor config key).filed toVec entry now)
      else caches.entryAt K k := by
  rw [entryAt, lookup_afterStore]
  by_cases hK : K = key
  · subst hK
    simp only [if_true, Option.bind_some, Cache.afterPut, true_and]
    split
    next hk =>
      subst hk
      exact AList.lookup_insert _
    next hk => rw [AList.lookup_insert_ne hk, lookup_cacheFor]
  · simp [hK, entryAt]

/-- A cache that is made for a store that panics is empty. -/
@[simp] theorem entryAt_afterOpen (caches : Caches) (config : CacheConfig) (key : Str) :
    (caches.afterOpen config key).entryAt K k = caches.entryAt K k := by
  rw [entryAt, lookup_afterOpen]
  split
  next hK =>
    subst hK
    exact lookup_cacheFor caches config K k
  next => rfl

theorem lookup_removeEntry : (caches.removeEntry cacheKey key).lookup K =
    (caches.lookup K).map (fun cache => if K = cacheKey then
      { cache with entries := cache.entries.erase key } else cache) := by
  unfold removeEntry
  cases hcache : caches.lookup cacheKey with
  | none =>
    by_cases hK : K = cacheKey
    · subst hK
      simp [hcache]
    · simp [hK]
  | some cache =>
    by_cases hK : K = cacheKey
    · subst hK
      simp [hcache, AList.lookup_insert]
    · simp [hK, AList.lookup_insert_ne]

theorem entryAt_removeEntry : (caches.removeEntry cacheKey key).entryAt K k =
    if K = cacheKey ∧ k = key then none else caches.entryAt K k := by
  unfold entryAt
  rw [lookup_removeEntry]
  cases caches.lookup K with
  | none => simp
  | some cache =>
    by_cases hK : K = cacheKey
    · by_cases hk : k = key
      · subst hk
        simp [hK, AList.lookup_erase]
      · simp [hK, hk, AList.lookup_erase_ne]
    · simp [hK]

theorem entryAt_removeEntries (removed : List (Str × Str)) (caches : Caches) :
    (caches.removeEntries removed).entryAt K k =
      if (K, k) ∈ removed then none else caches.entryAt K k := by
  induction removed generalizing caches with
  | nil => simp [removeEntries]
  | cons e removed ih =>
    have hrest := ih (caches.removeEntry e.1 e.2)
    simp only [removeEntries, List.foldl_cons] at hrest ⊢
    rw [hrest, entryAt_removeEntry]
    by_cases hmem : (K, k) ∈ removed
    · simp [hmem]
    · by_cases he : K = e.1 ∧ k = e.2
      · simp [he]
      · have hne : (K, k) ≠ e := fun heq => he (by rw [← heq]; exact ⟨rfl, rfl⟩)
        simp [hmem, he, hne]

theorem findCached_congr {caches' : Caches} (h : caches.lookup cacheKey = caches'.lookup cacheKey)
    (key : Str) (now : Nat) :
    findCached caches cacheKey key now = findCached caches' cacheKey key now := by
  rw [findCached, h, findCached]

theorem lookup_removeEntries_congr {caches' : Caches} (removed : List (Str × Str))
    (h : caches.lookup K = caches'.lookup K) :
    (caches.removeEntries removed).lookup K = (caches'.removeEntries removed).lookup K := by
  induction removed generalizing caches caches' with
  | nil => exact h
  | cons e removed ih =>
    have hfirst : (caches.removeEntry e.1 e.2).lookup K = (caches'.removeEntry e.1 e.2).lookup K := by
      rw [lookup_removeEntry, lookup_removeEntry, h]
    exact ih hfirst

end Caches

end Road7
