import Road7.FirstMatch
import Road7.PlainProxy

namespace Road7

/-- `RateLimiterManager::add_limiter`: the limiter of a path that has one is replaced. -/
def addLimiter (limiters : StrMap RateLimiter) (target : Str) (config : RateLimiterConfig) :
    Except String (StrMap RateLimiter) :=
  (RateLimiter.new config).map (limiters.insert target)

/-- The limiters after some calls of `add_limiter`, from the empty map of a new manager. -/
def addLimiters (added : List (Str × RateLimiterConfig)) : Except String (StrMap RateLimiter) :=
  added.foldlM (fun limiters e => addLimiter limiters e.1 e.2) ∅

def RateLimiterSettings.limiterConfig (c : RateLimiterSettings) : RateLimiterConfig :=
  ⟨c.capacity, c.burstCapacity, c.maxRate, fromSecs (c.every.getD 1)⟩

/-- The calls of `add_limiter` that `run_proxy` makes: for a target and then for its endpoints,
whose paths go on behind the path of the target. -/
def limiterSetup (targets : List Target) : List (Str × RateLimiterConfig) :=
  targets.flatMap fun target =>
    (target.rateLimiterConfig.map (fun c => (target.path, c.limiterConfig))).toList ++
      (target.endpoints.getD []).filterMap fun endpoint =>
        endpoint.rateLimiterConfig.map fun c => (target.path ++ endpoint.path, c.limiterConfig)

/-- The entry whose limiter `get_limiter` returns. -/
def limiterEntry (order : List (Sigma (fun _ : Str => RateLimiter))) (target : Str) :
    Option (Sigma (fun _ : Str => RateLimiter)) :=
  (order.find? (fun e => e.1 = target)).or (order.find? (fun e => e.1.isPrefixOf target))

theorem getLimiter_eq (order : List (Sigma (fun _ : Str => RateLimiter))) (target : Str) :
    getLimiter order target = (limiterEntry order target).map Sigma.snd := by
  unfold getLimiter limiterEntry
  cases order.find? (fun e => e.1 = target) <;> rfl

/-- The limiters after a request has asked for a token: the limiter that is found is shared, so
that its entry is the one that changes. -/
def chargeLimiter (limiters : StrMap RateLimiter)
    (order : List (Sigma (fun _ : Str => RateLimiter))) (target : Str) : StrMap RateLimiter :=
  (limiterEntry order target).elim limiters (fun e => limiters.insert e.1 e.2.acquire.2)

/-- Entry `e` is registered for a prefix of the path, and no longer prefix is registered. -/
def LongestRegistered (limiters : StrMap RateLimiter) (path : Str)
    (e : Sigma (fun _ : Str => RateLimiter)) : Prop :=
  e ∈ limiters.entries ∧ e.1 <+: path ∧
    ∀ e' ∈ limiters.entries, e'.1 <+: path → e'.1.length ≤ e.1.length

/-- In this order of the map a request has no limiter exactly when no prefix of its path is
registered, and otherwise gets the limiter of the longest one, whose bucket alone it charges. -/
def ChargesLongest (limiters : StrMap RateLimiter) (path : Str)
    (order : List (Sigma (fun _ : Str => RateLimiter))) : Prop :=
  (getLimiter order path = none ↔ ∀ e ∈ limiters.entries, ¬e.1 <+: path) ∧
  ∀ e, LongestRegistered limiters path e →
    limiterEntry order path = some e ∧ getLimiter order path = some e.2 ∧
      chargeLimiter limiters order path = limiters.insert e.1 e.2.acquire.2

theorem longestRegistered_iff {limiters : StrMap RateLimiter} {path : Str}
    {e : Sigma (fun _ : Str => RateLimiter)} :
    LongestRegistered limiters path e ↔
      IsLargest (fun e => e.1.isPrefixOf path) (fun e => e.1.length) limiters.entries e := by
  unfold LongestRegistered IsLargest
  simp only [List.isPrefixOf_iff_prefix]

theorem limiterEntry_eq_none_iff {order : List (Sigma (fun _ : Str => RateLimiter))}
    {path : Str} : limiterEntry order path = none ↔ ∀ e ∈ order, ¬e.1 <+: path := by
  unfold limiterEntry
  rw [Option.or_eq_none_iff, List.find?_eq_none, List.find?_eq_none]
  constructor
  · intro h e he hpre
    exact h.2 e he (List.isPrefixOf_iff_prefix.mpr hpre)
  · intro h
    constructor
    · intro e he heq
      have hpath : e.1 = path := by simpa using heq
      exact h e he (hpath ▸ List.prefix_refl _)
    · intro e he hpre
      exact h e he (List.isPrefixOf_iff_prefix.mp hpre)

theorem chargesLongest_of_entry {limiters : StrMap RateLimiter} {path : Str}
    {order : List (Sigma (fun _ : Str => RateLimiter))} (horder : IterationOf limiters order)
    (h : ∀ e, LongestRegistered limiters path e → limiterEntry order path = some e) :
    ChargesLongest limiters path order := by
  constructor
  · rw [getLimiter_eq, Option.map_eq_none_iff, limiterEntry_eq_none_iff]
    exact forall_congr' fun e => imp_congr_left horder.mem_iff
  · intro e he
    have hentry := h e he
    refine ⟨hentry, ?_, ?_⟩
    · rw [getLimiter_eq, hentry]
      rfl
    · rw [chargeLimiter, hentry]
      rfl

theorem find?_unregistered {limiters : StrMap RateLimiter} {path : Str}
    {order : List (Sigma (fun _ : Str => RateLimiter))} (horder : IterationOf limiters order)
    (hpath : path ∉ limiters) : order.find? (fun e => decide (e.1 = path)) = none := by
  rw [List.find?_eq_none]
  intro e he heq
  have hkey : e.1 = path := of_decide_eq_true heq
  exact hpath (hkey ▸ List.mem_keys_of_mem (horder.mem_iff.mp he))

/-- A path that is registered itself is its own longest prefix, and found by the exact lookup. -/
theorem limiterEntry_registered {limiters : StrMap RateLimiter} {path : Str}
    {order : List (Sigma (fun _ : Str => RateLimiter))}
    {e : Sigma (fun _ : Str => RateLimiter)} (horder : IterationOf limiters order)
    (hpath : path ∈ limiters) (he : LongestRegistered limiters path e) :
    limiterEntry order path = some e := by
  obtain ⟨hmem, hpre, hlongest⟩ := he
  obtain ⟨x, hx, hkey⟩ := List.mem_map.mp hpath
  have hle := hlongest x hx (hkey ▸ List.prefix_refl _)
  have hexact : e.1 = path := hpre.eq_of_length_le (hkey ▸ hle)
  have hone : OneMatch (fun e : Sigma (fun _ : Str => RateLimiter) => decide (e.1 = path))
      limiters.entries := by
    intro y hy z hz hky hkz
    have hkeys : y.1 = z.1 := (of_decide_eq_true hky).trans (of_decide_eq_true hkz).symm
    exact limiters.nodupKeys.eq_of_fst_eq hy hz hkeys
  have hfind := find?_of_oneMatch (hone.perm horder) (horder.mem_iff.mpr hmem)
    (decide_eq_true hexact)
  rw [limiterEntry, hfind, Option.some_or]

/-- In every order of the map a request charges the bucket of the longest registered prefix of
its path exactly when the path itself is registered, or no two of its prefixes are. -/
theorem get_limiter_longest_iff (limiters : StrMap RateLimiter) (path : Str) :
    (∀ order, IterationOf limiters order → ChargesLongest limiters path order) ↔
      path ∈ limiters ∨ ∀ e ∈ limiters.entries, ∀ e' ∈ limiters.entries,
        e.1 <+: path → e'.1 <+: path → e = e' := by
  by_cases hpath : path ∈ limiters
  · refine iff_of_true (fun order horder => ?_) (.inl hpath)
    exact chargesLongest_of_entry horder fun e he => limiterEntry_registered horder hpath he
  · have hscan : ∀ {order}, IterationOf limiters order →
        limiterEntry order path = order.find? (fun e => e.1.isPrefixOf path) := by
      intro order horder
      rw [limiterEntry, find?_unregistered horder hpath, Option.none_or]
    have hone := find?_largest_iff (fun e => e.1.isPrefixOf path)
      (fun e : Sigma (fun _ : Str => RateLimiter) => e.1.length) limiters.entries
    simp only [OneMatch, List.isPrefixOf_iff_prefix] at hone
    rw [or_iff_right hpath, ← hone]
    constructor
    · intro h order horder e he
      have hentry := ((h order horder).2 e (longestRegistered_iff.mpr he)).1
      rwa [hscan horder] at hentry
    · intro h order horder
      apply chargesLongest_of_entry horder
      intro e he
      rw [hscan horder]
      exact h order horder e (longestRegistered_iff.mp he)

def limitedTarget : Target :=
  { plainTarget "/api".toList ["http://localhost:5001".toList] with
    rateLimiterConfig := some ⟨100, 50, none, 10⟩
    endpoints := some [⟨"/users".toList, some ⟨5, 1, none, 0⟩⟩] }

/-- When the map yields the enclosing target first, a request under the endpoint is charged to
the target, and the endpoint's bucket stays full. -/
theorem endpoint_charged_to_target : ∃ limiters order endpoint enclosing,
    addLimiters (limiterSetup [limitedTarget]) = .ok limiters ∧
    IterationOf limiters order ∧
    LongestRegistered limiters "/api/users/42".toList ⟨"/api/users".toList, endpoint⟩ ∧
    limiterEntry order "/api/users/42".toList = some ⟨"/api".toList, enclosing⟩ ∧
    (chargeLimiter limiters order "/api/users/42".toList).lookup "/api/users".toList =
      some endpoint := by
  have hentries : ∀ {limiters : StrMap RateLimiter} {endpoint enclosing : RateLimiter},
      limiters.entries = [⟨"/api/users".toList, endpoint⟩, ⟨"/api".toList, enclosing⟩] →
      LongestRegistered limiters "/api/users/42".toList ⟨"/api/users".toList, endpoint⟩ := by
    intro limiters endpoint enclosing hentries
    have hprefix : "/api/users".toList <+: "/api/users/42".toList := by decide
    have hshorter : "/api".toList.length ≤ "/api/users".toList.length := by decide
    refine ⟨by simp [hentries], hprefix, ?_⟩
    intro e he _
    rw [hentries] at he
    rcases List.mem_cons.mp he with rfl | he
    · exact Nat.le_refl _
    · rw [List.mem_singleton.mp he]
      exact hshorter
  refine ⟨_, [⟨"/api".toList, _⟩, ⟨"/api/users".toList, _⟩], _, _, rfl, List.Perm.swap _ _ _,
    hentries rfl, rfl, rfl⟩

end Road7
