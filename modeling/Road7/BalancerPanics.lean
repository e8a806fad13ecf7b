import Road7.PlainProxy
import Road7.RoundRobin

namespace Road7

theorem indexUrl_error {urls : List Str} {i : Nat} :
    (∃ p, indexUrl urls i = .error p) ↔ urls.length ≤ i := by
  unfold indexUrl
  rw [← List.getElem?_eq_none_iff]
  cases urls[i]? <;> simp

/-- The weights that a balancer is made with: without given ones, each url counts once. -/
def LoadBalancerConfig.weightsFor (config : LoadBalancerConfig) (targets : StrMap (List Str)) :
    StrMap (List Nat) :=
  config.weights.getD (targets.mapValues (fun urls => List.replicate urls.length 1))

/-- The balancer that `LoadBalancer::new` comes to. -/
def LoadBalancerConfig.made (config : LoadBalancerConfig) (targets : StrMap (List Str)) :
    LoadBalancer :=
  ⟨targets, config.weightsFor targets, (config.weightsFor targets).mapValues List.sum,
    config.algorithm⟩

/-- What an algorithm relies on in the urls and the weights of a key. -/
def LoadBalancingAlgorithm.Relies (algorithm : LoadBalancingAlgorithm)
    (weights : StrMap (List Nat)) (key : Str) (urls : List Str) : Prop :=
  match algorithm with
  | .roundRobin | .ipHash | .consistentHashing => urls ≠ []
  | .random | .leastConnections => True
  | .weightedRoundRobin => ∀ ws, weights.lookup key = some ws →
      ∀ i w, ws[i]? = some w → 0 < w → i < urls.length
  | .weightedLeastConnections => ∀ ws, weights.lookup key = some ws → urls.length ≤ ws.length

/-- The sums of the weights fit, and every key of the targets has what the algorithm relies on. -/
def LoadBalancerConfig.Consistent (config : LoadBalancerConfig) (targets : StrMap (List Str)) :
    Prop :=
  (∀ e ∈ (config.weightsFor targets).entries, e.2.sum ≤ usizeMax) ∧
    ∀ e ∈ targets.entries, config.algorithm.Relies (config.weightsFor targets) e.1 e.2

/-- What the balancer counts is below the largest `usize`. -/
def BalancerState.BelowMax (st : BalancerState) : Prop :=
  (∀ key, (st.counters.lookup key).getD 0 < usizeMax) ∧
    ∀ url, (st.connections.lookup url).getD 0 < usizeMax

/-- The balancer can be made, and answers every call in every state of its counters. -/
def LoadBalancerConfig.NeverPanics (config : LoadBalancerConfig) (targets : StrMap (List Str)) :
    Prop :=
  ∃ lb, LoadBalancer.new targets config.algorithm config.weights = .ok lb ∧
    ∀ hs draw path clientIp order st, IterationOf lb.targets order → st.BelowMax →
      ∃ answer, (lb.getTargetIn hs draw path clientIp order st).2 = .ok answer

namespace LoadBalancer

theorem new_ok_iff {config : LoadBalancerConfig} {targets : StrMap (List Str)}
    {lb : LoadBalancer} : LoadBalancer.new targets config.algorithm config.weights = .ok lb ↔
      (∀ e ∈ (config.weightsFor targets).entries, e.2.sum ≤ usizeMax) ∧
        lb = config.made targets := by
  unfold LoadBalancerConfig.made LoadBalancerConfig.weightsFor
  exact LoadBalancer.new_eq_ok_iff

/-- An arm of `get_target` ends in a panic. -/
def Panics (pick : Pick) : Prop := ∃ p, pick.2 = some (.error p)

variable {lb : LoadBalancer} {key : Str} {urls : List Str} {weights : List Nat}
  {st : BalancerState}

theorem roundRobin_panics_iff : Panics (roundRobin key urls st) ↔ urls = [] := by
  unfold roundRobin Panics
  dsimp only
  split
  next hlen => exact iff_of_true ⟨_, rfl⟩ (List.length_eq_zero_iff.mp hlen)
  next hlen =>
    refine iff_of_false ?_ (fun hnil => hlen (List.length_eq_zero_iff.mpr hnil))
    rintro ⟨p, hp⟩
    have hlt := Nat.mod_lt ((st.counters.lookup key).getD 0) (Nat.pos_of_ne_zero hlen)
    exact absurd (indexUrl_error.mp ⟨p, Option.some.inj hp⟩) (Nat.not_le.mpr hlt)

theorem byHash_panics_iff {hash : Nat} : Panics (byHash hash urls st) ↔ urls = [] := by
  unfold byHash Panics
  split
  next hlen => exact iff_of_true ⟨_, rfl⟩ (List.length_eq_zero_iff.mp hlen)
  next hlen =>
    refine iff_of_false ?_ (fun hnil => hlen (List.length_eq_zero_iff.mpr hnil))
    rintro ⟨p, hp⟩
    have hlt := Nat.mod_lt hash (Nat.pos_of_ne_zero hlen)
    exact absurd (indexUrl_error.mp ⟨p, Option.some.inj hp⟩) (Nat.not_le.mpr hlt)

theorem lookup_ensured_lt (hst : st.BelowMax) (url : Str) :
    ((ensureConnections urls st.connections).lookup url).getD 0 < usizeMax := by
  rw [lookup_ensureConnections]
  exact hst.2 url

theorem countConnection_not_panics (hst : st.BelowMax) (url : Str) :
    ¬Panics (countConnection (ensureConnections urls st.connections) url st) := by
  rw [countConnection_of_lt (lookup_ensured_lt hst url)]
  simp [Panics]

theorem leastConnections_not_panics (hst : st.BelowMax) : ¬Panics (leastConnections urls st) := by
  unfold leastConnections
  dsimp only
  split
  next url _ => exact countConnection_not_panics hst url
  next => simp [Panics]

/-- The scan of the weights stops at a positive one, so that their sum is not zero. -/
theorem weightedRoundRobin_panics (hsum : lb.weightsSum = lb.weights.mapValues List.sum)
    (h : Panics (lb.weightedRoundRobin key urls st)) :
    ∃ ws i w, lb.weights.lookup key = some ws ∧ ws[i]? = some w ∧ 0 < w ∧ urls.length ≤ i := by
  unfold weightedRoundRobin Panics at h
  dsimp only at h
  split at h
  next ws sum hws hwsum =>
    split at h
    next i hi =>
      obtain ⟨j, w, hj, hw, hlow, hhigh⟩ := (weightedIndex_eq_some (Nat.zero_le _)).mp hi
      rw [Nat.zero_add] at hj
      subst hj
      have hpos : 0 < w := by omega
      split at h
      next hzero =>
        rw [hsum, StrMap.lookup_mapValues, hws, Option.map_some] at hwsum
        have hwsum := Option.some.inj hwsum
        have hle := List.single_le_sum (fun _ _ => Nat.zero_le _) w (List.mem_of_getElem? hw)
        omega
      next =>
        obtain ⟨p, hp⟩ := h
        exact ⟨ws, i, w, hws, hw, hpos, indexUrl_error.mp ⟨p, Option.some.inj hp⟩⟩
    next => simp at h
  next => simp at h

/-- A weight without a url is come to when the weights before it have had their turns. -/
theorem weightedRoundRobin_panics_of_weight (hsum : lb.weightsSum = lb.weights.mapValues List.sum)
    (hws : lb.weights.lookup key = some weights) {i w : Nat} (hw : weights[i]? = some w)
    (hpos : 0 < w) (hlen : urls.length ≤ i) :
    Panics (lb.weightedRoundRobin key urls (BalancerState.counting key (weights.take i).sum)) := by
  have hindex : weightedIndex (weights.take i).sum weights 0 0 = some i :=
    (weightedIndex_eq_some (Nat.zero_le _)).mpr ⟨i, w, by simp, hw, by simp, by omega⟩
  have hle := List.single_le_sum (fun _ _ => Nat.zero_le _) w (List.mem_of_getElem? hw)
  have hne : weights.sum ≠ 0 := by omega
  obtain ⟨p, hp⟩ := indexUrl_error.mpr hlen
  exact ⟨p, by simp [weightedRoundRobin, hws, hsum, hindex, hne, hp]⟩

theorem weightedLeastConnections_panics_iff (hst : st.BelowMax) :
    Panics (lb.weightedLeastConnections key urls st) ↔
      ∃ ws, lb.weights.lookup key = some ws ∧ ws.length < urls.length := by
  unfold weightedLeastConnections
  split
  next hnone => simp [hnone, Panics]
  next ws hws =>
    split
    next hlt => exact iff_of_true ⟨_, rfl⟩ ⟨ws, hws, hlt⟩
    next hge =>
      refine iff_of_false ?_ ?_
      · dsimp only
        split
        next url _ => exact countConnection_not_panics hst url
        next => simp [Panics]
      · rintro ⟨ws', hws', hlt⟩
        obtain rfl := Option.some.inj (hws.symm.trans hws')
        exact hge hlt

/-- An arm with what it relies on does not panic. -/
theorem pick_not_panics (hst : st.BelowMax)
    (hsum : lb.weightsSum = lb.weights.mapValues List.sum)
    (h : lb.algorithm.Relies lb.weights key urls) (hs : Hashers) (draw : Nat)
    (clientIp : Option Str) : ¬Panics (lb.pick hs draw clientIp key urls st) := by
  unfold LoadBalancingAlgorithm.Relies at h
  unfold pick
  cases halg : lb.algorithm with
  | roundRobin =>
    rw [halg] at h
    exact fun hp => h (roundRobin_panics_iff.mp hp)
  | random => simp [Panics, chooseRandom]
  | leastConnections => exact leastConnections_not_panics hst
  | weightedRoundRobin =>
    rw [halg] at h
    intro hp
    obtain ⟨ws, i, w, hws, hw, hpos, hle⟩ := weightedRoundRobin_panics hsum hp
    exact Nat.not_lt.mpr hle (h ws hws i w hw hpos)
  | ipHash =>
    rw [halg] at h
    cases clientIp with
    | none => simp [Panics, ipHash]
    | some ip => exact fun hp => h (byHash_panics_iff.mp hp)
  | consistentHashing =>
    rw [halg] at h
    cases clientIp with
    | none => simp [Panics, consistentHashing]
    | some ip => exact fun hp => h (byHash_panics_iff.mp hp)
  | weightedLeastConnections =>
    rw [halg] at h
    intro hp
    obtain ⟨ws, hws, hlt⟩ := (weightedLeastConnections_panics_iff hst).mp hp
    exact Nat.not_lt.mpr (h ws hws) hlt

theorem belowMax_empty : BalancerState.empty.BelowMax := by
  have hzero : 0 < usizeMax := by decide
  exact ⟨fun _ => hzero, fun _ => hzero⟩

theorem belowMax_counting {n : Nat} (h : n < usizeMax) :
    (BalancerState.counting key n).BelowMax := by
  refine ⟨fun k => ?_, belowMax_empty.2⟩
  by_cases hk : k = key
  · subst hk
    rw [BalancerState.lookup_counting]
    exact h
  · rw [BalancerState.counting, AList.lookup_insert_ne hk]
    exact belowMax_empty.1 k

/-- An arm without what it relies on panics in some state. -/
theorem pick_panics (hsum : lb.weightsSum = lb.weights.mapValues List.sum)
    (hfits : ∀ e ∈ lb.weights.entries, e.2.sum ≤ usizeMax)
    (h : ¬lb.algorithm.Relies lb.weights key urls) (hs : Hashers) :
    ∃ st, st.BelowMax ∧ Panics (lb.pick hs 0 (some []) key urls st) := by
  unfold LoadBalancingAlgorithm.Relies at h
  unfold pick
  cases halg : lb.algorithm with
  | roundRobin =>
    rw [halg, not_ne_iff] at h
    exact ⟨_, belowMax_empty, roundRobin_panics_iff.mpr h⟩
  | random => simp [halg] at h
  | leastConnections => simp [halg] at h
  | weightedRoundRobin =>
    rw [halg] at h
    push Not at h
    obtain ⟨ws, hws, i, w, hw, hpos, hle⟩ := h
    have hsums : ws.sum ≤ usizeMax := hfits ⟨key, ws⟩ (AList.mem_lookup_iff.mp hws)
    have hbelow : (ws.take i).sum < usizeMax := by
      have hcut : (ws.take (i + 1)).sum ≤ ws.sum := (List.take_sublist _ ws).sum_le_sum (by simp)
      rw [List.take_add_one, hw, List.sum_append] at hcut
      simp only [Option.toList_some, List.sum_singleton] at hcut
      omega
    exact ⟨_, belowMax_counting hbelow, weightedRoundRobin_panics_of_weight hsum hws hw hpos hle⟩
  | ipHash =>
    rw [halg, not_ne_iff] at h
    exact ⟨_, belowMax_empty, byHash_panics_iff.mpr h⟩
  | consistentHashing =>
    rw [halg, not_ne_iff] at h
    exact ⟨_, belowMax_empty, byHash_panics_iff.mpr h⟩
  | weightedLeastConnections =>
    rw [halg] at h
    push Not at h
    obtain ⟨ws, hws, hlt⟩ := h
    exact ⟨_, belowMax_empty,
      (weightedLeastConnections_panics_iff belowMax_empty).mpr ⟨ws, hws, hlt⟩⟩

/-- An arm that control falls out of leaves the counts as they are. -/
theorem belowMax_of_pick_none {hs : Hashers} {draw : Nat} {clientIp : Option Str}
    {st' : BalancerState} (h : lb.pick hs draw clientIp key urls st = (st', none))
    (hst : st.BelowMax) : st'.BelowMax := by
  have hensured : ({ st with connections := ensureConnections urls st.connections } :
      BalancerState).BelowMax := ⟨hst.1, lookup_ensured_lt hst⟩
  have hcounted : ∀ url, countConnection (ensureConnections urls st.connections) url st ≠
      (st', none) := by
    intro url heq
    rw [countConnection_of_lt (lookup_ensured_lt hst url)] at heq
    cases heq
  unfold pick at h
  cases halg : lb.algorithm with
  | roundRobin =>
    rw [halg] at h
    simp only [roundRobin] at h
    split at h <;> cases h
  | random =>
    rw [halg] at h
    cases h
  | leastConnections =>
    rw [halg] at h
    simp only [leastConnections] at h
    split at h
    next url _ => exact absurd h (hcounted url)
    next =>
      cases h
      exact hensured
  | weightedRoundRobin =>
    rw [halg] at h
    simp only [weightedRoundRobin] at h
    split at h
    next =>
      split at h
      next => split at h <;> cases h
      next =>
        cases h
        refine ⟨fun k => ?_, hst.2⟩
        by_cases hk : k = key
        · subst hk
          simpa using hst.1 k
        · simpa [AList.lookup_insert_ne hk] using hst.1 k
    next => cases h
  | ipHash =>
    rw [halg] at h
    cases clientIp with
    | none =>
      cases h
      exact hst
    | some ip =>
      simp only [ipHash, byHash] at h
      split at h <;> cases h
  | consistentHashing =>
    rw [halg] at h
    cases clientIp with
    | none =>
      cases h
      exact hst
    | some ip =>
      simp only [consistentHashing, byHash] at h
      split at h <;> cases h
  | weightedLeastConnections =>
    rw [halg] at h
    simp only [weightedLeastConnections] at h
    split at h
    next => cases h
    next =>
      split at h
      next => cases h
      next =>
        split at h
        next url _ => exact absurd h (hcounted url)
        next =>
          cases h
          exact hensured

theorem getTargetIn_ok (hsum : lb.weightsSum = lb.weights.mapValues List.sum) (hs : Hashers)
    (draw : Nat) (path : Str) (clientIp : Option Str)
    {order : List (Sigma (fun _ : Str => List Str))}
    (h : ∀ e ∈ order, lb.algorithm.Relies lb.weights e.1 e.2) {st : BalancerState}
    (hst : st.BelowMax) :
    ∃ answer, (lb.getTargetIn hs draw path clientIp order st).2 = .ok answer := by
  induction order generalizing st with
  | nil => exact ⟨none, rfl⟩
  | cons e order ih =>
    obtain ⟨hrelies, hrest⟩ := List.forall_mem_cons.mp h
    have hpick : ¬Panics (lb.pick hs draw clientIp e.1 e.2 st) :=
      pick_not_panics hst hsum hrelies hs draw clientIp
    simp only [getTargetIn]
    split
    next =>
      split
      next st' answer heq =>
        rw [heq] at hpick
        cases answer with
        | ok answer => exact ⟨answer, rfl⟩
        | error p => exact absurd ⟨p, rfl⟩ hpick
      next st' heq => exact ih hrest (belowMax_of_pick_none heq hst)
    next => exact ih hrest hst

/-- In an order that begins with a key, a request for the key's own path comes to its arm. -/
theorem getTargetIn_panics {hs : Hashers} {draw : Nat} {clientIp : Option Str}
    (h : Panics (lb.pick hs draw clientIp key urls st))
    (rest : List (Sigma (fun _ : Str => List Str))) :
    ∃ p, (lb.getTargetIn hs draw key clientIp (⟨key, urls⟩ :: rest) st).2 = .error p := by
  obtain ⟨p, hp⟩ := h
  have hpre : key.isPrefixOf key = true := List.isPrefixOf_iff_prefix.mpr (List.prefix_refl key)
  simp only [getTargetIn, hpre, if_true]
  cases hpick : lb.pick hs draw clientIp key urls st with
  | mk st' answer =>
    rw [hpick] at hp
    dsimp only at hp
    subst hp
    exact ⟨p, rfl⟩

end LoadBalancer

/-- Making the balancer of a configuration and asking it never panics exactly when the sums of its
weights fit and every key has the urls and the weights that the algorithm relies on. -/
theorem balancer_never_panics_iff (targets : List Target) (config : LoadBalancerConfig) :
    config.NeverPanics (balancerTargets targets) ↔
      config.Consistent (balancerTargets targets) := by
  constructor
  · rintro ⟨lb, hnew, hanswers⟩
    obtain ⟨hfits, rfl⟩ := LoadBalancer.new_ok_iff.mp hnew
    refine ⟨hfits, ?_⟩
    intro e he
    by_contra hrelies
    obtain ⟨before, after, hsplit⟩ := List.append_of_mem he
    have hsum : (config.made (balancerTargets targets)).weightsSum =
      (config.made (balancerTargets targets)).weights.mapValues List.sum := rfl
    obtain ⟨st, hst, hpanics⟩ := LoadBalancer.pick_panics hsum hfits hrelies ⟨fun _ => 0, id⟩
    obtain ⟨p, hp⟩ := LoadBalancer.getTargetIn_panics hpanics (before ++ after)
    have horder : IterationOf (balancerTargets targets) (e :: (before ++ after)) := by
      unfold IterationOf
      rw [hsplit]
      exact List.perm_middle.symm
    obtain ⟨answer, hanswer⟩ := hanswers ⟨fun _ => 0, id⟩ 0 e.1 (some []) _ st horder hst
    rw [hp] at hanswer
    cases hanswer
  · rintro ⟨hfits, hrelies⟩
    refine ⟨_, LoadBalancer.new_ok_iff.mpr ⟨hfits, rfl⟩, ?_⟩
    intro hs draw path clientIp order st horder hst
    exact LoadBalancer.getTargetIn_ok rfl hs draw path clientIp
      (fun e he => hrelies e (horder.mem_iff.mp he)) hst

/-- A third weight for two urls: the fourth request is the one that panics. -/
theorem weight_without_url_panics : ∃ (targets : List Target) (config : LoadBalancerConfig)
    (lb : LoadBalancer) (order : List (Sigma (fun _ : Str => List Str))),
    LoadBalancer.new (balancerTargets targets) config.algorithm config.weights = .ok lb ∧
    IterationOf lb.targets order ∧
    lb.answersFor ⟨fun _ => 0, id⟩ "/api".toList
      (List.replicate 4 ⟨"/api/users".toList, some "10.0.0.1:50000".toList, 0, order⟩)
      BalancerState.empty =
        [.ok (some "http://a:1".toList), .ok (some "http://a:1".toList),
          .ok (some "http://b:1".toList), .error .indexOutOfRange] ∧
    ¬config.NeverPanics (balancerTargets targets) := by
  refine ⟨[plainTarget "/api".toList ["http://a:1".toList, "http://b:1".toList]],
    ⟨.weightedRoundRobin, some (AList.singleton "/api".toList [2, 1, 1])⟩, _, _, rfl,
    List.Perm.refl _, rfl, ?_⟩
  rintro ⟨lb, hnew, hanswers⟩
  obtain ⟨_, rfl⟩ := LoadBalancer.new_ok_iff.mp hnew
  obtain ⟨answer, hanswer⟩ := hanswers ⟨fun _ => 0, id⟩ 0 "/api/users".toList none _
    (BalancerState.counting "/api".toList 3) (List.Perm.refl _)
    (LoadBalancer.belowMax_counting (by decide))
  cases hanswer

end Road7
