import Road7.LoadBalancer

namespace Road7

theorem dlookup_map_snd {V W : Type} (f : V → W) (entries : List (Sigma (fun _ : Str => V)))
    (key : Str) :
    (entries.map (fun e => (⟨e.1, f e.2⟩ : Sigma (fun _ : Str => W)))).dlookup key =
      (entries.dlookup key).map f := by
  induction entries with
  | nil => rfl
  | cons e entries ih =>
    obtain ⟨k, v⟩ := e
    by_cases h : key = k
    · subst h
      simp
    · have hv : (⟨k, v⟩ :: entries : List (Sigma (fun _ : Str => V))).dlookup key =
          entries.dlookup key := List.dlookup_cons_ne _ _ h
      rw [hv, ← ih]
      exact List.dlookup_cons_ne _ _ h

@[simp] theorem StrMap.lookup_mapValues {V W : Type} (f : V → W) (m : StrMap V) (key : Str) :
    (m.mapValues f).lookup key = (m.lookup key).map f :=
  dlookup_map_snd f m.entries key

/-- `new` panics on a sum of weights that overflows, and on nothing else. -/
theorem LoadBalancer.new_eq_ok_iff {targets : StrMap (List Str)}
    {algorithm : LoadBalancingAlgorithm} {given : Option (StrMap (List Nat))} {lb : LoadBalancer} :
    LoadBalancer.new targets algorithm given = .ok lb ↔
      let weights := given.getD (targets.mapValues (fun urls => List.replicate urls.length 1))
      (∀ e ∈ weights.entries, e.2.sum ≤ usizeMax) ∧
        lb = ⟨targets, weights, weights.mapValues List.sum, algorithm⟩ := by
  unfold LoadBalancer.new
  generalize given.getD (targets.mapValues (fun urls => List.replicate urls.length 1)) = weights
  have hall : weights.entries.all (fun e => e.2.sum ≤ usizeMax) = true ↔
      ∀ e ∈ weights.entries, e.2.sum ≤ usizeMax := by
    simp [List.all_eq_true]
  dsimp only
  split
  next hfits =>
    rw [Except.ok.injEq, eq_comm]
    exact ⟨fun h => ⟨hall.mp hfits, h⟩, fun h => h.2⟩
  next hover =>
    refine iff_of_false (by simp) ?_
    rintro ⟨hfits, _⟩
    exact hover (hall.mpr hfits)

theorem indexUrl_some {urls : List Str} {i : Nat} {url : Str} :
    indexUrl urls i = .ok (some url) ↔ urls[i]? = some url := by
  unfold indexUrl
  cases h : urls[i]? <;> simp

theorem leastConnected_mem {counted : List (Str × Nat)} {min : Nat} {best : Option Str}
    {url : Str} (h : leastConnected counted min best = some url) :
    best = some url ∨ url ∈ counted.map Prod.fst := by
  induction counted generalizing min best with
  | nil => exact .inl h
  | cons e counted ih =>
    simp only [leastConnected] at h
    split at h
    next =>
      rcases ih h with hbest | hmem
      · exact .inr (by simp [Option.some.inj hbest])
      · exact .inr (List.mem_cons_of_mem _ hmem)
    next => exact (ih h).imp_right (List.mem_cons_of_mem _)

theorem leastScored_mem {scored : List (Str × Nat × Nat)} {min : Option (Nat × Nat)}
    {best : Option Str} {url : Str} (h : leastScored scored min best = some url) :
    best = some url ∨ ∃ count weight, (url, count, weight) ∈ scored ∧ 0 < weight := by
  induction scored generalizing min best with
  | nil => exact .inl h
  | cons e scored ih =>
    obtain ⟨u, count, weight⟩ := e
    simp only [leastScored] at h
    split at h
    next hbelow =>
      rcases ih h with hbest | ⟨c, w, hmem, hw⟩
      · obtain rfl := Option.some.inj hbest
        refine .inr ⟨count, weight, by simp, ?_⟩
        unfold scoreBelow at hbelow
        split at hbelow <;> simp at hbelow <;> omega
      · exact .inr ⟨c, w, List.mem_cons_of_mem _ hmem, hw⟩
    next =>
      exact (ih h).imp_right fun ⟨c, w, hmem, hw⟩ => ⟨c, w, List.mem_cons_of_mem _ hmem, hw⟩

/-- The scan of `WeightedRoundRobin` stops at a positive weight, with the counter between the
sums of the weights before and up to it. -/
theorem weightedIndex_eq_some {counter cumulative start i : Nat} {weights : List Nat}
    (hle : cumulative ≤ counter) :
    weightedIndex counter weights cumulative start = some i ↔
      ∃ j weight, i = start + j ∧ weights[j]? = some weight ∧
        cumulative + (weights.take j).sum ≤ counter ∧
        counter < cumulative + (weights.take j).sum + weight := by
  induction weights generalizing cumulative start with
  | nil => simp [weightedIndex]
  | cons w weights ih =>
    simp only [weightedIndex]
    split
    next hlt =>
      constructor
      · intro h
        obtain rfl := Option.some.inj h
        exact ⟨0, w, rfl, rfl, by simpa using hle, by simpa using hlt⟩
      · rintro ⟨j, weight, rfl, hj, hsum, _⟩
        cases j with
        | zero => rfl
        | succ j =>
          simp only [List.take_succ_cons, List.sum_cons] at hsum
          omega
    next hge =>
      rw [ih (Nat.not_lt.mp hge)]
      constructor
      · rintro ⟨j, weight, rfl, hj, hsum⟩
        refine ⟨j + 1, weight, by omega, by simpa using hj, ?_⟩
        simpa [Nat.add_assoc] using hsum
      · rintro ⟨j, weight, rfl, hj, hsum, hsum'⟩
        cases j with
        | zero =>
          obtain rfl : w = weight := by simpa using hj
          simp only [List.take_zero, List.sum_nil, Nat.add_zero] at hsum'
          omega
        | succ j =>
          refine ⟨j, weight, by omega, by simpa using hj, ?_⟩
          simp only [List.take_succ_cons, List.sum_cons] at hsum hsum'
          omega

namespace LoadBalancer

/-- The urls of a key that the algorithm can pick for a client, in some state of its counters
and with some random draw. -/
def CanPick (lb : LoadBalancer) (hs : Hashers) (clientIp : Option Str) (key : Str)
    (urls : List Str) (url : Str) : Prop :=
  match lb.algorithm with
  | .roundRobin => url ∈ urls
  | .random => url ∈ urls
  | .leastConnections => url ∈ urls
  | .weightedRoundRobin => ∃ (weights : List Nat) (i weight : Nat),
      lb.weights.lookup key = some weights ∧ weights[i]? = some weight ∧ 0 < weight ∧
      urls[i]? = some url
  | .ipHash => ∃ ip, clientIp = some ip ∧
      urls[hs.defaultHash (utf8 ip ++ [0xFF]) % urls.length]? = some url
  | .consistentHashing => ∃ ip, clientIp = some ip ∧
      urls[fromLeBytes8 (hs.sha256 (utf8 ip)) % urls.length]? = some url
  | .weightedLeastConnections => ∃ weights, lb.weights.lookup key = some weights ∧
      urls.length ≤ weights.length ∧
      ∃ weight, (url, weight) ∈ urls.zip weights ∧ 0 < weight

variable {lb : LoadBalancer} {hs : Hashers} {draw : Nat} {clientIp : Option Str} {key url : Str}
  {urls : List Str} {st st' : BalancerState}

theorem byHash_some {hash : Nat} (h : byHash hash urls st = (st', some (.ok (some url)))) :
    urls[hash % urls.length]? = some url := by
  unfold byHash at h
  split at h
  next => simp at h
  next =>
    simp only [Prod.mk.injEq, Option.some.injEq] at h
    exact indexUrl_some.mp h.2

theorem roundRobin_some (h : roundRobin key urls st = (st', some (.ok (some url)))) :
    url ∈ urls := by
  unfold roundRobin at h
  dsimp only at h
  split at h
  next => simp at h
  next =>
    simp only [Prod.mk.injEq, Option.some.injEq] at h
    exact List.mem_of_getElem? (indexUrl_some.mp h.2)

section Counted

variable {connections : StrMap Nat}

theorem countConnection_of_lt (h : (connections.lookup url).getD 0 < usizeMax) :
    countConnection connections url st =
      ({ st with connections := connections.insert url ((connections.lookup url).getD 0 + 1) },
        some (.ok (some url))) := by
  unfold usizeMax at h
  have hfits : Build.debug.u64 ((connections.lookup url).getD 0 + 1) =
      .ok ((connections.lookup url).getD 0 + 1) := Build.debug_eq_ok.mpr ⟨by omega, rfl⟩
  rw [countConnection, hfits]

/-- One connection more than a `usize` holds panics, with the counts as they are. -/
theorem countConnection_of_ge (h : usizeMax ≤ (connections.lookup url).getD 0) :
    countConnection connections url st = ({ st with connections }, some (.error .overflow)) := by
  unfold usizeMax at h
  rw [countConnection, Build.debug_of_ge (by omega)]

theorem countConnection_some {picked : Option Str}
    (h : countConnection connections url st = (st', some (.ok picked))) : picked = some url := by
  rcases Nat.lt_or_ge ((connections.lookup url).getD 0) usizeMax with hlt | hge
  · rw [countConnection_of_lt hlt] at h
    cases h
    rfl
  · rw [countConnection_of_ge hge] at h
    cases h

end Counted

theorem leastConnections_some (h : leastConnections urls st = (st', some (.ok (some url)))) :
    url ∈ urls := by
  unfold leastConnections at h
  dsimp only at h
  split at h
  next u hu =>
    obtain rfl := Option.some.inj (countConnection_some h)
    rcases leastConnected_mem hu with hnone | hmem
    · simp at hnone
    · simpa using hmem
  next => simp at h

theorem weightedRoundRobin_some
    (h : lb.weightedRoundRobin key urls st = (st', some (.ok (some url)))) :
    ∃ (weights : List Nat) (i weight : Nat), lb.weights.lookup key = some weights ∧
      weights[i]? = some weight ∧ 0 < weight ∧ urls[i]? = some url := by
  unfold weightedRoundRobin at h
  dsimp only at h
  split at h
  next weights sum hweights _ =>
    split at h
    next i hi =>
      split at h
      next => simp at h
      next =>
        simp only [Prod.mk.injEq, Option.some.injEq] at h
        obtain ⟨j, weight, hj, hweight, _, hlt⟩ := (weightedIndex_eq_some (Nat.zero_le _)).mp hi
        obtain rfl : i = j := by omega
        exact ⟨weights, i, weight, hweights, hweight, by omega, indexUrl_some.mp h.2⟩
    next => simp at h
  next => simp at h

theorem weightedLeastConnections_some
    (h : lb.weightedLeastConnections key urls st = (st', some (.ok (some url)))) :
    ∃ weights, lb.weights.lookup key = some weights ∧ urls.length ≤ weights.length ∧
      ∃ weight, (url, weight) ∈ urls.zip weights ∧ 0 < weight := by
  unfold weightedLeastConnections at h
  split at h
  next => simp at h
  next weights hweights =>
    split at h
    next => simp at h
    next hlen =>
      dsimp only at h
      split at h
      next u hu =>
        obtain rfl := Option.some.inj (countConnection_some h)
        refine ⟨weights, hweights, Nat.not_lt.mp hlen, ?_⟩
        rcases leastScored_mem hu with hnone | ⟨count, weight, hmem, hpos⟩
        · simp at hnone
        · obtain ⟨⟨u', w⟩, hzip, heq⟩ := List.mem_map.mp hmem
          simp only [Prod.mk.injEq] at heq
          obtain ⟨rfl, _, rfl⟩ := heq
          exact ⟨w, hzip, hpos⟩
      next => simp at h

/-- An arm of `get_target` answers with a url that its algorithm can pick. -/
theorem canPick_of_pick
    (h : lb.pick hs draw clientIp key urls st = (st', some (.ok (some url)))) :
    lb.CanPick hs clientIp key urls url := by
  unfold pick at h
  unfold CanPick
  cases halg : lb.algorithm with
  | roundRobin =>
    simp only [halg] at h ⊢
    exact roundRobin_some h
  | random =>
    simp only [halg, chooseRandom, Prod.mk.injEq, Option.some.injEq, Except.ok.injEq] at h ⊢
    exact List.mem_of_getElem? h.2
  | leastConnections =>
    simp only [halg] at h ⊢
    exact leastConnections_some h
  | weightedRoundRobin =>
    simp only [halg] at h ⊢
    exact weightedRoundRobin_some h
  | ipHash =>
    simp only [halg, ipHash] at h ⊢
    split at h
    next ip => exact ⟨ip, rfl, byHash_some h⟩
    next => simp at h
  | consistentHashing =>
    simp only [halg, consistentHashing] at h ⊢
    split at h
    next ip => exact ⟨ip, rfl, byHash_some h⟩
    next => simp at h
  | weightedLeastConnections =>
    simp only [halg] at h ⊢
    exact weightedLeastConnections_some h

/-- What `get_target` answers is a url that the algorithm can pick of a key that is a prefix of
the path. -/
theorem canPick_of_getTargetIn {path : Str} {order : List (Sigma (fun _ : Str => List Str))}
    (h : (lb.getTargetIn hs draw path clientIp order st).2 = .ok (some url)) :
    ∃ key urls, ⟨key, urls⟩ ∈ order ∧ key.isPrefixOf path = true ∧
      lb.CanPick hs clientIp key urls url := by
  induction order generalizing st with
  | nil => simp [getTargetIn] at h
  | cons e order ih =>
    obtain ⟨key, urls⟩ := e
    have hrest : (∃ k us, ⟨k, us⟩ ∈ order ∧ k.isPrefixOf path = true ∧
        lb.CanPick hs clientIp k us url) → ∃ k us, ⟨k, us⟩ ∈ ⟨key, urls⟩ :: order ∧
        k.isPrefixOf path = true ∧ lb.CanPick hs clientIp k us url :=
      fun ⟨k, us, hmem, hpre, hpick⟩ => ⟨k, us, List.mem_cons_of_mem _ hmem, hpre, hpick⟩
    simp only [getTargetIn] at h
    split at h
    next hpre =>
      split at h
      next st' answer hpick =>
        simp only at h
        rw [h] at hpick
        exact ⟨key, urls, by simp, hpre, canPick_of_pick hpick⟩
      next => exact hrest (ih h)
    next => exact hrest (ih h)

end LoadBalancer

def BalancerState.counting (key : Str) (i : Nat) : BalancerState :=
  ⟨(∅ : StrMap Nat).insert key i, ∅⟩

@[simp] theorem BalancerState.lookup_counting (key : Str) (i : Nat) :
    (BalancerState.counting key i).counters.lookup key = some i :=
  AList.lookup_insert _

def connectOnce (urls : List Str) (connections : StrMap Nat) : StrMap Nat :=
  urls.foldl (fun m url => m.insert url 1) connections

theorem lookup_connectOnce (urls : List Str) (connections : StrMap Nat) (url : Str) :
    (connectOnce urls connections).lookup url =
      if url ∈ urls then some 1 else connections.lookup url := by
  induction urls generalizing connections with
  | nil => rfl
  | cons u urls ih =>
    rw [connectOnce, List.foldl_cons, ← connectOnce, ih]
    by_cases hu : url = u
    · subst hu
      simp
    · simp [hu, AList.lookup_insert_ne hu]

theorem lookup_ensureConnections (urls : List Str) (connections : StrMap Nat) (url : Str) :
    ((ensureConnections urls connections).lookup url).getD 0 =
      (connections.lookup url).getD 0 := by
  induction urls generalizing connections with
  | nil => rfl
  | cons u urls ih =>
    rw [ensureConnections, List.foldl_cons, ← ensureConnections, ih]
    split
    next => rfl
    next hnone =>
      by_cases hu : url = u
      · subst hu
        simp_all
      · rw [AList.lookup_insert_ne hu]

theorem leastConnected_zero (counted : List (Str × Nat)) (best : Option Str) :
    leastConnected counted 0 best = best := by
  induction counted with
  | nil => rfl
  | cons e counted ih => simp [leastConnected, ih]

theorem leastConnected_unused {before after : List (Str × Nat)} {url : Str} {min : Nat}
    {best : Option Str} (hbefore : ∀ e ∈ before, 0 < e.2) (hmin : 0 < min) :
    leastConnected (before ++ (url, 0) :: after) min best = some url := by
  induction before generalizing min best with
  | nil => simp [leastConnected, hmin, leastConnected_zero]
  | cons e before ih =>
    have hrest : ∀ e ∈ before, 0 < e.2 := fun e he => hbefore e (List.mem_cons_of_mem _ he)
    simp only [List.cons_append, leastConnected]
    split
    next => exact ih hrest (hbefore e (by simp))
    next => exact ih hrest hmin

theorem leastScored_zero (scored : List (Str × Nat × Nat)) (weight : Nat) (best : Option Str) :
    leastScored scored (some (0, weight)) best = best := by
  induction scored with
  | nil => rfl
  | cons e scored ih => simp [leastScored, scoreBelow, ih]

theorem leastScored_unused {before after : List (Str × Nat × Nat)} {url : Str} {weight : Nat}
    {min : Option (Nat × Nat)} {best : Option Str}
    (hbefore : ∀ e ∈ before, e.2.2 = 0 ∨ 0 < e.2.1) (hweight : 0 < weight)
    (hmin : ∀ m, min = some m → 0 < m.1) :
    leastScored (before ++ (url, 0, weight) :: after) min best = some url := by
  induction before generalizing min best with
  | nil =>
    have hbelow : scoreBelow 0 weight min = true := by
      cases min with
      | none => simp [scoreBelow]; omega
      | some m =>
        have hm := hmin m rfl
        simp only [scoreBelow, Nat.zero_mul, Bool.and_eq_true, decide_eq_true_eq]
        exact ⟨by simp; omega, Nat.mul_pos hm hweight⟩
    simp [leastScored, hbelow, leastScored_zero]
  | cons e before ih =>
    have hrest : ∀ e ∈ before, e.2.2 = 0 ∨ 0 < e.2.1 :=
      fun e he => hbefore e (List.mem_cons_of_mem _ he)
    simp only [List.cons_append, leastScored]
    split
    next hbelow =>
      refine ih hrest fun m hm => ?_
      obtain rfl := Option.some.inj hm
      rcases hbefore e (by simp) with hzero | hpos
      · unfold scoreBelow at hbelow
        split at hbelow <;> simp [hzero] at hbelow
      · exact hpos
    next => exact ih hrest hmin

namespace LoadBalancer

variable {lb : LoadBalancer} {hs : Hashers} {clientIp : Option Str} {key url : Str}
  {urls : List Str}

theorem byHash_of_getElem? {hash : Nat} {st : BalancerState}
    (h : urls[hash % urls.length]? = some url) :
    (byHash hash urls st).2 = some (.ok (some url)) := by
  have hne : urls.length ≠ 0 := by
    intro h0
    simp [List.length_eq_zero_iff.mp h0] at h
  simp [byHash, hne, indexUrl_some.mpr h]

theorem roundRobin_picks {i : Nat} (h : urls[i]? = some url) :
    (roundRobin key urls (BalancerState.counting key i)).2 = some (.ok (some url)) := by
  have hlt : i < urls.length := (List.getElem?_eq_some_iff.mp h).1
  have hne : urls.length ≠ 0 := by omega
  simp [roundRobin, hne, Nat.mod_eq_of_lt hlt, indexUrl_some.mpr h]

theorem chooseRandom_picks {i : Nat} {st : BalancerState} (h : urls[i]? = some url) :
    (chooseRandom i urls st).2 = some (.ok (some url)) := by
  have hlt : i < urls.length := (List.getElem?_eq_some_iff.mp h).1
  simp [chooseRandom, Nat.mod_eq_of_lt hlt, h]

theorem leastConnections_picks {before after : List Str} (hnot : url ∉ before) :
    (leastConnections (before ++ url :: after) ⟨∅, connectOnce before ∅⟩).2 =
      some (.ok (some url)) := by
  have hpick : leastConnected ((before ++ url :: after).map (fun u =>
      (u, ((ensureConnections (before ++ url :: after) (connectOnce before ∅)).lookup u).getD 0)))
      usizeMax none = some url := by
    simp only [lookup_ensureConnections, lookup_connectOnce, List.map_append, List.map_cons,
      hnot, if_false, AList.lookup_empty, Option.getD_none]
    refine leastConnected_unused (fun e he => ?_) (by decide)
    obtain ⟨u, hu, rfl⟩ := List.mem_map.mp he
    simp [hu]
  have hunused : ((ensureConnections (before ++ url :: after) (connectOnce before ∅)).lookup
      url).getD 0 = 0 := by
    rw [lookup_ensureConnections, lookup_connectOnce, if_neg hnot, AList.lookup_empty,
      Option.getD_none]
  unfold leastConnections
  dsimp only
  rw [hpick]
  dsimp only
  rw [countConnection_of_lt (by rw [hunused]; decide)]

theorem weightedRoundRobin_picks {weights : List Nat} {i weight : Nat}
    (hsum : lb.weightsSum = lb.weights.mapValues List.sum)
    (hweights : lb.weights.lookup key = some weights) (hi : weights[i]? = some weight)
    (hpos : 0 < weight) (hurl : urls[i]? = some url) :
    (lb.weightedRoundRobin key urls (BalancerState.counting key (weights.take i).sum)).2 =
      some (.ok (some url)) := by
  have hindex : weightedIndex (weights.take i).sum weights 0 0 = some i :=
    (weightedIndex_eq_some (Nat.zero_le _)).mpr ⟨i, weight, by simp, hi, by simp, by omega⟩
  have hne : weights.sum ≠ 0 := by
    have hsome := List.sum_pos_iff_exists_pos_nat.mpr ⟨weight, List.mem_of_getElem? hi, hpos⟩
    omega
  simp [weightedRoundRobin, hweights, hsum, hindex, hne, indexUrl_some.mpr hurl]

/-- The urls with a positive weight in a list. -/
def weighted (entries : List (Str × Nat)) : List Str :=
  (entries.filter (0 < ·.2)).map Prod.fst

/-- With one connection for each weighted url that stands before, the scores put the url
first. -/
theorem weightedLeastConnections_picks {weights : List Nat} {before after : List (Str × Nat)}
    {weight : Nat} (hweights : lb.weights.lookup key = some weights)
    (hlen : urls.length ≤ weights.length)
    (hzip : urls.zip weights = before ++ (url, weight) :: after) (hpos : 0 < weight)
    (hnot : url ∉ weighted before) :
    (lb.weightedLeastConnections key urls ⟨∅, connectOnce (weighted before) ∅⟩).2 =
      some (.ok (some url)) := by
  have hlookup : ∀ e : Str × Nat,
      ((ensureConnections urls (connectOnce (weighted before) ∅)).lookup e.1).getD 0 =
        if e.1 ∈ weighted before then 1 else 0 := by
    intro e
    rw [lookup_ensureConnections, lookup_connectOnce]
    split <;> simp
  have hpick : leastScored ((urls.zip weights).map (fun e => (e.1,
      ((ensureConnections urls (connectOnce (weighted before) ∅)).lookup e.1).getD 0, e.2)))
      none none = some url := by
    simp only [hlookup, hzip, List.map_append, List.map_cons, hnot, if_false]
    refine leastScored_unused (fun e he => ?_) hpos (by simp)
    obtain ⟨e, hbefore, rfl⟩ := List.mem_map.mp he
    rcases Nat.eq_zero_or_pos e.2 with hzero | hepos
    · exact .inl hzero
    · have hmem : e.1 ∈ weighted before :=
        List.mem_map_of_mem (List.mem_filter.mpr ⟨hbefore, by simpa using hepos⟩)
      exact .inr (by simp only [hmem, if_true]; omega)
  have hunused : ((ensureConnections urls (connectOnce (weighted before) ∅)).lookup url).getD 0 =
      0 := by
    rw [hlookup (url, weight), if_neg hnot]
  simp only [weightedLeastConnections, hweights, Nat.not_lt.mpr hlen, if_false]
  rw [hpick]
  dsimp only
  rw [countConnection_of_lt (by rw [hunused]; decide)]

/-- A url with a positive weight has a first occurrence with one. -/
theorem first_weighted {entries : List (Str × Nat)} {weight : Nat}
    (hmem : (url, weight) ∈ entries) (hpos : 0 < weight) :
    ∃ before w after, entries = before ++ (url, w) :: after ∧ 0 < w ∧ url ∉ weighted before := by
  obtain ⟨⟨u, w⟩, hfind⟩ : ∃ e, entries.find? (fun e => e.1 = url ∧ 0 < e.2) = some e :=
    Option.isSome_iff_exists.mp (List.find?_isSome.mpr ⟨(url, weight), hmem, by simpa using hpos⟩)
  obtain ⟨hu, before, after, hentries, hnot⟩ := List.find?_eq_some_iff_append.mp hfind
  obtain ⟨rfl, hw⟩ : u = url ∧ 0 < w := by simpa using hu
  refine ⟨before, w, after, hentries, hw, fun hbefore => ?_⟩
  obtain ⟨e, he, hurl⟩ := List.mem_map.mp hbefore
  obtain ⟨hin, hepos⟩ := List.mem_filter.mp he
  have hne := hnot e hin
  simp_all

/-- What an algorithm can pick it does pick, in some state of the balancer: for the counting
algorithms, the one after a pick of each url that stands before. -/
theorem pick_of_canPick (hsum : lb.weightsSum = lb.weights.mapValues List.sum)
    (h : lb.CanPick hs clientIp key urls url) :
    ∃ draw st, (lb.pick hs draw clientIp key urls st).2 = some (.ok (some url)) := by
  unfold CanPick at h
  unfold pick
  cases halg : lb.algorithm with
  | roundRobin =>
    simp only [halg] at h ⊢
    obtain ⟨i, hi⟩ := List.mem_iff_getElem?.mp h
    exact ⟨0, BalancerState.counting key i, roundRobin_picks hi⟩
  | random =>
    simp only [halg] at h ⊢
    obtain ⟨i, hi⟩ := List.mem_iff_getElem?.mp h
    exact ⟨i, BalancerState.empty, chooseRandom_picks hi⟩
  | leastConnections =>
    simp only [halg] at h ⊢
    obtain ⟨before, after, rfl, hnot⟩ := List.eq_append_cons_of_mem h
    exact ⟨0, ⟨∅, connectOnce before ∅⟩, leastConnections_picks hnot⟩
  | weightedRoundRobin =>
    simp only [halg] at h ⊢
    obtain ⟨weights, i, weight, hweights, hi, hpos, hurl⟩ := h
    exact ⟨0, _, weightedRoundRobin_picks hsum hweights hi hpos hurl⟩
  | ipHash =>
    simp only [halg] at h ⊢
    obtain ⟨ip, rfl, hurl⟩ := h
    exact ⟨0, BalancerState.empty, byHash_of_getElem? hurl⟩
  | consistentHashing =>
    simp only [halg] at h ⊢
    obtain ⟨ip, rfl, hurl⟩ := h
    exact ⟨0, BalancerState.empty, byHash_of_getElem? hurl⟩
  | weightedLeastConnections =>
    simp only [halg] at h ⊢
    obtain ⟨weights, hweights, hlen, weight, hmem, hpos⟩ := h
    obtain ⟨before, w, after, hzip, hw, hnot⟩ := first_weighted hmem hpos
    exact ⟨0, _, weightedLeastConnections_picks hweights hlen hzip hw hnot⟩

end LoadBalancer

end Road7
