import Road7.BalancerPicks
import Road7.Rotation

namespace Road7

/-- A call of `get_target`, with the order that it iterates over the targets in and what it would
draw at random. -/
structure BalancerCall where
  path : Str
  clientIp : Option Str
  draw : Nat
  order : List (Sigma (fun _ : Str => List Str))

namespace LoadBalancer

/-- The weights that a rotating algorithm serves a key with; a plain rotation counts each url
once. -/
def RotatesWith (lb : LoadBalancer) (key : Str) (urls : List Str) (weights : List Nat) : Prop :=
  match lb.algorithm with
  | .roundRobin => weights = List.replicate urls.length 1
  | .weightedRoundRobin => lb.weights.lookup key = some weights ∧
      lb.weightsSum.lookup key = some weights.sum ∧ weights.length ≤ urls.length
  | _ => False

/-- The key whose arm of the `match` answers a call. -/
def answeringKey (lb : LoadBalancer) (hs : Hashers) (draw : Nat) (path : Str)
    (clientIp : Option Str) :
    List (Sigma (fun _ : Str => List Str)) → BalancerState → Option Str
  | [], _ => none
  | ⟨key, urls⟩ :: rest, st =>
    if key.isPrefixOf path then
      match lb.pick hs draw clientIp key urls st with
      | (_, some _) => some key
      | (st, none) => answeringKey lb hs draw path clientIp rest st
    else answeringKey lb hs draw path clientIp rest st

def call (lb : LoadBalancer) (hs : Hashers) (st : BalancerState) (c : BalancerCall) :
    BalancerState × Except Panic (Option Str) :=
  lb.getTargetIn hs c.draw c.path c.clientIp c.order st

/-- What the calls of a run for one key are answered with, the calls for other keys left out. -/
def answersFor (lb : LoadBalancer) (hs : Hashers) (key : Str) :
    List BalancerCall → BalancerState → List (Except Panic (Option Str))
  | [], _ => []
  | c :: cs, st =>
    let rest := answersFor lb hs key cs (lb.call hs st c).1
    if lb.answeringKey hs c.draw c.path c.clientIp c.order st = some key then
      (lb.call hs st c).2 :: rest
    else rest

variable {lb : LoadBalancer} {key key' : Str} {urls : List Str} {weights : List Nat}
  {st : BalancerState}

/-- The turn of a key: how far its counter has come. -/
def turnOf (st : BalancerState) (key : Str) : Nat := (st.counters.lookup key).getD 0

theorem turnOf_insert (counters connections : StrMap Nat) (key : Str) (n : Nat) (key' : Str) :
    turnOf ⟨counters.insert key n, connections⟩ key' =
      if key' = key then n else turnOf ⟨counters, connections⟩ key' := by
  unfold turnOf
  by_cases hkey : key' = key
  · subst hkey
    rw [if_pos rfl, AList.lookup_insert, Option.getD_some]
  · rw [if_neg hkey, AList.lookup_insert_ne hkey]

theorem roundRobin_turnOf (hne : key ≠ key') (urls : List Str) (st : BalancerState) :
    turnOf (roundRobin key' urls st).1 key = turnOf st key := by
  unfold roundRobin
  dsimp only
  split
  next => rw [turnOf_insert, if_neg hne]
  next => rw [turnOf_insert, if_neg hne]

theorem weightedRoundRobin_turnOf (hne : key ≠ key') (urls : List Str) (st : BalancerState) :
    turnOf (lb.weightedRoundRobin key' urls st).1 key = turnOf st key := by
  unfold weightedRoundRobin
  dsimp only
  split
  next =>
    split
    next =>
      split
      next => rw [turnOf_insert, if_neg hne]
      next => rw [turnOf_insert, if_neg hne, turnOf_insert, if_neg hne]
    next => rw [turnOf_insert, if_neg hne]
  next => rw [turnOf_insert, if_neg hne]

/-- Serving another key leaves the turn of a key alone. -/
theorem RotatesWith.turnOf_pick (h : lb.RotatesWith key urls weights) (hne : key ≠ key')
    (hs : Hashers) (draw : Nat) (clientIp : Option Str) (urls' : List Str) (st : BalancerState) :
    turnOf (lb.pick hs draw clientIp key' urls' st).1 key = turnOf st key := by
  unfold RotatesWith at h
  unfold pick
  split at h
  next halg =>
    rw [halg]
    exact roundRobin_turnOf hne urls' st
  next halg =>
    rw [halg]
    exact weightedRoundRobin_turnOf hne urls' st
  next => exact h.elim

/-- The answer of turn `n` of a key, and the turn after it. -/
def TakesTurn (key : Str) (urls : List Str) (weights : List Nat) (n : Nat)
    (result : BalancerState × Except Panic (Option Str)) : Prop :=
  ∃ i url, Owns weights n i ∧ urls[i]? = some url ∧ result.2 = .ok (some url) ∧
    turnOf result.1 key = (n + 1) % weights.sum

theorem roundRobin_takesTurn (hturn : turnOf st key < urls.length) :
    ∃ st' answer, roundRobin key urls st = (st', some answer) ∧
      TakesTurn key urls (List.replicate urls.length 1) (turnOf st key) (st', answer) := by
  have hne : urls.length ≠ 0 := by omega
  obtain ⟨url, hurl⟩ : ∃ url, urls[turnOf st key]? = some url := ⟨_, List.getElem?_eq_getElem hturn⟩
  have hmod : turnOf st key % urls.length = turnOf st key := Nat.mod_eq_of_lt hturn
  have hindex := indexUrl_some.mpr hurl
  rw [← hmod] at hindex
  unfold roundRobin
  dsimp only
  rw [if_neg hne]
  refine ⟨_, _, rfl, turnOf st key, url, owns_replicate hturn, hurl, hindex, ?_⟩
  rw [turnOf_insert, if_pos rfl, List.sum_replicate, smul_eq_mul, Nat.mul_one]
  rfl

theorem weightedRoundRobin_takesTurn (hweights : lb.weights.lookup key = some weights)
    (hsum : lb.weightsSum.lookup key = some weights.sum) (hlen : weights.length ≤ urls.length)
    (hturn : turnOf st key < weights.sum) :
    ∃ st' answer, lb.weightedRoundRobin key urls st = (st', some answer) ∧
      TakesTurn key urls weights (turnOf st key) (st', answer) := by
  obtain ⟨i, howns⟩ := exists_owns hturn
  have hi := howns.lt_length
  have hurl : urls[i]? = some urls[i] := List.getElem?_eq_getElem (by omega)
  have hscan : weightedIndex (turnOf st key) weights 0 0 = some i := by
    rw [weightedIndex_eq_some (Nat.zero_le _)]
    refine ⟨i, weights[i], (Nat.zero_add i).symm, List.getElem?_eq_getElem hi, ?_, ?_⟩
    · rw [Nat.zero_add]
      exact howns.1
    · have hhigh := howns.2
      rw [List.sum_take_succ weights i hi] at hhigh
      omega
  have hne : weights.sum ≠ 0 := by omega
  unfold turnOf at hscan
  unfold weightedRoundRobin
  simp only [hweights, hsum, hscan, if_neg hne]
  refine ⟨_, _, rfl, i, urls[i], howns, hurl, indexUrl_some.mpr hurl, ?_⟩
  rw [turnOf_insert, if_pos rfl]
  rfl

/-- The arm of a rotating algorithm takes the turn that is the key's. -/
theorem RotatesWith.pick (h : lb.RotatesWith key urls weights)
    (hturn : turnOf st key < weights.sum) (hs : Hashers) (draw : Nat) (clientIp : Option Str) :
    ∃ st' answer, lb.pick hs draw clientIp key urls st = (st', some answer) ∧
      TakesTurn key urls weights (turnOf st key) (st', answer) := by
  unfold RotatesWith at h
  unfold LoadBalancer.pick
  split at h
  next halg =>
    subst h
    rw [halg]
    rw [List.sum_replicate, smul_eq_mul, Nat.mul_one] at hturn
    exact roundRobin_takesTurn hturn
  next halg =>
    obtain ⟨hweights, hsum, hlen⟩ := h
    rw [halg]
    exact weightedRoundRobin_takesTurn hweights hsum hlen hturn
  next => exact h.elim

/-- A call is for the first key that its path begins with. -/
theorem RotatesWith.answeringKey_first (h : lb.RotatesWith key urls weights)
    (hturn : turnOf st key < weights.sum) (hs : Hashers) (draw : Nat) {path : Str}
    (clientIp : Option Str) (hpre : key.isPrefixOf path = true)
    {before : List (Sigma (fun _ : Str => List Str))}
    (hbefore : ∀ e ∈ before, e.1.isPrefixOf path = false)
    (after : List (Sigma (fun _ : Str => List Str))) :
    lb.answeringKey hs draw path clientIp (before ++ ⟨key, urls⟩ :: after) st = some key := by
  induction before with
  | nil =>
    obtain ⟨st', answer, hpick, _⟩ := h.pick hturn hs draw clientIp
    simp only [List.nil_append, answeringKey, hpre, if_true, hpick]
  | cons e before ih =>
    have hnot := hbefore e List.mem_cons_self
    simp only [List.cons_append, answeringKey, hnot, Bool.false_eq_true, if_false]
    exact ih (fun e he => hbefore e (List.mem_cons_of_mem _ he))

/-- A call takes the turn of the key that it is for, and no other key's. -/
theorem RotatesWith.call (h : lb.RotatesWith key urls weights)
    (hturn : turnOf st key < weights.sum) (hs : Hashers) (draw : Nat) (path : Str)
    (clientIp : Option Str) (order : List (Sigma (fun _ : Str => List Str)))
    (horder : ∀ urls', ⟨key, urls'⟩ ∈ order → urls' = urls) :
    (lb.answeringKey hs draw path clientIp order st = some key →
      TakesTurn key urls weights (turnOf st key)
        (lb.getTargetIn hs draw path clientIp order st)) ∧
    (lb.answeringKey hs draw path clientIp order st ≠ some key →
      turnOf (lb.getTargetIn hs draw path clientIp order st).1 key = turnOf st key) := by
  induction order generalizing st with
  | nil => simp [answeringKey, getTargetIn]
  | cons e order ih =>
    obtain ⟨key', urls'⟩ := e
    have hrest : ∀ us, ⟨key, us⟩ ∈ order → us = urls :=
      fun us hus => horder us (List.mem_cons_of_mem _ hus)
    simp only [answeringKey, getTargetIn]
    by_cases hpre : key'.isPrefixOf path = true
    · rw [if_pos hpre, if_pos hpre]
      by_cases hkey : key = key'
      · subst hkey
        obtain rfl := horder urls' List.mem_cons_self
        obtain ⟨st', answer, hpick, htakes⟩ := h.pick hturn hs draw clientIp
        rw [hpick]
        exact ⟨fun _ => htakes, fun hother => absurd rfl hother⟩
      · have hkeeps := h.turnOf_pick hkey hs draw clientIp urls' st
        cases hpick : lb.pick hs draw clientIp key' urls' st with
        | mk st' answer =>
          rw [hpick] at hkeeps
          dsimp only at hkeeps
          cases answer with
          | some answer =>
            exact ⟨fun hsome => absurd (Option.some.inj hsome).symm hkey, fun _ => hkeeps⟩
          | none =>
            rw [← hkeeps] at hturn ⊢
            exact ih hturn hrest
    · rw [if_neg hpre, if_neg hpre]
      exact ih hturn hrest

/-- The calls for a key take its turns one after the other, whatever is called in between. -/
theorem RotatesWith.answersFor (h : lb.RotatesWith key urls weights) (hpos : 0 < weights.sum)
    (hurls : lb.targets.lookup key = some urls) (hs : Hashers) {calls : List BalancerCall}
    (horder : ∀ c ∈ calls, IterationOf lb.targets c.order) {n : Nat}
    (hturn : turnOf st key = n % weights.sum) {k : Nat} {answer : Except Panic (Option Str)}
    (hanswer : (lb.answersFor hs key calls st)[k]? = some answer) :
    ∃ i url, Owns weights ((n + k) % weights.sum) i ∧ urls[i]? = some url ∧
      answer = .ok (some url) := by
  induction calls generalizing st n k with
  | nil => simp [LoadBalancer.answersFor] at hanswer
  | cons c calls ih =>
    have hrest : ∀ c ∈ calls, IterationOf lb.targets c.order :=
      fun c hc => horder c (List.mem_cons_of_mem _ hc)
    have hown : ∀ urls', ⟨key, urls'⟩ ∈ c.order → urls' = urls := by
      intro urls' hmem
      have hentry := (horder c List.mem_cons_self).mem_iff.mp hmem
      have hlookup := AList.mem_lookup_iff.mpr hentry
      exact Option.some.inj ((Option.mem_def.mp hlookup).symm.trans hurls)
    have hlt : turnOf st key < weights.sum := by
      rw [hturn]
      exact Nat.mod_lt n hpos
    obtain ⟨hfor, hother⟩ := h.call hlt hs c.draw c.path c.clientIp c.order hown
    simp only [LoadBalancer.answersFor] at hanswer
    split at hanswer
    next hkey =>
      obtain ⟨i, url, howns, hurl, hgiven, hnext⟩ := hfor hkey
      cases k with
      | zero =>
        rw [List.getElem?_cons_zero] at hanswer
        rw [hturn] at howns
        exact ⟨i, url, howns, hurl, (Option.some.inj hanswer).symm.trans hgiven⟩
      | succ k =>
        rw [List.getElem?_cons_succ] at hanswer
        rw [hturn, Nat.mod_add_mod] at hnext
        have hlater := ih hrest hnext hanswer
        rwa [show n + 1 + k = n + (k + 1) by omega] at hlater
    next hkey => exact ih hrest ((hother hkey).trans hturn) hanswer

end LoadBalancer

end Road7
