import Mathlib.Algebra.BigOperators.Group.List.Basic
import Mathlib.Data.Nat.Periodic
import Mathlib.Order.Interval.Finset.Nat

namespace Road7

/-- An index of a list of weights owns the numbers from the sum of the weights before it up to the
sum with its own. -/
def Owns (weights : List Nat) (n i : Nat) : Prop :=
  (weights.take i).sum ≤ n ∧ n < (weights.take (i + 1)).sum

instance (weights : List Nat) (n i : Nat) : Decidable (Owns weights n i) :=
  inferInstanceAs (Decidable (_ ∧ _))

section Rotation

variable {weights : List Nat} {n i j : Nat}

theorem sum_take_mono (weights : List Nat) (h : i ≤ j) :
    (weights.take i).sum ≤ (weights.take j).sum := by
  have htake : weights.take i = (weights.take j).take i := by rw [List.take_take, Nat.min_eq_left h]
  rw [htake]
  exact (List.take_sublist i _).sum_le_sum (fun _ _ => Nat.zero_le _)

theorem sum_take_succ (weights : List Nat) (i : Nat) :
    (weights.take (i + 1)).sum = (weights.take i).sum + weights.getD i 0 := by
  rw [List.take_add_one, List.sum_append, List.getD_eq_getElem?_getD]
  cases weights[i]? with
  | none => simp
  | some w => simp

theorem sum_take_le (weights : List Nat) (i : Nat) : (weights.take i).sum ≤ weights.sum :=
  (List.take_sublist i weights).sum_le_sum (fun _ _ => Nat.zero_le _)

theorem Owns.unique (hi : Owns weights n i) (hj : Owns weights n j) : i = j := by
  by_contra hne
  obtain ⟨hilow, hihigh⟩ := hi
  obtain ⟨hjlow, hjhigh⟩ := hj
  rcases Nat.lt_or_gt_of_ne hne with hlt | hlt
  · have hle : (weights.take (i + 1)).sum ≤ (weights.take j).sum := sum_take_mono weights hlt
    omega
  · have hle : (weights.take (j + 1)).sum ≤ (weights.take i).sum := sum_take_mono weights hlt
    omega

theorem Owns.getD_pos (h : Owns weights n i) : 0 < weights.getD i 0 := by
  obtain ⟨hlow, hhigh⟩ := h
  rw [sum_take_succ] at hhigh
  omega

theorem Owns.lt_length (h : Owns weights n i) : i < weights.length := by
  by_contra hge
  have hpos := h.getD_pos
  rw [List.getD_eq_getElem?_getD, List.getElem?_eq_none (Nat.not_lt.mp hge)] at hpos
  exact Nat.lt_irrefl 0 hpos

theorem exists_owns (h : n < weights.sum) : ∃ i, Owns weights n i := by
  have hlast : n < (weights.take weights.length).sum := by rwa [List.take_length]
  have hex : ∃ m, n < (weights.take m).sum := ⟨_, hlast⟩
  cases hfind : Nat.find hex with
  | zero =>
    have hspec := Nat.find_spec hex
    rw [hfind] at hspec
    simp at hspec
  | succ m =>
    have hspec := Nat.find_spec hex
    have hmin := Nat.find_min hex (m := m) (by omega)
    rw [hfind] at hspec
    exact ⟨m, Nat.not_lt.mp hmin, hspec⟩

/-- Of the numbers below the sum an index owns as many as it has weight. -/
theorem count_owns (weights : List Nat) (i : Nat) :
    Nat.count (fun n => Owns weights n i) weights.sum = weights.getD i 0 := by
  have hinterval : (Finset.range weights.sum).filter (fun n => Owns weights n i) =
      Finset.Ico (weights.take i).sum (weights.take (i + 1)).sum := by
    ext n
    rw [Finset.mem_filter, Finset.mem_range, Finset.mem_Ico]
    have hle := sum_take_le weights (i + 1)
    constructor
    · intro h
      exact h.2
    · intro h
      exact ⟨by omega, h⟩
  rw [Nat.count_eq_card_filter_range, hinterval, Nat.card_Ico, sum_take_succ]
  omega

/-- In any window as long as the sum, wherever it starts, an index has as many turns as it has
weight. -/
theorem turns_in_window (weights : List Nat) (start i : Nat) :
    ((Finset.Ico start (start + weights.sum)).filter
      (fun k => Owns weights (k % weights.sum) i)).card = weights.getD i 0 := by
  have hperiodic : Function.Periodic (fun k => Owns weights (k % weights.sum) i) weights.sum := by
    intro k
    simp only [Nat.add_mod_right]
  rw [Nat.filter_Ico_card_eq_of_periodic _ _ _ hperiodic, ← count_owns weights i]
  have hmod : ∀ k, k < weights.sum →
      (Owns weights (k % weights.sum) i ↔ Owns weights k i) := by
    intro k hk
    rw [Nat.mod_eq_of_lt hk]
  rw [Nat.count_eq_card_filter_range, Nat.count_eq_card_filter_range]
  apply congrArg
  apply Finset.filter_congr
  intro k hk
  exact hmod k (Finset.mem_range.mp hk)

/-- Each of the equal turns of a plain rotation belongs to its own index. -/
theorem owns_replicate (h : n < j) : Owns (List.replicate j 1) n n := by
  unfold Owns
  simp only [List.take_replicate, List.sum_replicate, smul_eq_mul, Nat.mul_one]
  omega

end Rotation

section Cycle

variable {α : Type} {xs : List α} {x : α}

/-- Where no entry but `x` is followed by another one, all that is not `x` is alike. -/
theorem eq_of_no_change (h : ∀ j a b, xs[j]? = some a → xs[(j + 1) % xs.length]? = some b →
    a ≠ x → b = a) {j : Nat} {a : α} (hj : xs[j]? = some a) (ha : a ≠ x) :
    ∀ b ∈ xs, b = a := by
  have hlt : j < xs.length := (List.getElem?_eq_some_iff.mp hj).1
  have hahead : ∀ k, xs[(j + k) % xs.length]? = some a := by
    intro k
    induction k with
    | zero => rwa [Nat.add_zero, Nat.mod_eq_of_lt hlt]
    | succ k ih =>
      have hnext : ((j + k) % xs.length + 1) % xs.length < xs.length := Nat.mod_lt _ (by omega)
      obtain ⟨b, hb⟩ : ∃ b, xs[((j + k) % xs.length + 1) % xs.length]? = some b :=
        ⟨_, List.getElem?_eq_getElem hnext⟩
      obtain rfl := h _ a b ih hb ha
      rwa [Nat.mod_add_mod] at hb
  intro b hb
  obtain ⟨i, hi, rfl⟩ := List.mem_iff_getElem.mp hb
  have hround := hahead (i + xs.length - j)
  have hplace : j + (i + xs.length - j) = i + xs.length := by omega
  rw [hplace, Nat.add_mod_right, Nat.mod_eq_of_lt hi, List.getElem?_eq_getElem hi] at hround
  exact Option.some.inj hround

/-- Around a list with two different entries some entry other than `x` is followed by another. -/
theorem exists_change {a b : α} (ha : a ∈ xs) (hb : b ∈ xs) (hne : a ≠ b) :
    ∃ j c d, xs[j]? = some c ∧ xs[(j + 1) % xs.length]? = some d ∧ c ≠ x ∧ d ≠ c := by
  by_contra hnone
  push Not at hnone
  obtain ⟨c, hc, hcx⟩ : ∃ c ∈ xs, c ≠ x := by
    by_cases hax : a = x
    · exact ⟨b, hb, fun hbx => hne (hax.trans hbx.symm)⟩
    · exact ⟨a, ha, hax⟩
  obtain ⟨j, hj⟩ := List.mem_iff_getElem?.mp hc
  have hall := eq_of_no_change hnone hj hcx
  exact hne ((hall a ha).trans (hall b hb).symm)

end Cycle

end Road7
