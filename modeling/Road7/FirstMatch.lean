import Mathlib.Data.List.Basic

namespace Road7

section FirstMatch

variable {α : Type} {p : α → Bool} {size : α → Nat} {xs : List α} {x : α}

/-- The largest of the elements that match. -/
def IsLargest (p : α → Bool) (size : α → Nat) (xs : List α) (x : α) : Prop :=
  x ∈ xs ∧ p x = true ∧ ∀ y ∈ xs, p y = true → size y ≤ size x

/-- No two elements match. -/
def OneMatch (p : α → Bool) (xs : List α) : Prop :=
  ∀ x ∈ xs, ∀ y ∈ xs, p x = true → p y = true → x = y

theorem exists_isLargest (size : α → Nat) (hmem : x ∈ xs) (hp : p x = true) :
    ∃ z, IsLargest p size xs z := by
  induction xs generalizing x with
  | nil => simp at hmem
  | cons a xs ih =>
    by_cases hrest : ∃ y ∈ xs, p y = true
    · obtain ⟨y, hy, hpy⟩ := hrest
      obtain ⟨z, hz, hpz, hlargest⟩ := ih hy hpy
      by_cases ha : p a = true ∧ size z < size a
      · refine ⟨a, by simp, ha.1, ?_⟩
        intro w hw hpw
        rcases List.mem_cons.mp hw with rfl | hw
        · exact Nat.le_refl _
        · have hle := hlargest w hw hpw
          omega
      · refine ⟨z, List.mem_cons_of_mem _ hz, hpz, ?_⟩
        intro w hw hpw
        rcases List.mem_cons.mp hw with rfl | hw
        · have hnot : ¬size z < size w := fun hlt => ha ⟨hpw, hlt⟩
          omega
        · exact hlargest w hw hpw
    · have hnone : ∀ y ∈ xs, p y = true → False := fun y hy hpy => hrest ⟨y, hy, hpy⟩
      have ha : p a = true := by
        rcases List.mem_cons.mp hmem with rfl | hx
        · exact hp
        · exact (hnone x hx hp).elim
      refine ⟨a, by simp, ha, ?_⟩
      intro w hw hpw
      rcases List.mem_cons.mp hw with rfl | hw
      · exact Nat.le_refl _
      · exact (hnone w hw hpw).elim

theorem find?_of_oneMatch (hone : OneMatch p xs) (hmem : x ∈ xs) (hp : p x = true) :
    xs.find? p = some x := by
  cases hfind : xs.find? p with
  | none =>
    have hnot := List.find?_eq_none.mp hfind x hmem
    exact absurd hp hnot
  | some y =>
    have hy := List.mem_of_find?_eq_some hfind
    rw [hone y hy x hmem (List.find?_some hfind) hp]

theorem OneMatch.perm {ys : List α} (hone : OneMatch p xs) (hperm : ys.Perm xs) :
    OneMatch p ys :=
  fun x hx y hy => hone x (hperm.mem_iff.mp hx) y (hperm.mem_iff.mp hy)

/-- Every element that matches comes first in some order. -/
theorem exists_order_find? (hmem : x ∈ xs) (hp : p x = true) :
    ∃ ys : List α, ys.Perm xs ∧ ys.find? p = some x := by
  obtain ⟨before, after, rfl⟩ := List.append_of_mem hmem
  exact ⟨x :: (before ++ after), List.perm_middle.symm, by simp [hp]⟩

/-- The first match is the largest one in every order exactly when nothing else matches. -/
theorem find?_largest_iff (p : α → Bool) (size : α → Nat) (xs : List α) :
    (∀ ys : List α, ys.Perm xs → ∀ x, IsLargest p size xs x → ys.find? p = some x) ↔
      OneMatch p xs := by
  constructor
  · intro h x hx y hy hpx hpy
    obtain ⟨z, hz⟩ := exists_isLargest size hx hpx
    have heq : ∀ w ∈ xs, p w = true → w = z := by
      intro w hw hpw
      obtain ⟨ys, hperm, hfind⟩ := exists_order_find? hw hpw
      exact Option.some.inj (hfind.symm.trans (h ys hperm z hz))
    rw [heq x hx hpx, heq y hy hpy]
  · intro hone ys hperm x hx
    exact find?_of_oneMatch (hone.perm hperm) (hperm.mem_iff.mpr hx.1) hx.2.1

end FirstMatch

end Road7
