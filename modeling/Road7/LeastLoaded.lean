import Mathlib.Order.WithBot

namespace Road7

section Scan

variable {α β : Type} [LinearOrder β]

/-- A scan for the first of the least scores below a start value. -/
def scanLeast : List (α × β) → WithTop β → Option α → Option α
  | [], _, best => best
  | (a, score) :: rest, min, best =>
    if score < min then scanLeast rest score (some a) else scanLeast rest min best

variable {l : List (α × β)} {min : WithTop β} {best : Option α}

/-- A scan finds nothing when no score is below its start, and a least one otherwise. -/
theorem scanLeast_spec (l : List (α × β)) (min : WithTop β) (best : Option α) :
    ((∀ e ∈ l, min ≤ e.2) ∧ scanLeast l min best = best) ∨
      ∃ a score, (a, score) ∈ l ∧ score < min ∧ (∀ e ∈ l, score ≤ e.2) ∧
        scanLeast l min best = some a := by
  induction l generalizing min best with
  | nil => exact .inl ⟨by simp, rfl⟩
  | cons e l ih =>
    obtain ⟨a, score⟩ := e
    unfold scanLeast
    split
    next hlt =>
      refine .inr ?_
      rcases ih score (some a) with ⟨hall, hresult⟩ | ⟨a', score', hmem, hlt', hall, hresult⟩
      · refine ⟨a, score, List.mem_cons_self, hlt, fun e he => ?_, hresult⟩
        rcases List.mem_cons.mp he with rfl | he
        · exact le_rfl
        · exact WithTop.coe_le_coe.mp (hall e he)
      · refine ⟨a', score', List.mem_cons_of_mem _ hmem, hlt'.trans hlt, fun e he => ?_, hresult⟩
        rcases List.mem_cons.mp he with rfl | he
        · exact (WithTop.coe_lt_coe.mp hlt').le
        · exact hall e he
    next hge =>
      rcases ih min best with ⟨hall, hresult⟩ | ⟨a', score', hmem, hlt', hall, hresult⟩
      · refine .inl ⟨fun e he => ?_, hresult⟩
        rcases List.mem_cons.mp he with rfl | he
        · exact not_lt.mp hge
        · exact hall e he
      · refine .inr ⟨a', score', List.mem_cons_of_mem _ hmem, hlt', fun e he => ?_, hresult⟩
        rcases List.mem_cons.mp he with rfl | he
        · exact WithTop.coe_le_coe.mp (hlt'.le.trans (not_lt.mp hge))
        · exact hall e he

end Scan

section Loads

variable {ι : Type} {s : Set ι} {weight load load' : ι → Nat} {i : ι}

/-- No index of a set has less load for its weight. -/
def LeastLoaded (s : Set ι) (weight load : ι → Nat) (i : ι) : Prop :=
  ∀ j ∈ s, load i * weight j ≤ load j * weight i

/-- Without its last unit of load no index of the set has more load for its weight than any. -/
def FairlyLoaded (s : Set ι) (weight load : ι → Nat) : Prop :=
  ∀ i ∈ s, ∀ j ∈ s, 1 ≤ load i → (load i - 1) * weight j ≤ load j * weight i

theorem fairlyLoaded_of_unloaded (h : ∀ i ∈ s, load i = 0) : FairlyLoaded s weight load := by
  intro i hi j _ hpos
  rw [h i hi] at hpos
  omega

theorem FairlyLoaded.congr (h : FairlyLoaded s weight load) (hload : ∀ i ∈ s, load' i = load i) :
    FairlyLoaded s weight load' := by
  intro i hi j hj hpos
  rw [hload i hi] at hpos ⊢
  rw [hload j hj]
  exact h i hi j hj hpos

/-- One unit more for a least loaded index leaves the loads fair. -/
theorem FairlyLoaded.add_one [DecidableEq ι] (h : FairlyLoaded s weight load)
    (hi : LeastLoaded s weight load i)
    (hload : ∀ j ∈ s, load' j = load j + if j = i then 1 else 0) :
    FairlyLoaded s weight load' := by
  have hmono : ∀ j ∈ s, load j ≤ load' j := by
    intro j hj
    rw [hload j hj]
    exact Nat.le_add_right _ _
  intro a ha b hb hpos
  by_cases hai : a = i
  · subst hai
    have hbefore : load' a - 1 = load a := by
      rw [hload a ha, if_pos rfl, Nat.add_sub_cancel]
    calc (load' a - 1) * weight b = load a * weight b := by rw [hbefore]
      _ ≤ load b * weight a := hi b hb
      _ ≤ load' b * weight a := Nat.mul_le_mul_right _ (hmono b hb)
  · have hsame : load' a = load a := by
      rw [hload a ha, if_neg hai, Nat.add_zero]
    rw [hsame] at hpos ⊢
    exact (h a ha b hb hpos).trans (Nat.mul_le_mul_right _ (hmono b hb))

end Loads

end Road7
