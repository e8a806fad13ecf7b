import Mathlib.Algebra.Group.Nat.Defs
import Mathlib.Data.Set.Prod

namespace Road7

variable {α β γ : Type}

/-- A code word of the set can be taken off the front of a text in one way only. -/
def PrefixFreeOn (enc : α → List γ) (s : Set α) : Prop :=
  ∀ a ∈ s, ∀ b ∈ s, ∀ x y, enc a ++ x = enc b ++ y → a = b ∧ x = y

namespace PrefixFreeOn

variable {enc : α → List γ} {enc' : β → List γ} {s : Set α} {t : Set β}

theorem of_length_eq {n : Nat} (hlen : ∀ a ∈ s, (enc a).length = n)
    (hinj : ∀ a ∈ s, ∀ b ∈ s, enc a = enc b → a = b) : PrefixFreeOn enc s := by
  intro a ha b hb x y h
  have hsame : (enc a).length = (enc b).length := (hlen a ha).trans (hlen b hb).symm
  obtain ⟨hword, hrest⟩ := List.append_inj h hsame
  exact ⟨hinj a ha b hb hword, hrest⟩

/-- One code word behind another one. -/
theorem pair (h : PrefixFreeOn enc s) (h' : PrefixFreeOn enc' t) :
    PrefixFreeOn (fun p => enc p.1 ++ enc' p.2) (s ×ˢ t) := by
  rintro ⟨a, b⟩ ⟨ha, hb⟩ ⟨a', b'⟩ ⟨ha', hb'⟩ x y heq
  simp only [List.append_assoc] at heq
  obtain ⟨rfl, hrest⟩ := h a ha a' ha' _ _ heq
  obtain ⟨rfl, hxy⟩ := h' b hb b' hb' _ _ hrest
  exact ⟨rfl, hxy⟩

/-- A list behind the code word of its length. -/
theorem withLength {len : Nat → List γ} {sizes : Set Nat} (h : PrefixFreeOn len sizes) :
    PrefixFreeOn (fun xs => len xs.length ++ xs) {xs | xs.length ∈ sizes} := by
  intro xs hxs ys hys x y heq
  simp only [List.append_assoc] at heq
  obtain ⟨hlen, hrest⟩ := h _ hxs _ hys _ _ heq
  exact List.append_inj hrest hlen

/-- A row of code words says where each of them ends, if none of them is empty. -/
theorem flatMap_inj (h : PrefixFreeOn enc s) (hne : ∀ a ∈ s, enc a ≠ []) {as bs : List α}
    (has : ∀ a ∈ as, a ∈ s) (hbs : ∀ b ∈ bs, b ∈ s) :
    as.flatMap enc = bs.flatMap enc ↔ as = bs := by
  refine ⟨fun heq => ?_, fun heq => by rw [heq]⟩
  induction as generalizing bs with
  | nil =>
    cases bs with
    | nil => rfl
    | cons b bs =>
      have hword : enc b = [] := List.flatMap_eq_nil_iff.mp heq.symm b List.mem_cons_self
      exact absurd hword (hne b (hbs b List.mem_cons_self))
  | cons a as ih =>
    have ha := has a List.mem_cons_self
    cases bs with
    | nil =>
      have hword : enc a = [] := List.flatMap_eq_nil_iff.mp heq a List.mem_cons_self
      exact absurd hword (hne a ha)
    | cons b bs =>
      simp only [List.flatMap_cons] at heq
      obtain ⟨rfl, hrest⟩ := h a ha b (hbs b List.mem_cons_self) _ _ heq
      rw [ih (fun c hc => has c (List.mem_cons_of_mem _ hc))
        (fun c hc => hbs c (List.mem_cons_of_mem _ hc)) hrest]

end PrefixFreeOn

/-- A number below `b ^ k` is known by its `k` lowest digits. -/
theorem eq_of_digits_eq {b k m n : Nat} (hm : m < b ^ k) (hn : n < b ^ k)
    (h : ∀ i < k, m / b ^ i % b = n / b ^ i % b) : m = n := by
  induction k generalizing m n with
  | zero =>
    simp only [pow_zero, Nat.lt_one_iff] at hm hn
    rw [hm, hn]
  | succ k ih =>
    have hlow : m % b = n % b := by simpa using h 0 (Nat.succ_pos k)
    have hhigh : m / b = n / b := by
      refine ih ?_ ?_ (fun i hi => ?_)
      · exact Nat.div_lt_of_lt_mul (by rwa [← pow_succ'])
      · exact Nat.div_lt_of_lt_mul (by rwa [← pow_succ'])
      · have hdigit := h (i + 1) (Nat.succ_lt_succ hi)
        rw [pow_succ'] at hdigit
        rwa [Nat.div_div_eq_div_mul, Nat.div_div_eq_div_mul]
    rw [← Nat.div_add_mod m b, ← Nat.div_add_mod n b, hlow, hhigh]

end Road7
