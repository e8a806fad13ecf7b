import Mathlib.Algebra.GroupWithZero.Nat
import Mathlib.Data.List.Basic

namespace Road7

variable {σ ε : Type}

/-- A run of a partial step function from one state to another, all of whose steps meet a
condition on the state before the step and the event. -/
inductive Run (step : σ → ε → Option σ) (ok : σ → ε → Prop) : σ → List ε → σ → Prop
  | nil (s : σ) : Run step ok s [] s
  | cons {s t u : σ} {e : ε} {es : List ε} : ok s e → step s e = some t →
      Run step ok t es u → Run step ok s (e :: es) u

def anyStep (_ : σ) (_ : ε) : Prop := True

namespace Run

variable {step : σ → ε → Option σ} {ok ok' : σ → ε → Prop} {s t u : σ} {es fs : List ε}

theorem append (h : Run step ok s es t) (h' : Run step ok t fs u) :
    Run step ok s (es ++ fs) u := by
  induction h with
  | nil => exact h'
  | cons hok hstep _ ih => exact cons hok hstep (ih h')

theorem snoc {e : ε} (h : Run step ok s es t) (hok : ok t e) (hstep : step t e = some u) :
    Run step ok s (es ++ [e]) u :=
  h.append (cons hok hstep (nil u))

theorem split : ∀ {es : List ε} {s : σ}, Run step ok s (es ++ fs) u →
    ∃ t, Run step ok s es t ∧ Run step ok t fs u
  | [], s, h => ⟨s, nil s, h⟩
  | _ :: _, _, cons hok hstep h => by
    obtain ⟨t, hes, hfs⟩ := split h
    exact ⟨t, cons hok hstep hes, hfs⟩

theorem unique (h : Run step ok s es t) (h' : Run step ok' s es u) : t = u := by
  induction h with
  | nil => cases h'; rfl
  | cons _ hstep _ ih =>
    cases h' with
    | cons _ hstep' h' =>
      cases hstep.symm.trans hstep'
      exact ih h'

theorem mono (himp : ∀ s e, ok s e → ok' s e) (h : Run step ok s es t) :
    Run step ok' s es t := by
  induction h with
  | nil s => exact nil s
  | cons hok hstep _ ih => exact cons (himp _ _ hok) hstep ih

theorem both (h : Run step ok s es t) (h' : Run step ok' s es t) :
    Run step (fun s e => ok s e ∧ ok' s e) s es t := by
  induction h with
  | nil s => exact nil s
  | cons hok hs _ ih =>
    cases h' with
    | cons hok' hs' h' =>
      cases hs.symm.trans hs'
      exact cons ⟨hok, hok'⟩ hs (ih h')

/-- No step leads to a state with the property. -/
def avoiding (step : σ → ε → Option σ) (P : σ → Prop) (s : σ) (e : ε) : Prop :=
  ∀ t, step s e = some t → ¬P t

/-- A run comes to a last state with a property, or avoids it from its start on. -/
theorem last_or_avoiding {P : σ → Prop} (h : Run step ok s es t) :
    (∃ es₁ es₂ m, es = es₁ ++ es₂ ∧ Run step ok s es₁ m ∧ P m ∧ Run step ok m es₂ t ∧
      Run step (avoiding step P) m es₂ t) ∨ Run step (avoiding step P) s es t := by
  induction h with
  | nil s => exact .inr (nil s)
  | @cons s m t e es hok hstep hrest ih =>
    rcases ih with ⟨es₁, es₂, k, rfl, hes₁, hk, hes₂, havoid⟩ | havoid
    · exact .inl ⟨e :: es₁, es₂, k, rfl, cons hok hstep hes₁, hk, hes₂, havoid⟩
    · by_cases hm : P m
      · exact .inl ⟨[e], es, m, rfl, cons hok hstep (nil m), hm, hrest, havoid⟩
      · refine .inr (cons ?_ hstep havoid)
        intro u hu
        cases hstep.symm.trans hu
        exact hm

theorem last {P : σ → Prop} (h : Run step ok s es t) (hs : P s) :
    ∃ es₁ es₂ m, es = es₁ ++ es₂ ∧ Run step ok s es₁ m ∧ P m ∧ Run step ok m es₂ t ∧
      Run step (avoiding step P) m es₂ t := by
  rcases h.last_or_avoiding (P := P) with hlast | havoid
  · exact hlast
  · exact ⟨[], es, s, rfl, nil s, hs, h, havoid⟩

/-- A run whose events stand for those of another step function. -/
theorem map {δ : Type} {step : σ → δ → Option σ} {f : ε → δ}
    (h : Run (fun s e => step s (f e)) anyStep s es t) : Run step anyStep s (es.map f) t := by
  induction h with
  | nil s => exact nil s
  | cons _ hs _ ih => exact cons trivial hs ih

/-- A simulation that may leave out steps carries runs over. -/
theorem simulate {τ δ : Type} {step' : τ → δ → Option τ} {ok'' : τ → δ → Prop}
    {R : σ → τ → Prop}
    (hsim : ∀ {s e t a}, R s a → ok s e → step s e = some t →
      R t a ∨ ∃ d b, ok'' a d ∧ step' a d = some b ∧ R t b)
    (h : Run step ok s es t) :
    ∀ {a : τ}, R s a → ∃ ds b, Run step' ok'' a ds b ∧ R t b := by
  induction h with
  | nil => exact fun hr => ⟨[], _, nil _, hr⟩
  | cons hok hs _ ih =>
    intro a hr
    rcases hsim hr hok hs with hr' | ⟨d, b, hok', hs', hr'⟩
    · exact ih hr'
    · obtain ⟨ds, c, hrun, hc⟩ := ih hr'
      exact ⟨d :: ds, c, cons hok' hs' hrun, hc⟩

theorem invariant {P : σ → Prop}
    (hstep : ∀ {s e t}, P s → ok s e → step s e = some t → P t)
    (h : Run step ok s es t) : P s → P t := by
  induction h with
  | nil => exact id
  | cons hok hs _ ih => exact fun hp => ih (hstep hp hok hs)

/-- An invariant that gives a stronger condition on the steps. -/
theorem strengthen {P : σ → Prop}
    (hstep : ∀ {s e t}, P s → ok s e → step s e = some t → ok' s e ∧ P t)
    (h : Run step ok s es t) : P s → Run step ok' s es t := by
  induction h with
  | nil s => exact fun _ => nil s
  | cons hok hs _ ih =>
    intro hp
    obtain ⟨hok', ht⟩ := hstep hp hok hs
    exact cons hok' hs (ih ht)

/-- Where the clock of the states never goes back, no step is later than the end of the run. -/
theorem timed (clock : σ → Nat) (time : ε → Nat)
    (hstep : ∀ {s e t}, step s e = some t → time e = clock t ∧ clock s ≤ clock t)
    (h : Run step ok s es t) :
    clock s ≤ clock t ∧ Run step (fun _ e => time e ≤ clock t) s es t := by
  induction h with
  | nil s => exact ⟨Nat.le_refl _, nil s⟩
  | cons _ hs _ ih =>
    obtain ⟨hle, hrest⟩ := ih
    obtain ⟨htime, hclock⟩ := hstep hs
    exact ⟨Nat.le_trans hclock hle, cons (htime ▸ hle) hs hrest⟩

/-- Every step leads to a state with the property. -/
def keeping (step : σ → ε → Option σ) (P : σ → Prop) (s : σ) (e : ε) : Prop :=
  ∀ t, step s e = some t → P t

/-- Where each step from a state with a property leads to one exactly under a condition, all the
states of a run have the property exactly when all its steps meet the condition. -/
theorem keeping_iff {I P : σ → Prop}
    (hstep : ∀ {s e t}, I s → P s → ok s e → step s e = some t → I t ∧ (P t ↔ ok' s e))
    (h : Run step ok s es t) : I s → P s →
      (Run step (keeping step P) s es t ↔ Run step ok' s es t) := by
  induction h with
  | nil s => exact fun _ _ => ⟨fun _ => nil s, fun _ => nil s⟩
  | cons hok hs _ ih =>
    intro hi hp
    obtain ⟨hi', hiff⟩ := hstep hi hp hok hs
    constructor
    · intro hkeeping
      cases hkeeping with
      | cons hkeep hs' hrest =>
        have hp' := hkeep _ hs
        cases hs.symm.trans hs'
        exact cons (hiff.mp hp') hs ((ih hi' hp').mp hrest)
    · intro hmeets
      cases hmeets with
      | cons hmeet hs' hrest =>
        have hp' := hiff.mpr hmeet
        cases hs.symm.trans hs'
        refine cons ?_ hs ((ih hi' hp').mpr hrest)
        intro u hu
        cases hs.symm.trans hu
        exact hp'

/-- A measure that each step raises by its due, or by one more where it fails a condition: at the
end it has the sum of the dues exactly when all steps meet the condition. -/
theorem measure_iff (I : σ → Prop) (μ : σ → Nat) (due : ε → Nat)
    (hstep : ∀ {s e t}, I s → ok s e → step s e = some t →
      I t ∧ (ok' s e ∧ μ t = μ s + due e ∨ ¬ok' s e ∧ μ t = μ s + due e + 1))
    (h : Run step ok s es t) : I s →
      I t ∧ μ s + (es.map due).sum ≤ μ t ∧
        (μ t = μ s + (es.map due).sum ↔ Run step ok' s es t) := by
  induction h with
  | nil s => exact fun hi => ⟨hi, Nat.le_refl _, iff_of_true rfl (nil s)⟩
  | @cons s m t e es hok hs _ ih =>
    intro hi
    obtain ⟨him, hm⟩ := hstep hi hok hs
    obtain ⟨hit, hge, hiff⟩ := ih him
    rw [List.map_cons, List.sum_cons]
    refine ⟨hit, by omega, ?_, ?_⟩
    · intro heq
      rcases hm with ⟨hmeet, hm⟩ | ⟨_, hm⟩
      · exact cons hmeet hs (hiff.mp (by omega))
      · omega
    · intro hrun
      cases hrun with
      | cons hmeet hs' hrest =>
        cases hs.symm.trans hs'
        have heq := hiff.mpr hrest
        rcases hm with ⟨_, hm⟩ | ⟨hfail, _⟩
        · omega
        · exact absurd hmeet hfail

section Unwinding

variable {seen : ε → Bool} {e : ε}

/-- What the unseen steps preserve, a run without seen ones preserves. -/
theorem unseen {P : σ → Prop} (h : Run step ok s es t) (hes : es.filter seen = [])
    (hunseen : ∀ {s e t}, P s → ok s e → seen e = false → step s e = some t → P t) :
    P s → P t := by
  induction h with
  | nil => exact id
  | @cons s m t e es hok hstep _ ih =>
    intro hs
    obtain ⟨he, hes⟩ : seen e = false ∧ es.filter seen = [] := by
      cases hseen : seen e with
      | true => simp [hseen] at hes
      | false => exact ⟨rfl, by simpa [hseen] using hes⟩
    exact ih hes (hunseen hs hok he hstep)

/-- A run comes to the first of its seen steps, with what the unseen ones preserve. -/
theorem to_seen {P : σ → Prop} (h : Run step ok s es t) (hes : es.filter seen = e :: fs)
    (hunseen : ∀ {s e t}, P s → ok s e → seen e = false → step s e = some t → P t) (hs : P s) :
    ∃ m n gs, P m ∧ ok m e ∧ step m e = some n ∧ Run step ok n gs t ∧ gs.filter seen = fs := by
  induction h with
  | nil => simp at hes
  | @cons s m t d es hok hstep hrest ih =>
    cases hd : seen d with
    | true =>
      simp only [List.filter_cons, hd, if_true, List.cons.injEq] at hes
      obtain ⟨rfl, hfs⟩ := hes
      exact ⟨s, m, es, hs, hok, hstep, hrest, hfs⟩
    | false => exact ih (by simpa [hd] using hes) (hunseen hs hok hd hstep)

/-- Two runs with the same seen steps keep a relation that the seen steps preserve together, and
the unseen ones of each run alone. -/
theorem unwind {R : σ → σ → Prop} {t' : σ}
    (hleft : ∀ {a e b c}, R a c → ok a e → seen e = false → step a e = some b → R b c)
    (hright : ∀ {a e b c}, R c a → ok a e → seen e = false → step a e = some b → R c b)
    (hboth : ∀ {a b c d e}, R a c → ok a e → ok c e → step a e = some b → step c e = some d →
      seen e = true → R b d)
    (h : Run step ok s es t) : ∀ {s' fs}, Run step ok s' fs t' →
      es.filter seen = fs.filter seen → R s s' → R t t' := by
  induction h with
  | nil s =>
    intro s' fs h' hes hr
    exact h'.unseen (P := R s) hes.symm hright hr
  | @cons s m t e es hok hstep _ ih =>
    intro s' fs h' hes hr
    cases he : seen e with
    | false => exact ih h' (by simpa [he] using hes) (hleft hr hok he hstep)
    | true =>
      have hfs : fs.filter seen = e :: es.filter seen := by simpa [he] using hes.symm
      obtain ⟨a, b, gs, hra, hoka, hstepa, hrest, hgs⟩ := h'.to_seen (P := R s) hfs hright hr
      exact ih hrest hgs.symm (hboth hra hok hoka hstep hstepa he)

end Unwinding

end Run

end Road7
