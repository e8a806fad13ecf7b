import Road7.Runs

namespace Road7

variable {σ ε : Type} {step : σ → ε → Option σ} {ok : σ → ε → Prop} {f : σ → ε → Nat}
  {s t : σ} {e : ε} {es : List ε}

/-- What the steps of a run come to, taken together. -/
def runTotal (step : σ → ε → Option σ) (f : σ → ε → Nat) : σ → List ε → Nat
  | _, [] => 0
  | s, e :: es => f s e + (step s e).elim 0 fun t => runTotal step f t es

theorem runTotal_cons (h : step s e = some t) :
    runTotal step f s (e :: es) = f s e + runTotal step f t es := by
  rw [runTotal, h, Option.elim_some]

theorem runTotal_mul (step : σ → ε → Option σ) (m : Nat) (s : σ) (es : List ε) :
    runTotal step (fun s e => m * f s e) s es = m * runTotal step f s es := by
  induction es generalizing s with
  | nil => rfl
  | cons e es ih =>
    rw [runTotal, runTotal, Nat.mul_add]
    cases step s e with
    | none => rfl
    | some t => rw [Option.elim_some, Option.elim_some, ih]

theorem runTotal_countP {p : ε → Bool} (h : Run step ok s es t) :
    runTotal step (fun _ e => if p e then 1 else 0) s es = es.countP p := by
  induction h with
  | nil => rfl
  | cons _ hs _ ih => rw [runTotal_cons hs, ih, List.countP_cons, Nat.add_comm]

namespace Run

/-- An invariant that speaks of what the steps so far have come to. -/
theorem total_invariant {P : σ → Nat → Prop}
    (hstep : ∀ {s e t n}, P s n → ok s e → step s e = some t → P t (n + f s e))
    (h : Run step ok s es t) {n : Nat} (hn : P s n) : P t (n + runTotal step f s es) := by
  induction h generalizing n with
  | nil => exact hn
  | cons hok hs _ ih =>
    rw [runTotal_cons hs, ← Nat.add_assoc]
    exact ih (hstep hn hok hs)

/-- The potential method: where each step pays its cost out of its gain and of a potential, a run
pays all its costs out of all its gains and of the potential that it starts with. -/
theorem total_le (Φ : σ → Nat) {cost gain : σ → ε → Nat}
    (hstep : ∀ {s e t}, ok s e → step s e = some t → Φ t + cost s e ≤ Φ s + gain s e)
    (h : Run step ok s es t) :
    Φ t + runTotal step cost s es ≤ Φ s + runTotal step gain s es := by
  induction h with
  | nil => exact Nat.le_refl _
  | cons hok hs _ ih =>
    rw [runTotal_cons hs, runTotal_cons hs]
    have hpaid := hstep hok hs
    omega

/-- A simulation that may leave out steps carries a run over with all that its steps come to, where
only steps that come to nothing are left out. -/
theorem simulate_total {τ δ : Type} {step' : τ → δ → Option τ} {ok' : τ → δ → Prop}
    {g : τ → δ → Nat} {R : σ → τ → Prop}
    (hsim : ∀ {s e t a}, R s a → ok s e → step s e = some t →
      (R t a ∧ f s e = 0) ∨ ∃ d b, ok' a d ∧ step' a d = some b ∧ R t b ∧ g a d = f s e)
    (h : Run step ok s es t) {a : τ} (hr : R s a) :
    ∃ ds b, Run step' ok' a ds b ∧ R t b ∧ runTotal step' g a ds = runTotal step f s es := by
  induction h generalizing a with
  | nil => exact ⟨[], a, nil a, hr, rfl⟩
  | cons hok hs _ ih =>
    rw [runTotal_cons hs]
    rcases hsim hr hok hs with ⟨hr', hnothing⟩ | ⟨d, b, hok', hs', hr', hsame⟩
    · obtain ⟨ds, c, hrun, hc, htotal⟩ := ih hr'
      exact ⟨ds, c, hrun, hc, by rw [hnothing, htotal, Nat.zero_add]⟩
    · obtain ⟨ds, c, hrun, hc, htotal⟩ := ih hr'
      exact ⟨d :: ds, c, cons hok' hs' hrun, hc, by rw [runTotal_cons hs', hsame, htotal]⟩

end Run

end Road7
