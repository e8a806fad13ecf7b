import Mathlib.Data.Nat.Fib.Basic
import Road7.RetryStrategy

namespace Road7

theorem checkedU64_eq_ok {n m : Nat} : checkedU64 n = .ok m ↔ n < 2 ^ 64 ∧ n = m :=
  Build.debug_eq_ok

theorem checkedDuration_fromSecs {secs d : Nat} :
    checkedDuration (fromSecs secs) = .ok d ↔ secs < 2 ^ 64 ∧ fromSecs secs = d := by
  have hlt : fromSecs secs < u64Limit * nanosPerSec ↔ secs < 2 ^ 64 := by
    unfold fromSecs u64Limit nanosPerSec
    omega
  unfold checkedDuration
  simp only [hlt]
  split
  next h => rw [Except.ok.injEq, and_iff_right h]
  next h => exact iff_of_false nofun (fun hd => h hd.1)

theorem genRange_ok_iff {lo hi raw : Nat} : (∃ n, genRange lo hi raw = .ok n) ↔ lo < hi := by
  unfold genRange
  split
  next h => exact iff_of_true ⟨_, rfl⟩ h
  next h => exact iff_of_false (by simp) h

theorem fromSecs_div (secs : Nat) : fromSecs secs / nanosPerSec = secs :=
  Nat.mul_div_cancel secs (by decide)

theorem fromSecs_mod (secs : Nat) : fromSecs secs % nanosPerSec = 0 := Nat.mul_mod_left _ _

/-- A delay that grows by a step with every attempt; the number of the attempt is cut to 32 bits. -/
theorem linearDelay_eq_ok {base step attempt d : Nat} :
    linearDelay (fromSecs base) (fromSecs step) attempt = .ok d ↔
      base + step * (attempt % 2 ^ 32) < 2 ^ 64 ∧
        fromSecs (base + step * (attempt % 2 ^ 32)) = d := by
  have hscaled : fromSecs step * (attempt % 2 ^ 32) = fromSecs (step * (attempt % 2 ^ 32)) :=
    Nat.mul_right_comm _ _ _
  have hsum : ∀ a b : Nat, fromSecs a + fromSecs b = fromSecs (a + b) := fun a b =>
    (Nat.add_mul a b _).symm
  unfold linearDelay
  rw [hscaled, bind_eq_ok]
  constructor
  · rintro ⟨scaled, hfits, h⟩
    obtain ⟨_, rfl⟩ := checkedDuration_fromSecs.mp hfits
    rw [hsum] at h
    exact checkedDuration_fromSecs.mp h
  · rintro ⟨hfits, hd⟩
    refine ⟨_, checkedDuration_fromSecs.mpr ⟨by omega, rfl⟩, ?_⟩
    rw [hsum]
    exact checkedDuration_fromSecs.mpr ⟨hfits, hd⟩

/-- The base delay in nanoseconds is computed in 64 bits, and divided by the number of the attempt
in 32 bits. -/
theorem harmonicDelay_eq_ok {base attempt d : Nat} :
    harmonicDelay (fromSecs base) attempt = .ok d ↔
      (fromSecs base < 2 ^ 64 ∧ attempt % 2 ^ 32 ≠ 0) ∧
        fromSecs base / (attempt % 2 ^ 32) = d := by
  have hsecs : fromSecs base / nanosPerSec * nanosPerSec = fromSecs base := by
    rw [fromSecs_div]
    rfl
  unfold harmonicDelay
  simp only [hsecs, fromSecs_mod, Nat.add_zero]
  rw [bind_eq_ok]
  constructor
  · rintro ⟨secNanos, hfits, h⟩
    obtain ⟨hlt, rfl⟩ := checkedU64_eq_ok.mp hfits
    obtain ⟨total, htotal, h⟩ := bind_eq_ok.mp h
    obtain ⟨_, rfl⟩ := checkedU64_eq_ok.mp htotal
    split at h
    next => simp at h
    next hne => exact ⟨⟨hlt, hne⟩, Except.ok.inj h⟩
  · rintro ⟨⟨hlt, hne⟩, rfl⟩
    have htotal : checkedU64 (fromSecs base) = .ok (fromSecs base) :=
      checkedU64_eq_ok.mpr ⟨hlt, rfl⟩
    refine ⟨fromSecs base, htotal, bind_eq_ok.mpr ⟨fromSecs base, htotal, ?_⟩⟩
    rw [if_neg hne]

/-- The answer of call `n` of `FibonacciBackoffStrategy` (from 1), which computes the number for
the call after the next as well. -/
def fibonacciDelay (base n : Nat) : Except Panic Nat := do
  let secs ← checkedU64 (base / nanosPerSec * Nat.fib n)
  let _ ← checkedU64 (Nat.fib (n + 2))
  .ok (fromSecs secs)

theorem fibonacciDelay_eq_ok {base n d : Nat} :
    fibonacciDelay (fromSecs base) n = .ok d ↔
      (base * Nat.fib n < 2 ^ 64 ∧ Nat.fib (n + 2) < 2 ^ 64) ∧ fromSecs (base * Nat.fib n) = d := by
  unfold fibonacciDelay
  rw [fromSecs_div, bind_eq_ok]
  constructor
  · rintro ⟨secs, hsecs, h⟩
    obtain ⟨hlt, rfl⟩ := checkedU64_eq_ok.mp hsecs
    obtain ⟨next, hnext, h⟩ := bind_eq_ok.mp h
    exact ⟨⟨hlt, (checkedU64_eq_ok.mp hnext).1⟩, Except.ok.inj h⟩
  · rintro ⟨⟨hlt, hnext⟩, rfl⟩
    exact ⟨_, checkedU64_eq_ok.mpr ⟨hlt, rfl⟩, bind_eq_ok.mpr
      ⟨_, checkedU64_eq_ok.mpr ⟨hnext, rfl⟩, rfl⟩⟩

/-- The answer of a call of `RandomDelayStrategy`, which draws seconds and nanoseconds apart. -/
def drawnDelay (lo hi : Nat) (draw : Draw) : Except Panic Nat := do
  let secs ← genRange (lo / nanosPerSec) (hi / nanosPerSec) draw.secs
  let nanos ← genRange 0 nanosPerSec draw.nanos
  .ok (secs * nanosPerSec + nanos)

/-- Whatever is drawn, a delay falls into every range but an empty one. -/
theorem drawnDelay_ok_iff {lo hi : Nat} {draw : Draw} :
    (∃ d, drawnDelay (fromSecs lo) (fromSecs hi) draw = .ok d) ↔ lo < hi := by
  rw [← @genRange_ok_iff lo hi draw.secs]
  unfold drawnDelay
  rw [fromSecs_div, fromSecs_div]
  constructor
  · rintro ⟨d, hd⟩
    obtain ⟨secs, hsecs, _⟩ := bind_eq_ok.mp hd
    exact ⟨secs, hsecs⟩
  · rintro ⟨secs, hsecs⟩
    obtain ⟨nanos, hnanos⟩ := (@genRange_ok_iff 0 nanosPerSec draw.nanos).mpr (by decide)
    exact ⟨_, bind_eq_ok.mpr ⟨secs, hsecs, bind_eq_ok.mpr ⟨nanos, hnanos, rfl⟩⟩⟩

namespace Strategy

/-- The states that the calls find a strategy in, as long as none of them panics, and what each
call answers. -/
def Answers (draws : Nat → Draw) (states : Nat → Strategy) (answers : Nat → Except Panic Nat) :
    Prop :=
  ∀ n, (states n).delay (draws n) = (answers n).map (fun d => (d, states (n + 1)))

variable {draws : Nat → Draw} {states : Nat → Strategy} {answers : Nat → Except Panic Nat}

theorem answers_of_delay (h : ∀ n, (states n).delay (draws n) = do
    let d ← answers n
    .ok (d, states (n + 1))) : Answers draws states answers := by
  intro n
  rw [h n]
  cases answers n <;> rfl

theorem Answers.nthDelay (h : Answers draws states answers) {n : Nat} {r : Nat × Strategy} :
    (states 0).nthDelay draws n = .ok r ↔
      (∀ k < n, ∃ d, answers k = .ok d) ∧ answers n = .ok r.1 ∧ r.2 = states (n + 1) := by
  have hdelay : ∀ n r, (states n).delay (draws n) = .ok r ↔
      answers n = .ok r.1 ∧ r.2 = states (n + 1) := by
    intro n r
    rw [h n, map_eq_ok]
    constructor
    · rintro ⟨d, hd, rfl⟩
      exact ⟨hd, rfl⟩
    · rintro ⟨hd, hstate⟩
      exact ⟨r.1, hd, by rw [← hstate]⟩
  induction n generalizing r with
  | zero => simpa [Strategy.nthDelay] using hdelay 0 r
  | succ n ih =>
    rw [Strategy.nthDelay, bind_eq_ok]
    constructor
    · rintro ⟨r', hr', hr⟩
      obtain ⟨hbefore, hn, hstate⟩ := ih.mp hr'
      rw [hstate] at hr
      refine ⟨fun k hk => ?_, (hdelay _ _).mp hr⟩
      rcases Nat.lt_succ_iff_lt_or_eq.mp hk with hk | rfl
      · exact hbefore k hk
      · exact ⟨_, hn⟩
    · rintro ⟨hbefore, hr⟩
      obtain ⟨d, hd⟩ := hbefore n (Nat.lt_succ_self n)
      exact ⟨(d, states (n + 1)), ih.mpr ⟨fun k hk => hbefore k (Nat.lt_succ_of_lt hk), hd, rfl⟩,
        (hdelay _ _).mpr hr⟩

/-- A call answers once no call before it has panicked. -/
theorem Answers.delay (h : Answers draws states answers) {n d : Nat} :
    ((states 0).boxed draws).delay n = .ok d ↔
      (∀ k < n, ∃ e, answers k = .ok e) ∧ answers n = .ok d := by
  unfold Strategy.boxed
  rw [map_eq_ok]
  constructor
  · rintro ⟨r, hr, rfl⟩
    obtain ⟨hbefore, hn, _⟩ := h.nthDelay.mp hr
    exact ⟨hbefore, hn⟩
  · rintro ⟨hbefore, hn⟩
    exact ⟨(d, states (n + 1)), h.nthDelay.mpr ⟨hbefore, hn, rfl⟩, rfl⟩

theorem Answers.all_ok_iff (h : Answers draws states answers) (calls : Nat) :
    (∀ n < calls, ∃ d, ((states 0).boxed draws).delay n = .ok d) ↔
      ∀ n < calls, ∃ d, answers n = .ok d := by
  constructor
  · intro hall n hn
    obtain ⟨d, hd⟩ := hall n hn
    exact ⟨d, (h.delay.mp hd).2⟩
  · intro hall n hn
    obtain ⟨d, hd⟩ := hall n hn
    exact ⟨d, h.delay.mpr ⟨fun k hk => hall k (Nat.lt_trans hk hn), hd⟩⟩

variable (draws) (base step max : Nat)

theorem fixedInterval_answers :
    Answers draws (fun _ => .fixedInterval base max) (fun _ => .ok base) :=
  fun _ => rfl

theorem linearBackoff_answers :
    Answers draws (fun n => .linearBackoff base step (n + 1) max)
      (fun n => linearDelay base step (n + 1)) :=
  answers_of_delay (fun _ => rfl)

theorem incrementalBackoff_answers :
    Answers draws (fun n => .incrementalBackoff base step (n + 1) max)
      (fun n => linearDelay base step (n + 1)) :=
  answers_of_delay (fun _ => rfl)

theorem randomDelay_answers (lo hi : Nat) :
    Answers draws (fun _ => .randomDelay lo hi max) (fun n => drawnDelay lo hi (draws n)) := by
  intro n
  unfold Strategy.delay drawnDelay
  dsimp only
  cases genRange (lo / nanosPerSec) (hi / nanosPerSec) (draws n).secs with
  | error p => rfl
  | ok secs => cases genRange 0 nanosPerSec (draws n).nanos <;> rfl

/-- The two numbers of a Fibonacci strategy are neighbours in the sequence. -/
theorem fibonacciBackoff_answers :
    Answers draws (fun n => .fibonacciBackoff base (Nat.fib (n + 1)) (Nat.fib (n + 2)) max)
      (fun n => fibonacciDelay base (n + 1)) := by
  intro n
  have hnext : Nat.fib (n + 1) + Nat.fib (n + 2) = Nat.fib (n + 3) := Nat.fib_add_two.symm
  unfold Strategy.delay fibonacciDelay
  dsimp only
  rw [hnext]
  cases checkedU64 (base / nanosPerSec * Nat.fib (n + 1)) with
  | error p => rfl
  | ok secs =>
    cases hfib : checkedU64 (Nat.fib (n + 3)) with
    | error p => rfl
    | ok next =>
      obtain ⟨_, rfl⟩ := checkedU64_eq_ok.mp hfib
      rfl

theorem harmonicBackoff_answers :
    Answers draws (fun n => .harmonicBackoff base (n + 1) max)
      (fun n => harmonicDelay base (n + 1)) :=
  answers_of_delay (fun _ => rfl)

/-- As long as no value it computes overflows (`fits`), call `n` of a strategy, counted from 1,
answers `delays n`. -/
def Yields (s : Strategy) (fits : Nat → Prop) (delays : Nat → Nat) : Prop :=
  ∀ (draws : Nat → Draw) (n : Nat), fits (n + 1) → (s.boxed draws).delay n = .ok (delays (n + 1))

def NeverDecreases (s : Strategy) (fits : Nat → Prop) : Prop :=
  ∀ (draws : Nat → Draw) (i j : Nat), i ≤ j → fits (j + 1) →
    ∃ d e, (s.boxed draws).delay i = .ok d ∧ (s.boxed draws).delay j = .ok e ∧ d ≤ e

def NeverIncreases (s : Strategy) (fits : Nat → Prop) : Prop :=
  ∀ (draws : Nat → Draw) (i j : Nat), i ≤ j → fits (j + 1) →
    ∃ d e, (s.boxed draws).delay i = .ok d ∧ (s.boxed draws).delay j = .ok e ∧ e ≤ d

variable {fits : Nat → Prop} {delays : Nat → Nat} {s : Strategy}

theorem yields_of_answers (hearlier : ∀ {i j}, i ≤ j → fits j → fits i)
    (hanswers : ∀ draws, Answers draws states answers)
    (hvalue : ∀ n, fits (n + 1) → answers n = .ok (delays (n + 1))) :
    (states 0).Yields fits delays := by
  intro draws n hn
  refine (hanswers draws).delay.mpr ⟨fun k hk => ⟨_, hvalue k ?_⟩, hvalue n hn⟩
  exact hearlier (Nat.succ_le_succ (Nat.le_of_lt hk)) hn

theorem Yields.neverDecreases (h : s.Yields fits delays)
    (hearlier : ∀ {i j}, i ≤ j → fits j → fits i) (hdelays : Monotone delays) :
    s.NeverDecreases fits := by
  intro draws i j hij hj
  have hsucc := Nat.succ_le_succ hij
  exact ⟨_, _, h draws i (hearlier hsucc hj), h draws j hj, hdelays hsucc⟩

theorem Yields.neverIncreases (h : s.Yields fits delays)
    (hearlier : ∀ {i j}, i ≤ j → fits j → fits i)
    (hdelays : ∀ {i j}, 0 < i → i ≤ j → delays j ≤ delays i) : s.NeverIncreases fits := by
  intro draws i j hij hj
  have hsucc := Nat.succ_le_succ hij
  exact ⟨_, _, h draws i (hearlier hsucc hj), h draws j hj, hdelays (Nat.succ_pos i) hsucc⟩

end Strategy

/-- No value that call `n` of a linear strategy computes overflows: neither the number of the
attempt, which is cast to 32 bits, nor the seconds of the product and the sum. -/
structure LinearFits (base step n : Nat) : Prop where
  attempt : n < 2 ^ 32
  scaled : step * n < 2 ^ 64
  delay : base + step * n < 2 ^ 64

theorem LinearFits.earlier {base step i j : Nat} (hij : i ≤ j) (h : LinearFits base step j) :
    LinearFits base step i :=
  have hstep : step * i ≤ step * j := Nat.mul_le_mul_left step hij
  ⟨hij.trans_lt h.attempt, hstep.trans_lt h.scaled,
    (Nat.add_le_add_left hstep base).trans_lt h.delay⟩

theorem LinearFits.linearDelay {base step n : Nat} (h : LinearFits base step n) :
    linearDelay (fromSecs base) (fromSecs step) n = .ok (fromSecs (base + n * step)) := by
  rw [linearDelay_eq_ok, Nat.mod_eq_of_lt h.attempt, Nat.mul_comm n step]
  exact ⟨h.delay, rfl⟩

theorem monotone_linear (base step : Nat) : Monotone fun n => fromSecs (base + n * step) :=
  fun _ _ hij => Nat.mul_le_mul_right _
    (Nat.add_le_add_left (Nat.mul_le_mul_right step hij) base)

/-- Call `n` of a Fibonacci strategy answers in whole seconds, and adds up the number that the
call after the next one uses. -/
structure FibonacciFits (base n : Nat) : Prop where
  seconds : base * Nat.fib n < 2 ^ 64
  newNext : Nat.fib (n + 2) < 2 ^ 64

theorem FibonacciFits.earlier {base i j : Nat} (hij : i ≤ j) (h : FibonacciFits base j) :
    FibonacciFits base i :=
  ⟨(Nat.mul_le_mul_left base (Nat.fib_mono hij)).trans_lt h.seconds,
    (Nat.fib_mono (Nat.add_le_add_right hij 2)).trans_lt h.newNext⟩

/-- The base delay of a harmonic strategy is turned into nanoseconds in 64 bits, whatever the
attempt, and the number of the attempt is cast to 32 bits. -/
structure HarmonicFits (base n : Nat) : Prop where
  nanos : fromSecs base < 2 ^ 64
  attempt : n < 2 ^ 32

theorem HarmonicFits.earlier {base i j : Nat} (hij : i ≤ j) (h : HarmonicFits base j) :
    HarmonicFits base i :=
  ⟨h.nanos, hij.trans_lt h.attempt⟩

namespace Strategy

variable (base step maxAttempts : Nat)

theorem linearBackoff_yields :
    (linearBackoff (fromSecs base) (fromSecs step) 1 maxAttempts).Yields (LinearFits base step)
      (fun n => fromSecs (base + n * step)) :=
  yields_of_answers LinearFits.earlier
    (fun draws => linearBackoff_answers draws (fromSecs base) (fromSecs step) maxAttempts)
    (fun _ h => h.linearDelay)

theorem incrementalBackoff_yields :
    (incrementalBackoff (fromSecs base) (fromSecs step) 1 maxAttempts).Yields
      (LinearFits base step) (fun n => fromSecs (base + n * step)) :=
  yields_of_answers LinearFits.earlier
    (fun draws => incrementalBackoff_answers draws (fromSecs base) (fromSecs step) maxAttempts)
    (fun _ h => h.linearDelay)

theorem fibonacciBackoff_yields :
    (fibonacciBackoff (fromSecs base) 1 1 maxAttempts).Yields (FibonacciFits base)
      (fun n => fromSecs (base * Nat.fib n)) :=
  yields_of_answers FibonacciFits.earlier
    (fun draws => fibonacciBackoff_answers draws (fromSecs base) maxAttempts)
    (fun _ h => fibonacciDelay_eq_ok.mpr ⟨⟨h.seconds, h.newNext⟩, rfl⟩)

theorem harmonicBackoff_yields :
    (harmonicBackoff (fromSecs base) 1 maxAttempts).Yields (HarmonicFits base)
      (fun n => fromSecs base / n) := by
  refine yields_of_answers HarmonicFits.earlier
    (fun draws => harmonicBackoff_answers draws (fromSecs base) maxAttempts) (fun n h => ?_)
  rw [harmonicDelay_eq_ok, Nat.mod_eq_of_lt h.attempt]
  exact ⟨⟨h.nanos, Nat.succ_ne_zero n⟩, rfl⟩

end Strategy

/-- The delays of the four strategies that count in whole numbers: each in closed form, as long
as no value overflows, and so the order of the sequences. -/
theorem successive_delays (base step maxAttempts : Nat) :
    ((Strategy.linearBackoff (fromSecs base) (fromSecs step) 1 maxAttempts).Yields
        (LinearFits base step) (fun n => fromSecs (base + n * step)) ∧
      (Strategy.incrementalBackoff (fromSecs base) (fromSecs step) 1 maxAttempts).Yields
        (LinearFits base step) (fun n => fromSecs (base + n * step)) ∧
      (Strategy.fibonacciBackoff (fromSecs base) 1 1 maxAttempts).Yields
        (FibonacciFits base) (fun n => fromSecs (base * Nat.fib n)) ∧
      (Strategy.harmonicBackoff (fromSecs base) 1 maxAttempts).Yields
        (HarmonicFits base) (fun n => fromSecs base / n)) ∧
    (Strategy.linearBackoff (fromSecs base) (fromSecs step) 1 maxAttempts).NeverDecreases
        (LinearFits base step) ∧
      (Strategy.incrementalBackoff (fromSecs base) (fromSecs step) 1 maxAttempts).NeverDecreases
        (LinearFits base step) ∧
      (Strategy.fibonacciBackoff (fromSecs base) 1 1 maxAttempts).NeverDecreases
        (FibonacciFits base) ∧
      (Strategy.harmonicBackoff (fromSecs base) 1 maxAttempts).NeverIncreases
        (HarmonicFits base) := by
  have hlinear := Strategy.linearBackoff_yields base step maxAttempts
  have hincremental := Strategy.incrementalBackoff_yields base step maxAttempts
  have hfibonacci := Strategy.fibonacciBackoff_yields base maxAttempts
  have hharmonic := Strategy.harmonicBackoff_yields base maxAttempts
  have hfib : Monotone fun n => fromSecs (base * Nat.fib n) := fun _ _ hij =>
    Nat.mul_le_mul_right _ (Nat.mul_le_mul_left base (Nat.fib_mono hij))
  refine ⟨⟨hlinear, hincremental, hfibonacci, hharmonic⟩, ?_, ?_, ?_, ?_⟩
  · exact hlinear.neverDecreases LinearFits.earlier (monotone_linear base step)
  · exact hincremental.neverDecreases LinearFits.earlier (monotone_linear base step)
  · exact hfibonacci.neverDecreases FibonacciFits.earlier hfib
  · exact hharmonic.neverIncreases HarmonicFits.earlier
      (fun hpos hij => Nat.div_le_div_left hij hpos)

end Road7
