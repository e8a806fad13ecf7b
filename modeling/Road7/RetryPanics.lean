import Mathlib.Tactic.NormNum.NatFib
import Road7.RetryDelays
import Road7.RetryReports

namespace Road7

namespace LoopContext

variable {ctx : LoopContext} {s t : LoopState} {r : Round} {rounds : Nat → Round}

theorem counts_of_retry (h : ctx.retry s = .going t) :
    t.retries = s.retries + 1 ∧ t.delays ≤ s.delays + 1 := by
  unfold retry at h
  split at h
  next =>
    split at h
    next => cases h; exact ⟨rfl, Nat.le_refl _⟩
    next => cases h
  next => cases h; exact ⟨rfl, Nat.le_succ _⟩

theorem delays_le_of_turn (h : (ctx.turn s r).next = .going t) (hle : s.delays ≤ s.retries) :
    t.delays ≤ t.retries := by
  rcases ctx.turn_cases s r with ⟨_, _, _, e, hnext⟩ | ⟨_, _, _, _, p, hnext⟩ |
    ⟨_, url, _, _, _, _, _, hnext⟩
  · simp [hnext] at h
  · simp [hnext] at h
  · rw [hnext] at h
    rcases ctx.settle_cases s.bodyRead url r with ⟨_, _, hn⟩ | ⟨_, _, _, hn⟩ |
      ⟨_, _, resp, hn⟩ | ⟨_, _, e, hn⟩ <;> rw [hn] at h
    · obtain ⟨hretries, hdelays⟩ := counts_of_retry h
      have hbefore : s.bodyRead.delays ≤ s.bodyRead.retries := hle
      omega
    · rcases ctx.replay_cases s.bodyRead r with ⟨_, _, ⟨_, he⟩ | ⟨_, he⟩⟩ | ⟨_, he⟩ | ⟨_, he⟩ <;>
        rw [he] at h <;> cases h
      exact hle
    · rcases ctx.answer_cases s.bodyRead url resp r with ⟨_, he⟩ | ⟨_, he⟩ <;>
        rw [he] at h <;> cases h
    · exact absurd h (r.reported_ne_going _ _ _)

/-- No turn of a run has asked for more delays than it has counted retries. -/
theorem delays_le_retries {req : Request} {n : Nat}
    (h : ctx.after (LoopState.start req) rounds n = .going t) : t.delays ≤ t.retries := by
  induction n generalizing t with
  | zero =>
    cases h
    exact Nat.le_refl 0
  | succ n ih =>
    obtain ⟨u, hu, hturn⟩ := after_succ_going h
    exact delays_le_of_turn hturn (ih hu)

/-- A target with one url whose requests are tried by a strategy. -/
def triedBy (strategy : RetryStrategy) : LoopContext where
  crates := plainCrates
  loadBalancer := none
  path := "/".toList
  clientIp := ⟨"10.0.0.1".toList, 50000, false⟩
  selected :=
    { targetUrls := ["http://localhost:5001".toList]
      targetUrlLen := 1
      authConfig := none
      retryStrategy := strategy
      requestTransforms := none
      responseTransforms := none
      circuitBreakerConfig := none
      targetTimeout := 30
      cacheConfig := none
      corsConfig := none }
  cacheKey := []
  defaultCorsConfig := none
  securityHeadersConfig := none

def unavailable : Nat → Round := fun _ => plainRound (.response ⟨503, [], Body.empty⟩)

/-- An upstream that is never available has the loop try as often as the delays between the
attempts answer. -/
theorem triedBy_comesTo {strategy : RetryStrategy} {n : Nat} (hn : n < strategy.maxAttempts)
    (hdelay : ∀ k < n, ∃ d, strategy.delay k = .ok d) :
    ∃ t, (triedBy strategy).ComesTo (LoopState.start (plainRequest "/".toList [] []))
      unavailable n t := by
  induction n with
  | zero => exact ⟨_, .start _⟩
  | succ n ih =>
    obtain ⟨t, ht⟩ := ih (Nat.lt_of_succ_lt hn) (fun k hk => hdelay k (Nat.lt_succ_of_lt hk))
    have hprovided : (triedBy strategy).ProvidedAt (unavailable n) n :=
      ⟨⟨_, rfl⟩, fun _ _ => hdelay n (Nat.lt_succ_self n)⟩
    have hparse : ∀ url, ((triedBy strategy).attemptUrl (unavailable n)).2 = .ok url → ∃ out,
        rebuildRequest plainCrates.uriParser (plainRequest "/".toList [] []) url 1
          (triedBy strategy).clientIp = .ok out := by
      rintro url hurl
      cases hurl
      exact ⟨_, rfl⟩
    rcases ht.decided (Nat.lt_of_succ_lt hn) hparse rfl with
      ⟨_, _, hnext⟩ | ⟨_, _, hlast⟩ | ⟨hnot, _⟩
    · exact hnext
    · exact absurd (hlast rfl) (Nat.not_le.mpr hn)
    · exact absurd hprovided hnot

end LoopContext

/-- Whatever run the loop makes with a strategy, no `delay()` that it asks for panics. -/
def RetryStrategy.NeverPanics (strategy : RetryStrategy) : Prop :=
  ∀ (ctx : LoopContext) (rounds : Nat → Round) (req : Request) (n : Nat) (t : LoopState),
    ctx.selected.retryStrategy = strategy →
      ctx.after (LoopState.start req) rounds n = .going t → ∃ t', ctx.retry t = .going t'

/-- The loop can come to all delays but the one behind the last attempt, and to no other. -/
theorem RetryStrategy.neverPanics_iff {strategy : RetryStrategy} :
    strategy.NeverPanics ↔ ∀ n < strategy.maxAttempts - 1, ∃ d, strategy.delay n = .ok d := by
  constructor
  · intro hsafe n
    induction n using Nat.strongRecOn with
    | ind n ih =>
      intro hn
      obtain ⟨t, ht⟩ := LoopContext.triedBy_comesTo (by omega : n < strategy.maxAttempts)
        (fun k hk => ih k hk (by omega))
      obtain ⟨t', hretry⟩ := hsafe _ _ _ n t rfl ht.going
      rcases (LoopContext.triedBy strategy).retry_cases t with ⟨hok, _⟩ | ⟨_, p, _, hpanic⟩
      · have hasked : t.retries + 1 < strategy.maxAttempts := by
          rw [ht.retries]
          omega
        rw [← ht.delays]
        exact hok hasked
      · rw [hpanic] at hretry
        cases hretry
  · rintro hall ctx rounds req n t rfl hgoing
    rcases ctx.retry_cases t with ⟨_, d, hd⟩ | ⟨hlt, p, hp, _⟩
    · exact ⟨_, hd⟩
    · have hle := LoopContext.delays_le_retries hgoing
      have hmax : ctx.maxAttempts = ctx.selected.retryStrategy.maxAttempts := rfl
      obtain ⟨d, hd⟩ := hall t.delays (by omega)
      rw [hp] at hd
      cases hd

/-- Over all attempts the delay is largest at the last one, but for the cut to 32 bits. -/
theorem linearDelays_ok_iff {base step calls : Nat} :
    (∀ n < calls, ∃ d, linearDelay (fromSecs base) (fromSecs step) (n + 1) = .ok d) ↔
      (0 < calls → base + step * min calls (2 ^ 32 - 1) < 2 ^ 64) := by
  constructor
  · intro hall hpos
    obtain ⟨d, hd⟩ := hall (min calls (2 ^ 32 - 1) - 1) (by omega)
    have hattempt : (min calls (2 ^ 32 - 1) - 1 + 1) % 2 ^ 32 = min calls (2 ^ 32 - 1) := by omega
    have hfits := (linearDelay_eq_ok.mp hd).1
    rwa [hattempt] at hfits
  · intro hfits n hn
    have hle : (n + 1) % 2 ^ 32 ≤ min calls (2 ^ 32 - 1) := by omega
    have hstep := Nat.mul_le_mul_left step hle
    have hmax := hfits (by omega)
    exact ⟨_, linearDelay_eq_ok.mpr ⟨by omega, rfl⟩⟩

theorem fib_lt_iff {n : Nat} : Nat.fib n < 2 ^ 64 ↔ n ≤ 93 := by
  constructor
  · intro hlt
    by_contra hn
    have hge : Nat.fib 94 ≤ Nat.fib n := Nat.fib_mono (by omega)
    have hbig : 2 ^ 64 ≤ Nat.fib 94 := by norm_num
    omega
  · intro hn
    have hle : Nat.fib n ≤ Nat.fib 93 := Nat.fib_mono hn
    have hsmall : Nat.fib 93 < 2 ^ 64 := by norm_num
    omega

theorem fibonacciDelays_ok_iff {base calls : Nat} :
    (∀ n < calls, ∃ d, fibonacciDelay (fromSecs base) (n + 1) = .ok d) ↔
      base * Nat.fib calls < 2 ^ 64 ∧ calls ≤ 91 := by
  constructor
  · intro hall
    cases calls with
    | zero => simp
    | succ n =>
      obtain ⟨d, hd⟩ := hall n (Nat.lt_succ_self n)
      obtain ⟨hsecs, hnext⟩ := (fibonacciDelay_eq_ok.mp hd).1
      have hlast := fib_lt_iff.mp hnext
      exact ⟨hsecs, by omega⟩
  · rintro ⟨hsecs, hcalls⟩ n hn
    have hle : base * Nat.fib (n + 1) ≤ base * Nat.fib calls :=
      Nat.mul_le_mul_left base (Nat.fib_mono hn)
    exact ⟨_, fibonacciDelay_eq_ok.mpr
      ⟨⟨hle.trans_lt hsecs, fib_lt_iff.mpr (by omega)⟩, rfl⟩⟩

theorem harmonicDelays_ok_iff {base calls : Nat} :
    (∀ n < calls, ∃ d, harmonicDelay (fromSecs base) (n + 1) = .ok d) ↔
      (0 < calls → fromSecs base < 2 ^ 64 ∧ calls < 2 ^ 32) := by
  constructor
  · intro hall hpos
    obtain ⟨d, hd⟩ := hall 0 hpos
    refine ⟨(harmonicDelay_eq_ok.mp hd).1.1, ?_⟩
    by_contra hcalls
    -- the attempt whose number is 0 in 32 bits
    obtain ⟨e, he⟩ := hall (2 ^ 32 - 1) (by omega)
    exact (harmonicDelay_eq_ok.mp he).1.2 (by decide)
  · intro hfits n hn
    obtain ⟨hnanos, hcalls⟩ := hfits (by omega)
    have hattempt : (n + 1) % 2 ^ 32 = n + 1 := Nat.mod_eq_of_lt (by omega)
    exact ⟨_, harmonicDelay_eq_ok.mpr ⟨⟨hnanos, by omega⟩, rfl⟩⟩

namespace RetryConfig

/-- `to_strategy` returns, and the strategy answers every `delay()` that the loop asks for. -/
def NeverPanics (config : RetryConfig) : Prop :=
  ∃ s, config.toStrategy = .ok s ∧ ∀ draws, (s.boxed draws).NeverPanics

/-- The strategies that compute in whole numbers only. -/
def wholeStrategies : List Str :=
  ["FixedInterval".toList, "LinearBackoff".toList, "RandomDelay".toList,
    "IncrementalBackoff".toList, "FibonacciBackoff".toList, "HarmonicBackoff".toList]

/-- All delays between the attempts can be computed: the seconds of the last one fit, as do the
nanoseconds of a harmonic base, and a random delay has a range to be drawn from. -/
def DelaysFit (config : RetryConfig) : Prop :=
  let base := config.baseDelaySeconds
  let calls := config.maxAttempts - 1
  if config.strategy = "LinearBackoff".toList then
    0 < calls → base + config.stepDelaySeconds.getD base * min calls (2 ^ 32 - 1) < 2 ^ 64
  else if config.strategy = "RandomDelay".toList then
    base * 2 < 2 ^ 64 ∧ (0 < calls → base < config.stepDelaySeconds.getD (base * 2))
  else if config.strategy = "IncrementalBackoff".toList then
    0 < calls → base + config.stepDelaySeconds.getD 1 * min calls (2 ^ 32 - 1) < 2 ^ 64
  else if config.strategy = "FibonacciBackoff".toList then
    base * Nat.fib calls < 2 ^ 64 ∧ calls ≤ 91
  else if config.strategy = "HarmonicBackoff".toList then
    0 < calls → fromSecs base < 2 ^ 64 ∧ calls < 2 ^ 32
  else True

variable {config : RetryConfig}

theorem toStrategy_of_no_jitter (h : config.jitterFactor = none) :
    config.toStrategy = config.baseStrategy := by
  unfold toStrategy
  rw [h]
  cases config.baseStrategy <;> rfl

/-- What is left to show of a strategy is that the answers of its calls are delays. -/
theorem neverPanics_iff_of_answers {states : Nat → Strategy}
    {answers : (Nat → Draw) → Nat → Except Panic Nat}
    (hmade : config.toStrategy = .ok (states 0))
    (hanswers : ∀ draws, Strategy.Answers draws states (answers draws)) :
    config.NeverPanics ↔
      ∀ draws, ∀ n < (states 0).maxAttempts - 1, ∃ d, answers draws n = .ok d := by
  have hsafe : config.NeverPanics ↔ ∀ draws, ((states 0).boxed draws).NeverPanics := by
    unfold NeverPanics
    rw [hmade]
    constructor
    · rintro ⟨_, hok, hs⟩
      cases hok
      exact hs
    · intro hs
      exact ⟨_, rfl, hs⟩
  rw [hsafe]
  refine forall_congr' (fun draws => ?_)
  rw [RetryStrategy.neverPanics_iff]
  exact (hanswers draws).all_ok_iff _

theorem neverPanics_iff_of_undrawn {states : Nat → Strategy} {answers : Nat → Except Panic Nat}
    (hmade : config.toStrategy = .ok (states 0))
    (hanswers : ∀ draws, Strategy.Answers draws states answers) :
    config.NeverPanics ↔ ∀ n < (states 0).maxAttempts - 1, ∃ d, answers n = .ok d := by
  rw [neverPanics_iff_of_answers hmade hanswers]
  exact ⟨fun h => h (fun _ => ⟨0, 0, 0⟩), fun h _ => h⟩

/-- The range of a random delay is made also when `step_delay_seconds` leaves it unused. -/
theorem randomDelay_neverPanics_iff (hname : config.strategy = "RandomDelay".toList)
    (hjitter : config.jitterFactor = none) :
    config.NeverPanics ↔ config.baseDelaySeconds * 2 < 2 ^ 64 ∧
      (0 < config.maxAttempts - 1 →
        config.baseDelaySeconds <
          config.stepDelaySeconds.getD (config.baseDelaySeconds * 2)) := by
  have hmade : config.toStrategy = (checkedU64 (config.baseDelaySeconds * 2)).map (fun double =>
      .randomDelay (fromSecs config.baseDelaySeconds)
        (fromSecs (config.stepDelaySeconds.getD double)) config.maxAttempts) := by
    rw [toStrategy_of_no_jitter hjitter]
    unfold baseStrategy
    simp [hname]
    rfl
  by_cases hdouble : config.baseDelaySeconds * 2 < 2 ^ 64
  · rw [checkedU64_eq_ok.mpr ⟨hdouble, rfl⟩] at hmade
    rw [neverPanics_iff_of_answers hmade
      (fun draws => Strategy.randomDelay_answers draws config.maxAttempts _ _)]
    simp only [drawnDelay_ok_iff, Strategy.maxAttempts]
    refine ⟨fun hall => ⟨hdouble, fun hpos => hall (fun _ => ⟨0, 0, 0⟩) 0 hpos⟩, ?_⟩
    rintro ⟨_, hlt⟩ draws n hn
    exact hlt (by omega)
  · refine iff_of_false ?_ (fun h => hdouble h.1)
    rintro ⟨s, hs, _⟩
    rw [hmade, map_eq_ok] at hs
    obtain ⟨double, hok, _⟩ := hs
    exact hdouble (checkedU64_eq_ok.mp hok).1

end RetryConfig

/-- The retry loop never panics in `delay()` or in making the strategy exactly when the delays of
the configuration fit their types and a random delay has a range. -/
theorem retry_delays_never_panic_iff {config : RetryConfig}
    (hname : config.strategy ∈ RetryConfig.wholeStrategies)
    (hjitter : config.jitterFactor = none) : config.NeverPanics ↔ config.DelaysFit := by
  have hmade := RetryConfig.toStrategy_of_no_jitter hjitter
  unfold RetryConfig.baseStrategy at hmade
  unfold RetryConfig.DelaysFit
  simp only [RetryConfig.wholeStrategies, List.mem_cons, List.not_mem_nil, or_false] at hname
  rcases hname with hname | hname | hname | hname | hname | hname
  · simp only [hname, String.toList_inj, String.reduceEq, if_false, if_true] at hmade ⊢
    rw [RetryConfig.neverPanics_iff_of_undrawn hmade
      (fun draws => Strategy.fixedInterval_answers draws _ _)]
    simp
  · simp only [hname, String.toList_inj, String.reduceEq, if_false, if_true] at hmade ⊢
    rw [RetryConfig.neverPanics_iff_of_undrawn hmade
      (fun draws => Strategy.linearBackoff_answers draws _ _ _)]
    exact linearDelays_ok_iff
  · simp only [hname, String.toList_inj, String.reduceEq, if_false, if_true]
    exact RetryConfig.randomDelay_neverPanics_iff hname hjitter
  · simp only [hname, String.toList_inj, String.reduceEq, if_false, if_true] at hmade ⊢
    rw [RetryConfig.neverPanics_iff_of_undrawn hmade
      (fun draws => Strategy.incrementalBackoff_answers draws _ _ _)]
    exact linearDelays_ok_iff
  · simp only [hname, String.toList_inj, String.reduceEq, if_false, if_true] at hmade ⊢
    rw [RetryConfig.neverPanics_iff_of_undrawn hmade
      (fun draws => Strategy.fibonacciBackoff_answers draws _ _)]
    exact fibonacciDelays_ok_iff
  · simp only [hname, String.toList_inj, String.reduceEq, if_false, if_true] at hmade ⊢
    rw [RetryConfig.neverPanics_iff_of_undrawn hmade
      (fun draws => Strategy.harmonicBackoff_answers draws _ _)]
    exact harmonicDelays_ok_iff

theorem retry_delays_never_panic_iff_fibonacci : ∃ config : RetryConfig,
    config.strategy = "FibonacciBackoff".toList ∧ config.NeverPanics ∧
    (config.NeverPanics ↔ config.DelaysFit) := by
  have hiff := @retry_delays_never_panic_iff ⟨"FibonacciBackoff".toList, 2, 5, none, none, none⟩
    (by simp [RetryConfig.wholeStrategies]) rfl
  refine ⟨_, rfl, hiff.mpr ?_, hiff⟩
  simp [RetryConfig.DelaysFit, Nat.fib]

/-- The default range of random delays, from the base delay to twice as much, is empty for a base
delay of no seconds. -/
theorem empty_random_range_panics : ∃ (config : RetryConfig) (s : Strategy),
    config.strategy ∈ RetryConfig.wholeStrategies ∧ config.jitterFactor = none ∧
    config.toStrategy = .ok s ∧ 0 < config.maxAttempts - 1 ∧
    (∀ draws, (s.boxed draws).delay 0 = .error .emptyRange) ∧ ¬config.NeverPanics := by
  refine ⟨⟨"RandomDelay".toList, 0, 2, none, none, none⟩, _, by simp [RetryConfig.wholeStrategies],
    rfl, rfl, by decide, fun _ => rfl, ?_⟩
  rintro ⟨s, hs, hsafe⟩
  cases hs
  obtain ⟨d, hd⟩ := RetryStrategy.neverPanics_iff.mp (hsafe fun _ => ⟨0, 0, 0⟩) 0 (by decide)
  cases hd

end Road7
