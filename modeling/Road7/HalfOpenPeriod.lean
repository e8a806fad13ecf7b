import Road7.BreakerProtocol

namespace Road7

@[simp] theorem attempts_cons (e : ProtocolEvent) (es : List ProtocolEvent) :
    attempts (e :: es) = attempts es + if e.isAttempt then 1 else 0 := by
  simp [attempts, List.countP_cons]

namespace BreakerSystem

def StaysHalfOpen (s : BreakerSystem) (e : ProtocolEvent) : Prop :=
  (s.effect e).breaker.state = .halfOpen

theorem admissions_cons {s t : BreakerSystem} {e : ProtocolEvent} (h : s.step e = some t)
    (es : List ProtocolEvent) :
    s.admissions (e :: es) = t.admissions es + if s.admits e then 1 else 0 := by
  simp [admissions, h, Nat.add_comm]

/-- Within a half-open period only an attempt does anything: it takes a slot while one is
free and is refused when none is. -/
theorem halfOpen_step {s t : BreakerSystem} {e : ProtocolEvent}
    (hs : s.breaker.state = .halfOpen) (hstep : s.step e = some t)
    (ht : s.StaysHalfOpen e) :
    t.breaker.state = .halfOpen ∧
    t.breaker.halfOpenAttempts =
      s.breaker.halfOpenAttempts + (if s.admits e then 1 else 0) ∧
    (s.admits e = true ↔
      e.isAttempt = true ∧ s.breaker.halfOpenAttempts < s.breaker.halfOpenMaxAttempts) := by
  obtain ⟨_, _, rfl⟩ := step_eq_some hstep
  refine ⟨ht, ?_⟩
  cases e with
  | attempt now =>
    rcases Nat.lt_or_ge s.breaker.halfOpenAttempts s.breaker.halfOpenMaxAttempts with h | h
    · simp [effect, admits, CircuitBreaker.canAttempt_halfOpen_free hs now h,
        ProtocolEvent.isAttempt, h]
    · simp [effect, admits, CircuitBreaker.canAttempt_halfOpen_full hs now h,
        ProtocolEvent.isAttempt, h]
  | crash now => simp [effect, admits, ProtocolEvent.isAttempt]
  | interim now => simp [StaysHalfOpen, effect, CircuitBreaker.recordSuccess] at ht
  | finish r now =>
    -- A success closes the breaker; a failure that leaves it half-open counts below the limit.
    have hbelow : ∀ b : CircuitBreaker, (b.recordFailure now).state = .halfOpen →
        (b.recordFailure now).halfOpenAttempts = b.halfOpenAttempts := by
      intro b hb
      rcases Nat.lt_or_ge (b.failureCount + 1) b.maxFailures with h | h
      · exact (CircuitBreaker.recordFailure_below now h).2.2
      · simp [CircuitBreaker.recordFailure_opens now h] at hb
    cases r with
    | success => simp [StaysHalfOpen, effect, CircuitBreaker.recordSuccess] at ht
    | failure =>
      simpa [effect, admits, ProtocolEvent.isAttempt] using hbelow s.breaker ht
    | exhausted =>
      simp only [StaysHalfOpen, effect, CircuitBreaker.report] at ht
      split at ht
      next => simp at ht
      next hn => exact absurd ht hn

/-- Along a half-open period the slots taken are the attempts, up to the number of slots. -/
theorem admissions_of_halfOpen_run {s t : BreakerSystem} {es : List ProtocolEvent}
    (hs : s.breaker.state = .halfOpen)
    (hslots : s.breaker.halfOpenAttempts ≤ s.breaker.halfOpenMaxAttempts)
    (h : Run step StaysHalfOpen s es t) :
    s.admissions es =
      min (attempts es) (s.breaker.halfOpenMaxAttempts - s.breaker.halfOpenAttempts) := by
  induction h with
  | nil => simp [admissions, attempts]
  | @cons s m t e es hok hstep hrest ih =>
    obtain ⟨hm, htaken, hadm⟩ := halfOpen_step hs hstep hok
    have hmax : m.breaker.halfOpenMaxAttempts = s.breaker.halfOpenMaxAttempts := by
      obtain ⟨_, _, rfl⟩ := step_eq_some hstep
      exact congrArg BreakerLimits.halfOpenMaxAttempts (s.effect_limits e)
    rw [admissions_cons hstep, attempts_cons, ih hm (by
      rw [htaken, hmax]
      split
      next ha => exact (hadm.mp ha).2
      next => exact hslots), htaken, hmax]
    by_cases ha : s.admits e = true
    · obtain ⟨hatt, hfree⟩ := hadm.mp ha
      simp only [ha, hatt, if_true]
      omega
    · by_cases hatt : e.isAttempt = true
      · have hfull : ¬s.breaker.halfOpenAttempts < s.breaker.halfOpenMaxAttempts :=
          fun hlt => ha (hadm.mpr ⟨hatt, hlt⟩)
        simp only [ha, hatt, if_true, Bool.false_eq_true, if_false]
        omega
      · simp [ha, hatt]

/-- A breaker becomes half-open only by admitting an attempt, and with all slots free. -/
theorem opens_halfOpen {s t : BreakerSystem} {e : ProtocolEvent}
    (hs : s.breaker.state ≠ .halfOpen) (hstep : s.step e = some t)
    (ht : t.breaker.state = .halfOpen) :
    e.isAttempt = true ∧ s.admits e = true ∧ t.breaker.halfOpenAttempts = 0 := by
  obtain ⟨_, _, rfl⟩ := step_eq_some hstep
  have hfail : ∀ now, (s.breaker.recordFailure now).state ≠ .halfOpen := by
    intro now ho
    rcases s.breaker.recordFailure_state now with h | h
    · exact hs (h.symm.trans ho)
    · simp [h] at ho
  cases e with
  | attempt now =>
    rcases s.breaker.canAttempt_cases now with
      ⟨h, he⟩ | ⟨h, _, he⟩ | ⟨h, _, he⟩ | ⟨h, _, _⟩ | ⟨h, _, _⟩
    · simp [effect, he, h] at ht
    · simp [effect, he, h] at ht
    · simp [effect, admits, he, CircuitBreaker.transitionToHalfOpen, ProtocolEvent.isAttempt]
    · exact absurd h hs
    · exact absurd h hs
  | finish r now =>
    cases r with
    | success => simp [effect, CircuitBreaker.recordSuccess] at ht
    | failure => exact absurd ht (hfail now)
    | exhausted => simp [effect, CircuitBreaker.report, hfail now] at ht
  | interim now => simp [effect, CircuitBreaker.recordSuccess] at ht
  | crash now => exact absurd ht hs

end BreakerSystem

/-- The attempt that makes the breaker half-open takes no slot, so a half-open period admits
one request more than it has slots; it stays within them exactly when no more attempts than
slots are made in it, the one that opened it included. -/
theorem halfOpen_admissions_le_iff {config : CircuitBreakerConfig} {created : Nat}
    {s m t : BreakerSystem} {before period : List ProtocolEvent} {e : ProtocolEvent}
    (hreach : Run BreakerSystem.step anyStep (BreakerSystem.start config created) before s)
    (hs : s.breaker.state ≠ .halfOpen) (hstep : s.step e = some m)
    (hm : m.breaker.state = .halfOpen)
    (hperiod : Run BreakerSystem.step BreakerSystem.StaysHalfOpen m period t) :
    s.admissions (e :: period) ≤ config.halfOpenAttempts ↔
      attempts (e :: period) ≤ config.halfOpenAttempts := by
  obtain ⟨hatt, hadm, hzero⟩ := BreakerSystem.opens_halfOpen hs hstep hm
  have hmax : m.breaker.halfOpenMaxAttempts = config.halfOpenAttempts :=
    congrArg BreakerLimits.halfOpenMaxAttempts
      (BreakerSystem.limits_of_run (hreach.snoc trivial hstep))
  have hcount := BreakerSystem.admissions_of_halfOpen_run hm (by omega) hperiod
  rw [BreakerSystem.admissions_cons hstep, attempts_cons, hcount, hadm, hatt, hzero, hmax]
  simp only [if_true]
  omega

theorem halfOpen_admissions_le_iff_one_slot : ∃ s m : BreakerSystem,
    s.step (.attempt 9) = some m ∧
    (s.admissions [.attempt 9] ≤ 1 ↔ attempts [.attempt 9] ≤ 1) := by
  have hreach : Run BreakerSystem.step anyStep (BreakerSystem.start ⟨1, 0, 1⟩ 0)
      [.attempt 1, .finish .failure 2] _ :=
    .cons trivial rfl (.cons trivial rfl (.nil _))
  exact ⟨_, _, rfl, halfOpen_admissions_le_iff hreach (by decide) rfl rfl (.nil _)⟩

/-- With one slot the breaker admits two requests in one half-open period: the one that made
it half-open and the one that takes the slot. -/
theorem one_slot_admits_two : ∃ s m t : BreakerSystem,
    Run BreakerSystem.step anyStep (BreakerSystem.start ⟨1, 0, 1⟩ 0)
      [.attempt 1, .finish .failure 2] s ∧
    s.breaker.state = .open ∧ s.step (.attempt 3) = some m ∧ m.breaker.state = .halfOpen ∧
    Run BreakerSystem.step BreakerSystem.StaysHalfOpen m [.attempt 4] t ∧
    s.admissions [.attempt 3, .attempt 4] = 2 :=
  ⟨_, _, _, .cons trivial rfl (.cons trivial rfl (.nil _)), rfl, rfl, rfl,
    .cons rfl rfl (.nil _), rfl⟩

end Road7
