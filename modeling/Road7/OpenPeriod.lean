import Road7.BreakerProtocol

namespace Road7

namespace BreakerSystem

def NoSuccessWhileOpen (s : BreakerSystem) (e : ProtocolEvent) : Prop :=
  s.breaker.state = .open → e.reportsSuccess = false

/-- The condition that no failure opens the breaker at a time from which the reset timeout is past
the last `Instant`. -/
def OpensInTime (s : BreakerSystem) (e : ProtocolEvent) : Prop :=
  e.reportsFailure = true → s.breaker.state ≠ .open →
    (s.breaker.maxFailures ≤ s.breaker.failureCount + 1 ∨ s.breaker.state = .halfOpen) →
    e.time + s.breaker.resetTimeout < instantEnd

structure KeepsOpen (s : BreakerSystem) (e : ProtocolEvent) : Prop where
  noSuccess : s.NoSuccessWhileOpen e
  inTime : s.OpensInTime e

/-- The end of the open period is at most one reset timeout ahead. -/
def OpenBounded (resetTimeout : Nat) (s : BreakerSystem) : Prop :=
  s.breaker.resetTimeout = resetTimeout ∧ s.breaker.openUntil ≤ s.clock + resetTimeout

/-- An event moves the end of the open period to one reset timeout from now, or leaves it. -/
theorem effect_openUntil (s : BreakerSystem) (e : ProtocolEvent) :
    (s.effect e).breaker.openUntil = s.breaker.openUntil ∨
      (s.effect e).breaker.openUntil = e.time + s.breaker.resetTimeout := by
  cases e with
  | attempt now => exact .inl (s.breaker.canAttempt_keeps now).2.1
  | finish r now => exact s.breaker.report_openUntil r now
  | interim now => exact s.breaker.report_openUntil .success now
  | crash now => exact .inl rfl

theorem OpenBounded.step {resetTimeout : Nat} {s t : BreakerSystem} {e : ProtocolEvent}
    (h : s.OpenBounded resetTimeout) (hstep : s.step e = some t) : t.OpenBounded resetTimeout := by
  obtain ⟨hclock, _, rfl⟩ := step_eq_some hstep
  have hreset : (s.effect e).breaker.resetTimeout = s.breaker.resetTimeout :=
    congrArg BreakerLimits.resetTimeout (s.effect_limits e)
  have hopen := s.effect_openUntil e
  have hs := h.1
  refine ⟨hreset.trans hs, ?_⟩
  have hbound := h.2
  rw [effect_clock]
  rcases hopen with ho | ho <;> rw [ho] <;> omega

/-- A step of an open breaker without a reported success: it stays open, with the period at
least as long as before, or an attempt after the period makes it half-open. -/
theorem open_step {resetTimeout : Nat} {s t : BreakerSystem} {e : ProtocolEvent}
    (hb : s.OpenBounded resetTimeout) (hopen : s.breaker.state = .open)
    (hok : s.NoSuccessWhileOpen e) (hstep : s.step e = some t) :
    (t.breaker.state = .open ∧ s.breaker.openUntil ≤ t.breaker.openUntil) ∨
    (t.breaker.state = .halfOpen ∧ s.breaker.openUntil ≤ e.time) := by
  obtain ⟨hclock, _, rfl⟩ := step_eq_some hstep
  have hsucc := hok hopen
  have hbound := hb.2
  have hreset := hb.1
  cases e with
  | attempt now =>
    rcases Nat.lt_or_ge now s.breaker.openUntil with hnow | hnow
    · left
      simp [effect, CircuitBreaker.canAttempt_open_early hopen hnow, hopen]
    · right
      simp [effect, CircuitBreaker.canAttempt_open_late hopen hnow,
        CircuitBreaker.transitionToHalfOpen, ProtocolEvent.time, hnow]
  | finish r now =>
    left
    have hlate : s.breaker.openUntil ≤ now + s.breaker.resetTimeout := by
      simp only [ProtocolEvent.time] at hclock
      omega
    have hfail : (s.breaker.recordFailure now).state = .open ∧
        s.breaker.openUntil ≤ (s.breaker.recordFailure now).openUntil := by
      rcases Nat.lt_or_ge (s.breaker.failureCount + 1) s.breaker.maxFailures with h | h
      · have hb := CircuitBreaker.recordFailure_below now h
        exact ⟨hb.1.trans hopen, hb.2.1 ▸ Nat.le_refl _⟩
      · refine ⟨CircuitBreaker.recordFailure_opens now h, ?_⟩
        rcases s.breaker.recordFailure_openUntil now with hu | hu
        · exact hu ▸ Nat.le_refl _
        · exact hu ▸ hlate
    cases r with
    | success => simp [ProtocolEvent.reportsSuccess] at hsucc
    | failure => exact hfail
    | exhausted => simpa [effect, CircuitBreaker.report, hfail.1] using hfail.2
  | interim now => simp [ProtocolEvent.reportsSuccess] at hsucc
  | crash now => exact .inl ⟨hopen, Nat.le_refl _⟩

theorem clock_le_of_step {s t : BreakerSystem} {e : ProtocolEvent} (h : s.step e = some t) :
    s.clock ≤ t.clock ∧ t.clock = e.time := by
  obtain ⟨hclock, _, rfl⟩ := step_eq_some h
  simp [hclock]

theorem clock_le_of_run {ok : BreakerSystem → ProtocolEvent → Prop} {s t : BreakerSystem}
    {es : List ProtocolEvent} (h : Run step ok s es t) : s.clock ≤ t.clock := by
  induction h with
  | nil => exact Nat.le_refl _
  | cons _ hstep _ ih => exact Nat.le_trans (clock_le_of_step hstep).1 ih

theorem openBounded_of_run {config : CircuitBreakerConfig} {now : Nat}
    {ok : BreakerSystem → ProtocolEvent → Prop} {s : BreakerSystem} {es : List ProtocolEvent}
    (h : Run step ok (start config now) es s) :
    s.OpenBounded (fromSecs config.resetTimeoutSeconds) :=
  h.invariant (fun hb _ hstep => hb.step hstep) (by simp [OpenBounded, start, CircuitBreaker.new])

/-- Until the period is over an open breaker stays open along a run without a success
reported while open. -/
theorem stays_open_of_run {resetTimeout : Nat} {s t : BreakerSystem}
    {es : List ProtocolEvent} (hb : s.OpenBounded resetTimeout) (hopen : s.breaker.state = .open)
    (h : Run step NoSuccessWhileOpen s es t) (hearly : t.clock < s.breaker.openUntil) :
    t.breaker.state = .open ∧ s.breaker.openUntil ≤ t.breaker.openUntil := by
  induction h with
  | nil => exact ⟨hopen, Nat.le_refl _⟩
  | @cons s m t e es hok hstep hrest ih =>
    have hclock := clock_le_of_run hrest
    have htime := (clock_le_of_step hstep).2
    rcases open_step hb hopen hok hstep with ⟨hm, hle⟩ | ⟨_, hle⟩
    · obtain ⟨ht, hle'⟩ := ih (hb.step hstep) hm (by omega)
      exact ⟨ht, Nat.le_trans hle hle'⟩
    · omega

/-- Only a report of a failure opens a breaker, when it reaches the limit or ends a half-open
period. -/
theorem opening_cases {s t : BreakerSystem} {e : ProtocolEvent} (hstep : s.step e = some t)
    (hs : s.breaker.state ≠ .open) (ht : t.breaker.state = .open) :
    e.reportsFailure = true ∧
      (s.breaker.maxFailures ≤ s.breaker.failureCount + 1 ∨ s.breaker.state = .halfOpen) ∧
      ∃ r, t.breaker = s.breaker.report r t.clock := by
  obtain ⟨_, _, rfl⟩ := step_eq_some hstep
  have hbelow : ∀ now, ¬s.breaker.maxFailures ≤ s.breaker.failureCount + 1 →
      (s.breaker.recordFailure now).state = s.breaker.state :=
    fun now h => (CircuitBreaker.recordFailure_below now (Nat.not_le.mp h)).1
  cases e with
  | attempt now =>
    rcases s.breaker.canAttempt_cases now with
      ⟨h, he⟩ | ⟨h, _, he⟩ | ⟨h, _, he⟩ | ⟨h, _, he⟩ | ⟨h, _, he⟩ <;>
      simp [effect, he, h, CircuitBreaker.transitionToHalfOpen] at ht hs
  | finish r now =>
    cases r with
    | success => simp [effect, CircuitBreaker.recordSuccess] at ht
    | failure =>
      refine ⟨rfl, .inl (Decidable.byContradiction fun h => hs ?_), .failure, rfl⟩
      exact (hbelow now h).symm.trans ht
    | exhausted =>
      refine ⟨rfl, Decidable.or_iff_not_imp_left.mpr (fun h => ?_), .exhausted, rfl⟩
      simp only [effect, CircuitBreaker.report] at ht
      split at ht
      next hhalf => exact (hbelow now h).symm.trans hhalf
      next => exact absurd ((hbelow now h).symm.trans ht) hs
  | interim now => simp [effect, CircuitBreaker.recordSuccess] at ht
  | crash now => exact absurd ht hs

theorem opening_openUntil {s t : BreakerSystem} {e : ProtocolEvent} (hok : s.OpensInTime e)
    (hstep : s.step e = some t) (hs : s.breaker.state ≠ .open) (ht : t.breaker.state = .open) :
    t.breaker.openUntil = t.clock + s.breaker.resetTimeout := by
  obtain ⟨hfail, htrips, r, hr⟩ := opening_cases hstep hs ht
  have hnow := hok hfail hs htrips
  rw [← (clock_le_of_step hstep).2] at hnow
  rw [hr] at ht ⊢
  exact (CircuitBreaker.report_opening hs ht).1 hnow

/-- Outside the open state its last period is over. -/
def Elapsed (s : BreakerSystem) : Prop :=
  s.breaker.state ≠ .open → s.breaker.openUntil ≤ s.clock

theorem effect_openUntil_of_not_open {s : BreakerSystem} {e : ProtocolEvent}
    (h : (s.effect e).breaker.state ≠ .open) :
    (s.effect e).breaker.openUntil = s.breaker.openUntil := by
  cases e with
  | attempt now => exact (s.breaker.canAttempt_keeps now).2.1
  | finish r now => exact CircuitBreaker.report_openUntil_of_not_open h
  | interim now => exact CircuitBreaker.report_openUntil_of_not_open h
  | crash now => rfl

theorem elapsed_of_run {config : CircuitBreakerConfig} {now : Nat} {s : BreakerSystem}
    {es : List ProtocolEvent} (h : Run step KeepsOpen (start config now) es s) : s.Elapsed := by
  have hboth : s.OpenBounded (fromSecs config.resetTimeoutSeconds) ∧ s.Elapsed := by
    refine h.invariant
      (P := fun s => s.OpenBounded (fromSecs config.resetTimeoutSeconds) ∧ s.Elapsed)
      (fun {s e t} hs hok hstep => ⟨hs.1.step hstep, fun ht => ?_⟩)
      ⟨by simp [OpenBounded, start, CircuitBreaker.new], fun _ => Nat.le_refl _⟩
    obtain ⟨hclock, htime⟩ := clock_le_of_step hstep
    have hsame : t.breaker.openUntil = s.breaker.openUntil := by
      obtain ⟨_, _, rfl⟩ := step_eq_some hstep
      exact effect_openUntil_of_not_open ht
    by_cases hopen : s.breaker.state = .open
    · rcases open_step hs.1 hopen hok.noSuccess hstep with ⟨hstill, _⟩ | ⟨_, hle⟩
      · exact absurd hstill ht
      · omega
    · have hle := hs.2 hopen
      omega
  exact hboth.2

/-- What the condition excludes breaks the open period at once: a success that is reported while
the breaker is open closes it. -/
theorem success_while_open_admits {s t : BreakerSystem} {e : ProtocolEvent}
    (hsucc : e.reportsSuccess = true) (hstep : s.step e = some t) :
    (t.breaker.canAttempt t.clock).1 = true := by
  obtain ⟨_, _, rfl⟩ := step_eq_some hstep
  have hclosed : (s.effect e).breaker.state = .closed := by
    cases e with
    | attempt now => simp [ProtocolEvent.reportsSuccess] at hsucc
    | finish r now =>
      cases r with
      | success => simp [effect, CircuitBreaker.recordSuccess]
      | failure => simp [ProtocolEvent.reportsSuccess] at hsucc
      | exhausted => simp [ProtocolEvent.reportsSuccess] at hsucc
    | interim now => simp [effect, CircuitBreaker.recordSuccess]
    | crash now => simp [ProtocolEvent.reportsSuccess] at hsucc
  rw [CircuitBreaker.canAttempt_closed hclosed]

/-- So does an opening that comes too late: the end of the period is the one of an earlier time. -/
theorem late_opening_admits {config : CircuitBreakerConfig} {created : Nat} {s t : BreakerSystem}
    {es : List ProtocolEvent} {e : ProtocolEvent}
    (hreach : Run step KeepsOpen (start config created) es s) (hstep : s.step e = some t)
    (hs : s.breaker.state ≠ .open) (ht : t.breaker.state = .open)
    (hlate : instantEnd ≤ t.clock + s.breaker.resetTimeout) :
    (t.breaker.canAttempt t.clock).1 = true := by
  have hclock := (clock_le_of_step hstep).1
  have helapsed := elapsed_of_run hreach hs
  obtain ⟨_, _, r, hr⟩ := opening_cases hstep hs ht
  have hsame : t.breaker.openUntil = s.breaker.openUntil := by
    rw [hr] at ht ⊢
    exact (CircuitBreaker.report_opening hs ht).2 hlate
  rw [CircuitBreaker.canAttempt_open_late ht (by omega)]

end BreakerSystem

/-- In any interleaving of requests without a success reported while the breaker is open, an
open breaker admits nothing before its `open_until` and leaves the open state only for the
half-open one, when `open_until` has passed; and that is one reset timeout after it opened, where
that is an `Instant`. -/
theorem open_breaker_refuses {config : CircuitBreakerConfig} {created : Nat}
    {s t : BreakerSystem} {es es' : List ProtocolEvent}
    (hreach : Run BreakerSystem.step anyStep (BreakerSystem.start config created) es s)
    (hopen : s.breaker.state = .open)
    (h : Run BreakerSystem.step BreakerSystem.KeepsOpen s es' t) :
    (∀ now, t.clock ≤ now → now < s.breaker.openUntil →
      t.breaker.state = .open ∧ (t.breaker.canAttempt now).1 = false) ∧
    (∀ e u, t.KeepsOpen e → t.step e = some u → t.breaker.state = .open →
      u.breaker.state = .open ∨
      (u.breaker.state = .halfOpen ∧ t.breaker.openUntil ≤ u.clock)) ∧
    (∀ e u, t.KeepsOpen e → t.step e = some u → t.breaker.state ≠ .open → u.breaker.state = .open →
      u.breaker.openUntil = u.clock + fromSecs config.resetTimeoutSeconds) := by
  have hs := BreakerSystem.openBounded_of_run hreach
  have ht := BreakerSystem.openBounded_of_run
    ((hreach.append (h.mono fun _ _ _ => trivial)))
  have hsucc := h.mono (fun _ _ hok => BreakerSystem.KeepsOpen.noSuccess hok)
  refine ⟨fun now hclock hearly => ?_, fun e u hok hstep ho => ?_, fun e u hok hstep hn ho => ?_⟩
  · obtain ⟨ho, hle⟩ := BreakerSystem.stays_open_of_run hs hopen hsucc (by omega)
    refine ⟨ho, ?_⟩
    rw [CircuitBreaker.canAttempt_open_early ho (by omega)]
  · have htime := (BreakerSystem.clock_le_of_step hstep).2
    exact (BreakerSystem.open_step ht ho hok.noSuccess hstep).imp And.left (htime ▸ id)
  · rw [BreakerSystem.opening_openUntil hok.inTime hstep hn ho, ht.1]

theorem open_breaker_refuses_one_failure :
    ((((BreakerSystem.start ⟨1, 30, 1⟩ 0).effect (.attempt 1)).effect
      (.finish .failure 2)).breaker.canAttempt 3).1 = false := by
  have hreach : Run BreakerSystem.step anyStep (BreakerSystem.start ⟨1, 30, 1⟩ 0)
      [.attempt 1, .finish .failure 2] _ :=
    .cons trivial rfl (.cons trivial rfl (.nil _))
  exact ((open_breaker_refuses hreach rfl (.nil _)).1 3 (by decide) (by decide)).2

/-- Two requests are admitted while the breaker is closed; the failure of one opens it for
thirty seconds, the late success of the other closes it after one nanosecond. -/
theorem late_success_ends_open_period : ∃ s t : BreakerSystem,
    Run BreakerSystem.step anyStep (BreakerSystem.start ⟨1, 30, 1⟩ 0)
      [.attempt 1, .attempt 2, .finish .failure 3] s ∧
    s.breaker.state = .open ∧ s.breaker.openUntil = 30000000003 ∧
    Run BreakerSystem.step anyStep s [.finish .success 4] t ∧
    (t.breaker.canAttempt 5).1 = true :=
  ⟨_, _, .cons trivial rfl (.cons trivial rfl (.cons trivial rfl (.nil _))), rfl, rfl,
    .cons trivial rfl (.nil _), rfl⟩

end Road7
