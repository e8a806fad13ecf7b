import Road7.CircuitBreaker
import Mathlib.Data.List.Induction

namespace Road7

inductive BreakerEvent where
  | attempt (now : Nat)
  | report (r : Report) (now : Nat)
deriving DecidableEq, Repr

def BreakerEvent.time : BreakerEvent → Nat
  | .attempt now => now
  | .report _ now => now

def BreakerEvent.isSuccess : BreakerEvent → Bool
  | .report .success _ => true
  | _ => false

def BreakerEvent.isFailure : BreakerEvent → Bool
  | .report .failure _ => true
  | .report .exhausted _ => true
  | _ => false

def CircuitBreaker.apply (b : CircuitBreaker) : BreakerEvent → CircuitBreaker
  | .attempt now => (b.canAttempt now).2
  | .report r now => b.report r now

def CircuitBreaker.after (b : CircuitBreaker) (events : List BreakerEvent) : CircuitBreaker :=
  events.foldl CircuitBreaker.apply b

/-- The failures reported after the last success, or all of them when there is none. -/
def failuresSinceSuccess (events : List BreakerEvent) : Nat :=
  (events.reverse.takeWhile (fun e => !e.isSuccess)).countP BreakerEvent.isFailure

@[simp] theorem CircuitBreaker.after_snoc (b : CircuitBreaker) (events : List BreakerEvent)
    (e : BreakerEvent) : b.after (events ++ [e]) = (b.after events).apply e := by
  simp [after]

@[simp] theorem failuresSinceSuccess_nil : failuresSinceSuccess [] = 0 := rfl

theorem failuresSinceSuccess_snoc (events : List BreakerEvent) (e : BreakerEvent) :
    failuresSinceSuccess (events ++ [e]) =
      if e.isSuccess then 0
      else failuresSinceSuccess events + if e.isFailure then 1 else 0 := by
  cases hs : e.isSuccess with
  | true => simp [failuresSinceSuccess, hs]
  | false => simp [failuresSinceSuccess, hs, List.countP_cons]

namespace CircuitBreaker

/-- How a breaker looks after reports of which the last ones are `failures` failures. -/
structure Coherent (b : CircuitBreaker) (failures : Nat) : Prop where
  count : b.failureCount = failures
  closed_iff : b.state = .closed ↔ failures < b.maxFailures
  slots : b.halfOpenAttempts ≤ b.halfOpenMaxAttempts

theorem new_coherent {config : CircuitBreakerConfig} (h : 0 < config.maxFailures)
    (start : Nat) : (new config start).Coherent 0 where
  count := rfl
  closed_iff := by simpa [new] using h
  slots := by simp [new]

theorem Coherent.canAttempt {b : CircuitBreaker} {failures : Nat} (h : b.Coherent failures)
    (now : Nat) : (b.canAttempt now).2.Coherent failures := by
  rcases b.canAttempt_cases now with
    ⟨_, he⟩ | ⟨_, _, he⟩ | ⟨hs, _, he⟩ | ⟨hs, hfree, he⟩ | ⟨_, _, he⟩
  · rwa [he]
  · rwa [he]
  · rw [he]
    have hcl : ¬failures < b.maxFailures := fun hlt => by simp [h.closed_iff.mpr hlt] at hs
    exact ⟨h.count, by simpa [transitionToHalfOpen] using hcl, by simp [transitionToHalfOpen]⟩
  · rw [he]
    exact ⟨h.count, h.closed_iff, hfree⟩
  · rwa [he]

theorem recordSuccess_coherent {b : CircuitBreaker} (hmax : 0 < b.maxFailures) :
    b.recordSuccess.Coherent 0 :=
  ⟨rfl, by simpa [recordSuccess] using hmax, Nat.zero_le _⟩

/-- A failure below the limit can only meet a closed breaker: the open and the half-open one
have reached the limit already. -/
theorem Coherent.recordFailure {b : CircuitBreaker} {failures : Nat} (h : b.Coherent failures)
    (now : Nat) : (b.recordFailure now).Coherent (failures + 1) := by
  have hcount := h.count
  have hslots := Nat.le_trans (b.recordFailure_slots_le now) h.slots
  rcases Nat.lt_or_ge (b.failureCount + 1) b.maxFailures with hlt | hge
  · have hstate := (recordFailure_below now hlt).1
    refine ⟨by simp [hcount], ?_, by simpa using hslots⟩
    have hcl := h.closed_iff.mpr (by omega)
    simp only [hstate, recordFailure_maxFailures, hcl, true_iff]
    omega
  · have hstate := recordFailure_opens now hge
    refine ⟨by simp [hcount], ?_, by simpa using hslots⟩
    simp only [hstate, recordFailure_maxFailures, reduceCtorEq, false_iff]
    omega

/-- A failure never leaves a coherent breaker half-open, so the second check after
`Maximum retries exceeded` finds nothing to do. -/
theorem Coherent.recordFailure_not_halfOpen {b : CircuitBreaker} {failures : Nat}
    (h : b.Coherent failures) (now : Nat) : (b.recordFailure now).state ≠ .halfOpen := by
  rcases Nat.lt_or_ge (b.failureCount + 1) b.maxFailures with hlt | hge
  · have hcl := h.closed_iff.mpr (by have := h.count; omega)
    simp [(recordFailure_below now hlt).1, hcl]
  · simp [recordFailure_opens now hge]

theorem Coherent.report_exhausted {b : CircuitBreaker} {failures : Nat}
    (h : b.Coherent failures) (now : Nat) :
    b.report .exhausted now = b.recordFailure now := by
  simp [report, h.recordFailure_not_halfOpen now]

theorem Coherent.limit_reached {b : CircuitBreaker} {failures : Nat} (h : b.Coherent failures)
    (hs : b.state = .halfOpen) : b.maxFailures ≤ b.failureCount + 1 := by
  have hcl : ¬failures < b.maxFailures := fun hlt => by simp [h.closed_iff.mpr hlt] at hs
  have hcount := h.count
  omega

theorem Coherent.report_failure_state {b : CircuitBreaker} {failures : Nat}
    (h : b.Coherent failures) (hs : b.state = .halfOpen) {r : Report} (hr : r ≠ .success)
    (now : Nat) : b.report r now = b.recordFailure now ∧ (b.report r now).state = .open := by
  have hopen := recordFailure_opens now (h.limit_reached hs)
  cases r with
  | success => exact absurd rfl hr
  | failure => exact ⟨rfl, hopen⟩
  | exhausted => exact ⟨h.report_exhausted now, by rwa [h.report_exhausted now]⟩

theorem apply_limits (b : CircuitBreaker) (e : BreakerEvent) : (b.apply e).limits = b.limits := by
  cases e with
  | attempt now => exact (b.canAttempt_keeps now).1
  | report r now => exact b.report_limits r now

theorem after_limits (b : CircuitBreaker) (events : List BreakerEvent) :
    (b.after events).limits = b.limits := by
  induction events using List.reverseRecOn with
  | nil => rfl
  | append_singleton events e ih => rw [after_snoc, apply_limits, ih]

theorem Coherent.apply {b : CircuitBreaker} {events : List BreakerEvent}
    (h : b.Coherent (failuresSinceSuccess events)) (hmax : 0 < b.maxFailures)
    (e : BreakerEvent) : (b.apply e).Coherent (failuresSinceSuccess (events ++ [e])) := by
  rw [failuresSinceSuccess_snoc]
  rcases e with now | ⟨r, now⟩
  · exact h.canAttempt now
  · cases r with
    | success =>
      simpa [CircuitBreaker.apply, BreakerEvent.isSuccess] using recordSuccess_coherent hmax
    | failure => exact h.recordFailure now
    | exhausted =>
      rw [show b.apply (.report .exhausted now) = b.report .exhausted now from rfl,
        h.report_exhausted now]
      exact h.recordFailure now

theorem after_coherent {config : CircuitBreakerConfig} (h : 0 < config.maxFailures)
    (start : Nat) (events : List BreakerEvent) :
    ((new config start).after events).Coherent (failuresSinceSuccess events) := by
  induction events using List.reverseRecOn with
  | nil => exact new_coherent h start
  | append_singleton events e ih =>
    have hmax : ((new config start).after events).maxFailures = config.maxFailures :=
      congrArg BreakerLimits.maxFailures (after_limits _ events)
    rw [after_snoc]
    exact ih.apply (hmax ▸ h) e

/-- No slots are counted outside a half-open period. -/
def Idle (b : CircuitBreaker) : Prop := b.state ≠ .halfOpen → b.halfOpenAttempts = 0

/-- A failure is not reported, while slots of a half-open period are taken, at a time from which
the reset timeout is past the last `Instant`. -/
def FailsInTime (b : CircuitBreaker) : BreakerEvent → Prop
  | .attempt _ => True
  | .report .success _ => True
  | .report _ now => 0 < b.halfOpenAttempts → now + b.resetTimeout < instantEnd

theorem Idle.canAttempt {b : CircuitBreaker} (h : b.Idle) (now : Nat) :
    (b.canAttempt now).2.Idle := by
  rcases b.canAttempt_cases now with
    ⟨_, he⟩ | ⟨_, _, he⟩ | ⟨_, _, he⟩ | ⟨hs, _, he⟩ | ⟨_, _, he⟩ <;> rw [he]
  · exact h
  · exact h
  · exact fun _ => rfl
  · exact fun hne => absurd hs hne
  · exact h

/-- A failure leaves no slots behind exactly when it is reported in time. -/
theorem recordFailure_idle_iff {b : CircuitBreaker} {failures : Nat} (h : b.Coherent failures)
    (hidle : b.Idle) (now : Nat) : (b.recordFailure now).Idle ↔
      (0 < b.halfOpenAttempts → now + b.resetTimeout < instantEnd) := by
  have hle := b.recordFailure_slots_le now
  by_cases hslots : 0 < b.halfOpenAttempts
  · have hs : b.state = .halfOpen := Decidable.byContradiction fun hne => by
      have hzero := hidle hne
      omega
    have hlimit := h.limit_reached hs
    have hopen := recordFailure_opens now hlimit
    rcases Nat.lt_or_ge (now + b.resetTimeout) instantEnd with hlt | hge
    · exact iff_of_true (fun _ => (recordFailure_in_time hlimit hlt).2) (fun _ => hlt)
    · refine iff_of_false (fun hafter => ?_) (fun hnow => Nat.not_le.mpr (hnow hslots) hge)
      have hzero := hafter (by simp [hopen])
      rw [(recordFailure_too_late hlimit hge).2] at hzero
      omega
  · exact iff_of_true (fun _ => by omega) (fun hpos => absurd hpos hslots)

theorem apply_idle_iff {b : CircuitBreaker} {failures : Nat} (h : b.Coherent failures)
    (hidle : b.Idle) (e : BreakerEvent) : (b.apply e).Idle ↔ b.FailsInTime e := by
  rcases e with now | ⟨r, now⟩
  · exact iff_of_true (hidle.canAttempt now) trivial
  · cases r with
    | success =>
      refine iff_of_true (fun _ => ?_) trivial
      simp [CircuitBreaker.apply, recordSuccess]
    | failure => exact recordFailure_idle_iff h hidle now
    | exhausted =>
      rw [show b.apply (.report .exhausted now) = b.report .exhausted now from rfl,
        h.report_exhausted now]
      exact recordFailure_idle_iff h hidle now

/-- The state of a breaker as a function of the reports it has received: the failures counted,
closed or not, its slots; a half-open breaker is reopened by any failure, and the extra opening
after `Maximum retries exceeded` changes nothing. -/
structure Follows (config : CircuitBreakerConfig) (past : List BreakerEvent) (b : CircuitBreaker) :
    Prop where
  count : b.failureCount = failuresSinceSuccess past
  closed_iff : b.state = .closed ↔ failuresSinceSuccess past < config.maxFailures
  slots : b.halfOpenAttempts ≤ config.halfOpenAttempts
  idle : b.Idle
  reopens : ∀ r now, b.state = .halfOpen → r ≠ .success → (b.report r now).state = .open
  once : ∀ now, (b.recordFailure now).state ≠ .halfOpen ∧
    b.report .exhausted now = b.recordFailure now

/-- All of it but the slots of other states holds of every history. -/
theorem after_follows_iff {config : CircuitBreakerConfig} (h : 0 < config.maxFailures)
    (start : Nat) (past : List BreakerEvent) :
    Follows config past ((new config start).after past) ↔ ((new config start).after past).Idle := by
  have hc := after_coherent h start past
  have hlimits := after_limits (new config start) past
  have hmax : ((new config start).after past).maxFailures = config.maxFailures :=
    congrArg BreakerLimits.maxFailures hlimits
  have hslots : ((new config start).after past).halfOpenMaxAttempts = config.halfOpenAttempts :=
    congrArg BreakerLimits.halfOpenMaxAttempts hlimits
  refine ⟨Follows.idle, fun hidle => ⟨hc.count, hmax ▸ hc.closed_iff, hslots ▸ hc.slots, hidle,
    fun r now hs hr => (hc.report_failure_state hs hr now).2,
    fun now => ⟨hc.recordFailure_not_halfOpen now, hc.report_exhausted now⟩⟩⟩

/-- A reset timeout that keeps clear of the last `Instant` is enough. -/
theorem failsInTime_of_lt {config : CircuitBreakerConfig} {start : Nat}
    {past : List BreakerEvent} {e : BreakerEvent}
    (h : e.time + fromSecs config.resetTimeoutSeconds < instantEnd) :
    ((new config start).after past).FailsInTime e := by
  have hreset : ((new config start).after past).resetTimeout =
      fromSecs config.resetTimeoutSeconds :=
    congrArg BreakerLimits.resetTimeout (after_limits _ past)
  rcases e with now | ⟨r, now⟩
  · trivial
  · cases r with
    | success => trivial
    | failure => exact fun _ => hreset ▸ h
    | exhausted => exact fun _ => hreset ▸ h

end CircuitBreaker

/-- The state follows the reports in every state of a history of admissions and reports exactly
when all its failures are reported in time. -/
theorem breaker_state_from_history {config : CircuitBreakerConfig} (h : 0 < config.maxFailures)
    (start : Nat) (events : List BreakerEvent) :
    (∀ past, past <+: events →
      CircuitBreaker.Follows config past ((CircuitBreaker.new config start).after past)) ↔
    ∀ past e, past ++ [e] <+: events →
      ((CircuitBreaker.new config start).after past).FailsInTime e := by
  constructor
  · intro hfollows past e hprefix
    have hpast := hfollows past ((List.prefix_append past [e]).trans hprefix)
    have hnext := (hfollows (past ++ [e]) hprefix).idle
    rw [CircuitBreaker.after_snoc] at hnext
    exact (CircuitBreaker.apply_idle_iff (CircuitBreaker.after_coherent h start past)
      hpast.idle e).mp hnext
  · intro hintime past
    induction past using List.reverseRecOn with
    | nil =>
      intro _
      exact (CircuitBreaker.after_follows_iff h start []).mpr (fun _ => rfl)
    | append_singleton past e ih =>
      intro hprefix
      have hpast := (ih ((List.prefix_append past [e]).trans hprefix)).idle
      refine (CircuitBreaker.after_follows_iff h start (past ++ [e])).mpr ?_
      rw [CircuitBreaker.after_snoc]
      exact (CircuitBreaker.apply_idle_iff (CircuitBreaker.after_coherent h start past)
        hpast e).mpr (hintime past e hprefix)

theorem breaker_state_from_history_two_failures :
    let b := (CircuitBreaker.new ⟨2, 30, 1⟩ 0).after
      [.attempt 1, .report .failure 2, .attempt 3, .report .failure 4]
    b.failureCount = 2 ∧ b.state ≠ .closed := by
  have hmax : 0 < (⟨2, 30, 1⟩ : CircuitBreakerConfig).maxFailures := by decide
  have htime : ∀ e ∈ [BreakerEvent.attempt 1, .report .failure 2, .attempt 3, .report .failure 4],
      e.time + fromSecs 30 < instantEnd := by decide
  have h := (breaker_state_from_history hmax 0
    [.attempt 1, .report .failure 2, .attempt 3, .report .failure 4]).mpr
    (fun past e hpast => CircuitBreaker.failsInTime_of_lt
      (htime e (hpast.subset (List.mem_append_right past (List.mem_singleton.mpr rfl)))))
    _ List.prefix_rfl
  exact ⟨h.count, fun hc => absurd (h.closed_iff.mp hc) (by decide)⟩

/-- With the longest reset timeout that a configuration can have, the panic of the second opening
leaves a slot counted in an open breaker. -/
theorem slot_left_when_open :
    let b := (CircuitBreaker.new ⟨1, 2 ^ 63 - 1, 1⟩ (fromSecs 1)).after
      [.attempt (fromSecs 2), .attempt (fromSecs 3), .report .failure (fromSecs 4),
        .attempt (fromSecs 5), .attempt (fromSecs 6), .report .failure (fromSecs 7)]
    b.state = .open ∧ b.halfOpenAttempts = 1 := by
  decide

end Road7
