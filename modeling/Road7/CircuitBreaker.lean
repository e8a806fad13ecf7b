import Road7.Time

namespace Road7

inductive CircuitState where
  | closed
  | open
  | halfOpen
deriving DecidableEq, Repr

structure CircuitBreakerConfig where
  maxFailures : Nat
  resetTimeoutSeconds : Nat
  halfOpenAttempts : Nat
deriving DecidableEq, Repr

def CircuitBreakerConfig.default : CircuitBreakerConfig := ⟨3, 30, 1⟩

structure CircuitBreaker where
  state : CircuitState
  failureCount : Nat
  lastAttempt : Nat
  openUntil : Nat
  resetTimeout : Nat
  maxFailures : Nat
  halfOpenAttempts : Nat
  halfOpenMaxAttempts : Nat
deriving DecidableEq, Repr

namespace CircuitBreaker

def new (config : CircuitBreakerConfig) (now : Nat) : CircuitBreaker where
  state := .closed
  failureCount := 0
  lastAttempt := now
  openUntil := now
  resetTimeout := fromSecs config.resetTimeoutSeconds
  maxFailures := config.maxFailures
  halfOpenAttempts := 0
  halfOpenMaxAttempts := config.halfOpenAttempts

def recordSuccess (b : CircuitBreaker) : CircuitBreaker :=
  { b with failureCount := 0, state := .closed, halfOpenAttempts := 0 }

def transitionToClosed (b : CircuitBreaker) : CircuitBreaker :=
  { b with state := .closed, failureCount := 0, halfOpenAttempts := 0 }

/-- What `transition_to_open` leaves. Where the end of the open period is no `Instant` it panics
between its writes: the state is `Open`, the old `open_until` and the slots are still there. -/
def transitionToOpen (b : CircuitBreaker) (now : Nat) : CircuitBreaker :=
  match instantAdd now b.resetTimeout with
  | some openUntil => { b with state := .open, openUntil, halfOpenAttempts := 0 }
  | none => { b with state := .open }

def transitionToHalfOpen (b : CircuitBreaker) : CircuitBreaker :=
  { b with state := .halfOpen, halfOpenAttempts := 0 }

def recordFailure (b : CircuitBreaker) (now : Nat) : CircuitBreaker :=
  let b := { b with failureCount := b.failureCount + 1, lastAttempt := now }
  if b.failureCount ≥ b.maxFailures then b.transitionToOpen now else b

def canAttempt (b : CircuitBreaker) (now : Nat) : Bool × CircuitBreaker :=
  match b.state with
  | .closed => (true, b)
  | .open => if now ≥ b.openUntil then (true, b.transitionToHalfOpen) else (false, b)
  | .halfOpen =>
    if b.halfOpenAttempts < b.halfOpenMaxAttempts then
      (true, { b with halfOpenAttempts := b.halfOpenAttempts + 1 })
    else (false, b)

end CircuitBreaker

/-- What a request tells its breaker: a success, a failure out of one of the error arms, or
the failure recorded after `Maximum retries exceeded`. -/
inductive Report where
  | success
  | failure
  | exhausted
deriving DecidableEq, Repr

/-- What the block that each report runs under the breaker's write lock in `proxy_request` leaves
of the breaker. A `record_failure` that panics has left it open. -/
def CircuitBreaker.report (b : CircuitBreaker) (r : Report) (now : Nat) : CircuitBreaker :=
  match r with
  | .success => if b.state = .halfOpen then b.transitionToClosed else b.recordSuccess
  | .failure => b.recordFailure now
  | .exhausted =>
    let b := b.recordFailure now
    if b.state = .halfOpen then b.transitionToOpen now else b

/-- Whether `record_failure` panics: it opens the breaker for a time that is no `Instant`. -/
def CircuitBreaker.recordFailurePanics (b : CircuitBreaker) (now : Nat) : Bool :=
  b.failureCount + 1 ≥ b.maxFailures && (instantAdd now b.resetTimeout).isNone

def CircuitBreaker.reportPanics (b : CircuitBreaker) (r : Report) (now : Nat) : Bool :=
  match r with
  | .success => false
  | .failure => b.recordFailurePanics now
  | .exhausted => b.recordFailurePanics now ||
    (b.recordFailure now).state = .halfOpen && (instantAdd now b.resetTimeout).isNone

structure BreakerLimits where
  maxFailures : Nat
  halfOpenMaxAttempts : Nat
  resetTimeout : Nat

namespace CircuitBreaker

/-- What the configuration of a breaker has set, which no operation changes. -/
def limits (b : CircuitBreaker) : BreakerLimits :=
  ⟨b.maxFailures, b.halfOpenMaxAttempts, b.resetTimeout⟩

theorem transitionToClosed_eq_recordSuccess (b : CircuitBreaker) :
    b.transitionToClosed = b.recordSuccess := rfl

/-- Both arms of a success report do the same: closed, and nothing counted. -/
@[simp] theorem report_success (b : CircuitBreaker) (now : Nat) :
    b.report .success now = b.recordSuccess := by
  simp [report, transitionToClosed_eq_recordSuccess]

@[simp] theorem report_failure (b : CircuitBreaker) (now : Nat) :
    b.report .failure now = b.recordFailure now := rfl

@[simp] theorem transitionToOpen_state (b : CircuitBreaker) (now : Nat) :
    (b.transitionToOpen now).state = .open := by
  unfold transitionToOpen
  split <;> rfl

@[simp] theorem transitionToOpen_failureCount (b : CircuitBreaker) (now : Nat) :
    (b.transitionToOpen now).failureCount = b.failureCount := by
  unfold transitionToOpen
  split <;> rfl

@[simp] theorem transitionToOpen_limits (b : CircuitBreaker) (now : Nat) :
    (b.transitionToOpen now).limits = b.limits := by
  unfold transitionToOpen
  split <;> rfl

/-- In time, the breaker is open for a full reset timeout. -/
theorem transitionToOpen_of_lt {b : CircuitBreaker} {now : Nat}
    (h : now + b.resetTimeout < instantEnd) : b.transitionToOpen now =
      { b with state := .open, openUntil := now + b.resetTimeout, halfOpenAttempts := 0 } := by
  rw [transitionToOpen, instantAdd_of_lt h]

theorem transitionToOpen_of_le {b : CircuitBreaker} {now : Nat}
    (h : instantEnd ≤ now + b.resetTimeout) :
    b.transitionToOpen now = { b with state := .open } := by
  rw [transitionToOpen, instantAdd_eq_none.mpr h]

theorem transitionToOpen_slots_le (b : CircuitBreaker) (now : Nat) :
    (b.transitionToOpen now).halfOpenAttempts ≤ b.halfOpenAttempts := by
  unfold transitionToOpen
  split
  next => exact Nat.zero_le _
  next => exact Nat.le_refl _

@[simp] theorem recordFailure_failureCount (b : CircuitBreaker) (now : Nat) :
    (b.recordFailure now).failureCount = b.failureCount + 1 := by
  simp only [recordFailure]
  split
  next => exact transitionToOpen_failureCount _ _
  next => rfl

theorem recordFailure_limits (b : CircuitBreaker) (now : Nat) :
    (b.recordFailure now).limits = b.limits := by
  simp only [recordFailure]
  split
  next => exact transitionToOpen_limits _ _
  next => rfl

@[simp] theorem recordFailure_maxFailures (b : CircuitBreaker) (now : Nat) :
    (b.recordFailure now).maxFailures = b.maxFailures :=
  congrArg BreakerLimits.maxFailures (b.recordFailure_limits now)

@[simp] theorem recordFailure_halfOpenMaxAttempts (b : CircuitBreaker) (now : Nat) :
    (b.recordFailure now).halfOpenMaxAttempts = b.halfOpenMaxAttempts :=
  congrArg BreakerLimits.halfOpenMaxAttempts (b.recordFailure_limits now)

@[simp] theorem recordFailure_resetTimeout (b : CircuitBreaker) (now : Nat) :
    (b.recordFailure now).resetTimeout = b.resetTimeout :=
  congrArg BreakerLimits.resetTimeout (b.recordFailure_limits now)

theorem report_limits (b : CircuitBreaker) (r : Report) (now : Nat) :
    (b.report r now).limits = b.limits := by
  cases r with
  | success => simp [limits, recordSuccess]
  | failure => exact b.recordFailure_limits now
  | exhausted =>
    simp only [report]
    split
    next => rw [transitionToOpen_limits, recordFailure_limits]
    next => exact b.recordFailure_limits now

/-- A failure that reaches the limit opens the breaker. -/
theorem recordFailure_opens {b : CircuitBreaker} (now : Nat)
    (h : b.maxFailures ≤ b.failureCount + 1) : (b.recordFailure now).state = .open := by
  simp [recordFailure, h]

/-- In time, it does so for a full reset timeout. -/
theorem recordFailure_in_time {b : CircuitBreaker} {now : Nat}
    (h : b.maxFailures ≤ b.failureCount + 1) (hnow : now + b.resetTimeout < instantEnd) :
    (b.recordFailure now).openUntil = now + b.resetTimeout ∧
      (b.recordFailure now).halfOpenAttempts = 0 := by
  simp [recordFailure, h, transitionToOpen, instantAdd_of_lt hnow]

/-- Past the last instant, the end of the open period and the slots are left. -/
theorem recordFailure_too_late {b : CircuitBreaker} {now : Nat}
    (h : b.maxFailures ≤ b.failureCount + 1) (hnow : instantEnd ≤ now + b.resetTimeout) :
    (b.recordFailure now).openUntil = b.openUntil ∧
      (b.recordFailure now).halfOpenAttempts = b.halfOpenAttempts := by
  simp [recordFailure, h, transitionToOpen, instantAdd_eq_none.mpr hnow]

theorem recordFailure_slots_le (b : CircuitBreaker) (now : Nat) :
    (b.recordFailure now).halfOpenAttempts ≤ b.halfOpenAttempts := by
  simp only [recordFailure]
  split
  next => exact transitionToOpen_slots_le _ _
  next => exact Nat.le_refl _

theorem recordFailure_below {b : CircuitBreaker} (now : Nat)
    (h : b.failureCount + 1 < b.maxFailures) :
    (b.recordFailure now).state = b.state ∧
      (b.recordFailure now).openUntil = b.openUntil ∧
      (b.recordFailure now).halfOpenAttempts = b.halfOpenAttempts := by
  simp [recordFailure, Nat.not_le.mpr h]

/-- A failure leaves a breaker below its limit in its state, and opens any other. -/
theorem recordFailure_state (b : CircuitBreaker) (now : Nat) :
    (b.recordFailure now).state = b.state ∨ (b.recordFailure now).state = .open := by
  rcases Nat.lt_or_ge (b.failureCount + 1) b.maxFailures with h | h
  · exact .inl (recordFailure_below now h).1
  · exact .inr (recordFailure_opens now h)

theorem transitionToOpen_openUntil (b : CircuitBreaker) (now : Nat) :
    (b.transitionToOpen now).openUntil = b.openUntil ∨
      (b.transitionToOpen now).openUntil = now + b.resetTimeout := by
  rcases Nat.lt_or_ge (now + b.resetTimeout) instantEnd with h | h
  · exact .inr (by rw [transitionToOpen_of_lt h])
  · exact .inl (by rw [transitionToOpen_of_le h])

theorem recordFailure_openUntil (b : CircuitBreaker) (now : Nat) :
    (b.recordFailure now).openUntil = b.openUntil ∨
      (b.recordFailure now).openUntil = now + b.resetTimeout := by
  simp only [recordFailure]
  split
  next => exact transitionToOpen_openUntil _ _
  next => exact .inl rfl

/-- A report moves the end of the open period to one reset timeout from now, or leaves it. -/
theorem report_openUntil (b : CircuitBreaker) (r : Report) (now : Nat) :
    (b.report r now).openUntil = b.openUntil ∨
      (b.report r now).openUntil = now + b.resetTimeout := by
  cases r with
  | success => simp [recordSuccess]
  | failure => exact b.recordFailure_openUntil now
  | exhausted =>
    simp only [report]
    split
    next =>
      rcases (b.recordFailure now).transitionToOpen_openUntil now with h | h
      · rw [h]
        exact b.recordFailure_openUntil now
      · rw [h]
        exact .inr (by simp)
    next => exact b.recordFailure_openUntil now

/-- A report after which the breaker is not open leaves the end of the open period. -/
theorem report_openUntil_of_not_open {b : CircuitBreaker} {r : Report} {now : Nat}
    (h : (b.report r now).state ≠ .open) : (b.report r now).openUntil = b.openUntil := by
  have hfail : (b.recordFailure now).state ≠ .open →
      (b.recordFailure now).openUntil = b.openUntil := by
    intro ho
    rcases Nat.lt_or_ge (b.failureCount + 1) b.maxFailures with hlt | hge
    · exact (recordFailure_below now hlt).2.1
    · exact absurd (recordFailure_opens now hge) ho
  cases r with
  | success => simp [recordSuccess]
  | failure => exact hfail h
  | exhausted =>
    simp only [report] at h ⊢
    split at h
    next => exact absurd (transitionToOpen_state _ _) h
    next hhalf =>
      rw [if_neg hhalf]
      exact hfail h

/-- What a report does that opens the breaker, in time or not. -/
theorem report_opening {b : CircuitBreaker} {r : Report} {now : Nat} (hs : b.state ≠ .open)
    (hopen : (b.report r now).state = .open) :
    (now + b.resetTimeout < instantEnd → (b.report r now).openUntil = now + b.resetTimeout) ∧
      (instantEnd ≤ now + b.resetTimeout → (b.report r now).openUntil = b.openUntil) := by
  have hfail : (b.recordFailure now).state = .open →
      (now + b.resetTimeout < instantEnd →
        (b.recordFailure now).openUntil = now + b.resetTimeout) ∧
      (instantEnd ≤ now + b.resetTimeout → (b.recordFailure now).openUntil = b.openUntil) := by
    intro ho
    rcases Nat.lt_or_ge (b.failureCount + 1) b.maxFailures with hlt | hge
    · exact absurd ((recordFailure_below now hlt).1.symm.trans ho) hs
    · exact ⟨fun h => (recordFailure_in_time hge h).1, fun h => (recordFailure_too_late hge h).1⟩
  cases r with
  | success => simp [recordSuccess] at hopen
  | failure => exact hfail hopen
  | exhausted =>
    simp only [report] at hopen ⊢
    split at hopen
    next hhalf =>
      have hbelow : b.failureCount + 1 < b.maxFailures :=
        Nat.lt_of_not_le fun hge => by simp [recordFailure_opens now hge] at hhalf
      rw [if_pos hhalf]
      refine ⟨fun h => ?_, fun h => ?_⟩
      · rw [transitionToOpen_of_lt (by simpa using h)]
        simp
      · rw [transitionToOpen_of_le (by simpa using h)]
        exact (recordFailure_below now hbelow).2.1
    next hhalf =>
      rw [if_neg hhalf]
      exact hfail hopen

theorem canAttempt_closed {b : CircuitBreaker} (h : b.state = .closed) (now : Nat) :
    b.canAttempt now = (true, b) := by
  simp [canAttempt, h]

theorem canAttempt_open_early {b : CircuitBreaker} (h : b.state = .open) {now : Nat}
    (hnow : now < b.openUntil) : b.canAttempt now = (false, b) := by
  simp [canAttempt, h, Nat.not_le.mpr hnow]

theorem canAttempt_open_late {b : CircuitBreaker} (h : b.state = .open) {now : Nat}
    (hnow : b.openUntil ≤ now) : b.canAttempt now = (true, b.transitionToHalfOpen) := by
  simp [canAttempt, h, hnow]

theorem canAttempt_halfOpen_free {b : CircuitBreaker} (h : b.state = .halfOpen) (now : Nat)
    (hfree : b.halfOpenAttempts < b.halfOpenMaxAttempts) :
    b.canAttempt now = (true, { b with halfOpenAttempts := b.halfOpenAttempts + 1 }) := by
  simp [canAttempt, h, hfree]

theorem canAttempt_halfOpen_full {b : CircuitBreaker} (h : b.state = .halfOpen) (now : Nat)
    (hfull : b.halfOpenMaxAttempts ≤ b.halfOpenAttempts) : b.canAttempt now = (false, b) := by
  simp [canAttempt, h, Nat.not_lt.mpr hfull]

theorem state_cases (b : CircuitBreaker) :
    b.state = .closed ∨ b.state = .open ∨ b.state = .halfOpen := by
  cases b.state <;> simp

/-- All that `can_attempt` can do: nothing, a new half-open period, or one more slot taken. -/
theorem canAttempt_cases (b : CircuitBreaker) (now : Nat) :
    (b.state = .closed ∧ b.canAttempt now = (true, b)) ∨
    (b.state = .open ∧ now < b.openUntil ∧ b.canAttempt now = (false, b)) ∨
    (b.state = .open ∧ b.openUntil ≤ now ∧ b.canAttempt now = (true, b.transitionToHalfOpen)) ∨
    (b.state = .halfOpen ∧ b.halfOpenAttempts < b.halfOpenMaxAttempts ∧
      b.canAttempt now = (true, { b with halfOpenAttempts := b.halfOpenAttempts + 1 })) ∨
    (b.state = .halfOpen ∧ b.halfOpenMaxAttempts ≤ b.halfOpenAttempts ∧
      b.canAttempt now = (false, b)) := by
  rcases b.state_cases with hs | hs | hs
  · exact .inl ⟨hs, canAttempt_closed hs now⟩
  · rcases Nat.lt_or_ge now b.openUntil with hnow | hnow
    · exact .inr (.inl ⟨hs, hnow, canAttempt_open_early hs hnow⟩)
    · exact .inr (.inr (.inl ⟨hs, hnow, canAttempt_open_late hs hnow⟩))
  · rcases Nat.lt_or_ge b.halfOpenAttempts b.halfOpenMaxAttempts with hfree | hfull
    · exact .inr (.inr (.inr (.inl ⟨hs, hfree, canAttempt_halfOpen_free hs now hfree⟩)))
    · exact .inr (.inr (.inr (.inr ⟨hs, hfull, canAttempt_halfOpen_full hs now hfull⟩)))

/-- An attempt touches the state and the slots alone. -/
theorem canAttempt_keeps (b : CircuitBreaker) (now : Nat) :
    (b.canAttempt now).2.limits = b.limits ∧ (b.canAttempt now).2.openUntil = b.openUntil ∧
      (b.canAttempt now).2.failureCount = b.failureCount := by
  rcases b.canAttempt_cases now with
    ⟨_, he⟩ | ⟨_, _, he⟩ | ⟨_, _, he⟩ | ⟨_, _, he⟩ | ⟨_, _, he⟩ <;>
    rw [he] <;> exact ⟨rfl, rfl, rfl⟩

end CircuitBreaker

end Road7
