import Road7.CircuitBreaker
import Road7.Runs

namespace Road7

/-- A breaker with the requests it admitted that are still running. -/
structure BreakerSystem where
  breaker : CircuitBreaker
  inFlight : Nat
  clock : Nat
deriving DecidableEq, Repr

/-- What can happen to a breaker under concurrent requests, at a reading of the clock: a
request asks for admission, a running one reports and ends, one reports a success and goes
on (a 304 that no cached entry answers), or one ends without a report. -/
inductive ProtocolEvent where
  | attempt (now : Nat)
  | finish (r : Report) (now : Nat)
  | interim (now : Nat)
  | crash (now : Nat)
deriving DecidableEq, Repr

def ProtocolEvent.time : ProtocolEvent → Nat
  | .attempt now => now
  | .finish _ now => now
  | .interim now => now
  | .crash now => now

def ProtocolEvent.isAttempt : ProtocolEvent → Bool
  | .attempt _ => true
  | _ => false

def ProtocolEvent.reportsSuccess : ProtocolEvent → Bool
  | .finish .success _ => true
  | .interim _ => true
  | _ => false

def ProtocolEvent.reportsFailure : ProtocolEvent → Bool
  | .finish .failure _ => true
  | .finish .exhausted _ => true
  | _ => false

namespace BreakerSystem

def start (config : CircuitBreakerConfig) (now : Nat) : BreakerSystem :=
  ⟨CircuitBreaker.new config now, 0, now⟩

def effect (s : BreakerSystem) : ProtocolEvent → BreakerSystem
  | .attempt now =>
    let (admitted, b) := s.breaker.canAttempt now
    ⟨b, if admitted then s.inFlight + 1 else s.inFlight, now⟩
  | .finish r now => ⟨s.breaker.report r now, s.inFlight - 1, now⟩
  | .interim now => ⟨s.breaker.report .success now, s.inFlight, now⟩
  | .crash now => ⟨s.breaker, s.inFlight - 1, now⟩

/-- The clock never runs backwards, and only a running request can report or end. -/
def enabled (s : BreakerSystem) (e : ProtocolEvent) : Bool :=
  s.clock ≤ e.time && (e.isAttempt || 0 < s.inFlight)

def step (s : BreakerSystem) (e : ProtocolEvent) : Option BreakerSystem :=
  if s.enabled e then some (s.effect e) else none

theorem step_eq_some {s t : BreakerSystem} {e : ProtocolEvent} (h : s.step e = some t) :
    s.clock ≤ e.time ∧ (e.isAttempt = false → 0 < s.inFlight) ∧ t = s.effect e := by
  unfold step at h
  split at h
  next hen =>
    simp only [enabled, Bool.and_eq_true, decide_eq_true_eq, Bool.or_eq_true] at hen
    refine ⟨hen.1, fun ha => ?_, (Option.some.inj h).symm⟩
    simpa [ha] using hen.2
  next => simp at h

theorem effect_attempt {s : BreakerSystem} {now : Nat} {admitted : Bool} {b : CircuitBreaker}
    (h : s.breaker.canAttempt now = (admitted, b)) :
    s.effect (.attempt now) = ⟨b, if admitted then s.inFlight + 1 else s.inFlight, now⟩ := by
  simp [effect, h]

theorem effect_limits (s : BreakerSystem) (e : ProtocolEvent) :
    (s.effect e).breaker.limits = s.breaker.limits := by
  cases e with
  | attempt now => exact (s.breaker.canAttempt_keeps now).1
  | finish r now => exact s.breaker.report_limits r now
  | interim now => exact s.breaker.report_limits .success now
  | crash now => rfl

theorem limits_of_run {ok : BreakerSystem → ProtocolEvent → Prop} {s t : BreakerSystem}
    {es : List ProtocolEvent} (h : Run step ok s es t) : t.breaker.limits = s.breaker.limits := by
  refine h.invariant (P := fun u => u.breaker.limits = s.breaker.limits)
    (fun hu _ hstep => ?_) rfl
  obtain ⟨_, _, rfl⟩ := step_eq_some hstep
  rw [effect_limits, hu]

@[simp] theorem effect_clock (s : BreakerSystem) (e : ProtocolEvent) :
    (s.effect e).clock = e.time := by
  cases e <;> rfl

/-- The condition that no running request ends without a report. -/
def NoCrash (_ : BreakerSystem) (e : ProtocolEvent) : Prop := ¬∃ now, e = .crash now

def admits (s : BreakerSystem) : ProtocolEvent → Bool
  | .attempt now => (s.breaker.canAttempt now).1
  | _ => false

def admissions : BreakerSystem → List ProtocolEvent → Nat
  | _, [] => 0
  | s, e :: es =>
    (if s.admits e then 1 else 0) + (s.step e).elim 0 (fun t => t.admissions es)

end BreakerSystem

def attempts (events : List ProtocolEvent) : Nat := events.countP ProtocolEvent.isAttempt

end Road7
