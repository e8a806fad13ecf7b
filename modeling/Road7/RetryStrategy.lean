import Road7.Build
import Road7.Config
import Road7.Time

namespace Road7

def nanosPerSec : Nat := 1000000000

def u64Limit : Nat := 2 ^ 64

/-- The arithmetic of the delays is that of a debug build. -/
def checkedU64 (n : Nat) : Except Panic Nat := Build.debug.u64 n

/-- A `Duration` holds its seconds in 64 bits; its arithmetic panics beyond them. -/
def checkedDuration (nanos : Nat) : Except Panic Nat :=
  if nanos < u64Limit * nanosPerSec then .ok nanos else .error .overflow

/-- The whole number nearest to a quotient, the even one of two. -/
def roundHalfEven (n d : Nat) : Nat :=
  if 2 * (n % d) < d ∨ (2 * (n % d) = d ∧ n / d % 2 = 0) then n / d else n / d + 1

/-- `Duration::from_secs_f64`, which reads the mantissa and the exponent off the bits. -/
def fromSecsF64 (secs : Float) : Except Panic Nat :=
  if secs < 0 then .error .overflow
  else
    let bits := secs.toBits.toNat
    let mant := bits % 2 ^ 52 + 2 ^ 52
    -- 1023 more than the exponent of the float
    let exp := bits / 2 ^ 52 % 2 ^ 11
    if exp < 1023 + 64 then
      .ok (roundHalfEven (mant * 2 ^ exp * nanosPerSec) (2 ^ (1023 + 52)))
    else .error .overflow

/-- `Duration::mul_f64`. -/
def mulF64 (d : Nat) (x : Float) : Except Panic Nat :=
  fromSecsF64 (x * (Float.ofNat (d / nanosPerSec) + Float.ofNat (d % nanosPerSec) / 1e9))

/-- What one `delay()` call may draw from `thread_rng`. -/
structure Draw where
  secs : Nat
  nanos : Nat
  unit : Float

def genRange (lo hi raw : Nat) : Except Panic Nat :=
  if lo < hi then .ok (lo + raw % (hi - lo)) else .error .emptyRange

inductive Strategy where
  | fixedInterval (baseDelay maxAttempts : Nat)
  | exponentialBackoff (baseDelay currentAttempt : Nat) (factor : Float) (maxAttempts : Nat)
  | linearBackoff (baseDelay step currentAttempt maxAttempts : Nat)
  | randomDelay (minDelay maxDelay maxAttempts : Nat)
  | incrementalBackoff (initialDelay increment currentAttempt maxAttempts : Nat)
  | fibonacciBackoff (baseDelay current next maxAttempts : Nat)
  | geometricBackoff (baseDelay : Nat) (factor : Float) (currentAttempt maxAttempts : Nat)
  | harmonicBackoff (baseDelay currentAttempt maxAttempts : Nat)
  | jitterBackoff (strategy : Strategy) (jitterFactor : Float)

def linearDelay (base step attempt : Nat) : Except Panic Nat := do
  let scaled ← checkedDuration (step * (attempt % 2 ^ 32))
  checkedDuration (base + scaled)

def powerDelay (base : Nat) (factor : Float) (attempt : Nat) : Except Panic Nat :=
  mulF64 base (factor.pow (Float.ofNat attempt))

def harmonicDelay (base attempt : Nat) : Except Panic Nat := do
  let divisor := attempt % 2 ^ 32
  let secNanos ← checkedU64 (base / nanosPerSec * nanosPerSec)
  let totalNanos ← checkedU64 (secNanos + base % nanosPerSec)
  if divisor = 0 then .error .divisionByZero else .ok (totalNanos / divisor)

namespace Strategy

def maxAttempts : Strategy → Nat
  | fixedInterval _ n => n
  | exponentialBackoff _ _ _ n => n
  | linearBackoff _ _ _ n => n
  | randomDelay _ _ n => n
  | incrementalBackoff _ _ _ n => n
  | fibonacciBackoff _ _ _ n => n
  | geometricBackoff _ _ _ n => n
  | harmonicBackoff _ _ n => n
  | jitterBackoff s _ => s.maxAttempts

/-- `RetryStrategy::delay`, with the strategy it leaves behind. -/
def delay (draw : Draw) : Strategy → Except Panic (Nat × Strategy)
  | s@(fixedInterval base _) => .ok (base, s)
  | exponentialBackoff base attempt factor n => do
    let d ← powerDelay base factor attempt
    .ok (d, exponentialBackoff base (attempt + 1) factor n)
  | linearBackoff base step attempt n => do
    let d ← linearDelay base step attempt
    .ok (d, linearBackoff base step (attempt + 1) n)
  | s@(randomDelay lo hi _) => do
    let secs ← genRange (lo / nanosPerSec) (hi / nanosPerSec) draw.secs
    let nanos ← genRange 0 nanosPerSec draw.nanos
    .ok (secs * nanosPerSec + nanos, s)
  | incrementalBackoff initial increment attempt n => do
    let d ← linearDelay initial increment attempt
    .ok (d, incrementalBackoff initial increment (attempt + 1) n)
  | fibonacciBackoff base current next n => do
    let secs ← checkedU64 (base / nanosPerSec * current)
    let newNext ← checkedU64 (current + next)
    .ok (fromSecs secs, fibonacciBackoff base next newNext n)
  | geometricBackoff base factor attempt n => do
    let d ← powerDelay base factor attempt
    .ok (d, geometricBackoff base factor (attempt + 1) n)
  | harmonicBackoff base attempt n => do
    let d ← harmonicDelay base attempt
    .ok (d, harmonicBackoff base (attempt + 1) n)
  | jitterBackoff s factor => do
    let (base, s') ← s.delay draw
    let jitter ← mulF64 base factor
    let range := Float.ofNat jitter / 1e9
    if range > 0 then
      let extra ← mulF64 nanosPerSec (draw.unit * range)
      let d ← checkedDuration (base + extra)
      .ok (d, jitterBackoff s' factor)
    else .error .emptyRange

/-- The answer of the n-th successive `delay()` call (from 0) and the strategy after it. -/
def nthDelay (draws : Nat → Draw) (s : Strategy) : Nat → Except Panic (Nat × Strategy)
  | 0 => s.delay (draws 0)
  | n + 1 => do
    let r ← nthDelay draws s n
    r.2.delay (draws (n + 1))

end Strategy

/-- The `match` on the name in `to_strategy`. The default of `step_delay_seconds` is computed
also when it is not used. -/
def RetryConfig.baseStrategy (config : RetryConfig) : Except Panic Strategy :=
  let base := fromSecs config.baseDelaySeconds
  let n := config.maxAttempts
  if config.strategy = "ExponentialBackoff".toList then
    .ok (.exponentialBackoff base 1 (config.factor.getD 2.0) n)
  else if config.strategy = "LinearBackoff".toList then
    .ok (.linearBackoff base
      (fromSecs (config.stepDelaySeconds.getD config.baseDelaySeconds)) 1 n)
  else if config.strategy = "FixedInterval".toList then .ok (.fixedInterval base n)
  else if config.strategy = "RandomDelay".toList then do
    let double ← checkedU64 (config.baseDelaySeconds * 2)
    .ok (.randomDelay base (fromSecs (config.stepDelaySeconds.getD double)) n)
  else if config.strategy = "IncrementalBackoff".toList then
    .ok (.incrementalBackoff base (fromSecs (config.stepDelaySeconds.getD 1)) 1 n)
  else if config.strategy = "FibonacciBackoff".toList then .ok (.fibonacciBackoff base 1 1 n)
  else if config.strategy = "GeometricBackoff".toList then
    .ok (.geometricBackoff base (config.factor.getD 2.0) 1 n)
  else if config.strategy = "HarmonicBackoff".toList then .ok (.harmonicBackoff base 1 n)
  else .ok (.fixedInterval base n)

def RetryConfig.toStrategy (config : RetryConfig) : Except Panic Strategy := do
  let strategy ← config.baseStrategy
  match config.jitterFactor with
  | some factor => .ok (.jitterBackoff strategy factor)
  | none => .ok strategy

/-- A `Box<dyn RetryStrategy>` as its user sees it: the attempts it allows and what its
successive `delay()` calls answer. -/
structure RetryStrategy where
  maxAttempts : Nat
  delay : Nat → Except Panic Nat

def Strategy.boxed (draws : Nat → Draw) (s : Strategy) : RetryStrategy where
  maxAttempts := s.maxAttempts
  delay n := (s.nthDelay draws n).map Prod.fst

end Road7
