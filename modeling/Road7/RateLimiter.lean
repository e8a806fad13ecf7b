import Road7.Build
import Road7.Config
import Road7.Time

namespace Road7

structure RateLimiterConfig where
  capacity : Nat
  burstCapacity : Nat
  maxRate : Nat
  period : Nat
deriving DecidableEq, Repr

structure RateLimiter where
  capacity : Nat
  burstCapacity : Nat
  maxRate : Nat
  period : Nat
  tokens : Nat
deriving DecidableEq, Repr

/-- A sum of two `usize`. The arithmetic of the limiters is that of a release build. -/
def usizeAdd (m n : Nat) : Nat := (m + n) % 2 ^ 64

theorem release_usizeAdd (m n : Nat) : Build.release.u64 (m + n) = .ok (usizeAdd m n) :=
  Build.release_eq_ok

/-- `RateLimiter::new`, or the message that it panics with: on the two zeros that it looks for,
and on the division of the period by `max_rate as u32`. -/
def RateLimiter.new (config : RateLimiterConfig) : Except String RateLimiter :=
  if config.capacity = 0 ∨ config.maxRate = 0 then
    .error "Invalid RateLimiterConfig: capacity and max_rate must be greater than 0"
  else if config.maxRate % 2 ^ 32 = 0 then
    .error "divide by zero error when dividing duration by scalar"
  else .ok ⟨config.capacity, config.burstCapacity, config.maxRate, config.period,
    usizeAdd config.capacity config.burstCapacity⟩

/-- What a tick of the refill task does. -/
def RateLimiter.refill (l : RateLimiter) : RateLimiter :=
  { l with tokens := min (usizeAdd l.tokens 1) (usizeAdd l.capacity l.burstCapacity) }

/-- `RateLimiter::acquire`, `false` for `RateLimitError::Exhausted`. -/
def RateLimiter.acquire (l : RateLimiter) : Bool × RateLimiter :=
  if l.tokens > 0 then (true, { l with tokens := l.tokens - 1 }) else (false, l)

/-- `RateLimiterManager::get_limiter`: the exact path, else the first prefix in the iteration
order of the map. -/
def getLimiter (limiters : List (Sigma (fun _ : Str => RateLimiter))) (target : Str) :
    Option RateLimiter :=
  match limiters.find? (fun e => e.1 = target) with
  | some e => some e.2
  | none => (limiters.find? (fun e => e.1.isPrefixOf target)).map Sigma.snd

end Road7
