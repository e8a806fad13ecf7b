import Road7.LimiterChoice
import Road7.RateBucket

namespace Road7

namespace RateLimiterConfig

/-- `max_rate as u32`, which keeps the low 32 bits. -/
def refillDivisor (config : RateLimiterConfig) : Nat := config.maxRate % 2 ^ 32

/-- `period / (max_rate as u32)` in nanoseconds, rounded down. -/
def refillInterval (config : RateLimiterConfig) : Nat := config.period / config.refillDivisor

/-- What `RateLimiter::new` asserts. -/
def Accepted (config : RateLimiterConfig) : Prop := 0 < config.capacity ∧ 0 < config.maxRate

/-- The refill task can be started, adds tokens at the configured rate as far as whole nanoseconds
allow, and the bucket that it fills has a size. -/
structure Viable (config : RateLimiterConfig) : Prop where
  divides : config.refillDivisor ≠ 0
  positive : 0 < config.refillInterval
  notFaster : config.maxRate * config.refillInterval ≤ config.period
  notSlower : config.period < config.maxRate * (config.refillInterval + 1)
  bucket : config.capacity + config.burstCapacity < 2 ^ 64

variable {config : RateLimiterConfig}

/-- `new` returns exactly for an accepted configuration whose divisor is not zero. -/
theorem new_returns_iff : (∃ l, RateLimiter.new config = .ok l) ↔
    config.Accepted ∧ config.refillDivisor ≠ 0 := by
  unfold RateLimiter.new Accepted refillDivisor
  split
  next hzero =>
    refine iff_of_false (by simp) ?_
    rintro ⟨⟨hcapacity, hrate⟩, _⟩
    omega
  next hpos =>
    split
    next hdivisor =>
      refine iff_of_false (by simp) ?_
      rintro ⟨_, hne⟩
      exact hne hdivisor
    next hdivisor => exact iff_of_true ⟨_, rfl⟩ ⟨by omega, hdivisor⟩

theorem refillDivisor_of_lt (hlt : config.maxRate < 2 ^ 32) :
    config.refillDivisor = config.maxRate :=
  Nat.mod_eq_of_lt hlt

/-- A rate that the cast cuts off is a multiple of `2 ^ 32` above what is left of it. -/
theorem refillDivisor_add_le (hge : 2 ^ 32 ≤ config.maxRate) :
    config.refillDivisor + 2 ^ 32 ≤ config.maxRate := by
  unfold refillDivisor
  have hsplit := Nat.mod_add_div config.maxRate (2 ^ 32)
  have hquotient : 0 < config.maxRate / 2 ^ 32 := Nat.div_pos hge (by decide)
  omega

/-- A cast that cuts off makes the interval too long for the rate. -/
theorem maxRate_lt_of_viable (h : config.Viable) : config.maxRate < 2 ^ 32 := by
  by_contra hge
  have hcut := refillDivisor_add_le (Nat.not_lt.mp hge)
  have hsmall : config.refillDivisor < 2 ^ 32 := Nat.mod_lt _ (by decide)
  have hpos : 0 < config.refillDivisor := Nat.pos_of_ne_zero h.divides
  have hround : config.period < config.refillDivisor * (config.refillInterval + 1) :=
    Nat.lt_mul_div_succ config.period hpos
  have hrate : (config.refillDivisor + 2 ^ 32) * config.refillInterval ≤
      config.maxRate * config.refillInterval := Nat.mul_le_mul_right _ hcut
  have hinterval : 2 ^ 32 * 1 ≤ 2 ^ 32 * config.refillInterval :=
    Nat.mul_le_mul_left _ h.positive
  have hfaster := h.notFaster
  rw [Nat.add_mul] at hrate
  rw [Nat.mul_add] at hround
  omega

theorem viable_of_rate (hpos : 0 < config.maxRate) (hrate : config.maxRate < 2 ^ 32)
    (hperiod : config.maxRate ≤ config.period)
    (hbucket : config.capacity + config.burstCapacity < 2 ^ 64) : config.Viable := by
  have hdivisor := refillDivisor_of_lt hrate
  refine ⟨?_, ?_, ?_, ?_, hbucket⟩
  · rw [hdivisor]
    omega
  · unfold refillInterval
    rw [hdivisor]
    exact Nat.div_pos hperiod hpos
  · unfold refillInterval
    rw [hdivisor]
    exact Nat.mul_div_le config.period config.maxRate
  · unfold refillInterval
    rw [hdivisor]
    exact Nat.lt_mul_div_succ config.period hpos

theorem maxRate_le_of_viable (h : config.Viable) : config.maxRate ≤ config.period :=
  calc config.maxRate = config.maxRate * 1 := (Nat.mul_one _).symm
    _ ≤ config.maxRate * config.refillInterval := Nat.mul_le_mul_left _ h.positive
    _ ≤ config.period := h.notFaster

end RateLimiterConfig

/-- The refill task of an accepted configuration is viable exactly when its rate fits in 32 bits,
is at most one token for each nanosecond, and its bucket fits in a `usize`. -/
theorem refill_viable_iff {config : RateLimiterConfig} (haccepted : config.Accepted) :
    config.Viable ↔ config.maxRate < 2 ^ 32 ∧ config.maxRate ≤ config.period ∧
      config.capacity + config.burstCapacity < 2 ^ 64 := by
  constructor
  · intro h
    exact ⟨RateLimiterConfig.maxRate_lt_of_viable h, RateLimiterConfig.maxRate_le_of_viable h,
      h.bucket⟩
  · rintro ⟨hrate, hperiod, hbucket⟩
    exact RateLimiterConfig.viable_of_rate haccepted.2 hrate hperiod hbucket

theorem refill_viable_iff_ten_a_second : RateLimiterConfig.Viable ⟨10, 5, 10, fromSecs 1⟩ :=
  (refill_viable_iff ⟨by decide, by decide⟩).mpr ⟨by decide, by decide, by decide⟩

/-- With `every = 0` the limiter of `run_proxy` is accepted, and its task has no interval. -/
theorem no_interval_every_zero :
    ∃ settings : RateLimiterSettings, settings.every = some 0 ∧
      settings.limiterConfig.Accepted ∧ (∃ l, RateLimiter.new settings.limiterConfig = .ok l) ∧
      settings.limiterConfig.refillInterval = 0 ∧ ¬settings.limiterConfig.Viable := by
  have hinterval : RateLimiterSettings.limiterConfig ⟨10, 10, some 0, 5⟩ = ⟨10, 5, 10, 0⟩ := rfl
  refine ⟨⟨10, 10, some 0, 5⟩, rfl, ?_, ⟨_, rfl⟩, rfl, ?_⟩
  · exact ⟨by decide, by decide⟩
  · intro h
    have hpositive := h.positive
    rw [hinterval] at hpositive
    exact absurd hpositive (by decide)

end Road7
