import Mathlib.Algebra.GroupWithZero.Nat

namespace Road7

/-- `Duration::from_secs`; instants and durations are counted in nanoseconds. -/
def fromSecs (secs : Nat) : Nat := secs * 1000000000

/-- An `Instant` has its seconds in an `i64`: the first moment that is none. -/
def instantEnd : Nat := fromSecs (2 ^ 63)

/-- `Instant + Duration`, which panics where the sum is no `Instant`. -/
def instantAdd (now d : Nat) : Option Nat := if now + d < instantEnd then some (now + d) else none

theorem instantAdd_of_lt {now d : Nat} (h : now + d < instantEnd) :
    instantAdd now d = some (now + d) := if_pos h

theorem instantAdd_eq_none {now d : Nat} : instantAdd now d = none ↔ instantEnd ≤ now + d := by
  simp [instantAdd]

end Road7
