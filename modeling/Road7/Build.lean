import Road7.Http

namespace Road7

/-- How the proxy has been built: `cargo build` checks the arithmetic of the integers,
`cargo build --release` does not. -/
inductive Build where
  | debug
  | release
deriving DecidableEq, Repr

/-- The `u64` or `usize` that a sum or a product comes to. -/
def Build.u64 (build : Build) (n : Nat) : Except Panic Nat :=
  if n < 2 ^ 64 then .ok n
  else match build with
    | .debug => .error .overflow
    | .release => .ok (n % 2 ^ 64)

namespace Build

variable {n m : Nat}

theorem debug_eq_ok : Build.debug.u64 n = .ok m ↔ n < 2 ^ 64 ∧ n = m := by
  unfold u64
  split
  next hlt => rw [Except.ok.injEq, and_iff_right hlt]
  next hge => exact iff_of_false nofun fun h => hge h.1

theorem debug_of_ge (h : 2 ^ 64 ≤ n) : Build.debug.u64 n = .error .overflow := by
  rw [u64, if_neg (Nat.not_lt.mpr h)]

/-- Without the checks the integers wrap. -/
theorem release_eq_ok : Build.release.u64 n = .ok (n % 2 ^ 64) := by
  unfold u64
  split
  next hlt => rw [Nat.mod_eq_of_lt hlt]
  next => rfl

end Build

end Road7
