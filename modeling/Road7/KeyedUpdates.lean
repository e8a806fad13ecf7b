import Mathlib.Data.List.Basic

namespace Road7

/-- Updates of a state that is read by its keys. An update acts on what stands under the key it
names, and on nothing else. -/
structure KeyedUpdates (σ τ κ V : Type) [DecidableEq κ] where
  read : σ → κ → V
  step : σ → τ → σ
  key : τ → Option κ
  act : τ → V → V
  read_step : ∀ s t k, read (step s t) k = if key t = some k then act t (read s k) else read s k

namespace KeyedUpdates

variable {σ τ κ V : Type} [DecidableEq κ] (u : KeyedUpdates σ τ κ V)

def updatesOf (ts : List τ) (k : κ) : List τ := ts.filter (fun t => u.key t = some k)

/-- What stands under a key after a run is what its own updates make of what stood there. -/
theorem read_foldl (s : σ) (ts : List τ) (k : κ) : u.read (ts.foldl u.step s) k =
    (u.updatesOf ts k).foldl (fun v t => u.act t v) (u.read s k) := by
  induction ts generalizing s with
  | nil => rfl
  | cons t ts ih =>
    rw [List.foldl_cons, ih, u.read_step]
    by_cases hkey : u.key t = some k
    · simp [updatesOf, hkey]
    · simp [updatesOf, hkey]

theorem read_foldl_congr {s s' : σ} {ts ts' : List τ} {k : κ} (hread : u.read s k = u.read s' k)
    (hown : u.updatesOf ts k = u.updatesOf ts' k) :
    u.read (ts.foldl u.step s) k = u.read (ts'.foldl u.step s') k := by
  rw [read_foldl, read_foldl, hread, hown]

theorem read_foldl_of_unnamed {s : σ} {ts : List τ} {k : κ} (h : ∀ t ∈ ts, u.key t ≠ some k) :
    u.read (ts.foldl u.step s) k = u.read s k := by
  have hnone : u.updatesOf ts k = [] := List.filter_eq_nil_iff.mpr (fun t ht => by simp [h t ht])
  rw [read_foldl, hnone, List.foldl_nil]

/-- Two neighbours that no key has in common can change places. -/
theorem read_foldl_swap {a b : τ} (hne : ∀ k, u.key a = some k → u.key b ≠ some k) (s : σ)
    (before after : List τ) (k : κ) :
    u.read ((before ++ a :: b :: after).foldl u.step s) k =
      u.read ((before ++ b :: a :: after).foldl u.step s) k := by
  refine u.read_foldl_congr rfl ?_
  unfold updatesOf
  rw [List.filter_append, List.filter_append]
  congr 1
  by_cases ha : u.key a = some k
  · simp [ha, hne k ha]
  · simp [ha, List.filter_cons]

end KeyedUpdates

end Road7
