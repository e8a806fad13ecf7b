import Road7.Runs

namespace Road7

/-- A reader/writer lock without reentrance: the owners of the read guards that are out, and
the owner of the write guard. -/
structure RwLock (α : Type) where
  readers : List α
  writer : Option α
  exclusive : writer = none ∨ readers = []

inductive LockOp where
  | read
  | write
  | releaseRead
  | releaseWrite
deriving DecidableEq, Repr

namespace RwLock

variable {α : Type} [DecidableEq α]

def free : RwLock α := ⟨[], none, .inl rfl⟩

/-- The lock after an operation of an owner; `none` while the owner has to wait, or has no
guard to release. -/
def apply (l : RwLock α) (a : α) : LockOp → Option (RwLock α)
  | .read =>
    if h : l.writer = none then some ⟨a :: l.readers, l.writer, .inl h⟩ else none
  | .write =>
    if h : l.writer = none ∧ l.readers = [] then some ⟨l.readers, some a, .inr h.2⟩ else none
  | .releaseRead =>
    if a ∈ l.readers then
      some ⟨l.readers.erase a, l.writer, l.exclusive.imp_right (fun h => by rw [h]; rfl)⟩
    else none
  | .releaseWrite => if l.writer = some a then some ⟨l.readers, none, .inl rfl⟩ else none

variable {l m : RwLock α} {a b : α} {op : LockOp}

/-- Nobody gets the write guard while a read guard is out, its owner no more than others. -/
theorem write_eq_none (h : a ∈ l.readers) (b : α) : l.apply b .write = none := by
  have hne : l.readers ≠ [] := List.ne_nil_of_mem h
  simp [apply, hne]

/-- What others do leaves the guards of an owner alone. -/
theorem apply_other (h : l.apply b op = some m) (hne : a ≠ b) :
    (a ∈ m.readers ↔ a ∈ l.readers) ∧ (m.writer = some a ↔ l.writer = some a) := by
  cases op with
  | read =>
    simp only [apply] at h
    split at h
    next =>
      cases h
      simp [hne]
    next => simp at h
  | write =>
    simp only [apply] at h
    split at h
    next hfree =>
      cases h
      simp [hfree.1, Ne.symm hne]
    next => simp at h
  | releaseRead =>
    simp only [apply] at h
    split at h
    next =>
      cases h
      simp [List.mem_erase_of_ne hne]
    next => simp at h
  | releaseWrite =>
    simp only [apply] at h
    split at h
    next hwriter =>
      cases h
      simp [hwriter, Ne.symm hne]
    next => simp at h

end RwLock

end Road7
