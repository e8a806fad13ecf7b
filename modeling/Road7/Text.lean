import Mathlib.Algebra.GroupWithZero.Nat
import Mathlib.Data.List.Infix

namespace Road7

abbrev Str := List Char
abbrev Bytes := List UInt8

def utf8 (s : Str) : Bytes := s.flatMap String.utf8EncodeChar

theorem utf8_append (s t : Str) : utf8 (s ++ t) = utf8 s ++ utf8 t := List.flatMap_append

theorem utf8EncodeChar_ascii {c : Char} (h : c.toNat < 128) :
    String.utf8EncodeChar c = [UInt8.ofNat c.toNat] := by
  have hall : ∀ n < 128, String.utf8EncodeChar (Char.ofNat n) = [UInt8.ofNat n] := by
    decide +kernel
  simpa using hall c.toNat h

/-- `str::len`, which counts bytes. -/
def byteLen (s : Str) : Nat := (s.map Char.utf8Size).sum

/-- The slice `&s[n..]`; `none` where Rust panics, past the end or inside a character. -/
def sliceFrom : Str → Nat → Option Str
  | [], n => if n = 0 then some [] else none
  | c :: s, n =>
    if n = 0 then some (c :: s)
    else if c.utf8Size ≤ n then sliceFrom s (n - c.utf8Size) else none

@[simp] theorem byteLen_nil : byteLen [] = 0 := rfl

@[simp] theorem byteLen_cons (c : Char) (s : Str) :
    byteLen (c :: s) = c.utf8Size + byteLen s := by
  simp [byteLen]

@[simp] theorem sliceFrom_zero (s : Str) : sliceFrom s 0 = some s := by
  cases s <;> simp [sliceFrom]

theorem sliceFrom_append (p rest : Str) : sliceFrom (p ++ rest) (byteLen p) = some rest := by
  induction p with
  | nil => exact sliceFrom_zero rest
  | cons c p ih =>
    have hpos := Char.utf8Size_pos c
    have hne : c.utf8Size + byteLen p ≠ 0 := by omega
    simp only [List.cons_append, byteLen_cons, sliceFrom, hne, if_false, Nat.le_add_right, if_true,
      Nat.add_sub_cancel_left, ih]

section Scan

variable {α : Type} [DecidableEq α]

/-- What stands after the last `c`; the whole list when there is none. -/
def afterLast (c : α) : List α → List α
  | [] => []
  | x :: xs => if c ∈ xs then afterLast c xs else if x = c then xs else x :: xs

def beforeLast (c : α) : List α → List α
  | [] => []
  | x :: xs => if c ∈ xs then x :: beforeLast c xs else []

theorem afterLast_of_not_mem {c : α} {xs : List α} (h : c ∉ xs) : afterLast c xs = xs := by
  cases xs with
  | nil => rfl
  | cons x xs =>
    simp only [List.mem_cons, not_or] at h
    simp [afterLast, h.2, Ne.symm h.1]

/-- A list that holds `c` is cut at its last `c`. -/
theorem beforeLast_append_afterLast {c : α} {xs : List α} (h : c ∈ xs) :
    beforeLast c xs ++ c :: afterLast c xs = xs := by
  induction xs with
  | nil => simp at h
  | cons x xs ih =>
    by_cases hxs : c ∈ xs
    · simp [beforeLast, afterLast, hxs, ih hxs]
    · have hx : c = x := (List.mem_cons.mp h).resolve_right hxs
      subst x
      simp [beforeLast, afterLast, hxs]

theorem afterLast_append_of_mem {c : α} {ys : List α} (xs : List α) (h : c ∈ ys) :
    afterLast c (xs ++ ys) = afterLast c ys := by
  induction xs with
  | nil => rfl
  | cons x xs ih => simp [afterLast, h, ih]

theorem afterLast_append_of_not_mem {c : α} {ys : List α} (xs : List α) (h : c ∉ ys) :
    afterLast c (xs ++ ys) = afterLast c xs ++ ys := by
  induction xs with
  | nil => simp [afterLast, afterLast_of_not_mem h]
  | cons x xs ih =>
    simp only [List.cons_append, afterLast, List.mem_append, h, or_false, ih]
    split
    next => rfl
    next => split <;> rfl

end Scan

end Road7
