import Mathlib.Algebra.BigOperators.Group.List.Basic
import Mathlib.Logic.Function.Basic
import Road7.Runs

namespace Road7

variable {κ M : Type} [DecidableEq κ] [AddCommMonoid M]

/-- Counters that several parties add to, each of them its own additions one after the other: what
the counters show, and what the parties have still to add. -/
structure Tally (κ M : Type) where
  value : κ → M
  pending : List (List (κ × M))

inductive TallyEvent (κ M : Type) where
  | enter (additions : List (κ × M))
  | act (i : Nat)

def TallyEvent.enters : TallyEvent κ M → Option (List (κ × M))
  | .enter additions => some additions
  | .act _ => none

def entered (es : List (TallyEvent κ M)) : List (List (κ × M)) := es.filterMap TallyEvent.enters

/-- What some additions come to for one counter. -/
def additionsTo (k : κ) : List (κ × M) → M
  | [] => 0
  | a :: additions => (if a.1 = k then a.2 else 0) + additionsTo k additions

theorem additionsTo_append (k : κ) (xs ys : List (κ × M)) :
    additionsTo k (xs ++ ys) = additionsTo k xs + additionsTo k ys := by
  induction xs with
  | nil => rw [List.nil_append, additionsTo, zero_add]
  | cons a xs ih => rw [List.cons_append, additionsTo, additionsTo, ih, add_assoc]

def allTo (k : κ) (parties : List (List (κ × M))) : M := (parties.map (additionsTo k)).sum

theorem allTo_cons (k : κ) (additions : List (κ × M)) (parties : List (List (κ × M))) :
    allTo k (additions :: parties) = additionsTo k additions + allTo k parties := by
  rw [allTo, List.map_cons, List.sum_cons, allTo]

namespace Tally

def start (value : κ → M) : Tally κ M := ⟨value, []⟩

/-- One addition is made at a time, whosever it is. -/
def step (s : Tally κ M) : TallyEvent κ M → Option (Tally κ M)
  | .enter additions => some { s with pending := additions :: s.pending }
  | .act i =>
    match s.pending[i]? with
    | some ((k, m) :: rest) =>
      some ⟨Function.update s.value k (s.value k + m), s.pending.set i rest⟩
    | _ => none

variable {s t : Tally κ M} {e : TallyEvent κ M} {es : List (TallyEvent κ M)}

theorem allTo_set (k : κ) {parties : List (List (κ × M))} {i : Nat} {a : κ × M}
    {rest : List (κ × M)} (hi : parties[i]? = some (a :: rest)) :
    allTo k parties = (if a.1 = k then a.2 else 0) + allTo k (parties.set i rest) := by
  induction parties generalizing i with
  | nil => simp at hi
  | cons party parties ih =>
    cases i with
    | zero =>
      obtain rfl : party = a :: rest := by simpa using hi
      rw [List.set_cons_zero, allTo_cons, allTo_cons, additionsTo, add_assoc]
    | succ i =>
      rw [List.set_cons_succ, allTo_cons, allTo_cons, ih (by simpa using hi)]
      exact add_left_comm _ _ _

/-- A counter and what is still to be added to it change together only when a party enters. -/
theorem value_step (h : s.step e = some t) (k : κ) :
    t.value k + allTo k t.pending =
      s.value k + allTo k s.pending + allTo k e.enters.toList := by
  cases e with
  | enter additions =>
    cases h
    simp only [allTo_cons, TallyEvent.enters, Option.toList_some]
    rw [show allTo k ([] : List (List (κ × M))) = 0 from rfl, add_zero, add_comm (additionsTo k _),
      add_assoc]
  | act i =>
    simp only [step] at h
    split at h
    next k' m rest hi =>
      cases h
      rw [show allTo k (TallyEvent.act i : TallyEvent κ M).enters.toList = 0 from rfl, add_zero,
        allTo_set k hi, ← add_assoc]
      congr 1
      dsimp only
      by_cases hk : k' = k
      · subst hk
        rw [Function.update_self, if_pos rfl]
      · rw [Function.update_of_ne (Ne.symm hk), if_neg hk, add_zero]
    next => simp at h

theorem value_run (h : Run step anyStep s es t) (k : κ) :
    t.value k + allTo k t.pending = s.value k + allTo k s.pending + allTo k (entered es) := by
  induction h with
  | nil => exact (add_zero _).symm
  | @cons s m t e es _ hs _ ih =>
    have hentered : entered (e :: es) = e.enters.toList ++ entered es := by
      unfold entered
      rw [List.filterMap_cons]
      cases e.enters <;> rfl
    have happend : allTo k (entered (e :: es)) = allTo k e.enters.toList + allTo k (entered es) := by
      rw [hentered, allTo, List.map_append, List.sum_append, allTo, allTo]
    rw [ih, value_step hs k, happend, add_assoc]

/-- When nobody has anything left to add, each counter has got what all parties came to add, in
whatever order they have added it. -/
theorem value_of_settled {value : κ → M} (h : Run step anyStep (start value) es t)
    (hsettled : ∀ additions ∈ t.pending, additions = []) (k : κ) :
    t.value k = value k + allTo k (entered es) := by
  have hrun := value_run h k
  have hpending : allTo k t.pending = 0 := by
    refine List.sum_eq_zero fun m hm => ?_
    obtain ⟨additions, hmem, rfl⟩ := List.mem_map.mp hm
    rw [hsettled additions hmem]
    rfl
  rw [hpending, add_zero] at hrun
  rw [hrun]
  exact congrArg (· + allTo k (entered es)) (add_zero _)

end Tally

end Road7
