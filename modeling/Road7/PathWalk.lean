import Road7.Text

namespace Road7

/-- A place in a file system without links, named from the root. -/
abbrev Place := List Str

def dot : Str := ".".toList

def dotDot : Str := "..".toList

def isName (component : Str) : Bool := component ≠ [] && component ≠ dot && component ≠ dotDot

/-- One component of a path: an empty one and `.` stay, `..` goes up, and stays at the root. -/
def enter (place : Place) (component : Str) : Place :=
  if component = dotDot then place.dropLast
  else if isName component then place ++ [component]
  else place

/-- The places that a path passes on its way, the one that it names last. -/
def passed : Place → List Str → List Place
  | _, [] => []
  | place, component :: rest => enter place component :: passed (enter place component) rest

def components (path : Str) : List Str := path.splitOn '/'

/-- What stands at a place. -/
inductive DiskEntry where
  | directory
  | file (contents : Bytes)
  | locked
deriving DecidableEq, Repr

abbrev Disk := Place → Option DiskEntry

/-- What a relative path leads to: every place on its way has to be a directory. -/
def Disk.find (disk : Disk) (cwd : Place) (path : Str) : Option DiskEntry :=
  let places := passed cwd (components path)
  if places.dropLast.all (fun place => disk place = some .directory) then
    places.getLast?.bind disk
  else none

/-- What is found stands at the place that the path names. -/
theorem Disk.find_some {disk : Disk} {cwd : Place} {path : Str} {entry : DiskEntry}
    (h : disk.find cwd path = some entry) :
    ∃ place, (passed cwd (components path)).getLast? = some place ∧ disk place = some entry := by
  unfold Disk.find at h
  dsimp only at h
  split at h
  next => exact Option.bind_eq_some_iff.mp h
  next => simp at h

theorem components_append {s : Str} (hs : '/' ∉ s) (path : Str) :
    components (s ++ path) = (components path).modifyHead (s ++ ·) := by
  induction s with
  | nil =>
    rw [List.nil_append]
    cases components path <;> rfl
  | cons c s ih =>
    simp only [List.mem_cons, not_or] at hs
    have hc : (c == '/') = false := by simpa using Ne.symm hs.1
    unfold components List.splitOn at ih ⊢
    rw [List.cons_append, List.splitOnP_cons_eq_if_modifyHead, hc, ih hs.2]
    cases path.splitOnP (· == '/') <;> rfl

theorem components_slash (path : Str) : components ('/' :: path) = [] :: components path := by
  unfold components List.splitOn
  rw [List.splitOnP_cons_eq_if_modifyHead]
  rfl

theorem components_cons (path : Str) : ∃ first rest, components path = first :: rest := by
  cases h : components path with
  | nil => exact absurd h (List.splitOn_ne_nil _ _)
  | cons first rest => exact ⟨first, rest, rfl⟩

/-- No initial part of the components holds more `..` than names. -/
def Descends (components : List Str) : Prop :=
  ∀ n, (components.take n).count dotDot ≤ (components.take n).countP isName

theorem enter_dotDot (place : Place) : enter place dotDot = place.dropLast := by
  rw [enter, if_pos rfl]

theorem enter_name {component : Str} (h : isName component = true) (place : Place) :
    enter place component = place ++ [component] := by
  have hup : component ≠ dotDot := by
    rintro rfl
    simp [isName] at h
  rw [enter, if_neg hup, if_pos h]

theorem enter_stays {component : Str} (hup : component ≠ dotDot) (hname : isName component = false)
    (place : Place) : enter place component = place := by
  rw [enter, if_neg hup, if_neg (by simp [hname])]

/-- A walk that starts some way below a directory stays in it exactly when no initial part of its
components goes up further. -/
theorem passed_below_iff {root : Place} (hroot : root ≠ []) (below : Place)
    (components : List Str) :
    (∀ place ∈ passed (root ++ below) components, root <+: place) ↔
      ∀ n, (components.take n).count dotDot ≤
        below.length + (components.take n).countP isName := by
  induction components generalizing below with
  | nil => simp [passed]
  | cons c components ih =>
    rw [← Nat.and_forall_add_one]
    simp only [passed, List.forall_mem_cons, List.take_zero, List.take_succ_cons,
      List.count_cons, List.countP_cons, List.count_nil, Nat.zero_le, true_and]
    by_cases hup : c = dotDot
    · subst hup
      have hname : isName dotDot = false := by decide
      simp only [enter_dotDot, hname, beq_self_eq_true, if_true, Bool.false_eq_true, if_false,
        Nat.add_zero]
      rcases List.eq_nil_or_concat below with rfl | ⟨before, last, rfl⟩
      · -- One step above the directory.
        refine iff_of_false (fun h => ?_) (fun h => ?_)
        · have hle := h.1.length_le
          have hpos := List.length_pos_iff.mpr hroot
          rw [List.append_nil, List.length_dropLast] at hle
          omega
        · have hfirst := h 0
          simp at hfirst
      · rw [List.concat_eq_append, ← List.append_assoc, List.dropLast_concat, ih,
          List.length_append, List.length_singleton]
        refine (and_iff_right (List.prefix_append _ _)).trans (forall_congr' fun n => ?_)
        omega
    · have hbeq : (c == dotDot) = false := by simpa using hup
      cases hname : isName c with
      | true =>
        rw [enter_name hname, List.append_assoc, ih, List.length_append, List.length_singleton]
        refine (and_iff_right (List.prefix_append _ _)).trans (forall_congr' fun n => ?_)
        simp only [hbeq, Bool.false_eq_true, if_false, if_true]
        omega
      | false =>
        rw [enter_stays hup hname, ih]
        refine (and_iff_right (List.prefix_append _ _)).trans (forall_congr' fun n => ?_)
        simp only [hbeq, Bool.false_eq_true, if_false, Nat.add_zero]

end Road7
