import Mathlib.Data.List.Basic
import Road7.Runs

namespace Road7

variable {α : Type}

/-- Somebody asks for a permit, or one who has got a permit gives it back. -/
inductive SemaphoreEvent (α : Type) where
  | acquire (a : α)
  | release

def SemaphoreEvent.asks : SemaphoreEvent α → Option α
  | .acquire a => some a
  | .release => none

def asked (es : List (SemaphoreEvent α)) : List α := es.filterMap SemaphoreEvent.asks

def released (es : List (SemaphoreEvent α)) : Nat := es.countP (fun e => e.asks.isNone)

theorem asked_snoc (es : List (SemaphoreEvent α)) (e : SemaphoreEvent α) :
    asked (es ++ [e]) = asked es ++ e.asks.toList := by
  unfold asked
  rw [List.filterMap_append]
  cases h : e.asks <;> simp [h]

theorem released_acquire (es : List (SemaphoreEvent α)) (a : α) :
    released (es ++ [.acquire a]) = released es := by
  simp [released, SemaphoreEvent.asks]

theorem released_release (es : List (SemaphoreEvent α)) :
    released (es ++ [.release]) = released es + 1 := by
  simp [released, SemaphoreEvent.asks]

/-- What can be seen of a semaphore: to whom it has given a permit so far, in the order in which it
has. -/
structure Semaphore (α : Type) where
  granted : List (SemaphoreEvent α) → List α

/-- Whoever gives a permit back has got one. -/
inductive Semaphore.Sensible (sem : Semaphore α) : List (SemaphoreEvent α) → Prop
  | nil : Sensible sem []
  | acquire {es : List (SemaphoreEvent α)} (a : α) : Sensible sem es →
      Sensible sem (es ++ [.acquire a])
  | release {es : List (SemaphoreEvent α)} : Sensible sem es →
      released es < (sem.granted es).length → Sensible sem (es ++ [.release])

/-- What a counting semaphore promises: permits are given out in the order in which they were
requested, there are no more of them than it was made with, and nobody waits while one is free. -/
structure Semaphore.Fair (sem : Semaphore α) (permits : Nat) : Prop where
  inOrder : ∀ es, sem.Sensible es → sem.granted es <+: asked es
  limited : ∀ es, sem.Sensible es → (sem.granted es).length ≤ permits + released es
  prompt : ∀ es, sem.Sensible es → (sem.granted es).length < permits + released es →
    sem.granted es = asked es

/-- What has been asked of a semaphore and given back to it, and who holds a permit. -/
structure SemaphoreUse (α : Type) where
  history : List (SemaphoreEvent α)
  holding : List α

namespace SemaphoreUse

def start : SemaphoreUse α := ⟨[], []⟩

def came (u : SemaphoreUse α) : List α := asked u.history

def admitted (u : SemaphoreUse α) (sem : Semaphore α) : List α := sem.granted u.history

end SemaphoreUse

/-- Somebody comes for a permit, or one of the holders gives his back. -/
inductive PermitUse (α : Type) where
  | come (a : α)
  | leave (i : Nat)

def PermitUse.asks : PermitUse α → Option α
  | .come a => some a
  | .leave _ => none

namespace Semaphore

/-- Those whom the event lets in become holders. -/
def after (sem : Semaphore α) (u : SemaphoreUse α) (e : SemaphoreEvent α) : SemaphoreUse α :=
  ⟨u.history ++ [e],
    u.holding ++ (sem.granted (u.history ++ [e])).drop (sem.granted u.history).length⟩

def step (sem : Semaphore α) (u : SemaphoreUse α) : PermitUse α → Option (SemaphoreUse α)
  | .come a => some (sem.after u (.acquire a))
  | .leave i =>
    if i < u.holding.length then
      some (sem.after { u with holding := u.holding.eraseIdx i } .release)
    else none

variable {sem : Semaphore α} {n : Nat} {es : List (SemaphoreEvent α)}

/-- A fair semaphore has let in as many of those who have come as it has had permits. -/
theorem Fair.granted_eq (h : sem.Fair n) (hes : sem.Sensible es) :
    sem.granted es = (asked es).take (n + released es) := by
  have hprefix := List.prefix_iff_eq_take.mp (h.inOrder es hes)
  have hlimited := h.limited es hes
  rcases Nat.lt_or_ge (sem.granted es).length (n + released es) with hlt | hge
  · have hall := h.prompt es hes hlt
    rw [hall] at hlimited ⊢
    exact (List.take_of_length_le hlimited).symm
  · rw [Nat.le_antisymm hlimited hge] at hprefix
    exact hprefix

/-- A permit is not taken away from anybody. -/
theorem Fair.granted_prefix {e : SemaphoreEvent α} (h : sem.Fair n) (hes : sem.Sensible es)
    (hes' : sem.Sensible (es ++ [e])) : sem.granted es <+: sem.granted (es ++ [e]) := by
  have hle : released es ≤ released (es ++ [e]) := by
    unfold released
    rw [List.countP_append]
    exact Nat.le_add_right _ _
  rw [h.granted_eq hes, h.granted_eq hes', asked_snoc]
  refine List.prefix_take_iff.mpr ⟨(List.take_prefix _ _).trans (List.prefix_append _ _), ?_⟩
  rw [List.length_take]
  omega

/-- A semaphore that keeps its promises. -/
def counting (permits : Nat) : Semaphore α := ⟨fun es => (asked es).take (permits + released es)⟩

theorem counting_fair : (counting n : Semaphore α).Fair n := by
  refine ⟨fun es _ => List.take_prefix _ _, fun es _ => List.length_take_le _ _, ?_⟩
  intro es _ hlt
  simp only [counting, List.length_take] at hlt ⊢
  exact List.take_of_length_le (by omega)

section Stays

variable (stays : α → Prop) [DecidablePred stays]

/-- Only those give their permit back who do not stay. -/
def Releases (u : SemaphoreUse α) : PermitUse α → Prop
  | .come _ => True
  | .leave i => ∀ a, u.holding[i]? = some a → ¬stays a

/-- What holds while a semaphore is in use: no permit is lost, and those who stay hold the permits
that they have got. -/
structure Kept (sem : Semaphore α) (n : Nat) (u : SemaphoreUse α) : Prop where
  sensible : sem.Sensible u.history
  permits : u.holding.length + released u.history = (u.admitted sem).length
  held : u.holding.countP stays = (u.admitted sem).countP stays
  room : ∀ k < (u.admitted sem).length, ((u.admitted sem).take k).countP stays < n

variable {stays} {u v : SemaphoreUse α} {e : PermitUse α} {fs : List (PermitUse α)} {k : Nat}

theorem kept_start (h : sem.Fair n) : Kept stays sem n .start := by
  have hnone : sem.granted [] = [] := List.prefix_nil.mp (h.inOrder [] .nil)
  refine ⟨.nil, ?_, ?_, ?_⟩ <;> simp [SemaphoreUse.start, SemaphoreUse.admitted, hnone, released]

/-- Whoever is let in finds less than `n` before him who stay. -/
theorem room_append {xs ys : List α} (h : ∀ k < xs.length, (xs.take k).countP stays < n)
    (hys : ys.length ≤ 1) (hlast : ys ≠ [] → xs.countP stays < n) :
    ∀ k < (xs ++ ys).length, ((xs ++ ys).take k).countP stays < n := by
  intro k hk
  rw [List.length_append] at hk
  rw [List.take_append_of_le_length (by omega)]
  rcases Nat.lt_or_ge k xs.length with hlt | hge
  · exact h k hlt
  · rw [List.take_of_length_le hge]
    refine hlast (fun hnil => ?_)
    rw [hnil, List.length_nil] at hk
    omega

theorem countP_eraseIdx {xs : List α} {i : Nat} {b : α} (hi : xs[i]? = some b) (hb : ¬stays b) :
    (xs.eraseIdx i).countP stays = xs.countP stays := by
  obtain ⟨hlt, rfl⟩ := List.getElem?_eq_some_iff.mp hi
  calc (xs.eraseIdx i).countP stays
    _ = (xs.take i).countP stays + (xs.drop (i + 1)).countP stays := by
        rw [List.eraseIdx_eq_take_drop_succ, List.countP_append]
    _ = (xs.take i).countP stays + (xs[i] :: xs.drop (i + 1)).countP stays := by
        rw [List.countP_cons_of_neg (by simpa using hb)]
    _ = xs.countP stays := by
        rw [← List.drop_eq_getElem_cons hlt, ← List.countP_append, List.take_append_drop]

/-- Whom an event lets in, and that it is one at most. -/
theorem Fair.newcomers {f : SemaphoreEvent α} (h : sem.Fair n) (hes : sem.Sensible es)
    (hes' : sem.Sensible (es ++ [f])) : ∃ new, new.length ≤ 1 ∧
      sem.granted (es ++ [f]) = sem.granted es ++ new := by
  obtain ⟨new, hnew⟩ := h.granted_prefix hes hes'
  refine ⟨new, ?_, hnew.symm⟩
  have hlen := congrArg List.length hnew
  rw [List.length_append, h.granted_eq hes, h.granted_eq hes', List.length_take,
    List.length_take, asked_snoc, List.length_append] at hlen
  cases f with
  | acquire a =>
    rw [released_acquire] at hlen
    simp only [SemaphoreEvent.asks, Option.toList_some, List.length_singleton] at hlen
    omega
  | release =>
    rw [released_release] at hlen
    simp only [SemaphoreEvent.asks, Option.toList_none, List.length_nil] at hlen
    omega

/-- An event after which the holders, without those whom it lets in, are `holding`. -/
theorem Kept.after {f : SemaphoreEvent α} {holding : List α} (h : Kept stays sem n u)
    (hsem : sem.Fair n) (hes : sem.Sensible (u.history ++ [f]))
    (hpermits : holding.length + released (u.history ++ [f]) = (u.admitted sem).length)
    (hheld : holding.countP stays = u.holding.countP stays) :
    Kept stays sem n (sem.after { u with holding } f) := by
  obtain ⟨new, hone, hgranted⟩ := hsem.newcomers h.sensible hes
  have hlimited := hsem.limited _ hes
  have hle : holding.countP stays ≤ holding.length := List.countP_le_length
  refine ⟨hes, ?_, ?_, ?_⟩
  · simp only [Semaphore.after, SemaphoreUse.admitted, hgranted, List.drop_left,
      List.length_append]
    unfold SemaphoreUse.admitted at hpermits
    omega
  · simp only [Semaphore.after, SemaphoreUse.admitted, hgranted, List.drop_left,
      List.countP_append]
    rw [hheld, h.held]
    rfl
  · simp only [Semaphore.after, SemaphoreUse.admitted, hgranted]
    refine room_append h.room hone (fun hnew => ?_)
    have hpos := List.length_pos_iff.mpr hnew
    rw [hgranted, List.length_append] at hlimited
    unfold SemaphoreUse.admitted at hpermits
    have hcount : (sem.granted u.history).countP stays = holding.countP stays :=
      h.held.symm.trans hheld.symm
    omega

theorem Kept.step (h : Kept stays sem n u) (hsem : sem.Fair n) (hok : Releases stays u e)
    (hs : sem.step u e = some v) : Kept stays sem n v := by
  cases e with
  | come a =>
    cases hs
    have hes := h.sensible.acquire a
    refine h.after hsem hes ?_ rfl
    rw [released_acquire]
    exact h.permits
  | leave i =>
    obtain ⟨hi, hs⟩ := Option.ite_none_right_eq_some.mp hs
    cases hs
    have hget : u.holding[i]? = some u.holding[i] := List.getElem?_eq_getElem hi
    have hpermits := h.permits
    have hes := h.sensible.release (show released u.history < (u.admitted sem).length by omega)
    refine h.after hsem hes ?_ (countP_eraseIdx hget (hok _ hget))
    rw [released_release, List.length_eraseIdx, if_pos hi]
    omega

theorem Kept.run (h : Run sem.step (Releases stays) u fs v) (hsem : sem.Fair n) :
    Kept stays sem n u → Kept stays sem n v := by
  induction h with
  | nil => exact id
  | cons hok hs _ ih => exact fun hkept => ih (hkept.step hsem hok hs)

theorem came_step (hs : sem.step u e = some v) : v.came = u.came ++ e.asks.toList := by
  cases e with
  | come a =>
    cases hs
    exact asked_snoc _ _
  | leave i =>
    obtain ⟨_, hs⟩ := Option.ite_none_right_eq_some.mp hs
    cases hs
    exact asked_snoc _ _

theorem came_run {ok : SemaphoreUse α → PermitUse α → Prop} (h : Run sem.step ok u fs v) :
    v.came = u.came ++ fs.filterMap PermitUse.asks := by
  induction h with
  | nil => rw [List.filterMap_nil, List.append_nil]
  | @cons _ _ _ e _ _ hs _ ih =>
    rw [ih, came_step hs, List.append_assoc, List.filterMap_cons]
    cases e.asks <;> rfl

/-- While one who has come is not in, all permits are held. -/
theorem Kept.full (h : Kept stays sem n u) (hsem : sem.Fair n)
    (hwaits : (u.admitted sem).length < u.came.length) : u.holding.length = n := by
  have hpermits := h.permits
  have hlimited := hsem.limited _ h.sensible
  have hprompt := hsem.prompt _ h.sensible
  unfold SemaphoreUse.admitted at hpermits hwaits
  unfold SemaphoreUse.came at hwaits
  by_contra hne
  rw [hprompt (by omega)] at hwaits
  exact Nat.lt_irrefl _ hwaits

/-- While less than all permits are held by those who stay, a permit comes free for the first who
waits. -/
theorem Kept.lets_first_in (h : Kept stays sem n u) (hsem : sem.Fair n)
    (hwaits : (u.admitted sem).length < u.came.length)
    (hroom : (u.admitted sem).countP stays < n) :
    ∃ i v, Releases stays u (.leave i) ∧ sem.step u (.leave i) = some v ∧
      (v.admitted sem).length = (u.admitted sem).length + 1 := by
  have hfull := h.full hsem hwaits
  have hheld := h.held
  have hpermits := h.permits
  obtain ⟨b, hb, hleaves⟩ : ∃ b ∈ u.holding, ¬stays b := by
    by_contra hall
    push Not at hall
    have hstay : u.holding.countP stays = u.holding.length :=
      List.countP_eq_length.mpr (by simpa using hall)
    omega
  obtain ⟨i, hi⟩ := List.mem_iff_getElem?.mp hb
  have hlt := (List.getElem?_eq_some_iff.mp hi).1
  have hok : Releases stays u (.leave i) := by
    intro b' hb'
    cases hi.symm.trans hb'
    exact hleaves
  have hs : sem.step u (.leave i) =
      some (sem.after { u with holding := u.holding.eraseIdx i } .release) := if_pos hlt
  refine ⟨i, _, hok, hs, ?_⟩
  have hes : sem.Sensible (u.history ++ [.release]) := (h.step hsem hok hs).sensible
  simp only [SemaphoreUse.admitted, SemaphoreUse.came, Semaphore.after] at hpermits hwaits ⊢
  rw [hsem.granted_eq h.sensible, List.length_take] at hpermits hwaits ⊢
  rw [hsem.granted_eq hes, List.length_take, asked_snoc, released_release]
  simp only [SemaphoreEvent.asks, Option.toList_none, List.append_nil]
  omega

/-- Of those who have come, the first `k` are before the others in the order of admission. -/
theorem Kept.take_admitted (h : Kept stays sem n u) (hsem : sem.Fair n)
    (hk : k ≤ (u.admitted sem).length) : (u.admitted sem).take k = u.came.take k := by
  obtain ⟨rest, hrest⟩ := hsem.inOrder _ h.sensible
  unfold SemaphoreUse.came SemaphoreUse.admitted at *
  rw [← hrest, List.take_append_of_le_length hk]

/-- Somebody behind whom less than all permits have gone to those who stay gets in. -/
theorem Kept.lets_in (h : Kept stays sem n u) (hsem : sem.Fair n) (hk : k < u.came.length)
    (hroom : (u.came.take k).countP stays < n) :
    ∃ fs v, Run sem.step (Releases stays) u fs v ∧ fs.filterMap PermitUse.asks = [] ∧
      k < (v.admitted sem).length := by
  induction hd : k + 1 - (u.admitted sem).length generalizing u with
  | zero => exact ⟨[], u, .nil u, rfl, by omega⟩
  | succ d ih =>
    have hlen : (u.admitted sem).length ≤ k := by omega
    have hbefore : (u.admitted sem).countP stays ≤ (u.came.take k).countP stays := by
      refine ((List.prefix_take_iff.mpr ⟨hsem.inOrder _ h.sensible, hlen⟩).sublist).countP_le
    obtain ⟨i, v, hok, hs, hgrown⟩ := h.lets_first_in hsem (by omega) (by omega)
    have hcame : v.came = u.came := by
      rw [came_step hs]
      exact List.append_nil _
    obtain ⟨fs, w, hrun, hnone, hw⟩ := ih (h.step hsem hok hs) (by rwa [hcame])
      (by rwa [hcame]) (by omega)
    exact ⟨.leave i :: fs, w, .cons hok hs hrun, by simpa [PermitUse.asks] using hnone, hw⟩

/-- Of those who had come at some time, nobody gets in later whom all permits have gone to such
before him who stay. -/
theorem Kept.room_of_run (h : Kept stays sem n u) (hsem : sem.Fair n)
    (hrun : Run sem.step (Releases stays) u fs v) (hk : k < u.came.length)
    (hv : k < (v.admitted sem).length) : (u.came.take k).countP stays < n := by
  have hkept := Kept.run hrun hsem h
  have hroom := hkept.room k hv
  rwa [hkept.take_admitted hsem (Nat.le_of_lt hv), came_run hrun,
    List.take_append_of_le_length (Nat.le_of_lt hk)] at hroom

end Stays

end Semaphore

end Road7
