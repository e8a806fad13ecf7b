import Road7.LimiterChoice
import Road7.RefillTask
import Road7.RunTotals

namespace Road7

/-- The limiters that `add_limiter` has made, each with its path and its refill task; the map of the
manager, which names them by their numbers; and those of them that a shutdown has yet to notify,
once it has begun. -/
structure LimiterTasks where
  tasks : List (Str × RefillTask)
  limiters : StrMap Nat
  toNotify : Option (List Nat)

/-- A limiter is added; a refill task goes on; a request that is charged to a path takes a token;
the shutdown comes to the map, in an order of it; it notifies a limiter. -/
inductive LimiterEvent where
  | add (path : Str) (config : RateLimiterConfig)
  | task (i : Nat) (e : RefillEvent)
  | acquire (path : Str)
  | shutdown (order : List (Sigma (fun _ : Str => Nat)))
  | notify (i : Nat)

def LimiterEvent.notifies (i : Nat) : LimiterEvent → Bool
  | .notify j => j = i
  | _ => false

def LimiterEvent.refills (i : Nat) : LimiterEvent → Bool
  | .task j .refill => j = i
  | _ => false

/-- What a refill task does by itself. -/
def RefillEvent.own (e : RefillEvent) : Bool := e ≠ .shutdown && e ≠ .acquire

namespace LimiterTasks

def empty : LimiterTasks := ⟨[], ∅, none⟩

def move (s : LimiterTasks) (i : Nat) (e : RefillEvent) : Option LimiterTasks :=
  match s.tasks[i]? with
  | some (path, t) => (t.step e).map fun t' => { s with tasks := s.tasks.set i (path, t') }
  | none => none

def step (s : LimiterTasks) : LimiterEvent → Option LimiterTasks
  | .add path config =>
    -- All limiters are set up before the server, which waits for the shutdown, is started.
    match s.toNotify, RateLimiter.new config with
    | none, .ok l => some ⟨s.tasks ++ [(path, .spawned config l)],
        s.limiters.insert path s.tasks.length, none⟩
    | _, _ => none
  | .task i e => if e.own then s.move i e else none
  | .acquire path => (s.limiters.lookup path).bind (s.move · .acquire)
  | .shutdown order =>
    if s.toNotify = none then some { s with toNotify := some (order.map Sigma.snd) } else none
  | .notify i =>
    match s.toNotify with
    | some (j :: rest) =>
      if i = j then (s.move i .shutdown).map ({ · with toNotify := some rest }) else none
    | _ => none

/-- The map is gone through in an order that it has. -/
def InOrder (s : LimiterTasks) : LimiterEvent → Prop
  | .shutdown order => IterationOf s.limiters order
  | _ => True

/-- Beside that, a poll that finds the notification takes it, also where a tick is due. -/
def NotifiedFirst (s : LimiterTasks) (e : LimiterEvent) : Prop :=
  s.InOrder e ∧ ∀ i e', e = .task i e' → ∀ path t, s.tasks[i]? = some (path, t) → t.NotifiedFirst e'

/-- A later limiter has taken the place of number `i` under its path. -/
def Replaced (s : LimiterTasks) (path : Str) (i : Nat) : Prop :=
  ∃ j t, i < j ∧ s.tasks[j]? = some (path, t)

/-- The task of a limiter can make any number of refills more. -/
def GoesOn (s : LimiterTasks) (i : Nat) : Prop :=
  ∀ n, ∃ es s', Run step NotifiedFirst s es s' ∧ n ≤ es.countP (LimiterEvent.refills i)

/-- How the limiters get from state to state. -/
inductive Moves (s : LimiterTasks) : LimiterEvent → LimiterTasks → Prop
  | add {path : Str} {config : RateLimiterConfig} {l : RateLimiter} : s.toNotify = none →
      Moves s (.add path config) ⟨s.tasks ++ [(path, .spawned config l)],
        s.limiters.insert path s.tasks.length, none⟩
  | task {i : Nat} {path : Str} {t t' : RefillTask} {e : RefillEvent} : e ≠ .shutdown →
      s.tasks[i]? = some (path, t) → t.step e = some t' →
      Moves s (.task i e) { s with tasks := s.tasks.set i (path, t') }
  | acquire {i : Nat} {key path : Str} {t t' : RefillTask} : s.tasks[i]? = some (path, t) →
      t.step .acquire = some t' →
      Moves s (.acquire key) { s with tasks := s.tasks.set i (path, t') }
  | shutdown {order : List (Sigma (fun _ : Str => Nat))} : s.toNotify = none →
      Moves s (.shutdown order) { s with toNotify := some (order.map Sigma.snd) }
  | notify {i : Nat} {path : Str} {t : RefillTask} {rest : List Nat} :
      s.toNotify = some (i :: rest) → s.tasks[i]? = some (path, t) →
      Moves s (.notify i)
        { s with tasks := s.tasks.set i (path, t.shutdown), toNotify := some rest }

variable {s s' : LimiterTasks} {e : LimiterEvent} {i : Nat} {path : Str} {t : RefillTask}

theorem move_eq_some {re : RefillEvent} (h : s.move i re = some s') :
    ∃ path t t', s.tasks[i]? = some (path, t) ∧ t.step re = some t' ∧
      s' = { s with tasks := s.tasks.set i (path, t') } := by
  unfold move at h
  split at h
  next path t hi =>
    obtain ⟨t', ht', rfl⟩ := Option.map_eq_some_iff.mp h
    exact ⟨path, t, t', hi, ht', rfl⟩
  next => cases h

theorem moves_of_step (h : s.step e = some s') : s.Moves e s' := by
  cases e with
  | add path config =>
    simp only [step] at h
    split at h
    next l hnone _ =>
      cases h
      exact .add hnone
    next => cases h
  | task i re =>
    obtain ⟨hown, h⟩ := Option.ite_none_right_eq_some.mp h
    obtain ⟨path, t, t', hi, ht', rfl⟩ := move_eq_some h
    refine .task (fun heq => ?_) hi ht'
    subst heq
    cases hown
  | acquire key =>
    obtain ⟨i, _, h⟩ := Option.bind_eq_some_iff.mp h
    obtain ⟨path, t, t', hi, ht', rfl⟩ := move_eq_some h
    exact .acquire hi ht'
  | shutdown order =>
    obtain ⟨hnone, h⟩ := Option.ite_none_right_eq_some.mp h
    cases h
    exact .shutdown hnone
  | notify i =>
    simp only [step] at h
    split at h
    next j rest hrest =>
      obtain ⟨rfl, hmap⟩ := Option.ite_none_right_eq_some.mp h
      obtain ⟨m, hm, rfl⟩ := Option.map_eq_some_iff.mp hmap
      obtain ⟨path, t, t', hi, ht', rfl⟩ := move_eq_some hm
      cases ht'
      exact .notify hrest hi
    next => cases h

/-- The task has not been notified: it can only have ended by the panic of its interval. -/
def Unnotified (t : RefillTask) : Prop :=
  t.phase ≠ .selecting true ∧ (t.phase = .ended → t.interval = 0)

theorem unnotified_step {re : RefillEvent} {t' : RefillTask} (h : Unnotified t)
    (hne : re ≠ .shutdown) (hs : t.step re = some t') : Unnotified t' := by
  obtain ⟨hmoves, hinterval⟩ := RefillTask.moves_of_step hs
  obtain ⟨hselect, hended⟩ := h
  unfold Unnotified
  rw [hinterval]
  generalize t.phase = phase at hmoves hselect hended
  generalize t'.phase = phase' at hmoves ⊢
  cases hmoves with
  | poll =>
    split
    next hzero => exact ⟨nofun, fun _ => hzero⟩
    next => exact ⟨nofun, nofun⟩
  | select => exact ⟨by simp, nofun⟩
  | takeTick => exact ⟨nofun, nofun⟩
  | takeNotified => exact absurd rfl hselect
  | refill => exact ⟨nofun, nofun⟩
  | recordRefill => exact ⟨nofun, nofun⟩
  | notify => exact absurd rfl hne
  | stay => exact ⟨hselect, hended⟩

/-- The map names under each path the last limiter that has been added for it; a shutdown notifies
those of the map alone. -/
structure Sound (s : LimiterTasks) : Prop where
  named : ∀ path i, s.limiters.lookup path = some i → ∃ t, s.tasks[i]? = some (path, t)
  last : ∀ i path t, s.tasks[i]? = some (path, t) → ∃ j, i ≤ j ∧ s.limiters.lookup path = some j
  pending : ∀ rest, s.toNotify = some rest → ∀ i ∈ rest, ∃ path, s.limiters.lookup path = some i
  unnotified : ∀ i path t, s.tasks[i]? = some (path, t) →
    s.toNotify = none ∨ s.limiters.lookup path ≠ some i → Unnotified t

theorem Sound.lookup_ne_iff (h : s.Sound) (hi : s.tasks[i]? = some (path, t)) :
    s.limiters.lookup path ≠ some i ↔ s.Replaced path i := by
  obtain ⟨j, hle, hj⟩ := h.last i path t hi
  constructor
  · intro hne
    obtain ⟨u, hu⟩ := h.named path j hj
    have hij : i ≠ j := fun heq => hne (heq ▸ hj)
    exact ⟨j, u, by omega, hu⟩
  · rintro ⟨k, u, hlt, hk⟩ heq
    obtain ⟨l, hkl, hl⟩ := h.last k path u hk
    cases heq.symm.trans hl
    omega

theorem sound_empty : empty.Sound := ⟨nofun, nofun, nofun, nofun⟩

theorem getElem?_moved {tasks : List (Str × RefillTask)} {t' u : RefillTask} {k : Nat} {key : Str}
    (hi : tasks[i]? = some (path, t)) : (tasks.set i (path, t'))[k]? = some (key, u) ↔
      k = i ∧ key = path ∧ u = t' ∨ k ≠ i ∧ tasks[k]? = some (key, u) := by
  have hlt := (List.getElem?_eq_some_iff.mp hi).choose
  rw [List.getElem?_set, if_pos hlt]
  split
  next heq => simp [heq, eq_comm]
  next hne => simp [Ne.symm hne]

/-- A task that moves, notified or not, leaves all others where they are. -/
theorem Sound.moved {t' : RefillTask} {toNotify : Option (List Nat)} (h : s.Sound)
    (hi : s.tasks[i]? = some (path, t))
    (hpending : ∀ rest, toNotify = some rest → ∃ before, s.toNotify = some before ∧ rest ⊆ before)
    (hnone : toNotify = none → s.toNotify = none)
    (hunnotified : toNotify = none ∨ s.limiters.lookup path ≠ some i → Unnotified t') :
    Sound ⟨s.tasks.set i (path, t'), s.limiters, toNotify⟩ := by
  have hkept : ∀ {k : Nat} {key : Str} {u : RefillTask}, s.tasks[k]? = some (key, u) →
      ∃ u', (s.tasks.set i (path, t'))[k]? = some (key, u') := by
    intro k key u hk
    by_cases heq : k = i
    · subst heq
      cases hi.symm.trans hk
      exact ⟨t', (getElem?_moved hi).mpr (.inl ⟨rfl, rfl, rfl⟩)⟩
    · exact ⟨u, (getElem?_moved hi).mpr (.inr ⟨heq, hk⟩)⟩
  refine ⟨fun key k hk => ?_, fun k key u hk => ?_, fun rest hrest j hj => ?_,
    fun k key u hk hor => ?_⟩
  · obtain ⟨u, hu⟩ := h.named key k hk
    exact hkept hu
  · rcases (getElem?_moved hi).mp hk with ⟨rfl, rfl, _⟩ | ⟨_, hk⟩
    · exact h.last k key t hi
    · exact h.last k key u hk
  · obtain ⟨before, hbefore, hsub⟩ := hpending rest hrest
    exact h.pending before hbefore j (hsub hj)
  · rcases (getElem?_moved hi).mp hk with ⟨rfl, rfl, rfl⟩ | ⟨_, hk⟩
    · exact hunnotified hor
    · exact h.unnotified k key u hk (hor.imp_left hnone)

theorem unnotified_spawned (config : RateLimiterConfig) (l : RateLimiter) :
    Unnotified (.spawned config l) := ⟨nofun, nofun⟩

theorem getElem?_added {tasks : List (Str × RefillTask)} {u u' : RefillTask} {k : Nat} {key : Str}
    (h : (tasks ++ [(path, u')])[k]? = some (key, u)) :
    tasks[k]? = some (key, u) ∨ k = tasks.length ∧ key = path ∧ u = u' := by
  rcases Nat.lt_or_ge k tasks.length with hlt | hge
  · exact .inl (by rwa [List.getElem?_append_left hlt] at h)
  · rw [List.getElem?_append_right hge] at h
    obtain ⟨hlt, hu⟩ := List.getElem?_eq_some_iff.mp h
    have hk : k - tasks.length = 0 := by simpa using hlt
    simp only [hk, List.getElem_cons_zero, Prod.mk.injEq] at hu
    exact .inr ⟨by omega, hu.1.symm, hu.2.symm⟩

/-- A limiter that is added takes the place of the one under its path. -/
theorem Sound.added {u : RefillTask} (h : s.Sound) (hnone : s.toNotify = none)
    (hu : Unnotified u) :
    Sound ⟨s.tasks ++ [(path, u)], s.limiters.insert path s.tasks.length, none⟩ := by
  have hnew : (s.tasks ++ [(path, u)])[s.tasks.length]? = some (path, u) := by simp
  refine ⟨fun key k hk => ?_, fun k key v hk => ?_, nofun, fun k key v hk _ => ?_⟩
  · by_cases hkey : key = path
    · subst hkey
      rw [AList.lookup_insert] at hk
      cases hk
      exact ⟨u, hnew⟩
    · rw [AList.lookup_insert_ne hkey] at hk
      obtain ⟨v, hv⟩ := h.named key k hk
      have hlt := (List.getElem?_eq_some_iff.mp hv).choose
      exact ⟨v, by rwa [List.getElem?_append_left hlt]⟩
  · by_cases hkey : key = path
    · subst hkey
      have hlt := (List.getElem?_eq_some_iff.mp hk).choose
      rw [List.length_append, List.length_singleton] at hlt
      exact ⟨s.tasks.length, by omega, AList.lookup_insert _⟩
    · rcases getElem?_added hk with hk | ⟨_, hpath, _⟩
      · obtain ⟨j, hle, hj⟩ := h.last k key v hk
        exact ⟨j, hle, by rwa [AList.lookup_insert_ne hkey]⟩
      · exact absurd hpath hkey
  · rcases getElem?_added hk with hk | ⟨_, _, rfl⟩
    · exact h.unnotified k key v hk (.inl hnone)
    · exact hu

theorem Sound.step (h : s.Sound) (hok : s.InOrder e) (hs : s.step e = some s') : s'.Sound := by
  have hmoves := moves_of_step hs
  cases hmoves with
  | add hnone => exact h.added hnone (unnotified_spawned _ _)
  | task hne hi ht =>
    exact h.moved hi (fun rest hrest => ⟨rest, hrest, fun _ hj => hj⟩) id
      fun hor => unnotified_step (h.unnotified _ _ _ hi hor) hne ht
  | acquire hi ht =>
    exact h.moved hi (fun rest hrest => ⟨rest, hrest, fun _ hj => hj⟩) id
      fun hor => unnotified_step (h.unnotified _ _ _ hi hor)
        (by decide : RefillEvent.acquire ≠ .shutdown) ht
  | shutdown hnone =>
    refine ⟨h.named, h.last, fun rest hrest i hi => ?_,
      fun i path t hi _ => h.unnotified i path t hi (.inl hnone)⟩
    cases hrest
    obtain ⟨entry, hentry, rfl⟩ := List.mem_map.mp hi
    exact ⟨entry.1, AList.mem_lookup_iff.mpr (hok.mem_iff.mp hentry)⟩
  | @notify i path t rest hrest hi =>
    refine h.moved hi (fun rest' hrest' => ?_) nofun fun hor => ?_
    · cases hrest'
      exact ⟨_, hrest, List.subset_cons_self _ _⟩
    · obtain ⟨key, hkey⟩ := h.pending _ hrest i List.mem_cons_self
      obtain ⟨u, hu⟩ := h.named key i hkey
      cases hi.symm.trans hu
      rcases hor with hnone | hne
      · cases hnone
      · exact absurd hkey hne

/-- An order of the map comes to each limiter of the map once, and to no other. -/
theorem Sound.count_order (h : s.Sound) {order : List (Sigma (fun _ : Str => Nat))}
    (horder : IterationOf s.limiters order) (hi : s.tasks[i]? = some (path, t)) :
    (order.map Sigma.snd).count i = if s.limiters.lookup path = some i then 1 else 0 := by
  have hlookup : ∀ x ∈ order, s.limiters.lookup x.1 = some x.2 := fun x hx =>
    AList.mem_lookup_iff.mpr (horder.mem_iff.mp hx)
  have hkey : ∀ x ∈ order, ∀ y ∈ order, x.2 = y.2 → x = y := by
    intro x hx y hy heq
    obtain ⟨u, hu⟩ := h.named x.1 x.2 (hlookup x hx)
    obtain ⟨v, hv⟩ := h.named y.1 y.2 (hlookup y hy)
    rw [heq] at hu
    have hpath : x.1 = y.1 := (Prod.mk.inj (Option.some.inj (hu.symm.trans hv))).1
    exact Sigma.ext hpath (heq_of_eq heq)
  have hnodup : (order.map Sigma.snd).Nodup := by
    have hentries : order.Nodup :=
      (List.Perm.nodup_iff horder).mpr (List.Nodup.of_map _ s.limiters.nodupKeys)
    exact List.Nodup.map_on (fun x hx y hy heq => hkey x hx y hy heq) hentries
  have hmem : i ∈ order.map Sigma.snd ↔ s.limiters.lookup path = some i := by
    constructor
    · intro hmem
      obtain ⟨x, hx, rfl⟩ := List.mem_map.mp hmem
      obtain ⟨u, hu⟩ := h.named x.1 x.2 (hlookup x hx)
      cases hi.symm.trans hu
      exact hlookup x hx
    · intro hsome
      exact List.mem_map.mpr ⟨⟨path, i⟩, horder.mem_iff.mpr (AList.mem_lookup_iff.mp hsome), rfl⟩
  rw [List.Nodup.count hnodup]
  simp only [hmem]

/-- The notifications that a limiter has got, and those that are still to come. -/
def Told (i : Nat) (s : LimiterTasks) (n : Nat) : Prop :=
  (s.toNotify = none → n = 0) ∧ ∀ rest, s.toNotify = some rest →
    ∀ path t, s.tasks[i]? = some (path, t) →
      n + rest.count i = if s.limiters.lookup path = some i then 1 else 0

theorem Told.step {n : Nat} (h : Told i s n) (hsound : s.Sound) (hok : s.InOrder e)
    (hs : s.step e = some s') : Told i s' (n + if e.notifies i then 1 else 0) := by
  obtain ⟨hnone, hsome⟩ := h
  have hmoved : ∀ {j : Nat} {key key' : Str} {u u' v : RefillTask},
      s.tasks[j]? = some (key, u) → (s.tasks.set j (key, u'))[i]? = some (key', v) →
      ∃ v', s.tasks[i]? = some (key', v') := by
    intro j key key' u u' v hj hv
    rcases (getElem?_moved hj).mp hv with ⟨rfl, rfl, _⟩ | ⟨_, hv⟩
    · exact ⟨u, hj⟩
    · exact ⟨v, hv⟩
  have hmoves := moves_of_step hs
  cases hmoves with
  | add hbefore => exact ⟨fun _ => hnone hbefore, nofun⟩
  | task _ hj _ =>
    refine ⟨hnone, fun rest hrest key v hv => ?_⟩
    obtain ⟨v', hv'⟩ := hmoved hj hv
    exact hsome rest hrest key v' hv'
  | acquire hj _ =>
    refine ⟨hnone, fun rest hrest key v hv => ?_⟩
    obtain ⟨v', hv'⟩ := hmoved hj hv
    exact hsome rest hrest key v' hv'
  | shutdown hbefore =>
    refine ⟨nofun, fun rest hrest key v hv => ?_⟩
    cases hrest
    rw [hnone hbefore]
    exact (Nat.zero_add _).trans (hsound.count_order hok hv)
  | @notify j key u rest hbefore hj =>
    refine ⟨nofun, fun rest' hrest' key' v hv => ?_⟩
    cases hrest'
    obtain ⟨v', hv'⟩ := hmoved hj hv
    have htold := hsome _ hbefore key' v' hv'
    rw [List.count_cons] at htold
    simp only [LimiterEvent.notifies, decide_eq_true_eq, beq_iff_eq] at htold ⊢
    omega

/-- What happens to one limiter is a run of its own refill task. -/
theorem task_of_step (hi : s.tasks[i]? = some (path, t)) (hok : s.NotifiedFirst e)
    (hs : s.step e = some s') :
    (s'.tasks[i]? = some (path, t) ∧ (if e.refills i then 1 else 0) = 0) ∨
      ∃ re t', t.NotifiedFirst re ∧ t.step re = some t' ∧ s'.tasks[i]? = some (path, t') ∧
        (if re = .refill then 1 else 0) = if e.refills i then 1 else 0 := by
  have hmoved : ∀ {j : Nat} {key : Str} {u u' : RefillTask}, s.tasks[j]? = some (key, u) →
      (j = i ∧ u = t ∧ (s.tasks.set j (key, u'))[i]? = some (path, u')) ∨
        j ≠ i ∧ (s.tasks.set j (key, u'))[i]? = some (path, t) := by
    intro j key u u' hj
    by_cases heq : j = i
    · subst heq
      cases hi.symm.trans hj
      exact .inl ⟨rfl, rfl, (getElem?_moved hi).mpr (.inl ⟨rfl, rfl, rfl⟩)⟩
    · exact .inr ⟨heq, (getElem?_moved hj).mpr (.inr ⟨Ne.symm heq, hi⟩)⟩
  have hmoves := moves_of_step hs
  cases hmoves with
  | add =>
    have hlt := (List.getElem?_eq_some_iff.mp hi).choose
    exact .inl ⟨by rwa [List.getElem?_append_left hlt], rfl⟩
  | @task j key u u' re _ hj hu =>
    rcases hmoved hj with ⟨rfl, rfl, hend⟩ | ⟨hne, hend⟩
    · refine .inr ⟨re, u', hok.2 j re rfl key u hj, hu, hend, ?_⟩
      cases re <;> simp [LimiterEvent.refills]
    · refine .inl ⟨hend, ?_⟩
      cases re <;> simp [LimiterEvent.refills, hne]
  | acquire hj hu =>
    rcases hmoved hj with ⟨rfl, rfl, hend⟩ | ⟨_, hend⟩
    · exact .inr ⟨.acquire, _, nofun, hu, hend, rfl⟩
    · exact .inl ⟨hend, rfl⟩
  | shutdown => exact .inl ⟨hi, rfl⟩
  | notify _ hj =>
    rcases hmoved hj with ⟨rfl, rfl, hend⟩ | ⟨_, hend⟩
    · exact .inr ⟨.shutdown, _, nofun, rfl, hend, rfl⟩
    · exact .inl ⟨hend, rfl⟩

theorem refills_eq_of_run {es : List LimiterEvent} (h : Run step NotifiedFirst s es s')
    (hi : s.tasks[i]? = some (path, t)) :
    ∃ res t', Run RefillTask.step RefillTask.NotifiedFirst t res t' ∧
      RefillTask.refills res = es.countP (LimiterEvent.refills i) := by
  induction h generalizing t with
  | nil s => exact ⟨[], t, .nil t, rfl⟩
  | @cons s m s' e es hok hs _ ih =>
    rw [List.countP_cons]
    rcases task_of_step hi hok hs with ⟨hm, hnone⟩ | ⟨re, u, hok', hu, hm, hsame⟩
    · obtain ⟨res, t', hrun, hcount⟩ := ih hm
      exact ⟨res, t', hrun, by rw [hcount, hnone, Nat.add_zero]⟩
    · obtain ⟨res, t', hrun, hcount⟩ := ih hm
      exact ⟨re :: res, t', .cons hok' hu hrun, by rw [RefillTask.refills_cons, hcount, hsame]⟩

/-- A run of one refill task is one of all limiters, the others at rest. -/
theorem run_of_task {res : List RefillEvent} {t' : RefillTask}
    (h : Run RefillTask.step RefillTask.NotifiedFirst t res t') (hown : ∀ re ∈ res, re.own = true)
    (hi : s.tasks[i]? = some (path, t)) :
    ∃ s', Run step NotifiedFirst s (res.map (.task i)) s' ∧ s'.tasks[i]? = some (path, t') := by
  induction h generalizing s with
  | nil t => exact ⟨s, .nil s, hi⟩
  | @cons t u t' re res hok hstep _ ih =>
    obtain ⟨hre, hres⟩ := List.forall_mem_cons.mp hown
    have hmoved : ({ s with tasks := s.tasks.set i (path, u) } : LimiterTasks).tasks[i]? =
        some (path, u) := (getElem?_moved hi).mpr (.inl ⟨rfl, rfl, rfl⟩)
    obtain ⟨s', hrun, hend⟩ := ih hres hmoved
    refine ⟨s', .cons ⟨trivial, fun j re' heq key v hv => ?_⟩ ?_ hrun, hend⟩
    · cases heq
      cases hi.symm.trans hv
      exact hok
    · simp only [step, if_pos hre, move, hi, hstep, Option.map_some]

end LimiterTasks

namespace RefillTask

/-- From a new turn of its loop the task can make any number of refills. -/
theorem refills_from_looping (n : Nat) {t : RefillTask} (h : t.phase = .looping) :
    ∃ es d, Run step NotifiedFirst t es d ∧ (∀ e ∈ es, e.own = true) ∧ refills es = n := by
  induction n generalizing t with
  | zero => exact ⟨[], t, .nil t, List.forall_mem_nil _, rfl⟩
  | succ n ih =>
    obtain ⟨interval, phase, tickDue, l⟩ := t
    subst h
    obtain ⟨es, d, hrun, hown, hcount⟩ := ih (t := ⟨interval, .looping, false, l.refill⟩) rfl
    have hfirst : NotifiedFirst ⟨interval, .selecting false, true, l⟩ .takeTick := by
      intro _ hphase
      cases hphase
    have hround : ∀ e ∈ [RefillEvent.select, .tickDue, .takeTick, .refill, .recordRefill],
        e.own = true := by decide
    refine ⟨[.select, .tickDue, .takeTick, .refill, .recordRefill] ++ es, d,
      .cons (fun h => by cases h) rfl (.cons (fun h => by cases h) rfl (.cons hfirst rfl
        (.cons (fun h => by cases h) rfl (.cons (fun h => by cases h) rfl hrun)))),
      List.forall_mem_append.mpr ⟨hround, hown⟩, ?_⟩
    have hone : refills [.select, .tickDue, .takeTick, .refill, .recordRefill] = 1 := rfl
    unfold refills at hone hcount ⊢
    rw [List.count_append, hone, hcount, Nat.add_comm]

/-- A task that is neither over nor about to take its notification comes to a new turn of its
loop. -/
theorem looping_of_unstopped {t : RefillTask} (hover : ¬t.Over)
    (hselect : t.phase ≠ .selecting true) :
    ∃ es d, Run step NotifiedFirst t es d ∧ (∀ e ∈ es, e.own = true) ∧ d.phase = .looping := by
  obtain ⟨interval, phase, tickDue, l⟩ := t
  cases phase with
  | unpolled =>
    have hpos : interval ≠ 0 := fun hzero => hover (.inr ⟨rfl, hzero⟩)
    refine ⟨[.poll], ⟨interval, .looping, true, l⟩, .cons (fun h => by cases h) ?_ (.nil _),
      by decide, rfl⟩
    simp [step, hpos]
  | looping => exact ⟨[], _, .nil _, List.forall_mem_nil _, rfl⟩
  | selecting notified =>
    obtain rfl : notified = false := by simpa using hselect
    have hfirst : NotifiedFirst ⟨interval, .selecting false, true, l⟩ .takeTick := by
      intro _ hphase
      cases hphase
    exact ⟨[.tickDue, .takeTick, .refill, .recordRefill], _, .cons (fun h => by cases h) rfl
      (.cons hfirst rfl (.cons (fun h => by cases h) rfl (.cons (fun h => by cases h) rfl
        (.nil _)))), by decide, rfl⟩
  | waitingTokens =>
    exact ⟨[.refill, .recordRefill], _, .cons (fun h => by cases h) rfl
      (.cons (fun h => by cases h) rfl (.nil _)), by decide, rfl⟩
  | waitingLastRefill =>
    exact ⟨[.recordRefill], _, .cons (fun h => by cases h) rfl (.nil _), by decide, rfl⟩
  | ended => exact absurd (.inl rfl) hover

end RefillTask

namespace LimiterTasks

variable {s : LimiterTasks} {i : Nat} {path : Str} {t : RefillTask}

/-- A task goes on for ever exactly when it is neither over nor about to take its notification. -/
theorem goesOn_iff (hi : s.tasks[i]? = some (path, t)) :
    s.GoesOn i ↔ ¬t.Over ∧ t.phase ≠ .selecting true := by
  constructor
  · intro h
    obtain ⟨es, s', hrun, hle⟩ := h 1
    obtain ⟨res, t', hrun', hcount⟩ := refills_eq_of_run hrun hi
    have hpos : RefillTask.refills res ≠ 0 := by omega
    constructor
    · intro hover
      exact hpos (RefillTask.refills_eq_zero (fun hp _ hs => RefillTask.over_step hp hs)
        RefillTask.phase_of_over hrun' hover)
    · intro hselect
      have hout : ∀ {u : RefillTask}, u.Notified → u.phase ≠ .waitingTokens := by
        rintro u (hu | hu) <;> simp [hu]
      exact hpos (RefillTask.refills_eq_zero RefillTask.notified_step hout hrun' (.inl hselect))
  · rintro ⟨hover, hselect⟩ n
    obtain ⟨es, d, hrun, hown, hd⟩ := RefillTask.looping_of_unstopped hover hselect
    obtain ⟨es', d', hrun', hown', hcount⟩ := RefillTask.refills_from_looping n hd
    obtain ⟨s', hlimiters, _⟩ :=
      run_of_task (hrun.append hrun') (List.forall_mem_append.mpr ⟨hown, hown'⟩) hi
    refine ⟨_, s', hlimiters, ?_⟩
    have hsame : (LimiterEvent.refills i) ∘ (LimiterEvent.task i) = fun re => re == .refill := by
      funext re
      cases re <;> simp [LimiterEvent.refills]
    rw [List.countP_map, hsame, List.countP_append]
    exact Nat.le_trans (Nat.le_of_eq hcount.symm) (Nat.le_add_left _ _)

end LimiterTasks

/-- When a shutdown is over it has notified each limiter that is in use once, and none that a later
one for its path has replaced. The refill task of a limiter goes on for ever unless it is over or
about to take the notification, so that those of replaced limiters do, where their interval is not
zero. -/
theorem limiter_shutdown {es : List LimiterEvent} {s : LimiterTasks} {i : Nat} {path : Str}
    {t : RefillTask} (h : Run LimiterTasks.step LimiterTasks.InOrder LimiterTasks.empty es s)
    (hdone : s.toNotify = some []) (hi : s.tasks[i]? = some (path, t)) :
    (s.Replaced path i → es.countP (LimiterEvent.notifies i) = 0 ∧
      (t.interval ≠ 0 → s.GoesOn i)) ∧
    (¬s.Replaced path i → es.countP (LimiterEvent.notifies i) = 1) ∧
    (s.GoesOn i ↔ ¬t.Over ∧ t.phase ≠ .selecting true) := by
  have hboth : s.Sound ∧ LimiterTasks.Told i s (0 + es.countP (LimiterEvent.notifies i)) := by
    rw [← runTotal_countP h]
    refine h.total_invariant (P := fun s n => s.Sound ∧ LimiterTasks.Told i s n) ?_
      ⟨LimiterTasks.sound_empty, fun _ => rfl, nofun⟩
    intro a e b n ha hok hs
    exact ⟨ha.1.step hok hs, ha.2.step ha.1 hok hs⟩
  obtain ⟨hsound, htold⟩ := hboth
  have hcount := htold.2 [] hdone path t hi
  rw [List.count_nil, Nat.add_zero, Nat.zero_add] at hcount
  have hgoes := LimiterTasks.goesOn_iff hi
  refine ⟨fun hreplaced => ?_, fun hnot => ?_, hgoes⟩
  · have hne := (hsound.lookup_ne_iff hi).mpr hreplaced
    obtain ⟨hselect, hended⟩ := hsound.unnotified i path t hi (.inr hne)
    refine ⟨by rw [hcount, if_neg hne], fun hpos => hgoes.mpr ⟨?_, hselect⟩⟩
    rintro (hover | ⟨_, hzero⟩)
    · exact hpos (hended hover)
    · exact hpos hzero
  · rw [hcount, if_pos]
    by_contra hne
    exact hnot ((hsound.lookup_ne_iff hi).mp hne)

/-- Of two limiters for one path the shutdown stops the one in use; the first goes on filling its
bucket. -/
theorem limiter_shutdown_same_path : ∃ (es : List LimiterEvent) (s : LimiterTasks)
    (t u : RefillTask),
    Run LimiterTasks.step LimiterTasks.InOrder LimiterTasks.empty
      (.add "/api".toList ⟨2, 0, 1, fromSecs 1⟩ :: .add "/api".toList ⟨1, 0, 1, fromSecs 1⟩ :: es)
      s ∧
    s.toNotify = some [] ∧ s.tasks = [("/api".toList, t), ("/api".toList, u)] ∧
    t.phase = .selecting false ∧ s.GoesOn 0 ∧ u.phase = .selecting true ∧ ¬s.GoesOn 1 := by
  have htrace : ∃ (es : List LimiterEvent) (s : LimiterTasks) (t u : RefillTask),
      Run LimiterTasks.step LimiterTasks.InOrder LimiterTasks.empty
        (.add "/api".toList ⟨2, 0, 1, fromSecs 1⟩ ::
          .add "/api".toList ⟨1, 0, 1, fromSecs 1⟩ :: es) s ∧
      s.toNotify = some [] ∧ s.tasks = [("/api".toList, t), ("/api".toList, u)] ∧
      t.phase = .selecting false ∧ t.interval ≠ 0 ∧ u.phase = .selecting true :=
    ⟨[.task 0 .poll, .task 1 .poll, .task 0 .select, .task 1 .select,
        .shutdown [⟨"/api".toList, 1⟩], .notify 1], _, _, _,
      .cons trivial rfl (.cons trivial rfl (.cons trivial rfl (.cons trivial rfl (.cons trivial rfl
        (.cons trivial rfl (.cons (List.Perm.refl _) rfl (.cons trivial rfl (.nil _)))))))),
      rfl, rfl, rfl, by decide, rfl⟩
  obtain ⟨es, s, t, u, hrun, hdone, htasks, ht, hinterval, hu⟩ := htrace
  have hfirst : s.tasks[0]? = some ("/api".toList, t) := by rw [htasks]; rfl
  have hsecond : s.tasks[1]? = some ("/api".toList, u) := by rw [htasks]; rfl
  have hreplaced : s.Replaced "/api".toList 0 := ⟨1, u, by decide, hsecond⟩
  have hgoes := (limiter_shutdown hrun hdone hfirst).1 hreplaced
  have hstops := (limiter_shutdown hrun hdone hsecond).2.2
  exact ⟨es, s, t, u, hrun, hdone, htasks, ht, hgoes.2 hinterval, hu,
    fun hon => (hstops.mp hon).2 hu⟩

end Road7
