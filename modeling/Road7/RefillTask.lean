import Road7.RefillInterval

namespace Road7

/-- Where the refill task stands: spawned and not yet polled; between two turns of its loop,
without a `notified()` future; in `select!`, with a future that may have been notified; in the
branch of the tick before it has the lock of the tokens, and then before it has that of
`last_refill`; ended. -/
inductive RefillPhase where
  | unpolled
  | looping
  | selecting (notified : Bool)
  | waitingTokens
  | waitingLastRefill
  | ended
deriving DecidableEq, Repr

structure RefillTask where
  interval : Nat
  phase : RefillPhase
  tickDue : Bool
  limiter : RateLimiter
deriving DecidableEq, Repr

inductive RefillEvent where
  | poll
  | select
  | tickDue
  | takeTick
  | takeNotified
  | refill
  | recordRefill
  | acquire
  | shutdown
deriving DecidableEq, Repr

namespace RefillTask

/-- `start_refill_task`, with the limiter that `new` has made. -/
def spawned (config : RateLimiterConfig) (l : RateLimiter) : RefillTask :=
  ⟨config.refillInterval, .unpolled, false, l⟩

/-- `RateLimiter::shutdown`: `notify_waiters` reaches a future that exists, and leaves nothing for
one that is made later. -/
def shutdown (t : RefillTask) : RefillTask :=
  match t.phase with
  | .selecting _ => { t with phase := .selecting true }
  | _ => t

def step (t : RefillTask) : RefillEvent → Option RefillTask
  | .poll =>
    if t.phase = .unpolled then
      -- `interval` panics on a period of zero; its first tick is due at once.
      some (if t.interval = 0 then { t with phase := .ended }
        else { t with phase := .looping, tickDue := true })
    else none
  | .select => if t.phase = .looping then some { t with phase := .selecting false } else none
  | .tickDue => some { t with tickDue := true }
  | .takeTick =>
    -- Of two branches that are ready `select!` takes either, and drops the future of the other.
    match t.phase with
    | .selecting _ =>
      if t.tickDue then some { t with phase := .waitingTokens, tickDue := false } else none
    | _ => none
  | .takeNotified =>
    if t.phase = .selecting true then some { t with phase := .ended } else none
  | .refill =>
    if t.phase = .waitingTokens then
      some { t with phase := .waitingLastRefill, limiter := t.limiter.refill }
    else none
  | .recordRefill =>
    if t.phase = .waitingLastRefill then some { t with phase := .looping } else none
  | .acquire => some { t with limiter := t.limiter.acquire.2 }
  | .shutdown => some t.shutdown

/-- A poll of `select!` that finds the notification takes it, also where a tick is due. -/
def NotifiedFirst (t : RefillTask) (e : RefillEvent) : Prop :=
  e = .takeTick → t.phase ≠ .selecting true

def refills (es : List RefillEvent) : Nat := es.count .refill

/-- The refill of a tick handler that is running. -/
def owed (t : RefillTask) : Nat := if t.phase = .waitingTokens then 1 else 0

/-- After a shutdown in this state the task refills no more, whatever happens, once the handler
that may be running has finished. -/
def Stops (ok : RefillTask → RefillEvent → Prop) (t : RefillTask) : Prop :=
  ∀ es d, Run step ok t.shutdown es d → refills es ≤ t.owed

/-- The task has ended, or ends when it is first polled. -/
def Over (t : RefillTask) : Prop :=
  t.phase = .ended ∨ t.phase = .unpolled ∧ t.interval = 0

def InSelect (t : RefillTask) : Prop := ∃ notified, t.phase = .selecting notified

variable {ok : RefillTask → RefillEvent → Prop} {s t d : RefillTask} {e : RefillEvent}
  {es : List RefillEvent}

theorem refills_cons (e : RefillEvent) (es : List RefillEvent) :
    refills (e :: es) = refills es + if e = .refill then 1 else 0 := by
  simp only [refills, List.count_cons, beq_iff_eq]

/-- Where an invariant keeps the tokens' lock out of reach, a run refills nothing. -/
theorem refills_eq_zero {P : RefillTask → Prop}
    (hstep : ∀ {s e t}, P s → ok s e → step s e = some t → P t)
    (hphase : ∀ {s}, P s → s.phase ≠ .waitingTokens) (h : Run step ok t es d) :
    P t → refills es = 0 := by
  induction h with
  | nil => exact fun _ => rfl
  | @cons s m d e es hok hs _ ih =>
    intro hp
    have hne : e ≠ .refill := by
      rintro rfl
      rw [step, if_neg (hphase hp)] at hs
      cases hs
    rw [refills_cons, if_neg hne, ih (hstep hp hok hs)]

/-- How the task gets from phase to phase. -/
inductive Moves (interval : Nat) : RefillPhase → RefillEvent → RefillPhase → Prop
  | poll : Moves interval .unpolled .poll (if interval = 0 then .ended else .looping)
  | select : Moves interval .looping .select (.selecting false)
  | takeTick (notified : Bool) : Moves interval (.selecting notified) .takeTick .waitingTokens
  | takeNotified : Moves interval (.selecting true) .takeNotified .ended
  | refill : Moves interval .waitingTokens .refill .waitingLastRefill
  | recordRefill : Moves interval .waitingLastRefill .recordRefill .looping
  | notify (notified : Bool) : Moves interval (.selecting notified) .shutdown (.selecting true)
  | stay (phase : RefillPhase) {e : RefillEvent} : e ∈ [.tickDue, .acquire, .shutdown] →
      Moves interval phase e phase

theorem moves_of_step (hs : step s e = some t) :
    Moves s.interval s.phase e t.phase ∧ t.interval = s.interval := by
  obtain ⟨interval, phase, tickDue, l⟩ := s
  cases e with
  | poll =>
    obtain ⟨hphase, hs⟩ := Option.ite_none_right_eq_some.mp hs
    cases hphase
    cases hs
    have hmoves := @Moves.poll interval
    split
    next hzero =>
      rw [if_pos hzero] at hmoves
      exact ⟨hmoves, rfl⟩
    next hpos =>
      rw [if_neg hpos] at hmoves
      exact ⟨hmoves, rfl⟩
  | tickDue =>
    cases hs
    exact ⟨.stay _ (by simp), rfl⟩
  | acquire =>
    cases hs
    exact ⟨.stay _ (by simp), rfl⟩
  | shutdown =>
    cases hs
    cases phase with
    | selecting notified => exact ⟨.notify notified, rfl⟩
    | _ => exact ⟨.stay _ (by simp), rfl⟩
  | takeTick =>
    simp only [step] at hs
    split at hs
    next =>
      split at hs
      next =>
        cases hs
        exact ⟨.takeTick _, rfl⟩
      next => simp at hs
    next => simp at hs
  | select =>
    obtain ⟨hphase, hs⟩ := Option.ite_none_right_eq_some.mp hs
    cases hphase
    cases hs
    exact ⟨.select, rfl⟩
  | takeNotified =>
    obtain ⟨hphase, hs⟩ := Option.ite_none_right_eq_some.mp hs
    cases hphase
    cases hs
    exact ⟨.takeNotified, rfl⟩
  | refill =>
    obtain ⟨hphase, hs⟩ := Option.ite_none_right_eq_some.mp hs
    cases hphase
    cases hs
    exact ⟨.refill, rfl⟩
  | recordRefill =>
    obtain ⟨hphase, hs⟩ := Option.ite_none_right_eq_some.mp hs
    cases hphase
    cases hs
    exact ⟨.recordRefill, rfl⟩

theorem over_step (h : s.Over) (hs : step s e = some t) : t.Over := by
  obtain ⟨hmoves, hinterval⟩ := moves_of_step hs
  unfold Over at h ⊢
  rw [hinterval]
  rcases h with hended | ⟨hunpolled, hzero⟩
  · rw [hended] at hmoves
    generalize t.phase = phase at hmoves ⊢
    cases hmoves with
    | stay => exact .inl rfl
  · rw [hunpolled] at hmoves
    generalize t.phase = phase at hmoves ⊢
    cases hmoves with
    | poll => exact .inl (if_pos hzero)
    | stay => exact .inr ⟨rfl, hzero⟩

theorem phase_of_over (h : s.Over) : s.phase ≠ .waitingTokens := by
  rcases h with hended | ⟨hunpolled, _⟩
  · simp [hended]
  · simp [hunpolled]

/-- The task is in `select!` with the notification, or has taken it. -/
def Notified (t : RefillTask) : Prop := t.phase = .selecting true ∨ t.phase = .ended

theorem notified_step (h : s.Notified) (hok : NotifiedFirst s e) (hs : step s e = some t) :
    t.Notified := by
  have hmoves := (moves_of_step hs).1
  unfold Notified at h ⊢
  rcases h with hselect | hended
  · rw [hselect] at hmoves
    generalize t.phase = phase at hmoves ⊢
    cases hmoves with
    | takeTick => exact absurd hselect (hok rfl)
    | takeNotified => exact .inr rfl
    | notify => exact .inl rfl
    | stay => exact .inl rfl
  · rw [hended] at hmoves
    generalize t.phase = phase at hmoves ⊢
    cases hmoves with
    | stay => exact .inr rfl

theorem stops_of_over (h : t.Over) : t.Stops ok := by
  intro es d hrun
  have hover : t.shutdown.Over := over_step h (rfl : step t .shutdown = some t.shutdown)
  rw [refills_eq_zero (fun hp _ hs => over_step hp hs) phase_of_over hrun hover]
  exact Nat.zero_le _

theorem stops_of_inSelect (h : t.InSelect) : t.Stops NotifiedFirst := by
  intro es d hrun
  obtain ⟨notified, hphase⟩ := h
  have hnotified : t.shutdown.Notified := .inl (by simp [shutdown, hphase])
  have hout : ∀ {s : RefillTask}, s.Notified → s.phase ≠ .waitingTokens := by
    rintro s (hs | hs) <;> simp [hs]
  rw [refills_eq_zero notified_step hout hrun hnotified]
  exact Nat.zero_le _

/-- From a new turn of its loop the task comes to another refill. -/
theorem refill_from_looping (h : t.phase = .looping) :
    ∃ d, Run step NotifiedFirst t [.select, .tickDue, .takeTick, .refill] d := by
  obtain ⟨interval, phase, tickDue, l⟩ := t
  subst h
  have hfirst : NotifiedFirst ⟨interval, .selecting false, true, l⟩ .takeTick := by
    intro _ hphase
    cases hphase
  exact ⟨_, .cons (fun h => by cases h) rfl (.cons (fun h => by cases h) rfl
    (.cons hfirst rfl (.cons (fun h => by cases h) rfl (.nil _))))⟩

/-- Wherever else the task stands at the shutdown, it comes to one refill more than the running
handler has to make. -/
theorem refills_again (hover : ¬t.Over) (hselect : ¬t.InSelect) :
    ∃ es d, Run step NotifiedFirst t.shutdown es d ∧ t.owed < refills es := by
  obtain ⟨interval, phase, tickDue, l⟩ := t
  cases phase with
  | unpolled =>
    have hpos : interval ≠ 0 := fun hzero => hover (.inr ⟨rfl, hzero⟩)
    obtain ⟨d, hrun⟩ := refill_from_looping (t := ⟨interval, .looping, true, l⟩) rfl
    refine ⟨_, d, .cons (e := .poll) (fun h => by cases h) ?_ hrun, by simp [owed, refills]⟩
    simp [step, shutdown, hpos]
  | looping =>
    obtain ⟨d, hrun⟩ := refill_from_looping (t := ⟨interval, .looping, tickDue, l⟩) rfl
    exact ⟨_, d, hrun, by simp [owed, refills]⟩
  | selecting notified => exact absurd ⟨notified, rfl⟩ hselect
  | waitingTokens =>
    obtain ⟨d, hrun⟩ := refill_from_looping (t := ⟨interval, .looping, tickDue, l.refill⟩) rfl
    exact ⟨_, d, .cons (e := .refill) (fun h => by cases h) rfl
      (.cons (e := .recordRefill) (fun h => by cases h) rfl hrun), by simp [owed, refills]⟩
  | waitingLastRefill =>
    obtain ⟨d, hrun⟩ := refill_from_looping (t := ⟨interval, .looping, tickDue, l⟩) rfl
    exact ⟨_, d, .cons (e := .recordRefill) (fun h => by cases h) rfl hrun, by simp [owed, refills]⟩
  | ended => exact absurd (.inl rfl) hover

/-- In `select!` a tick that comes due before the poll can take the place of the notification. -/
theorem refills_past_notification (h : t.InSelect) :
    ∃ es d, Run step anyStep t.shutdown es d ∧ t.owed < refills es := by
  obtain ⟨interval, phase, tickDue, l⟩ := t
  obtain ⟨notified, hphase⟩ := h
  dsimp only at hphase
  subst hphase
  exact ⟨[.tickDue, .takeTick, .refill], _, .cons trivial rfl (.cons trivial rfl
    (.cons trivial rfl (.nil _))), by simp [owed, refills]⟩

end RefillTask

/-- A shutdown stops the refill task on every schedule exactly when the task is over; where
`select!` takes the notification first, exactly when the task is over or waits in `select!`. -/
theorem shutdown_stops_iff (t : RefillTask) :
    (t.Stops anyStep ↔ t.Over) ∧ (t.Stops RefillTask.NotifiedFirst ↔ t.Over ∨ t.InSelect) := by
  constructor
  · constructor
    · intro h
      by_contra hover
      by_cases hselect : t.InSelect
      · obtain ⟨es, d, hrun, hlt⟩ := RefillTask.refills_past_notification hselect
        exact Nat.not_lt.mpr (h es d hrun) hlt
      · obtain ⟨es, d, hrun, hlt⟩ := RefillTask.refills_again hover hselect
        exact Nat.not_lt.mpr (h es d (hrun.mono fun _ _ _ => trivial)) hlt
    · exact RefillTask.stops_of_over
  · constructor
    · intro h
      by_contra hnot
      rw [not_or] at hnot
      obtain ⟨es, d, hrun, hlt⟩ := RefillTask.refills_again hnot.1 hnot.2
      exact Nat.not_lt.mpr (h es d hrun) hlt
    · rintro (hover | hselect)
      · exact RefillTask.stops_of_over hover
      · exact RefillTask.stops_of_inSelect hselect

/-- A shutdown that finds the task in its first tick is lost: the bucket goes on filling. -/
theorem shutdown_in_tick_lost : ∃ l t d, RateLimiter.new ⟨2, 0, 1, fromSecs 1⟩ = .ok l ∧
    Run RefillTask.step RefillTask.NotifiedFirst
      (RefillTask.spawned ⟨2, 0, 1, fromSecs 1⟩ { l with tokens := 0 })
      [.poll, .select, .takeTick] t ∧
    t.phase = .waitingTokens ∧ t.limiter.tokens = 0 ∧
    Run RefillTask.step RefillTask.NotifiedFirst t.shutdown
      [.refill, .recordRefill, .select, .tickDue, .takeTick, .refill] d ∧
    d.limiter.tokens = 2 ∧ ¬t.Stops anyStep := by
  have hfirst : ∀ {t : RefillTask} {e}, e = .takeTick → t.phase = .selecting false →
      RefillTask.NotifiedFirst t e := by
    rintro t e rfl hphase _ htrue
    simp [hphase] at htrue
  have hother : ∀ {t : RefillTask} {e}, e ≠ .takeTick → RefillTask.NotifiedFirst t e :=
    fun hne htick => absurd htick hne
  have hnot : ¬RefillTask.Stops anyStep
      ⟨fromSecs 1, .waitingTokens, false, ⟨2, 0, 1, fromSecs 1, 0⟩⟩ := by
    intro h
    have hle := h [.refill, .recordRefill, .select, .tickDue, .takeTick, .refill] _
      (.cons trivial rfl (.cons trivial rfl (.cons trivial rfl (.cons trivial rfl
        (.cons trivial rfl (.cons trivial rfl (.nil _)))))))
    exact absurd hle (by decide)
  exact ⟨_, _, _, rfl,
    .cons (hother (by decide)) rfl (.cons (hother (by decide)) rfl
      (.cons (hfirst rfl rfl) rfl (.nil _))), rfl, rfl,
    .cons (hother (by decide)) rfl (.cons (hother (by decide)) rfl (.cons (hother (by decide)) rfl
      (.cons (hother (by decide)) rfl (.cons (hfirst rfl rfl) rfl
        (.cons (hother (by decide)) rfl (.nil _)))))), rfl, hnot⟩

end Road7
