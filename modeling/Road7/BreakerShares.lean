import Road7.BreakerSlots
import Road7.BreakerTable
import Road7.OutageLoad

namespace Road7

/-- The requests under one key, in their order among all the running ones; one that waits for itself
may be anybody's. -/
inductive Share (key : Str) : List Stage → List Stage → Prop
  | nil : Share key [] []
  | mine {stage : Stage} {all own : List Stage} :
      (∀ key', stage.breakerKey = some key' → key' = key) → Share key all own →
      Share key (stage :: all) (stage :: own)
  | other {stage : Stage} {all own : List Stage} : stage.breakerKey ≠ some key →
      Share key all own → Share key (stage :: all) own

namespace Share

variable {key key' : Str} {all own : List Stage} {stage : Stage} {i : Nat} {p : Progress Stage}

theorem mem_own (h : Share key all own) (hmem : stage ∈ all)
    (hkey : stage.breakerKey = some key) : stage ∈ own := by
  induction h with
  | nil => cases hmem
  | mine _ _ ih =>
    rcases List.mem_cons.mp hmem with rfl | hmem
    · exact List.mem_cons_self
    · exact List.mem_cons_of_mem _ (ih hmem)
  | other hother _ ih =>
    rcases List.mem_cons.mp hmem with rfl | hmem
    · exact absurd hkey hother
    · exact ih hmem

/-- A request of the key stands among its requests, and moves on there as it does among all. -/
theorem moveOn_mine (h : Share key all own) (hi : all[i]? = some stage)
    (hkey : stage.breakerKey = some key) (hp : KeepsBreaker key p) :
    ∃ j, own[j]? = some stage ∧
      Share key (BreakerClients.moveOn all i p) (BreakerClients.moveOn own j p) := by
  induction h generalizing i with
  | nil => cases hi
  | @mine first all own hmine hrest ih =>
    cases i with
    | zero =>
      cases hi
      refine ⟨0, rfl, ?_⟩
      cases p with
      | going stage' =>
        refine .mine (fun key' hkey' => ?_) hrest
        exact Option.some.inj (hkey'.symm.trans (hp stage' rfl))
      | ended => exact hrest
      | blocked => exact .mine nofun hrest
    | succ i =>
      obtain ⟨j, hj, hshare⟩ := ih hi
      refine ⟨j + 1, hj, ?_⟩
      rw [BreakerClients.moveOn_cons, BreakerClients.moveOn_cons]
      exact .mine hmine hshare
  | @other first all own hother hrest ih =>
    cases i with
    | zero =>
      cases hi
      exact absurd hkey hother
    | succ i =>
      obtain ⟨j, hj, hshare⟩ := ih hi
      refine ⟨j, hj, ?_⟩
      rw [BreakerClients.moveOn_cons]
      exact .other hother hshare

/-- A request of another key moves on without the requests of this one. -/
theorem moveOn_other (h : Share key all own) (hi : all[i]? = some stage)
    (hkey : stage.breakerKey = some key') (hne : key' ≠ key) (hp : KeepsBreaker key' p) :
    Share key (BreakerClients.moveOn all i p) own := by
  induction h generalizing i with
  | nil => cases hi
  | @mine first all own hmine hrest ih =>
    cases i with
    | zero =>
      cases hi
      exact absurd (hmine key' hkey) hne
    | succ i =>
      rw [BreakerClients.moveOn_cons]
      exact .mine hmine (ih hi)
  | @other first all own hother hrest ih =>
    cases i with
    | zero =>
      cases hi
      cases p with
      | going stage' =>
        refine .other (fun heq => ?_) hrest
        exact hne (Option.some.inj ((hp stage' rfl).symm.trans heq))
      | ended => exact hrest
      | blocked => exact .other nofun hrest
    | succ i =>
      rw [BreakerClients.moveOn_cons]
      exact .other hother (ih hi)

end Share

def TableEvent.time : TableEvent → Nat
  | .arrive _ _ now => now
  | .prepare _ _ now => now
  | .turn _ _ now => now

/-- The breakers of all targets under a clock that never runs backwards. -/
structure TimedBreakers where
  table : BreakerTable
  clock : Nat

namespace TimedBreakers

def start (now : Nat) : TimedBreakers := ⟨BreakerTable.empty, now⟩

def step (proxy : Proxy) (s : TimedBreakers) (e : TableEvent) : Option TimedBreakers :=
  if s.clock ≤ e.time then (s.table.step proxy e).map (⟨·, e.time⟩) else none

/-- What one key sees of all the breakers is one breaker with the requests under it. -/
structure SeenFrom (key : Str) (s : TimedBreakers) (c : BreakerClients) : Prop where
  breaker : s.table.breakers.lookup key = some c.breaker
  running : Share key s.table.running c.running
  clock : c.clock ≤ s.clock

variable {proxy : Proxy} {s t : TimedBreakers} {c : BreakerClients} {e : TableEvent}
  {ce : ClientEvent} {key : Str} {m : Nat} {es : List TableEvent}

/-- An event of the key is one of its own breaker and requests. -/
inductive Stands (proxy : Proxy) (key : Str) (s : TimedBreakers) (c : BreakerClients) :
    TableEvent → ClientEvent → Prop
  | arrive {env : Surroundings} {req req' : Request} {ctx : LoopContext} {now : Nat} :
      proxy.comeToBreaker env req = .going (ctx, req') → ctx.breakerKey = key →
      Stands proxy key s c (.arrive env req now) (.arrive ctx req' now)
  | prepare {i j : Nat} {ctx : LoopContext} {req : Request} {caches : Caches} {now : Nat} :
      s.table.running[i]? = some (.admitted ctx req) → ctx.breakerKey = key →
      c.running[j]? = some (.admitted ctx req) →
      Stands proxy key s c (.prepare i caches now) (.prepare j caches now)
  | turn {i j : Nat} {ctx : LoopContext} {st : LoopState} {r : Round} {now : Nat} :
      s.table.running[i]? = some (.looping ctx st) → ctx.breakerKey = key →
      c.running[j]? = some (.looping ctx st) →
      Stands proxy key s c (.turn i r now) (.turn j r now)

/-- The event is none of the key. -/
def Foreign (proxy : Proxy) (key : Str) (s : TimedBreakers) : TableEvent → Prop
  | .arrive env req _ => ∀ ctx req', proxy.comeToBreaker env req = .going (ctx, req') →
      ctx.breakerKey ≠ key
  | .prepare i _ _ => ∀ stage, s.table.running[i]? = some stage → stage.breakerKey ≠ some key
  | .turn i _ _ => ∀ stage, s.table.running[i]? = some stage → stage.breakerKey ≠ some key

/-- How the breakers get from state to state: every step is one of a request. -/
inductive Moves (proxy : Proxy) (s : TimedBreakers) :
    TableEvent → LoopContext → TimedBreakers → Prop
  | arrive {env : Surroundings} {req req' : Request} {ctx : LoopContext} {now : Nat} :
      proxy.comeToBreaker env req = .going (ctx, req') →
      Moves proxy s (.arrive env req now) ctx ⟨⟨s.table.breakers.insert ctx.breakerKey
        ((s.table.breakerFor proxy ctx now).canAttempt now).2,
        if ((s.table.breakerFor proxy ctx now).canAttempt now).1 then
          .admitted ctx req' :: s.table.running
        else s.table.running⟩, now⟩
  | prepare {i : Nat} {ctx : LoopContext} {req : Request} {caches : Caches} {now : Nat} :
      s.table.running[i]? = some (.admitted ctx req) →
      Moves proxy s (.prepare i caches now) ctx ⟨⟨s.table.breakers, BreakerClients.moveOn
        s.table.running i (BreakerClients.prepared ctx caches now req)⟩, now⟩
  | turn {i : Nat} {ctx : LoopContext} {st : LoopState} {r : Round} {now : Nat} :
      s.table.running[i]? = some (.looping ctx st) →
      Moves proxy s (.turn i r now) ctx
        ⟨⟨BreakerTable.reported s.table.breakers ctx (ctx.turn st r).report now,
          BreakerClients.moveOn s.table.running i (BreakerClients.turned ctx st r)⟩, now⟩

theorem moves_of_step (h : s.step proxy e = some t) :
    s.clock ≤ e.time ∧ t.clock = e.time ∧ ∃ ctx, Moves proxy s e ctx t := by
  unfold step at h
  obtain ⟨hclock, h⟩ := Option.ite_none_right_eq_some.mp h
  obtain ⟨table, htable, rfl⟩ := Option.map_eq_some_iff.mp h
  refine ⟨hclock, rfl, ?_⟩
  cases e with
  | arrive env req now =>
    simp only [BreakerTable.step] at htable
    split at htable
    next ctx req' hcome =>
      cases htable
      exact ⟨ctx, .arrive hcome⟩
    next => cases htable
  | prepare i caches now =>
    simp only [BreakerTable.step] at htable
    split at htable
    next ctx req hi =>
      cases htable
      exact ⟨ctx, .prepare hi⟩
    next => cases htable
  | turn i r now =>
    simp only [BreakerTable.step] at htable
    split at htable
    next ctx st hi =>
      cases htable
      exact ⟨ctx, .turn hi⟩
    next => cases htable

/-- What a request does is nothing to the other keys. -/
theorem Moves.other {ctx : LoopContext} (h : Moves proxy s e ctx t) (hne : ctx.breakerKey ≠ key) :
    Foreign proxy key s e ∧ t.table.breakers.lookup key = s.table.breakers.lookup key ∧
      ∀ own, Share key s.table.running own → Share key t.table.running own := by
  have hstage : ∀ {i : Nat} {stage : Stage}, s.table.running[i]? = some stage →
      stage.breakerKey = some ctx.breakerKey →
      ∀ stage', s.table.running[i]? = some stage' → stage'.breakerKey ≠ some key := by
    intro i stage hi hkey stage' hi' heq
    cases hi.symm.trans hi'
    exact hne (Option.some.inj (hkey.symm.trans heq))
  cases h with
  | arrive hcome =>
    refine ⟨fun ctx' req'' hcome' => ?_, AList.lookup_insert_ne (Ne.symm hne), fun own hown => ?_⟩
    · cases hcome.symm.trans hcome'
      exact hne
    · dsimp only
      split
      next => exact .other (fun heq => hne (Option.some.inj heq)) hown
      next => exact hown
  | @prepare _ _ req caches now hi =>
    refine ⟨hstage hi rfl, rfl, fun own hown => ?_⟩
    exact hown.moveOn_other hi rfl hne (keepsBreaker_prepared ctx caches now req)
  | @turn _ _ st r now hi =>
    refine ⟨hstage hi rfl, ?_, fun own hown => ?_⟩
    · show (BreakerTable.reported _ _ _ _).lookup _ = _
      unfold BreakerTable.reported
      split
      next => exact AList.lookup_insert_ne (Ne.symm hne)
      next => rfl
    · exact hown.moveOn_other hi rfl hne (keepsBreaker_turned ctx st r)

theorem client_step {d : BreakerClients} (hclock : c.clock ≤ ce.time)
    (h : c.effect ce = some d) : c.step ce = some d := by
  rw [BreakerClients.step, if_pos hclock, h]

/-- A step of all the breakers is a step of the one under the key, or nothing to it. -/
theorem step_seenFrom (h : SeenFrom key s c) (hstep : s.step proxy e = some t) :
    (SeenFrom key t c ∧ Foreign proxy key s e) ∨
      ∃ ce d, Stands proxy key s c e ce ∧ c.step ce = some d ∧ SeenFrom key t d := by
  obtain ⟨hclock, hnow, ctx, hmoves⟩ := moves_of_step hstep
  have hlater : c.clock ≤ e.time := Nat.le_trans h.clock hclock
  by_cases hkey : ctx.breakerKey = key
  · subst hkey
    refine .inr ?_
    cases hmoves with
    | @arrive _ _ req' _ now hcome =>
      have hbreaker : s.table.breakerFor proxy ctx now = c.breaker := by
        rw [BreakerTable.breakerFor, LoopContext.breakerIn, h.breaker, Option.getD_some]
      have heffect : c.effect (.arrive ctx req' now) = some ⟨(c.breaker.canAttempt now).2,
          if (c.breaker.canAttempt now).1 then .admitted ctx req' :: c.running else c.running,
          now⟩ := rfl
      refine ⟨_, _, .arrive hcome rfl, client_step hlater heffect, ?_, ?_, Nat.le_refl _⟩
      · rw [hbreaker]
        exact AList.lookup_insert _
      · rw [hbreaker]
        dsimp only
        split
        next => exact .mine (fun _ heq => (Option.some.inj heq).symm) h.running
        next => exact h.running
    | @prepare i _ req caches now hi =>
      obtain ⟨j, hj, hshare⟩ :=
        h.running.moveOn_mine hi rfl (keepsBreaker_prepared ctx caches now req)
      have heffect : c.effect (.prepare j caches now) = some ⟨c.breaker, BreakerClients.moveOn
          c.running j (BreakerClients.prepared ctx caches now req), now⟩ := by
        simp only [BreakerClients.effect, hj]
      exact ⟨_, _, .prepare hi rfl hj, client_step hlater heffect, h.breaker, hshare,
        Nat.le_refl _⟩
    | @turn i _ st r now hi =>
      obtain ⟨j, hj, hshare⟩ := h.running.moveOn_mine hi rfl (keepsBreaker_turned ctx st r)
      have heffect : c.effect (.turn j r now) = some ⟨(ctx.turn st r).report.elim c.breaker
          (fun report => c.breaker.report report now), BreakerClients.moveOn c.running j
          (BreakerClients.turned ctx st r), now⟩ := by
        simp only [BreakerClients.effect, hj]
      refine ⟨_, _, .turn hi rfl hj, client_step hlater heffect, ?_, hshare, Nat.le_refl _⟩
      show (BreakerTable.reported _ _ _ _).lookup _ = _
      unfold BreakerTable.reported
      rw [h.breaker]
      cases (ctx.turn st r).report with
      | none => exact h.breaker
      | some report => exact AList.lookup_insert _
  · obtain ⟨hforeign, hbreakers, hrunning⟩ := hmoves.other hkey
    refine .inl ⟨⟨hbreakers.trans h.breaker, hrunning _ h.running, ?_⟩, hforeign⟩
    rw [hnow]
    exact hlater

/-- The events of a run that are of the key, one after another, as events of its own breaker and
requests. -/
inductive EventsOf (proxy : Proxy) (key : Str) :
    TimedBreakers → BreakerClients → List TableEvent → List ClientEvent → Prop
  | nil (s : TimedBreakers) (c : BreakerClients) : EventsOf proxy key s c [] []
  | mine {s t : TimedBreakers} {c d : BreakerClients} {e : TableEvent} {ce : ClientEvent}
      {es : List TableEvent} {ces : List ClientEvent} : Stands proxy key s c e ce →
      s.step proxy e = some t → c.step ce = some d → EventsOf proxy key t d es ces →
      EventsOf proxy key s c (e :: es) (ce :: ces)
  | other {s t : TimedBreakers} {c : BreakerClients} {e : TableEvent} {es : List TableEvent}
      {ces : List ClientEvent} : Foreign proxy key s e → s.step proxy e = some t →
      EventsOf proxy key t c es ces → EventsOf proxy key s c (e :: es) ces

/-- A run of all the breakers is one of the breaker under the key, with the events of the key. -/
theorem seenFrom_run (h : Run (step proxy) anyStep s es t) :
    ∀ {c : BreakerClients}, SeenFrom key s c → ∃ ces d, EventsOf proxy key s c es ces ∧
      Run BreakerClients.step anyStep c ces d ∧ SeenFrom key t d := by
  induction h with
  | nil s => exact fun {c} hseen => ⟨[], c, .nil s c, .nil c, hseen⟩
  | cons _ hstep _ ih =>
    intro c hseen
    rcases step_seenFrom hseen hstep with ⟨hsame, hforeign⟩ | ⟨ce, d, hstands, hclient, hseen'⟩
    · obtain ⟨ces, d, hevents, hrun, hend⟩ := ih hsame
      exact ⟨ces, d, .other hforeign hstep hevents, hrun, hend⟩
    · obtain ⟨ces, d', hevents, hrun, hend⟩ := ih hseen'
      exact ⟨ce :: ces, d', .mine hstands hstep hclient hevents, .cons trivial hclient hrun, hend⟩

/-- Under a key that no request has come to there is no breaker and no request. -/
def Unused (key : Str) (s : TimedBreakers) : Prop :=
  s.table.breakers.lookup key = none ∧ Share key s.table.running []

/-- The first request that comes to a key is let in by the breaker that is made for it. -/
theorem Unused.arrive {env : Surroundings} {req req' : Request} {ctx : LoopContext} {now : Nat}
    (h : Unused key s) (hcome : proxy.comeToBreaker env req = .going (ctx, req'))
    (hkey : ctx.breakerKey = key) (hmoves : Moves proxy s (.arrive env req now) ctx t) :
    ∃ c, (BreakerClients.start (ctx.breakerConfig proxy) now).step (.arrive ctx req' now) = some c ∧
      SeenFrom key t c := by
  subst hkey
  obtain ⟨hnone, hshare⟩ := h
  have hopened : (s.table.breakerFor proxy ctx now).canAttempt now =
      (true, CircuitBreaker.new (ctx.breakerConfig proxy) now) := by
    rw [BreakerTable.breakerFor, LoopContext.breakerIn, hnone, Option.getD_none]
    exact CircuitBreaker.canAttempt_closed rfl now
  have hclient : (BreakerClients.start (ctx.breakerConfig proxy) now).step
      (.arrive ctx req' now) = some ⟨CircuitBreaker.new (ctx.breakerConfig proxy) now,
        [.admitted ctx req'], now⟩ := client_step (Nat.le_refl _) rfl
  refine ⟨_, hclient, ?_⟩
  cases hmoves with
  | arrive hcome' =>
    cases hcome.symm.trans hcome'
    refine ⟨?_, ?_, Nat.le_refl _⟩
    · rw [hopened]
      exact AList.lookup_insert _
    · rw [hopened]
      exact .mine (fun _ heq => (Option.some.inj heq).symm) hshare

/-- A key stays unused until the first request comes to it. -/
theorem Unused.step (h : Unused key s) (hstep : s.step proxy e = some t) :
    (Unused key t ∧ Foreign proxy key s e) ∨ ∃ env req req' ctx now, e = .arrive env req now ∧
      proxy.comeToBreaker env req = .going (ctx, req') ∧ ctx.breakerKey = key ∧
      Moves proxy s e ctx t := by
  obtain ⟨_, _, ctx, hmoves⟩ := moves_of_step hstep
  by_cases hkey : ctx.breakerKey = key
  · have hnobody : ∀ {i : Nat} {stage : Stage}, s.table.running[i]? = some stage →
        stage.breakerKey ≠ some key := fun hi hkey =>
      absurd (h.2.mem_own (List.mem_of_getElem? hi) hkey) List.not_mem_nil
    cases hmoves with
    | arrive hcome => exact .inr ⟨_, _, _, ctx, _, rfl, hcome, hkey, .arrive hcome⟩
    | prepare hi => exact absurd (congrArg some hkey) (hnobody hi)
    | turn hi => exact absurd (congrArg some hkey) (hnobody hi)
  · obtain ⟨hforeign, hbreakers, hrunning⟩ := hmoves.other hkey
    exact .inl ⟨⟨hbreakers.trans h.1, hrunning _ h.2⟩, hforeign⟩

/-- The breaker under a key is the one made for the first request that has come to the key, and has
run with the events of the key alone. -/
structure Alone (proxy : Proxy) (key : Str) (s : TimedBreakers) (es : List TableEvent)
    (t : TimedBreakers) (ctx : LoopContext) (req : Request) (created : Nat)
    (ces : List ClientEvent) (c : BreakerClients) : Prop where
  key_eq : ctx.breakerKey = key
  events : EventsOf proxy key s (BreakerClients.start (ctx.breakerConfig proxy) created) es
    (.arrive ctx req created :: ces)
  runs : Run BreakerClients.step anyStep
    (BreakerClients.start (ctx.breakerConfig proxy) created) (.arrive ctx req created :: ces) c
  seen : SeenFrom key t c

theorem alone_of_unused (h : Run (step proxy) anyStep s es t) :
    Unused key s → Unused key t ∨ ∃ ctx req created ces c,
      Alone proxy key s es t ctx req created ces c := by
  induction h with
  | nil => exact .inl
  | cons _ hstep hrest ih =>
    intro hunused
    rcases hunused.step hstep with ⟨hunused', hforeign⟩ |
      ⟨env, req, req', ctx, now, rfl, hcome, hkey, hmoves⟩
    · rcases ih hunused' with hend | ⟨ctx, req, created, ces, c, halone⟩
      · exact .inl hend
      · exact .inr ⟨ctx, req, created, ces, c, halone.key_eq,
          .other hforeign hstep halone.events, halone.runs, halone.seen⟩
    · obtain ⟨d, hclient, hseen⟩ := hunused.arrive hcome hkey hmoves
      obtain ⟨ces, c, hevents, hrun, hend⟩ := seenFrom_run hrest hseen
      exact .inr ⟨ctx, req', now, ces, c, hkey, .mine (.arrive hcome hkey) hstep hclient hevents,
        .cons trivial hclient hrun, hend⟩

theorem alone_of_run {now : Nat} (h : Run (step proxy) anyStep (start now) es s)
    {b : CircuitBreaker} (hb : s.table.breakers.lookup key = some b) :
    ∃ ctx req created ces c, Alone proxy key (start now) es s ctx req created ces c := by
  have hunused : Unused key (start now) := ⟨rfl, .nil⟩
  rcases alone_of_unused h hunused with ⟨hnone, _⟩ | halone
  · rw [hb] at hnone
    cases hnone
  · exact halone

/-- The upstream request of the key that a step sends. -/
def sendsAt (key : Str) (s : TimedBreakers) : TableEvent → Nat
  | .turn i r _ =>
    match s.table.running[i]? with
    | some (.looping ctx st) =>
      if ctx.breakerKey = key ∧ (ctx.turn st r).sent.isSome then 1 else 0
    | _ => 0
  | _ => 0

/-- No request of the key reports a success, or comes with more than `m` attempts. -/
def OutageAt (proxy : Proxy) (key : Str) (m : Nat) (s : TimedBreakers) : TableEvent → Prop
  | .arrive env req _ => ∀ ctx req', proxy.comeToBreaker env req = .going (ctx, req') →
      ctx.breakerKey = key → ctx.maxAttempts ≤ m
  | .prepare _ _ _ => True
  | .turn i r _ => ∀ ctx st, s.table.running[i]? = some (.looping ctx st) →
      ctx.breakerKey = key → (ctx.turn st r).report ≠ some .success

theorem Stands.sends (h : Stands proxy key s c e ce) : c.sends ce = sendsAt key s e := by
  cases h with
  | arrive => rfl
  | prepare => rfl
  | turn hi hkey hj => simp only [BreakerClients.sends, sendsAt, hi, hj, hkey, true_and]

theorem Foreign.sends (h : Foreign proxy key s e) : sendsAt key s e = 0 := by
  cases e with
  | arrive => rfl
  | prepare => rfl
  | turn i r now =>
    simp only [sendsAt]
    split
    next ctx st hi =>
      have hne : ctx.breakerKey ≠ key := fun heq => h _ hi (congrArg some heq)
      exact if_neg fun hboth => hne hboth.1
    next => rfl

theorem Stands.outage (h : Stands proxy key s c e ce) (hok : OutageAt proxy key m s e) :
    c.Outage m ce := by
  cases h with
  | arrive hcome hkey => exact hok _ _ hcome hkey
  | prepare => trivial
  | turn hi hkey hj =>
    intro ctx st hst
    cases hj.symm.trans hst
    exact hok _ _ hi hkey

/-- The credits of the requests under a key. -/
def creditsAt (key : Str) (running : List Stage) : Nat :=
  BreakerClients.credits (running.filter fun stage => stage.breakerKey = some key)

theorem credits_of_share {all own : List Stage} (h : Share key all own) :
    BreakerClients.credits own = creditsAt key all := by
  have hblocked : ∀ stage : Stage, stage.breakerKey = none → stage.credit = 0 := by
    intro stage hstage
    cases stage with
    | admitted => cases hstage
    | looping => cases hstage
    | blocked => rfl
  unfold creditsAt BreakerClients.credits
  induction h with
  | nil => rfl
  | @mine stage all own hmine _ ih =>
    rw [List.map_cons, List.sum_cons, ih, List.filter_cons]
    cases hkey : stage.breakerKey with
    | none => simp [hblocked stage hkey]
    | some key' => simp [hmine key' hkey]
  | @other stage all own hother _ ih =>
    rw [ih, List.filter_cons, if_neg (by simpa using hother)]

end TimedBreakers

/-- The breakers of the proxy run apart: in every run, with the requests of all targets interleaved
in any way, each breaker and its requests are in the state that one breaker comes to which has been
made for the first of its requests and to which what has happened under its key has happened and
nothing else. -/
theorem breakers_apart {proxy : Proxy} {now : Nat} {key : Str} {es : List TableEvent}
    {s : TimedBreakers} {b : CircuitBreaker}
    (h : Run (TimedBreakers.step proxy) anyStep (TimedBreakers.start now) es s)
    (hb : s.table.breakers.lookup key = some b) :
    ∃ ctx req created ces c, ctx.breakerKey = key ∧
      TimedBreakers.EventsOf proxy key (TimedBreakers.start now)
        (BreakerClients.start (ctx.breakerConfig proxy) created) es
        (.arrive ctx req created :: ces) ∧
      Run BreakerClients.step anyStep (BreakerClients.start (ctx.breakerConfig proxy) created)
        (.arrive ctx req created :: ces) c ∧
      c.breaker = b ∧ Share key s.table.running c.running ∧ c.clock ≤ s.clock := by
  obtain ⟨ctx, req, created, ces, c, halone⟩ := TimedBreakers.alone_of_run h hb
  exact ⟨ctx, req, created, ces, c, halone.key_eq, halone.events, halone.runs,
    Option.some.inj (halone.seen.breaker.symm.trans hb), halone.seen.running, halone.seen.clock⟩

def twoUpstreamsConfig : ProxyConfig :=
  { plainConfig [plainTarget "/a".toList ["http://a:1".toList],
      plainTarget "/b".toList ["http://b:1".toList]] with
    defaultCircuitBreakerConfig := ⟨1, 30, 1⟩ }

/-- A failure of one upstream opens its breaker and leaves the one of the other alone. -/
theorem breakers_apart_two_upstreams :
    ∃ (proxy : Proxy) (env : Surroundings) (s : TimedBreakers) (a b : CircuitBreaker)
      (ctx : LoopContext) (req : Request) (created : Nat) (ces : List ClientEvent)
      (c : BreakerClients),
    Proxy.ofConfig plainCrates twoUpstreamsConfig = .ok proxy ∧
    env.targetOrder = proxy.targetMap.entries ∧
    Run (TimedBreakers.step proxy) anyStep (TimedBreakers.start 0)
      [.arrive env (plainRequest "/a/users".toList [] []) 1,
        .arrive env (plainRequest "/b/users".toList [] []) 2, .prepare 1 ∅ 3,
        .turn 1 (plainRound (.failed "connection refused")) 4] s ∧
    s.table.breakers.lookup "http://a:1:circuit_breaker".toList = some a ∧ a.state = .open ∧
    s.table.breakers.lookup "http://b:1:circuit_breaker".toList = some b ∧
    Run BreakerClients.step anyStep (BreakerClients.start (ctx.breakerConfig proxy) created)
      (.arrive ctx req created :: ces) c ∧
    c.breaker = b ∧ b.state = .closed := by
  have htrace : ∃ (proxy : Proxy) (env : Surroundings) (s : TimedBreakers) (a b : CircuitBreaker),
      Proxy.ofConfig plainCrates twoUpstreamsConfig = .ok proxy ∧
      env.targetOrder = proxy.targetMap.entries ∧
      Run (TimedBreakers.step proxy) anyStep (TimedBreakers.start 0)
        [.arrive env (plainRequest "/a/users".toList [] []) 1,
          .arrive env (plainRequest "/b/users".toList [] []) 2, .prepare 1 ∅ 3,
          .turn 1 (plainRound (.failed "connection refused")) 4] s ∧
      s.table.breakers.lookup "http://a:1:circuit_breaker".toList = some a ∧ a.state = .open ∧
      s.table.breakers.lookup "http://b:1:circuit_breaker".toList = some b ∧ b.state = .closed :=
    ⟨_, plainSurroundings _ (fun _ => plainRound .timedOut), _, _, _, rfl, rfl,
      .cons trivial rfl (.cons trivial rfl (.cons trivial rfl (.cons trivial rfl (.nil _)))),
      rfl, rfl, rfl, rfl⟩
  obtain ⟨proxy, env, s, a, b, hproxy, horder, hrun, ha, hopen, hb, hclosed⟩ := htrace
  obtain ⟨ctx, req, created, ces, c, _, _, hclients, hbreaker, _⟩ := breakers_apart hrun hb
  exact ⟨proxy, env, s, a, b, ctx, req, created, ces, c, hproxy, horder, hrun, ha, hopen, hb,
    hclients, hbreaker, hclosed⟩

/-- While no request of a key reports a success, its open breaker bounds the load on the upstream:
what is sent is no more than what the requests under way may still try, and `m` attempts for one
request more than there are half-open slots, for each reset timeout that has gone by. -/
theorem upstream_load_le {proxy : Proxy} {now m : Nat} {key : Str} {es es' : List TableEvent}
    {s t : TimedBreakers} {b : CircuitBreaker}
    (h : Run (TimedBreakers.step proxy) anyStep (TimedBreakers.start now) es s)
    (hb : s.table.breakers.lookup key = some b) (hopen : b.state = .open)
    (hreset : 0 < b.resetTimeout) (hfits : t.clock + b.resetTimeout < instantEnd)
    (houtage : Run (TimedBreakers.step proxy) (TimedBreakers.OutageAt proxy key m) s es' t) :
    runTotal (TimedBreakers.step proxy) (TimedBreakers.sendsAt key) s es' ≤
      TimedBreakers.creditsAt key s.table.running + m * ((b.halfOpenMaxAttempts + 1) *
        ((t.clock + b.resetTimeout - b.openUntil) / b.resetTimeout)) := by
  obtain ⟨ctx, _, created, _, c, _, _, hrun, hseen⟩ := TimedBreakers.alone_of_run h hb
  obtain rfl := Option.some.inj (hseen.breaker.symm.trans hb)
  obtain ⟨_, a, hprotocol, hbreaker, _, hclock⟩ :=
    BreakerClients.run_simulates hrun (BreakerClients.start_abstracts _ created)
  obtain ⟨htimeout, huntil⟩ := BreakerSystem.openBounded_of_run hprotocol
  rw [hbreaker] at htimeout huntil
  obtain ⟨ces, d, hclients, hends, htotal⟩ := houtage.simulate_total
    (R := TimedBreakers.SeenFrom key) (g := BreakerClients.sends) (fun hseen hok hstep => by
      rcases TimedBreakers.step_seenFrom hseen hstep with
        ⟨hsame, hforeign⟩ | ⟨ce, d, hstands, hstep', hseen'⟩
      · exact .inl ⟨hsame, hforeign.sends⟩
      · exact .inr ⟨ce, d, hstands.outage hok, hstep', hseen', hstands.sends⟩) hseen
  have hlater := hends.clock
  have hload := BreakerClients.outage_load hreset hopen (by omega) (by omega) hclients
  rw [htotal, TimedBreakers.credits_of_share hseen.running] at hload
  refine Nat.le_trans hload (Nat.add_le_add_left ?_ _)
  refine Nat.mul_le_mul_left m (Nat.mul_le_mul_left _ ?_)
  exact Nat.div_le_div_right (by omega)

/-- A request finds the upstream down and opens the breaker for thirty seconds; the next one is let
in behind them and finds it down again. -/
theorem upstream_load_le_two_requests :
    ∃ (proxy : Proxy) (env : Surroundings) (s t : TimedBreakers) (b : CircuitBreaker),
    Proxy.ofConfig plainCrates trippingConfig = .ok proxy ∧
    env.targetOrder = proxy.targetMap.entries ∧
    Run (TimedBreakers.step proxy) anyStep (TimedBreakers.start 0)
      [.arrive env (plainRequest "/api/users".toList [] []) 1, .prepare 0 ∅ 2,
        .turn 0 (plainRound (.failed "connection refused")) 3] s ∧
    s.table.breakers.lookup "http://localhost:5001:circuit_breaker".toList = some b ∧
    b.state = .open ∧
    Run (TimedBreakers.step proxy)
      (TimedBreakers.OutageAt proxy "http://localhost:5001:circuit_breaker".toList 1) s
      [.arrive env (plainRequest "/api/users".toList [] []) 30000000003, .prepare 0 ∅ 30000000004,
        .turn 0 (plainRound (.failed "connection refused")) 30000000005] t ∧
    runTotal (TimedBreakers.step proxy)
      (TimedBreakers.sendsAt "http://localhost:5001:circuit_breaker".toList) s
      [.arrive env (plainRequest "/api/users".toList [] []) 30000000003, .prepare 0 ∅ 30000000004,
        .turn 0 (plainRound (.failed "connection refused")) 30000000005] ≤ 2 := by
  have hcome : ∀ {proxy : Proxy} {env : Surroundings} {req : Request} {s : TimedBreakers}
      {come : LoopContext × Request} {now : Nat} (key : Str),
      proxy.comeToBreaker env req = .going come → come.1.maxAttempts = 1 →
      TimedBreakers.OutageAt proxy key 1 s (.arrive env req now) := by
    intro proxy env req s come now key hcome hmax ctx req' hcome' _
    cases hcome.symm.trans hcome'
    exact Nat.le_of_eq hmax
  have hturn : ∀ {proxy : Proxy} {s : TimedBreakers} {ctx : LoopContext} {st : LoopState}
      {r : Round} {now : Nat} (key : Str), s.table.running[0]? = some (.looping ctx st) →
      (ctx.turn st r).report = some .failure →
      TimedBreakers.OutageAt proxy key 1 s (.turn 0 r now) := by
    intro proxy s ctx st r now key hst hreport ctx' st' hst' _
    cases hst.symm.trans hst'
    rw [hreport]
    nofun
  have htrace : ∃ (proxy : Proxy) (env : Surroundings) (s t : TimedBreakers) (b : CircuitBreaker),
      Proxy.ofConfig plainCrates trippingConfig = .ok proxy ∧
      env.targetOrder = proxy.targetMap.entries ∧
      Run (TimedBreakers.step proxy) anyStep (TimedBreakers.start 0)
        [.arrive env (plainRequest "/api/users".toList [] []) 1, .prepare 0 ∅ 2,
          .turn 0 (plainRound (.failed "connection refused")) 3] s ∧
      s.table.breakers.lookup "http://localhost:5001:circuit_breaker".toList = some b ∧
      b.state = .open ∧ b.openUntil = 30000000003 ∧ b.resetTimeout = 30000000000 ∧
      b.halfOpenMaxAttempts = 1 ∧ s.table.running = [] ∧ t.clock = 30000000005 ∧
      Run (TimedBreakers.step proxy)
        (TimedBreakers.OutageAt proxy "http://localhost:5001:circuit_breaker".toList 1) s
        [.arrive env (plainRequest "/api/users".toList [] []) 30000000003,
          .prepare 0 ∅ 30000000004,
          .turn 0 (plainRound (.failed "connection refused")) 30000000005] t :=
    ⟨_, plainSurroundings _ (fun _ => plainRound .timedOut), _, _, _, rfl, rfl,
      .cons trivial rfl (.cons trivial rfl (.cons trivial rfl (.nil _))), rfl, rfl, rfl, rfl, rfl,
      rfl, rfl, .cons (hcome _ rfl rfl) rfl (.cons trivial rfl (.cons (hturn _ rfl rfl) rfl
        (.nil _)))⟩
  obtain ⟨proxy, env, s, t, b, hproxy, horder, hrun, hb, hopen, huntil, htimeout, hslots, hidle,
    hclock, houtage⟩ := htrace
  have hreset : 0 < b.resetTimeout := by
    rw [htimeout]
    decide
  have hfits : t.clock + b.resetTimeout < instantEnd := by
    rw [hclock, htimeout]
    decide
  have hload := upstream_load_le hrun hb hopen hreset hfits houtage
  rw [huntil, htimeout, hslots, hidle, hclock] at hload
  exact ⟨proxy, env, s, t, b, hproxy, horder, hrun, hb, hopen, houtage, hload⟩

end Road7
