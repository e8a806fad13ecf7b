import Road7.BreakerProtocol
import Road7.RequestStages

namespace Road7

/-- How far a request has come that its breaker has admitted. -/
inductive Stage where
  | admitted (ctx : LoopContext) (req : Request)
  | looping (ctx : LoopContext) (s : LoopState)
  | blocked

/-- A breaker with the requests it has admitted that have not ended. -/
structure BreakerClients where
  breaker : CircuitBreaker
  running : List Stage
  clock : Nat

/-- A request comes to the breaker; an admitted one looks for its conditional headers; one in
its retry loop makes a turn. -/
inductive ClientEvent where
  | arrive (ctx : LoopContext) (req : Request) (now : Nat)
  | prepare (i : Nat) (caches : Caches) (now : Nat)
  | turn (i : Nat) (r : Round) (now : Nat)

def ClientEvent.time : ClientEvent → Nat
  | .arrive _ _ now => now
  | .prepare _ _ now => now
  | .turn _ _ now => now

namespace BreakerClients

def start (config : CircuitBreakerConfig) (now : Nat) : BreakerClients :=
  ⟨CircuitBreaker.new config now, [], now⟩

/-- A request that has ended is gone; one that waits for itself stays. -/
def moveOn (running : List Stage) (i : Nat) : Progress Stage → List Stage
  | .going stage => running.set i stage
  | .ended _ => running.eraseIdx i
  | .blocked => running.set i .blocked

def prepared (ctx : LoopContext) (caches : Caches) (now : Nat) (req : Request) : Progress Stage :=
  addConditionalHeaders ctx.cacheKey caches now req >>= fun req =>
    .going (.looping ctx (LoopState.start req))

def turned (ctx : LoopContext) (s : LoopState) (r : Round) : Progress Stage :=
  (ctx.turn s r).next >>= fun t => .going (.looping ctx t)

def effect (c : BreakerClients) : ClientEvent → Option BreakerClients
  | .arrive ctx req now =>
    let (admitted, b) := c.breaker.canAttempt now
    some ⟨b, if admitted then .admitted ctx req :: c.running else c.running, now⟩
  | .prepare i caches now =>
    match c.running[i]? with
    | some (.admitted ctx req) =>
      some ⟨c.breaker, moveOn c.running i (prepared ctx caches now req), now⟩
    | _ => none
  | .turn i r now =>
    match c.running[i]? with
    | some (.looping ctx s) =>
      some ⟨(ctx.turn s r).report.elim c.breaker (fun report => c.breaker.report report now),
        moveOn c.running i (turned ctx s r), now⟩
    | _ => none

def step (c : BreakerClients) (e : ClientEvent) : Option BreakerClients :=
  if c.clock ≤ e.time then c.effect e else none

def Abstracts (c : BreakerClients) (a : BreakerSystem) : Prop :=
  a.breaker = c.breaker ∧ a.inFlight = c.running.length ∧ a.clock ≤ c.clock

/-- The condition that the step does not end a request before it has reported. -/
def KeepsReport (c : BreakerClients) : ClientEvent → Prop
  | .arrive _ _ _ => True
  | .prepare i caches now => ∀ ctx req, c.running[i]? = some (.admitted ctx req) →
      ∀ e, addConditionalHeaders ctx.cacheKey caches now req ≠ .ended e
  | .turn i r _ => ∀ ctx s, c.running[i]? = some (.looping ctx s) → ctx.Delivers s r

theorem step_eq_some {c d : BreakerClients} {e : ClientEvent} (h : c.step e = some d) :
    c.clock ≤ e.time ∧ c.effect e = some d := by
  unfold step at h
  split at h
  next hclock => exact ⟨hclock, h⟩
  next => simp at h

theorem length_moveOn {running : List Stage} {i : Nat} (hi : i < running.length)
    (p : Progress Stage) :
    (moveOn running i p).length = if p.isEnded then running.length - 1 else running.length := by
  cases p <;> simp [moveOn, Progress.isEnded, List.length_eraseIdx, hi]

theorem lt_length_of_getElem? {running : List Stage} {i : Nat} {stage : Stage}
    (h : running[i]? = some stage) : i < running.length :=
  (List.getElem?_eq_some_iff.mp h).1

/-- An event of the protocol that matches what a step does to the breaker and to the number of
the running requests. -/
theorem simulate_event {c : BreakerClients} {a : BreakerSystem} (h : c.Abstracts a)
    (pe : ProtocolEvent) (d : BreakerClients) (hclock : c.clock ≤ pe.time) (hd : d.clock = pe.time)
    (hrun : pe.isAttempt = false → 0 < c.running.length)
    (hb : (a.effect pe).breaker = d.breaker)
    (hn : (a.effect pe).inFlight = d.running.length) :
    ∃ b, a.step pe = some b ∧ d.Abstracts b := by
  obtain ⟨_, hflight, hle⟩ := h
  refine ⟨a.effect pe, ?_, hb, hn, by simp [hd]⟩
  have hen : a.enabled pe = true := by
    simp only [BreakerSystem.enabled, Bool.and_eq_true, decide_eq_true_eq, Bool.or_eq_true]
    refine ⟨by omega, ?_⟩
    cases hatt : pe.isAttempt with
    | true => simp
    | false => simpa [hflight] using hrun hatt
  simp [BreakerSystem.step, hen]

/-- A running request that moves on, with or without a report. One that goes on can only have
reported a success. -/
theorem moveOn_simulates {c : BreakerClients} {a : BreakerSystem} {i now : Nat}
    (ha : c.Abstracts a) (hi : i < c.running.length) (hclock : c.clock ≤ now)
    (report : Option Report) (p : Progress Stage)
    (hgoing : p.isEnded = false → report = none ∨ report = some .success) :
    let d : BreakerClients := ⟨report.elim c.breaker (fun r => c.breaker.report r now),
      moveOn c.running i p, now⟩
    d.Abstracts a ∨ ∃ pe b, ((∃ t, pe = .crash t) → report = none ∧ p.isEnded = true) ∧
      a.step pe = some b ∧ d.Abstracts b := by
  have hlen := length_moveOn hi p
  have hrun : 0 < c.running.length := by omega
  cases hended : p.isEnded with
  | false =>
    simp only [hended, Bool.false_eq_true, if_false] at hlen
    rcases hgoing hended with rfl | rfl
    · exact .inl ⟨ha.1, by simp [hlen, ha.2.1], Nat.le_trans ha.2.2 hclock⟩
    · refine .inr ⟨.interim now, ?_⟩
      obtain ⟨b, hb⟩ := simulate_event ha (.interim now)
        ⟨c.breaker.report .success now, moveOn c.running i p, now⟩ hclock rfl (fun _ => hrun)
        (by simp [BreakerSystem.effect, ha.1]) (by simp [BreakerSystem.effect, hlen, ha.2.1])
      exact ⟨b, by simp, hb⟩
  | true =>
    simp only [hended, if_true] at hlen
    cases report with
    | none =>
      refine .inr ⟨.crash now, ?_⟩
      obtain ⟨b, hb⟩ := simulate_event ha (.crash now)
        ⟨c.breaker, moveOn c.running i p, now⟩ hclock rfl (fun _ => hrun)
        (by simp [BreakerSystem.effect, ha.1]) (by simp [BreakerSystem.effect, hlen, ha.2.1])
      exact ⟨b, fun _ => ⟨rfl, rfl⟩, hb⟩
    | some r =>
      refine .inr ⟨.finish r now, ?_⟩
      obtain ⟨b, hb⟩ := simulate_event ha (.finish r now)
        ⟨c.breaker.report r now, moveOn c.running i p, now⟩ hclock rfl (fun _ => hrun)
        (by simp [BreakerSystem.effect, ha.1]) (by simp [BreakerSystem.effect, hlen, ha.2.1])
      exact ⟨b, by simp, hb⟩

/-- Every step of the requests is a step of the protocol or nothing to it; a crash of the
protocol is a request that ends before it has reported. -/
theorem step_simulates {c d : BreakerClients} {a : BreakerSystem} {e : ClientEvent}
    (ha : c.Abstracts a) (hstep : c.step e = some d) :
    d.Abstracts a ∨ ∃ pe b, ((∃ now, pe = .crash now) → ¬c.KeepsReport e) ∧
      a.step pe = some b ∧ d.Abstracts b := by
  obtain ⟨hclock, heffect⟩ := step_eq_some hstep
  cases e with
  | arrive ctx req now =>
    simp only [effect, Option.some.injEq] at heffect
    subst heffect
    refine .inr ⟨.attempt now, ?_⟩
    obtain ⟨b, hb⟩ := simulate_event ha (.attempt now) ⟨(c.breaker.canAttempt now).2,
      if (c.breaker.canAttempt now).1 then .admitted ctx req :: c.running else c.running, now⟩
      hclock rfl (by simp [ProtocolEvent.isAttempt])
      (by simp [BreakerSystem.effect, ha.1])
      (by simp only [BreakerSystem.effect, ha.1, ha.2.1]; split <;> simp)
    exact ⟨b, by simp, hb⟩
  | prepare i caches now =>
    simp only [effect] at heffect
    split at heffect
    next ctx req hi =>
      cases heffect
      have hmove := moveOn_simulates ha (lt_length_of_getElem? hi) hclock none
        (prepared ctx caches now req) (fun _ => .inl rfl)
      rcases hmove with hsame | ⟨pe, b, hcrash, hb⟩
      · exact .inl hsame
      refine .inr ⟨pe, b, fun hpe hkeeps => ?_, hb⟩
      have hended := (hcrash hpe).2
      cases hcond : addConditionalHeaders ctx.cacheKey caches now req with
      | ended e => exact hkeeps ctx req hi e hcond
      | going r => simp [prepared, hcond, Progress.isEnded] at hended
      | blocked => simp [prepared, hcond, Progress.isEnded] at hended
    next => simp at heffect
  | turn i r now =>
    simp only [effect] at heffect
    split at heffect
    next ctx s hi =>
      cases heffect
      have hnext : (turned ctx s r).isEnded = (ctx.turn s r).next.isEnded := by
        unfold turned
        cases (ctx.turn s r).next <;> rfl
      have hgoing : (turned ctx s r).isEnded = false →
          (ctx.turn s r).report = none ∨ (ctx.turn s r).report = some .success := by
        rw [hnext]
        exact LoopContext.report_of_not_ended
      have hmove := moveOn_simulates ha (lt_length_of_getElem? hi) hclock
        (ctx.turn s r).report (turned ctx s r) hgoing
      rcases hmove with hsame | ⟨pe, b, hcrash, hb⟩
      · exact .inl hsame
      refine .inr ⟨pe, b, fun hpe hkeeps => ?_, hb⟩
      obtain ⟨hreport, hended⟩ := hcrash hpe
      rw [hnext] at hended
      exact LoopContext.report_lost_iff.mp ⟨hreport, Progress.isEnded_iff.mp hended⟩
        (hkeeps ctx s hi)
    next => simp at heffect

/-- Every run of the requests is a run of the protocol. -/
theorem run_simulates {ok : BreakerClients → ClientEvent → Prop} {c d : BreakerClients}
    {es : List ClientEvent} (h : Run step ok c es d) {a : BreakerSystem} (ha : c.Abstracts a) :
    ∃ pes b, Run BreakerSystem.step anyStep a pes b ∧ d.Abstracts b :=
  h.simulate (R := Abstracts) (fun ha _ hstep => (step_simulates ha hstep).imp_right
    fun ⟨pe, b, _, hb⟩ => ⟨pe, b, trivial, hb⟩) ha

theorem run_simulates_keepsReport {c d : BreakerClients} {es : List ClientEvent}
    (h : Run step KeepsReport c es d) {a : BreakerSystem} (ha : c.Abstracts a) :
    ∃ pes b, Run BreakerSystem.step BreakerSystem.NoCrash a pes b ∧ d.Abstracts b :=
  h.simulate (R := Abstracts) (fun ha hok hstep => (step_simulates ha hstep).imp_right
    fun ⟨pe, b, hcrash, hb⟩ => ⟨pe, b, fun hpe => hcrash hpe hok, hb⟩) ha

theorem start_abstracts (config : CircuitBreakerConfig) (now : Nat) :
    (start config now).Abstracts (BreakerSystem.start config now) :=
  ⟨rfl, rfl, Nat.le_refl _⟩

end BreakerClients

end Road7
