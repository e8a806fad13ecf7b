import Mathlib.Data.List.Perm.Basic
import Road7.Handler

namespace Road7

structure RequestMetrics where
  counters : Counters
  handlers : List Handler

/-- A request is received; a handler does its next statement, where `proxy_request` comes back
after some turns of its retry loop. -/
inductive MetricsEvent where
  | receive (env : Surroundings) (req : Request)
  | act (i turns : Nat)

def MetricsEvent.request : MetricsEvent → Option Request
  | .receive _ req => some req
  | .act _ _ => none

def requests (es : List MetricsEvent) : List Request := es.filterMap MetricsEvent.request

theorem requests_cons (e : MetricsEvent) (es : List MetricsEvent) :
    requests (e :: es) = e.request.toList ++ requests es := by
  cases e with
  | receive env req => rfl
  | act i turns => rfl

theorem sum_requests (es : List MetricsEvent) :
    (es.map fun e => e.request.toList.length).sum = (requests es).length := by
  induction es with
  | nil => rfl
  | cons e es ih => rw [List.map_cons, List.sum_cons, ih, requests_cons, List.length_append]

namespace RequestMetrics

def idle : RequestMetrics := ⟨⟨0, 0, 0⟩, []⟩

/-- The handlers after a statement of one of them, which may have been its last. -/
def replaced (handlers : List Handler) (i : Nat) (h : Handler) :
    Option HandlerStage → List Handler
  | some stage => handlers.set i { h with stage }
  | none => handlers.eraseIdx i

def step (proxy : Proxy) (c : RequestMetrics) : MetricsEvent → Option RequestMetrics
  | .receive env req => some ⟨c.counters, ⟨env, req, .received⟩ :: c.handlers⟩
  | .act i turns =>
    match c.handlers[i]? with
    | some h =>
      (h.act proxy turns c.counters).map fun done => ⟨done.1, replaced c.handlers i h done.2⟩
    | none => none

/-- The handlers at some stages. -/
def atStage (p : HandlerStage → Bool) (handlers : List Handler) : Nat :=
  handlers.countP (fun h => p h.stage)

/-- The gauge shows the requests that run. -/
def Gauged (c : RequestMetrics) : Prop :=
  c.counters.ongoingGauge = atStage HandlerStage.isRunning c.handlers

/-- The requests that the total has counted or will have counted once. -/
def tally (c : RequestMetrics) : Nat :=
  c.counters.httpRequestsTotal + atStage HandlerStage.isPending c.handlers

/-- The step counts a request a second time. -/
def Recounts (proxy : Proxy) (c : RequestMetrics) : MetricsEvent → Prop
  | .receive _ _ => False
  | .act i _ => ∃ h, c.handlers[i]? = some h ∧ h.Recounts proxy

variable {proxy : Proxy} {c d : RequestMetrics} {e : MetricsEvent} {es : List MetricsEvent}

theorem act_eq_some {i turns : Nat} (h : step proxy c (.act i turns) = some d) :
    ∃ handler m stage, c.handlers[i]? = some handler ∧
      handler.act proxy turns c.counters = some (m, stage) ∧
      d = ⟨m, replaced c.handlers i handler stage⟩ := by
  simp only [step] at h
  split at h
  next handler hi =>
    obtain ⟨⟨m, stage⟩, hact, hd⟩ := Option.map_eq_some_iff.mp h
    exact ⟨handler, m, stage, hi, hact, hd.symm⟩
  next => simp at h

theorem perm_eraseIdx {α : Type} {xs : List α} {i : Nat} {x : α} (hi : xs[i]? = some x) :
    xs.Perm (x :: xs.eraseIdx i) := by
  obtain ⟨hlt, rfl⟩ := List.getElem?_eq_some_iff.mp hi
  exact (List.getElem_cons_eraseIdx_perm hlt).symm

/-- The handlers after the statement of one: what it has come to, and the others. -/
theorem perm_replaced {handlers : List Handler} {i : Nat} {h : Handler}
    (hi : handlers[i]? = some h) (stage : Option HandlerStage) :
    (replaced handlers i h stage).Perm
      ((stage.map fun st => { h with stage := st }).toList ++ handlers.eraseIdx i) := by
  cases stage with
  | none => exact List.Perm.refl _
  | some st =>
    have hlt := (List.getElem?_eq_some_iff.mp hi).1
    exact List.set_perm_cons_eraseIdx hlt { h with stage := st }

/-- In the count of the handlers one statement counts for its own handler. -/
theorem atStage_replaced (p : HandlerStage → Bool) {handlers : List Handler} {i : Nat}
    {h : Handler} (hi : handlers[i]? = some h) (stage : Option HandlerStage) :
    atStage p (replaced handlers i h stage) + (p h.stage).toNat =
      atStage p handlers + Handler.share p stage := by
  have hold := (perm_eraseIdx hi).countP_eq (fun h => p h.stage)
  have hnew := (perm_replaced hi stage).countP_eq (fun h => p h.stage)
  rw [List.countP_cons] at hold
  rw [List.countP_append] at hnew
  have hself : (p h.stage).toNat = if p h.stage = true then 1 else 0 := by
    cases p h.stage with
    | true => rfl
    | false => rfl
  have hshare : ((stage.map fun st => { h with stage := st }).toList).countP
      (fun h => p h.stage) = Handler.share p stage := by
    cases stage with
    | none => rfl
    | some st =>
      simp only [Option.map_some, Option.toList_some, List.countP_singleton, Handler.share,
        Option.elim_some]
      cases p st with
      | true => rfl
      | false => rfl
  unfold atStage
  omega

theorem step_tally (h : step proxy c e = some d) :
    (¬c.Recounts proxy e ∧ d.tally = c.tally + e.request.toList.length) ∨
    (c.Recounts proxy e ∧ d.tally = c.tally + e.request.toList.length + 1) := by
  cases e with
  | receive env req =>
    cases h
    refine .inl ⟨id, ?_⟩
    simp [tally, atStage, MetricsEvent.request, HandlerStage.isPending, Nat.add_assoc]
  | act i turns =>
    obtain ⟨handler, m, stage, hi, hact, rfl⟩ := act_eq_some h
    have hat := atStage_replaced HandlerStage.isPending hi stage
    have hiff : c.Recounts proxy (.act i turns) ↔ handler.Recounts proxy := by
      unfold Recounts
      simp [hi]
    rw [hiff]
    unfold tally
    simp only [MetricsEvent.request, Option.toList_none, List.length_nil]
    rcases Handler.act_total hact with ⟨hnot, htotal⟩ | ⟨hr, htotal⟩
    · exact .inl ⟨hnot, by omega⟩
    · exact .inr ⟨hr, by omega⟩

/-- The total never falls behind the requests, and is ahead of them once a request has been counted
a second time. -/
theorem tally_of_run (h : Run (step proxy) anyStep c es d) :
    c.tally + (requests es).length ≤ d.tally ∧
      (d.tally = c.tally + (requests es).length ↔
        Run (step proxy) (fun c e => ¬c.Recounts proxy e) c es d) := by
  have hstep : ∀ {c e d}, True → anyStep c e → step proxy c e = some d →
      True ∧ (¬c.Recounts proxy e ∧ d.tally = c.tally + e.request.toList.length ∨
        ¬¬c.Recounts proxy e ∧ d.tally = c.tally + e.request.toList.length + 1) := by
    intro c e d _ _ hstep
    exact ⟨trivial, (step_tally hstep).imp_right fun ⟨hr, hm⟩ => ⟨not_not_intro hr, hm⟩⟩
  rw [← sum_requests]
  exact (Run.measure_iff (fun _ => True) tally (fun e => e.request.toList.length) hstep h
    trivial).2

theorem mem_replaced {handlers : List Handler} {i : Nat} {h g : Handler}
    (hi : handlers[i]? = some h) {stage : Option HandlerStage}
    (hg : g ∈ replaced handlers i h stage) :
    g ∈ handlers ∨ ∃ st, stage = some st ∧ g = { h with stage := st } := by
  rcases List.mem_append.mp ((perm_replaced hi stage).mem_iff.mp hg) with hg | hg
  · obtain ⟨st, hst, rfl⟩ := Option.map_eq_some_iff.mp (Option.mem_toList.mp hg)
    exact .inr ⟨st, hst, rfl⟩
  · exact .inl (List.mem_of_mem_eraseIdx hg)

/-- The statement of a handler leaves the other handlers where they are. -/
theorem mem_of_replaced {handlers : List Handler} {i : Nat} {h g : Handler}
    (hi : handlers[i]? = some h) (hg : g ∈ handlers) (stage : Option HandlerStage) :
    g = h ∨ g ∈ replaced handlers i h stage := by
  rcases List.mem_cons.mp ((perm_eraseIdx hi).mem_iff.mp hg) with heq | hrest
  · exact .inl heq
  · exact .inr ((perm_replaced hi stage).mem_iff.mpr (List.mem_append_right _ hrest))

/-- Every handler is of a quiet request and has not come to the second count. -/
def AllQuiet (proxy : Proxy) (c : RequestMetrics) : Prop :=
  ∀ h ∈ c.handlers, proxy.Quiet h.req ∧ h.stage.isEarly = true

theorem gauged_receive {env : Surroundings} {req : Request} :
    Gauged ⟨c.counters, ⟨env, req, .received⟩ :: c.handlers⟩ ↔ c.Gauged := by
  unfold Gauged atStage
  rw [List.countP_cons]
  rfl

/-- A statement keeps the gauge as far as its own handler does. -/
theorem gauged_act_iff {i : Nat} {h : Handler} {m : Counters} {stage : Option HandlerStage}
    (hi : c.handlers[i]? = some h) (hgauged : c.Gauged) :
    Gauged ⟨m, replaced c.handlers i h stage⟩ ↔ m.ongoingGauge + h.stage.isRunning.toNat =
      c.counters.ongoingGauge + Handler.share HandlerStage.isRunning stage := by
  have hat := atStage_replaced HandlerStage.isRunning hi stage
  unfold Gauged at hgauged ⊢
  rw [hgauged]
  dsimp only
  omega

theorem AllQuiet.step (hquiet : AllQuiet proxy c) (hgauged : c.Gauged)
    (hreq : ∀ req ∈ e.request, proxy.Quiet req) (hstep : RequestMetrics.step proxy c e = some d) :
    AllQuiet proxy d ∧ d.Gauged ∧ ¬c.Recounts proxy e := by
  cases e with
  | receive env req =>
    cases hstep
    refine ⟨?_, gauged_receive.mpr hgauged, id⟩
    intro h hh
    rcases List.mem_cons.mp hh with rfl | hh
    · exact ⟨hreq req rfl, rfl⟩
    · exact hquiet h hh
  | act i turns =>
    obtain ⟨h, m, stage, hi, hact, rfl⟩ := act_eq_some hstep
    obtain ⟨hq, hearly⟩ := hquiet h (List.mem_of_getElem? hi)
    obtain ⟨hgauge, hnext⟩ := Handler.act_quiet hq hearly hact
    refine ⟨?_, (gauged_act_iff hi hgauged).mpr hgauge, ?_⟩
    · intro g hg
      rcases mem_replaced hi hg with hg | ⟨st, hst, rfl⟩
      · exact hquiet g hg
      · exact ⟨hq, hnext st hst⟩
    · rintro ⟨g, hgi, _, hnot⟩
      rw [hi] at hgi
      cases hgi
      exact hnot hq.2

/-- In a run of quiet requests the gauge is right in every state, and no request is counted a
second time. -/
theorem run_of_quiet (h : Run (step proxy) anyStep c es d) :
    AllQuiet proxy c → c.Gauged → (∀ req ∈ requests es, proxy.Quiet req) →
      Run (step proxy) (Run.keeping (step proxy) Gauged) c es d ∧
        Run (step proxy) (fun c e => ¬c.Recounts proxy e) c es d := by
  induction h with
  | nil c => exact fun _ _ _ => ⟨.nil c, .nil c⟩
  | @cons c m d e es _ hstep _ ih =>
    intro hquiet hgauged hreqs
    rw [requests_cons] at hreqs
    have hreq : ∀ req ∈ e.request, proxy.Quiet req :=
      fun req hr => hreqs req (List.mem_append_left _ (Option.mem_toList.mpr hr))
    obtain ⟨hquiet', hgauged', hnot⟩ := hquiet.step hgauged hreq hstep
    obtain ⟨hkeep, hnots⟩ := ih hquiet' hgauged' fun req hr => hreqs req (List.mem_append_right _ hr)
    refine ⟨.cons ?_ hstep hkeep, .cons hnot hstep hnots⟩
    intro u hu
    cases hstep.symm.trans hu
    exact hgauged'

/-- In a run that keeps the gauge, counts no request a second time and leaves no handler behind,
all requests are quiet: from the end of the run back, each handler is on its course. -/
theorem onCourse_of_run (h : Run (step proxy) (fun c e =>
      Run.keeping (step proxy) Gauged c e ∧ ¬c.Recounts proxy e) c es d) :
    c.Gauged → d.handlers = [] → (∀ h ∈ c.handlers, h.OnCourse proxy) ∧
      ∀ req ∈ requests es, proxy.Quiet req := by
  induction h with
  | nil c =>
    intro _ hend
    rw [hend]
    exact ⟨by simp, by simp [requests]⟩
  | @cons c m d e es hok hstep _ ih =>
    intro hgauged hend
    have hgauged' := hok.1 m hstep
    obtain ⟨hcourse, hreqs⟩ := ih hgauged' hend
    rw [requests_cons]
    cases e with
    | receive env req =>
      cases hstep
      constructor
      · exact fun h hh => hcourse h (List.mem_cons_of_mem _ hh)
      · intro r hr
        rcases List.mem_append.mp hr with hr | hr
        · obtain rfl : r = req := by simpa [MetricsEvent.request] using hr
          exact hcourse _ List.mem_cons_self
        · exact hreqs r hr
    | act i turns =>
      obtain ⟨h, m, stage, hi, hact, rfl⟩ := act_eq_some hstep
      refine ⟨?_, hreqs⟩
      have hself : h.OnCourse proxy := by
        apply Handler.act_onCourse hact ((gauged_act_iff hi hgauged).mp hgauged')
        · exact fun hr => hok.2 ⟨h, hi, hr⟩
        · intro st hst
          subst hst
          have hlt := (List.getElem?_eq_some_iff.mp hi).1
          exact hcourse _ (List.mem_set hlt { h with stage := st })
      intro g hg
      rcases mem_of_replaced hi hg stage with rfl | hg
      · exact hself
      · exact hcourse g hg

end RequestMetrics

/-- Requests that are quiet keep the gauge with the running requests in every state of a run; and a
run that leaves no request behind has the total of its requests and the gauge right in every state
exactly when all of them are quiet. -/
theorem request_metrics_iff {proxy : Proxy} {es : List MetricsEvent} {c : RequestMetrics}
    (h : Run (RequestMetrics.step proxy) anyStep RequestMetrics.idle es c) :
    ((∀ req ∈ requests es, proxy.Quiet req) →
      Run (RequestMetrics.step proxy)
        (Run.keeping (RequestMetrics.step proxy) RequestMetrics.Gauged) RequestMetrics.idle es c) ∧
    (c.handlers = [] →
      (c.counters.httpRequestsTotal = (requests es).length ∧
        Run (RequestMetrics.step proxy)
          (Run.keeping (RequestMetrics.step proxy) RequestMetrics.Gauged) RequestMetrics.idle es c ↔
        ∀ req ∈ requests es, proxy.Quiet req)) := by
  have hquiet : RequestMetrics.AllQuiet proxy RequestMetrics.idle := by
    intro h hh
    simp [RequestMetrics.idle] at hh
  have hgauged : RequestMetrics.idle.Gauged := rfl
  obtain ⟨_, htally⟩ := RequestMetrics.tally_of_run h
  refine ⟨fun hreqs => (RequestMetrics.run_of_quiet h hquiet hgauged hreqs).1, ?_⟩
  intro hend
  have hidle : RequestMetrics.idle.tally = 0 := rfl
  have hlast : c.tally = c.counters.httpRequestsTotal := by
    unfold RequestMetrics.tally
    rw [hend]
    rfl
  rw [hidle, hlast, Nat.zero_add] at htally
  constructor
  · rintro ⟨htotal, hkeep⟩
    exact (RequestMetrics.onCourse_of_run (hkeep.both (htally.mp htotal)) hgauged hend).2
  · intro hreqs
    obtain ⟨hkeep, hnots⟩ := RequestMetrics.run_of_quiet h hquiet hgauged hreqs
    exact ⟨htally.mpr hnots, hkeep⟩

/-- The statements of the first handler, until it is gone. -/
def statements (turns n : Nat) : List MetricsEvent := List.replicate n (.act 0 turns)

/-- A health check, which is counted once. -/
theorem request_metrics_iff_health_check : ∃ (proxy : Proxy) (env : Surroundings)
    (c : RequestMetrics),
    Proxy.ofConfig plainCrates (plainConfig []) = .ok proxy ∧
    Run (RequestMetrics.step proxy) anyStep RequestMetrics.idle
      (.receive env (getRequest "/health".toList []) :: statements 0 7) c ∧
    c.handlers = [] ∧ c.counters.httpRequestsTotal = 1 ∧
    Run (RequestMetrics.step proxy)
      (Run.keeping (RequestMetrics.step proxy) RequestMetrics.Gauged) RequestMetrics.idle
      (.receive env (getRequest "/health".toList []) :: statements 0 7) c := by
  have hmetrics : ∀ {proxy : Proxy} {es : List MetricsEvent} {c : RequestMetrics},
      Run (RequestMetrics.step proxy) anyStep RequestMetrics.idle es c → c.handlers = [] →
      (∀ req ∈ requests es, proxy.Quiet req) →
      c.counters.httpRequestsTotal = (requests es).length ∧ Run (RequestMetrics.step proxy)
        (Run.keeping (RequestMetrics.step proxy) RequestMetrics.Gauged) RequestMetrics.idle es c :=
    fun h hend => ((request_metrics_iff h).2 hend).mpr
  have hrun : ∃ proxy env c, Proxy.ofConfig plainCrates (plainConfig []) = .ok proxy ∧
      proxy.botDetector = none ∧
      Run (RequestMetrics.step proxy) anyStep RequestMetrics.idle
        (.receive env (getRequest "/health".toList []) :: statements 0 7) c ∧ c.handlers = [] :=
    ⟨_, plainSurroundings [] (fun _ => plainRound .timedOut), _, rfl, rfl,
      .cons trivial rfl (.cons trivial rfl (.cons trivial rfl (.cons trivial rfl
        (.cons trivial rfl (.cons trivial rfl (.cons trivial rfl
          (.cons trivial rfl (.nil _)))))))), rfl⟩
  obtain ⟨proxy, env, c, hproxy, hbot, hrun, hend⟩ := hrun
  obtain ⟨htotal, hgauge⟩ := hmetrics hrun hend (by
    intro req hreq
    obtain rfl : req = getRequest "/health".toList [] := by
      simpa [requests, statements, MetricsEvent.request] using hreq
    exact ⟨by simp [Proxy.rejectsBot, hbot], .inr (by decide)⟩)
  exact ⟨proxy, env, c, hproxy, hrun, hend, htotal, hgauge⟩

/-- The only request, which is answered by its upstream, is counted twice, and stays in the
gauge. -/
theorem proxied_request_counted_twice : ∃ (proxy : Proxy) (env : Surroundings)
    (c : RequestMetrics),
    Proxy.ofConfig plainCrates
      (plainConfig [plainTarget "/api".toList ["http://localhost:5001".toList]]) = .ok proxy ∧
    env.targetOrder = proxy.targetMap.entries ∧
    Run (RequestMetrics.step proxy) anyStep RequestMetrics.idle
      (.receive env (plainRequest "/api/users".toList [] []) :: statements 1 10) c ∧
    c.handlers.length = 0 ∧ c.counters = ⟨0, 2, 1⟩ :=
  ⟨_, plainSurroundings _ (fun _ => plainRound (.response ⟨200, [], Body.empty⟩)), _, rfl, rfl,
    .cons trivial rfl (.cons trivial rfl (.cons trivial rfl (.cons trivial rfl (.cons trivial rfl
      (.cons trivial rfl (.cons trivial rfl (.cons trivial rfl (.cons trivial rfl
        (.cons trivial rfl (.cons trivial rfl (.nil _))))))))))), rfl, rfl⟩

end Road7
