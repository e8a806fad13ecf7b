import Road7.Server
import Road7.StaticFiles

namespace Road7

/-- The atomic counter of the state, the counter `http_requests_total` and the gauge
`ongoing_requests` of the metrics. -/
structure Counters where
  ongoingRequests : Nat
  httpRequestsTotal : Nat
  ongoingGauge : Int
deriving DecidableEq, Repr

/-- What the handler of a request has just done; with the value that it has read to set the gauge
by. -/
inductive HandlerStage where
  | received
  | added
  | counted
  | entered
  | proxying
  | recounted
  | loaded (ongoing : Nat)
  | serving
  | returned
  | subtracted
deriving DecidableEq, Repr

structure Handler where
  env : Surroundings
  req : Request
  stage : HandlerStage

/-- A panic ends the handler; else it goes on behind `proxy_request`. -/
def Ending.stage : Ending → Option HandlerStage
  | .panicked _ => none
  | _ => some .returned

/-- `proxy_request` up to its own count of the request: the paths of the proxy itself come before
it, the static files behind. -/
def Proxy.comeToCount (proxy : Proxy) (env : Surroundings) (req : Request) : Progress Unit := do
  let req ← proxy.validate req
  ownPaths { env with files := fun _ => .missing } req.uri.path

/-- One statement of the handler on the metrics, and what the handler comes to. -/
def Handler.act (proxy : Proxy) (h : Handler) (turns : Nat) (m : Counters) :
    Option (Counters × Option HandlerStage) :=
  match h.stage with
  | .received => some ({ m with ongoingRequests := m.ongoingRequests + 1 }, some .added)
  | .added => some ({ m with httpRequestsTotal := m.httpRequestsTotal + 1 }, some .counted)
  | .counted => some ({ m with ongoingGauge := m.ongoingGauge + 1 }, some .entered)
  | .entered => some (m, if proxy.rejectsBot h.req then none else some .proxying)
  | .proxying =>
    match proxy.comeToCount h.env h.req with
    | .going _ => some ({ m with httpRequestsTotal := m.httpRequestsTotal + 1 }, some .recounted)
    | .ended e => some (m, e.stage)
    | .blocked => none
  | .recounted => some (m, some (.loaded m.ongoingRequests))
  | .loaded ongoing => some ({ m with ongoingGauge := ongoing + 1 }, some .serving)
  | .serving =>
    match proxy.proxyRequest h.env h.req turns with
    | .ended e => some (m, e.stage)
    | _ => none
  | .returned => some ({ m with ongoingRequests := m.ongoingRequests - 1 }, some .subtracted)
  | .subtracted => some ({ m with ongoingGauge := m.ongoingGauge - 1 }, none)

/-- The request is counted in the gauge and has not come to the end of its handler. -/
def HandlerStage.isRunning : HandlerStage → Bool
  | .received | .added | .counted => false
  | _ => true

/-- The handler has not come to the second count. -/
def HandlerStage.isEarly : HandlerStage → Bool
  | .recounted | .loaded _ | .serving => false
  | _ => true

/-- The handler has not counted its request in the total. -/
def HandlerStage.isPending : HandlerStage → Bool
  | .received | .added => true
  | _ => false

/-- The request does not come to the second count. -/
def Proxy.AnswersEarly (proxy : Proxy) (req : Request) : Prop :=
  (∃ err, (validateRequest proxy.crates.clean req).1 = .error err) ∨ req.uri.path ∈ answeredPaths

/-- The request is handled by statements that give back what they take. -/
def Proxy.Quiet (proxy : Proxy) (req : Request) : Prop :=
  proxy.rejectsBot req = false ∧ proxy.AnswersEarly req

namespace Proxy

variable {proxy : Proxy} {env : Surroundings} {req : Request}

/-- Without static files only the paths of the proxy itself are answered. -/
theorem ownPaths_without_files (env : Surroundings) (path : Str) :
    ownPaths { env with files := fun _ => .missing } path =
      if path ∈ answeredPaths then ownPaths env path else .going () := by
  by_cases hmem : path ∈ answeredPaths
  · rw [if_pos hmem]
    simp only [answeredPaths, List.mem_cons, List.not_mem_nil, or_false] at hmem
    rcases hmem with rfl | rfl | rfl
    · rfl
    · rfl
    · rfl
  · rw [if_neg hmem]
    simp only [answeredPaths, List.mem_cons, List.not_mem_nil, or_false, not_or] at hmem
    obtain ⟨hhealth, hmetrics, hlimiter⟩ := hmem
    unfold ownPaths
    rw [if_neg hhealth, if_neg hmetrics, if_neg hlimiter]

theorem ownPaths_answered (env : Surroundings) {path : Str} (h : path ∈ answeredPaths) :
    ∃ resp, ownPaths env path = .ended (.ownReply resp) := by
  unfold ownPaths textReply
  simp only [answeredPaths, List.mem_cons, List.not_mem_nil, or_false] at h
  rcases h with rfl | rfl | rfl
  · exact ⟨_, rfl⟩
  · exact ⟨_, rfl⟩
  · exact ⟨_, rfl⟩

/-- The body that a valid request is measured by has been read before. -/
theorem validate_eq (proxy : Proxy) (req : Request) :
    (∃ err, (validateRequest proxy.crates.clean req).1 = .error err ∧
      proxy.validate req = .refuse (.badRequest err)) ∨
    ((validateRequest proxy.crates.clean req).1 = .ok () ∧
      proxy.validate req = .going req.bodyRead) := by
  unfold validate
  cases hvalid : validateRequest proxy.crates.clean req with
  | mk result req' =>
    cases result with
    | error err => exact .inl ⟨err, rfl, rfl⟩
    | ok _ =>
      obtain ⟨_, rfl⟩ := validateRequest_ok hvalid
      exact .inr ⟨rfl, rfl⟩

/-- What ends before the count ends the request. -/
theorem proxyRequest_of_comeToCount {e : Ending} (h : proxy.comeToCount env req = .ended e)
    (n : Nat) : proxy.proxyRequest env req n = .ended e := by
  have hreceive : proxy.receive env req = .ended e := by
    unfold receive
    rcases Progress.bind_eq_ended.mp h with h | ⟨r, hvalid, h⟩
    · rw [h]
      rfl
    · rw [ownPaths_without_files] at h
      split at h
      next =>
        rw [hvalid, Progress.going_bind, h]
        rfl
      next => simp at h
  unfold proxyRequest begin
  rw [hreceive]
  rfl

theorem comeToCount_of_answersEarly (env : Surroundings) (h : proxy.AnswersEarly req) :
    ∃ e, proxy.comeToCount env req = .ended e ∧ e.stage = some .returned := by
  unfold comeToCount
  rcases validate_eq proxy req with ⟨err, _, hvalid⟩ | ⟨hok, hvalid⟩
  · rw [hvalid]
    exact ⟨_, rfl, rfl⟩
  · rcases h with ⟨err, herr⟩ | hpath
    · rw [hok] at herr
      cases herr
    · obtain ⟨resp, hresp⟩ := ownPaths_answered env hpath
      have hearly : req.bodyRead.uri.path ∈ answeredPaths := hpath
      rw [hvalid, Progress.going_bind, ownPaths_without_files, if_pos hearly]
      exact ⟨_, hresp, rfl⟩

theorem comeToCount_of_not_answersEarly (env : Surroundings) (h : ¬proxy.AnswersEarly req) :
    proxy.comeToCount env req = .going () := by
  unfold comeToCount
  rcases validate_eq proxy req with ⟨err, herr, _⟩ | ⟨_, hvalid⟩
  · exact absurd (.inl ⟨err, herr⟩) h
  · have hpath : req.uri.path ∉ answeredPaths := fun hpath => h (.inr hpath)
    rw [hvalid, Progress.going_bind, ownPaths_without_files]
    exact if_neg hpath

end Proxy

namespace Handler

variable {proxy : Proxy} {h : Handler} {turns : Nat} {m m' : Counters}
  {stage : Option HandlerStage}

/-- The handler is about to count its request a second time. -/
def Recounts (proxy : Proxy) (h : Handler) : Prop :=
  h.stage = .proxying ∧ ¬proxy.AnswersEarly h.req

/-- Of a handler that is gone nothing is counted. -/
def share (p : HandlerStage → Bool) (stage : Option HandlerStage) : Nat :=
  stage.elim 0 (fun stage => (p stage).toNat)

/-- The total goes up with the requests that it has to count, but for the second counts. -/
theorem act_total (hact : h.act proxy turns m = some (m', stage)) :
    (¬h.Recounts proxy ∧ m'.httpRequestsTotal + share HandlerStage.isPending stage =
      m.httpRequestsTotal + h.stage.isPending.toNat) ∨
    (h.Recounts proxy ∧ m'.httpRequestsTotal + share HandlerStage.isPending stage =
      m.httpRequestsTotal + h.stage.isPending.toNat + 1) := by
  unfold act at hact
  cases hstage : h.stage with
  | proxying =>
    simp only [hstage] at hact
    by_cases hearly : proxy.AnswersEarly h.req
    · obtain ⟨e, hended, he⟩ := Proxy.comeToCount_of_answersEarly h.env hearly
      rw [hended] at hact
      dsimp only at hact
      rw [he] at hact
      cases hact
      exact .inl ⟨fun hr => hr.2 hearly, rfl⟩
    · rw [Proxy.comeToCount_of_not_answersEarly h.env hearly] at hact
      cases hact
      exact .inr ⟨⟨hstage, hearly⟩, rfl⟩
  | entered =>
    simp only [hstage] at hact
    cases hact
    refine .inl ⟨fun hr => by simp [Recounts, hstage] at hr, ?_⟩
    split
    next => rfl
    next => rfl
  | serving =>
    simp only [hstage] at hact
    split at hact
    next e _ =>
      cases hact
      refine .inl ⟨fun hr => by simp [Recounts, hstage] at hr, ?_⟩
      cases e with
      | panicked p => rfl
      | _ => rfl
    next => simp at hact
  | added =>
    simp only [hstage] at hact
    cases hact
    exact .inl ⟨fun hr => by simp [Recounts, hstage] at hr, by simp [share, HandlerStage.isPending]⟩
  | _ =>
    simp only [hstage] at hact
    cases hact
    exact .inl ⟨fun hr => by simp [Recounts, hstage] at hr, rfl⟩

/-- A quiet request keeps the gauge with the running requests. -/
theorem act_quiet (hquiet : proxy.Quiet h.req) (hearly : h.stage.isEarly = true)
    (hact : h.act proxy turns m = some (m', stage)) :
    m'.ongoingGauge + h.stage.isRunning.toNat =
      m.ongoingGauge + share HandlerStage.isRunning stage ∧
    ∀ st, stage = some st → st.isEarly = true := by
  obtain ⟨hbot, hanswers⟩ := hquiet
  unfold act at hact
  cases hstage : h.stage with
  | proxying =>
    obtain ⟨e, hended, he⟩ := Proxy.comeToCount_of_answersEarly h.env hanswers
    simp only [hstage, hended, he] at hact
    cases hact
    exact ⟨rfl, fun st hst => by cases hst; rfl⟩
  | entered =>
    simp only [hstage, hbot] at hact
    cases hact
    exact ⟨rfl, fun st hst => by cases hst; rfl⟩
  | recounted => simp [hstage, HandlerStage.isEarly] at hearly
  | loaded ongoing => simp [hstage, HandlerStage.isEarly] at hearly
  | serving => simp [hstage, HandlerStage.isEarly] at hearly
  | counted =>
    simp only [hstage] at hact
    cases hact
    exact ⟨by simp [share, HandlerStage.isRunning], fun st hst => by cases hst; rfl⟩
  | subtracted =>
    simp only [hstage] at hact
    cases hact
    exact ⟨by simp [share, HandlerStage.isRunning], fun st hst => by cases hst⟩
  | _ =>
    simp only [hstage] at hact
    cases hact
    exact ⟨rfl, fun st hst => by cases hst; rfl⟩

/-- What has to hold of the request for the rest of its handler to keep the metrics. -/
def OnCourse (proxy : Proxy) (h : Handler) : Prop :=
  match h.stage with
  | .received | .added | .counted | .entered => proxy.Quiet h.req
  | .proxying => proxy.AnswersEarly h.req
  | _ => True

/-- A statement that keeps the metrics, of a handler that goes on to keep them. -/
theorem act_onCourse (hact : h.act proxy turns m = some (m', stage))
    (hgauge : m'.ongoingGauge + h.stage.isRunning.toNat =
      m.ongoingGauge + share HandlerStage.isRunning stage)
    (hrecounts : ¬h.Recounts proxy)
    (hnext : ∀ st, stage = some st → OnCourse proxy { h with stage := st }) :
    h.OnCourse proxy := by
  unfold act at hact
  unfold OnCourse
  cases hstage : h.stage with
  | received =>
    simp only [hstage] at hact
    cases hact
    exact hnext _ rfl
  | added =>
    simp only [hstage] at hact
    cases hact
    exact hnext _ rfl
  | counted =>
    simp only [hstage] at hact
    cases hact
    exact hnext _ rfl
  | entered =>
    simp only [hstage] at hact
    cases hact
    cases hbot : proxy.rejectsBot h.req with
    | true =>
      -- The answer to a bot leaves the request in the gauge.
      rw [hbot, if_pos rfl, hstage] at hgauge
      have hone : m.ongoingGauge + 1 = m.ongoingGauge + 0 := hgauge
      omega
    | false =>
      have hanswers : proxy.AnswersEarly h.req :=
        hnext .proxying (by rw [hbot]; rfl)
      exact ⟨hbot, hanswers⟩
  | proxying =>
    by_contra hanswers
    exact hrecounts ⟨hstage, hanswers⟩
  | _ => trivial

end Handler

end Road7
