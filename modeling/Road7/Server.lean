import Road7.BotDetector
import Road7.PlainProxy
import Road7.Runs

namespace Road7

/-- A request whose handler has started: its bot check is ahead, or it is in
`proxy_request`. -/
inductive Task where
  | received (env : Surroundings) (req : Request)
  | proxying (env : Surroundings) (req : Request)

structure Server where
  ongoingRequests : Nat
  tasks : List Task

/-- A handler starts; one makes its bot check; one comes back from `proxy_request` after some
turns of its retry loop, or panics in it. -/
inductive ServerEvent where
  | start (env : Surroundings) (req : Request)
  | screen (i : Nat)
  | finish (i turns : Nat)

def Proxy.rejectsBot (proxy : Proxy) (req : Request) : Bool :=
  proxy.botDetector.any (fun config => isBotRequest proxy.crates.regex req config)

def shutdownTimeout : Nat := fromSecs 30

namespace Server

def idle : Server := ⟨0, []⟩

/-- The statements of the handler: the counter goes up first, the answer to a bot is returned
as it is, and the counter goes down when `proxy_request` has returned. A panic ends the task. -/
def step (proxy : Proxy) (s : Server) : ServerEvent → Option Server
  | .start env req => some ⟨s.ongoingRequests + 1, .received env req :: s.tasks⟩
  | .screen i =>
    match s.tasks[i]? with
    | some (.received env req) =>
      if proxy.rejectsBot req then some ⟨s.ongoingRequests, s.tasks.eraseIdx i⟩
      else some ⟨s.ongoingRequests, s.tasks.set i (.proxying env req)⟩
    | _ => none
  | .finish i turns =>
    match s.tasks[i]? with
    | some (.proxying env req) =>
      match proxy.proxyRequest env req turns with
      | .ended (.panicked _) => some ⟨s.ongoingRequests, s.tasks.eraseIdx i⟩
      | .ended _ => some ⟨s.ongoingRequests - 1, s.tasks.eraseIdx i⟩
      | _ => none
    | _ => none

def awaitsRequests (s : Server) (elapsed : Nat) : Bool :=
  s.ongoingRequests > 0 && !(elapsed > shutdownTimeout)

/-- The condition that the step is no rejection of a bot and no panic. -/
def Restores (proxy : Proxy) (s : Server) : ServerEvent → Prop
  | .start _ _ => True
  | .screen i => ∀ env req, s.tasks[i]? = some (.received env req) →
      proxy.rejectsBot req = false
  | .finish i turns => ∀ env req, s.tasks[i]? = some (.proxying env req) →
      ∀ p, proxy.proxyRequest env req turns ≠ .ended (.panicked p)

/-- A step keeps the counter with the running handlers, or leaves it one too high. -/
theorem step_counter {proxy : Proxy} {s t : Server} {e : ServerEvent}
    (h : step proxy s e = some t) (hle : s.tasks.length ≤ s.ongoingRequests) :
    (Restores proxy s e ∧
      t.ongoingRequests + s.tasks.length = s.ongoingRequests + t.tasks.length) ∨
    (¬Restores proxy s e ∧
      t.ongoingRequests + s.tasks.length = s.ongoingRequests + t.tasks.length + 1) := by
  cases e with
  | start env req =>
    cases h
    exact .inl ⟨trivial, by simp only [List.length_cons]; omega⟩
  | screen i =>
    simp only [step] at h
    split at h
    next env req hi =>
      have hlt := (List.getElem?_eq_some_iff.mp hi).1
      split at h
      next hbot =>
        cases h
        refine .inr ⟨fun hr => by simp [hr env req hi] at hbot, ?_⟩
        simp only [List.length_eraseIdx, hlt, if_true]
        omega
      next hbot =>
        cases h
        refine .inl ⟨fun env' req' hi' => ?_, by simp⟩
        cases hi.symm.trans hi'
        simpa using hbot
    next => simp at h
  | finish i turns =>
    simp only [step] at h
    split at h
    next env req hi =>
      have hlt := (List.getElem?_eq_some_iff.mp hi).1
      split at h
      next p hp =>
        cases h
        refine .inr ⟨fun hr => hr env req hi p hp, ?_⟩
        simp only [List.length_eraseIdx, hlt, if_true]
        omega
      next e hnot he =>
        cases h
        refine .inl ⟨fun env' req' hi' p hp => ?_, ?_⟩
        · cases hi.symm.trans hi'
          exact hnot p (Progress.ended.inj (he.symm.trans hp))
        · simp only [List.length_eraseIdx, hlt, if_true]
          omega
      next => simp at h
    next => simp at h

theorem counter_of_run {proxy : Proxy} {s t : Server} {es : List ServerEvent}
    (h : Run (step proxy) anyStep s es t) (hle : s.tasks.length ≤ s.ongoingRequests) :
    s.ongoingRequests + t.tasks.length ≤ t.ongoingRequests + s.tasks.length ∧
      (t.ongoingRequests + s.tasks.length = s.ongoingRequests + t.tasks.length ↔
        Run (step proxy) (Restores proxy) s es t) := by
  have hstep : ∀ {s e t}, s.tasks.length ≤ s.ongoingRequests → anyStep s e →
      step proxy s e = some t → t.tasks.length ≤ t.ongoingRequests ∧
        (Restores proxy s e ∧ t.ongoingRequests - t.tasks.length =
          s.ongoingRequests - s.tasks.length + 0 ∨
        ¬Restores proxy s e ∧ t.ongoingRequests - t.tasks.length =
          s.ongoingRequests - s.tasks.length + 0 + 1) := by
    intro s e t hle _ hstep
    rcases step_counter hstep hle with ⟨hr, hm⟩ | ⟨hn, hm⟩
    · exact ⟨by omega, .inl ⟨hr, by omega⟩⟩
    · exact ⟨by omega, .inr ⟨hn, by omega⟩⟩
  -- The measure is how far the counter is above the handlers, and no step is due to raise it.
  obtain ⟨hle', hge, hiff⟩ := Run.measure_iff (fun s => s.tasks.length ≤ s.ongoingRequests)
    (fun s => s.ongoingRequests - s.tasks.length) (fun _ => 0) hstep h hle
  have hzero : (es.map fun _ => 0).sum = 0 := by simp
  rw [hzero, Nat.add_zero] at hge hiff
  refine ⟨by omega, Iff.trans ?_ hiff⟩
  omega

end Server

/-- The counter of the ongoing requests is the number of running handlers exactly when none
has ended by the rejection of a bot or by a panic; the wait at shutdown then ends with the
last handler. -/
theorem ongoing_requests_eq_iff {proxy : Proxy} {t : Server} {es : List ServerEvent}
    (h : Run (Server.step proxy) anyStep Server.idle es t) :
    (t.ongoingRequests = t.tasks.length ↔
      Run (Server.step proxy) (Server.Restores proxy) Server.idle es t) ∧
    (Run (Server.step proxy) (Server.Restores proxy) Server.idle es t → t.tasks = [] →
      ∀ elapsed, t.awaitsRequests elapsed = false) := by
  obtain ⟨_, hiff⟩ := Server.counter_of_run h (Nat.le_refl _)
  have heq : t.ongoingRequests = t.tasks.length ↔
      Run (Server.step proxy) (Server.Restores proxy) Server.idle es t := by
    simpa [Server.idle] using hiff
  refine ⟨heq, fun hrun hidle elapsed => ?_⟩
  have hzero := heq.mpr hrun
  simp [Server.awaitsRequests, hzero, hidle]

theorem ongoing_requests_eq_iff_one_reply : ∃ (proxy : Proxy) (env : Surroundings) (t : Server),
    Proxy.ofConfig plainCrates
      (plainConfig [plainTarget "/api".toList ["http://localhost:5001".toList]]) = .ok proxy ∧
    env.targetOrder = proxy.targetMap.entries ∧
    Run (Server.step proxy) (Server.Restores proxy) Server.idle
      [.start env (plainRequest "/api/users".toList [] []), .screen 0, .finish 0 1] t ∧
    t.ongoingRequests = t.tasks.length ∧ t.tasks = [] ∧
    ∀ elapsed, t.awaitsRequests elapsed = false := by
  have hscreen : ∀ {proxy : Proxy} (s : Server) (i : Nat), proxy.botDetector = none →
      s.Restores proxy (.screen i) := by
    intro proxy s i hnone env req _
    simp [Proxy.rejectsBot, hnone]
  have hfinish : ∀ {proxy : Proxy} {env : Surroundings} {req : Request} {resp : Response}
      (s : Server), s.tasks[0]? = some (.proxying env req) →
      proxy.proxyRequest env req 1 = .ended (.upstream resp) →
      s.Restores proxy (.finish 0 1) := by
    intro proxy env req resp s hs hreply env' req' hs' p
    cases hs.symm.trans hs'
    simp [hreply]
  have hcounter : ∀ {proxy : Proxy} {es : List ServerEvent} {t : Server},
      Run (Server.step proxy) (Server.Restores proxy) Server.idle es t → t.tasks = [] →
      Run (Server.step proxy) (Server.Restores proxy) Server.idle es t ∧
        t.ongoingRequests = t.tasks.length ∧ t.tasks = [] ∧
        ∀ elapsed, t.awaitsRequests elapsed = false := by
    intro proxy es t h hidle
    obtain ⟨hiff, hwait⟩ := ongoing_requests_eq_iff (h.mono fun _ _ _ => trivial)
    exact ⟨h, hiff.mpr h, hidle, hwait h hidle⟩
  exact ⟨_, plainSurroundings _ (fun _ => plainRound (.response ⟨200, [], Body.empty⟩)), _, rfl,
    rfl, hcounter (.cons trivial rfl (.cons (hscreen _ _ rfl) rfl
      (.cons (hfinish _ rfl rfl) rfl (.nil _)))) rfl⟩

def screeningConfig : ProxyConfig :=
  { plainConfig [plainTarget "/api".toList ["http://localhost:5001".toList]] with
    botDetector := some ⟨[], ["BadBot".toList], [], false⟩ }

/-- The rejected crawler stays in the counter, and the wait at shutdown goes on without a
request. -/
theorem rejected_bot_stays_counted :
    ∃ (proxy : Proxy) (env : Surroundings) (t : Server),
    Proxy.ofConfig plainCrates screeningConfig = .ok proxy ∧
    env.targetOrder = proxy.targetMap.entries ∧
    Run (Server.step proxy) anyStep Server.idle
      [.start env (plainRequest "/api/users".toList
        [(userAgentHeader, utf8 "BadBot/1.0".toList)] []), .screen 0] t ∧
    t.tasks = [] ∧ t.ongoingRequests = 1 ∧ t.awaitsRequests 0 = true :=
  ⟨_, plainSurroundings _ (fun _ => plainRound .timedOut), _, rfl, rfl,
    .cons trivial rfl (.cons trivial rfl (.nil _)), rfl, rfl, rfl⟩

end Road7
