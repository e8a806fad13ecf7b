import Road7.Server

namespace Road7

/-- How far the shutdown has come: no signal yet; waiting, since a moment and asleep until another;
over, by force or not. -/
inductive ShutdownPhase where
  | serving
  | waiting (started wake : Nat)
  | over (forced : Bool)
deriving DecidableEq, Repr

/-- The server until the wait of its shutdown is over. -/
structure ClosingServer where
  server : Server
  phase : ShutdownPhase

inductive ClosingEvent where
  | request (e : ServerEvent)
  | interrupt (now : Nat)
  | poll (now : Nat)

def ClosingEvent.ofServer : ClosingEvent → Option ServerEvent
  | .request e => some e
  | _ => none

def serverEvents (es : List ClosingEvent) : List ServerEvent := es.filterMap ClosingEvent.ofServer

def ClosingEvent.isPoll : ClosingEvent → Bool
  | .poll _ => true
  | _ => false

def polls (es : List ClosingEvent) : Nat := es.countP ClosingEvent.isPoll

/-- `sleep(Duration::from_millis(100))`. -/
def pollInterval : Nat := 100000000

namespace ClosingServer

def idle : ClosingServer := ⟨Server.idle, .serving⟩

/-- The loop of the graceful shutdown beside the handlers; new ones start as long as it waits. -/
def step (proxy : Proxy) (c : ClosingServer) : ClosingEvent → Option ClosingServer
  | .request e =>
    match c.phase with
    | .over _ => none
    | _ => (c.server.step proxy e).map fun server => ⟨server, c.phase⟩
  | .interrupt now =>
    match c.phase with
    | .serving => some ⟨c.server, .waiting now now⟩
    | _ => none
  | .poll now =>
    match c.phase with
    | .waiting started wake =>
      if wake ≤ now then
        some ⟨c.server,
          if c.server.awaitsRequests (now - started) then .waiting started (now + pollInterval)
          else .over (decide (0 < c.server.ongoingRequests))⟩
      else none
    | _ => none

variable {proxy : Proxy} {c d : ClosingServer} {e : ClosingEvent} {es : List ClosingEvent}

/-- What a step does. -/
inductive Stepped (proxy : Proxy) (c : ClosingServer) : ClosingEvent → ClosingServer → Prop
  | request {e : ServerEvent} {server : Server} : c.server.step proxy e = some server →
      (∀ forced, c.phase ≠ .over forced) → Stepped proxy c (.request e) ⟨server, c.phase⟩
  | interrupt {now : Nat} : c.phase = .serving →
      Stepped proxy c (.interrupt now) ⟨c.server, .waiting now now⟩
  | wait {now started wake : Nat} : c.phase = .waiting started wake → wake ≤ now →
      now - started ≤ shutdownTimeout →
      Stepped proxy c (.poll now) ⟨c.server, .waiting started (now + pollInterval)⟩
  | finish {now started wake : Nat} : c.phase = .waiting started wake → wake ≤ now →
      (0 < c.server.ongoingRequests → shutdownTimeout < now - started) →
      Stepped proxy c (.poll now) ⟨c.server, .over (decide (0 < c.server.ongoingRequests))⟩

theorem stepped (h : step proxy c e = some d) : Stepped proxy c e d := by
  cases e with
  | request e =>
    simp only [step] at h
    split at h
    next => simp at h
    next hover =>
      obtain ⟨server, hserver, rfl⟩ := Option.map_eq_some_iff.mp h
      exact .request hserver hover
  | interrupt now =>
    simp only [step] at h
    split at h
    next hphase =>
      cases h
      exact .interrupt hphase
    next => simp at h
  | poll now =>
    simp only [step] at h
    split at h
    next started wake hphase =>
      obtain ⟨hwake, h⟩ := Option.ite_none_right_eq_some.mp h
      cases h
      have hawaits : c.server.awaitsRequests (now - started) = true ↔
          0 < c.server.ongoingRequests ∧ now - started ≤ shutdownTimeout := by
        simp [Server.awaitsRequests]
      split
      next hwait => exact .wait hphase hwake (hawaits.mp hwait).2
      next hdone =>
        refine .finish hphase hwake fun hpos => ?_
        by_contra hlate
        exact hdone (hawaits.mpr ⟨hpos, Nat.not_lt.mp hlate⟩)
    next => simp at h

/-- The requests are handled as by the server alone. -/
theorem server_run {c d : ClosingServer} (h : Run (step proxy) anyStep c es d) :
    Run (Server.step proxy) anyStep c.server (serverEvents es) d.server := by
  induction h with
  | nil c => exact .nil c.server
  | cons _ hs _ ih =>
    cases stepped hs with
    | request hserver _ => exact .cons trivial hserver ih
    | interrupt _ => exact ih
    | wait _ _ _ => exact ih
    | finish _ _ _ => exact ih

/-- The polls that have been made, by the time that they have taken. -/
def Polled (c : ClosingServer) (n : Nat) : Prop :=
  match c.phase with
  | .serving => n = 0
  | .waiting started wake => started + n * pollInterval ≤ wake ∧ n ≤ 301
  | .over _ => n ≤ 302

theorem polled_step {n : Nat} (h : c.Polled n) (hs : step proxy c e = some d) :
    d.Polled (n + if e.isPoll then 1 else 0) := by
  cases stepped hs with
  | request _ _ => exact h
  | interrupt hphase =>
    rw [Polled, hphase] at h
    subst h
    exact ⟨by simp [ClosingEvent.isPoll], by simp [ClosingEvent.isPoll]⟩
  | @wait now started wake hphase hwake htime =>
    rw [Polled, hphase] at h
    obtain ⟨hle, _⟩ := h
    have hlimit : shutdownTimeout = 300 * pollInterval := rfl
    simp only [Polled, ClosingEvent.isPoll, if_true, pollInterval] at hle hlimit ⊢
    omega
  | finish hphase _ _ =>
    rw [Polled, hphase] at h
    exact Nat.succ_le_succ h.2

theorem polled_run {c d : ClosingServer} {n : Nat} (h : Run (step proxy) anyStep c es d) :
    c.Polled n → d.Polled (n + polls es) := by
  induction h generalizing n with
  | nil => exact id
  | @cons c m d e es _ hs _ ih =>
    intro hc
    have hm := ih (polled_step hc hs)
    rwa [Nat.add_assoc, Nat.add_comm _ (polls es), ← show polls (e :: es) = polls es +
      if e.isPoll then 1 else 0 from List.countP_cons] at hm

/-- A wait that is over has found the counter as it says. -/
def Forced (c : ClosingServer) : Prop :=
  ∀ forced, c.phase = .over forced → forced = decide (0 < c.server.ongoingRequests)

theorem forced_step (hs : step proxy c e = some d) : d.Forced := by
  intro forced hover
  cases stepped hs with
  | request _ hnot => exact absurd hover (hnot forced)
  | interrupt _ => cases hover
  | wait _ _ _ => cases hover
  | finish _ _ _ =>
    cases hover
    rfl

end ClosingServer

/-- The wait at shutdown makes at most 302 polls. It ends without force exactly when, at its last
poll, no handler is running and none has ever ended by the rejection of a bot or by a panic. -/
theorem shutdown_wait_ends {proxy : Proxy} {es : List ClosingEvent} {c : ClosingServer}
    (h : Run (ClosingServer.step proxy) anyStep ClosingServer.idle es c) :
    polls es ≤ 302 ∧ (polls es = 302 → ∃ forced, c.phase = .over forced) ∧
      ∀ forced, c.phase = .over forced →
        (forced = false ↔ c.server.tasks = [] ∧
          Run (Server.step proxy) (Server.Restores proxy) Server.idle (serverEvents es)
            c.server) := by
  have hpolled : c.Polled (0 + polls es) := ClosingServer.polled_run h rfl
  rw [Nat.zero_add] at hpolled
  unfold ClosingServer.Polled at hpolled
  refine ⟨?_, ?_, ?_⟩
  · split at hpolled
    next => omega
    next => omega
    next => exact hpolled
  · intro hlast
    split at hpolled
    next => omega
    next => omega
    next forced hover => exact ⟨forced, hover⟩
  · intro forced hover
    have hforced : c.Forced := h.invariant (P := ClosingServer.Forced)
      (fun _ _ hs => ClosingServer.forced_step hs) (fun _ hserving => by cases hserving)
    obtain ⟨hle, hiff⟩ := Server.counter_of_run (ClosingServer.server_run h) (Nat.le_refl _)
    have hcount : c.server.tasks.length ≤ c.server.ongoingRequests ∧
        (c.server.ongoingRequests = c.server.tasks.length ↔
          Run (Server.step proxy) (Server.Restores proxy) Server.idle (serverEvents es)
            c.server) := by
      simpa [ClosingServer.idle, Server.idle] using And.intro hle hiff
    rw [hforced forced hover, ← hcount.2, ← List.length_eq_zero_iff, decide_eq_false_iff_not]
    have hbound := hcount.1
    omega

/-- A request that is answered during the wait. -/
theorem shutdown_wait_ends_one_request : ∃ (proxy : Proxy) (env : Surroundings)
    (c : ClosingServer),
    Proxy.ofConfig plainCrates (plainConfig []) = .ok proxy ∧
    Run (ClosingServer.step proxy) anyStep ClosingServer.idle
      [.request (.start env (getRequest "/health".toList [])), .request (.screen 0), .interrupt 0,
        .poll 0, .request (.finish 0 0), .poll pollInterval] c ∧
    c.phase = .over false ∧
    Run (Server.step proxy) (Server.Restores proxy) Server.idle
      [.start env (getRequest "/health".toList []), .screen 0, .finish 0 0] c.server := by
  have hends : ∀ {proxy : Proxy} {es : List ClosingEvent} {c : ClosingServer},
      Run (ClosingServer.step proxy) anyStep ClosingServer.idle es c → c.phase = .over false →
      Run (ClosingServer.step proxy) anyStep ClosingServer.idle es c ∧ c.phase = .over false ∧
        Run (Server.step proxy) (Server.Restores proxy) Server.idle (serverEvents es) c.server :=
    fun h hover => ⟨h, hover, (((shutdown_wait_ends h).2.2 false hover).mp rfl).2⟩
  exact ⟨_, plainSurroundings [] (fun _ => plainRound .timedOut), _, rfl,
    hends (.cons trivial rfl (.cons trivial rfl (.cons trivial rfl (.cons trivial rfl
      (.cons trivial rfl (.cons trivial rfl (.nil _))))))) rfl⟩

end Road7
