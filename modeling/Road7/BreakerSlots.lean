import Road7.BreakerClients
import Road7.PlainProxy

namespace Road7

/-- A half-open breaker without a free slot: it admits nothing, at any time. -/
def CircuitBreaker.Wedged (b : CircuitBreaker) : Prop :=
  b.state = .halfOpen ∧ b.halfOpenMaxAttempts ≤ b.halfOpenAttempts

theorem CircuitBreaker.wedged_iff (b : CircuitBreaker) :
    b.Wedged ↔ ∀ now, (b.canAttempt now).1 = false := by
  constructor
  · rintro ⟨hs, hfull⟩ now
    rw [canAttempt_halfOpen_full hs now hfull]
  · intro h
    have hlate := h b.openUntil
    rcases b.canAttempt_cases b.openUntil with
      ⟨_, he⟩ | ⟨_, hnow, _⟩ | ⟨_, _, he⟩ | ⟨_, _, he⟩ | ⟨hs, hfull, _⟩
    · simp [he] at hlate
    · exact absurd hnow (Nat.lt_irrefl _)
    · simp [he] at hlate
    · simp [he] at hlate
    · exact ⟨hs, hfull⟩

namespace BreakerSystem

/-- Outside the closed state the failures have reached the limit, and a half-open breaker has
its slots, and the request that opened the period, among the running ones. -/
structure SlotsHeld (s : BreakerSystem) : Prop where
  tripped : s.breaker.state ≠ .closed → s.breaker.maxFailures ≤ s.breaker.failureCount
  held : s.breaker.state = .halfOpen → s.breaker.halfOpenAttempts < s.inFlight

theorem start_slotsHeld (config : CircuitBreakerConfig) (now : Nat) :
    (start config now).SlotsHeld :=
  ⟨by simp [start, CircuitBreaker.new], by simp [start, CircuitBreaker.new]⟩

theorem SlotsHeld.recordFailure {s : BreakerSystem} (h : s.SlotsHeld) (now : Nat) (n : Nat) :
    (s.breaker.recordFailure now).state ≠ .halfOpen ∧
      SlotsHeld ⟨s.breaker.recordFailure now, n, now⟩ := by
  rcases Nat.lt_or_ge (s.breaker.failureCount + 1) s.breaker.maxFailures with hlt | hge
  · have hclosed : s.breaker.state = .closed := by
      by_cases hs : s.breaker.state = .closed
      · exact hs
      · have htripped := h.tripped hs
        omega
    have hstate := (CircuitBreaker.recordFailure_below now hlt).1.trans hclosed
    exact ⟨by simp [hstate], by simp [hstate], by simp [hstate]⟩
  · have hstate := CircuitBreaker.recordFailure_opens now hge
    exact ⟨by simp [hstate], by simpa [hstate] using hge, by simp [hstate]⟩

theorem SlotsHeld.attempt {s : BreakerSystem} (h : s.SlotsHeld) (now : Nat) :
    (s.effect (.attempt now)).SlotsHeld := by
  rcases s.breaker.canAttempt_cases now with
    ⟨hs, he⟩ | ⟨hs, _, he⟩ | ⟨hs, _, he⟩ | ⟨hs, _, he⟩ | ⟨hs, _, he⟩ <;>
    rw [effect_attempt he]
  · exact ⟨by simp [hs], by simp [hs]⟩
  · exact ⟨h.tripped, by simp [hs]⟩
  · exact ⟨fun _ => h.tripped (by simp [hs]), fun _ => Nat.succ_pos _⟩
  · exact ⟨h.tripped, fun _ => Nat.succ_lt_succ (h.held hs)⟩
  · exact ⟨h.tripped, h.held⟩

theorem recordSuccess_slotsHeld (b : CircuitBreaker) (n now : Nat) :
    SlotsHeld ⟨b.recordSuccess, n, now⟩ :=
  ⟨by simp [CircuitBreaker.recordSuccess], by simp [CircuitBreaker.recordSuccess]⟩

theorem SlotsHeld.effect {s : BreakerSystem} (h : s.SlotsHeld) {e : ProtocolEvent}
    (hcrash : s.NoCrash e) : (s.effect e).SlotsHeld := by
  cases e with
  | attempt now => exact h.attempt now
  | finish r now =>
    cases r with
    | success => simpa [BreakerSystem.effect] using recordSuccess_slotsHeld s.breaker _ now
    | failure => exact (h.recordFailure now _).2
    | exhausted =>
      obtain ⟨hstate, hheld⟩ := h.recordFailure now (s.inFlight - 1)
      simpa [BreakerSystem.effect, CircuitBreaker.report, hstate] using hheld
  | interim now => simpa [BreakerSystem.effect] using recordSuccess_slotsHeld s.breaker _ now
  | crash now => exact absurd ⟨now, rfl⟩ hcrash

theorem slotsHeld_of_run {config : CircuitBreakerConfig} {created : Nat} {s : BreakerSystem}
    {es : List ProtocolEvent} (h : Run step NoCrash (start config created) es s) : s.SlotsHeld :=
  h.invariant (fun hs hok hstep => by
    obtain ⟨_, _, rfl⟩ := step_eq_some hstep
    exact hs.effect hok) (start_slotsHeld config created)

end BreakerSystem

/-- In every run in which each admitted request reports before it ends, a breaker without
running requests is not wedged: at some later time it admits a request. -/
theorem idle_breaker_not_wedged {config : CircuitBreakerConfig} {created : Nat}
    {c : BreakerClients} {es : List ClientEvent}
    (h : Run BreakerClients.step BreakerClients.KeepsReport
      (BreakerClients.start config created) es c)
    (hidle : c.running = []) :
    ¬c.breaker.Wedged ∧ ∃ now, c.clock ≤ now ∧ (c.breaker.canAttempt now).1 = true := by
  obtain ⟨pes, s, hrun, hb, hflight, _⟩ :=
    BreakerClients.run_simulates_keepsReport h (BreakerClients.start_abstracts config created)
  have hheld := (BreakerSystem.slotsHeld_of_run hrun).held
  rw [hb, hflight, hidle] at hheld
  have hstate : c.breaker.state ≠ .halfOpen := fun hs => by simpa using hheld hs
  refine ⟨fun hw => hstate hw.1, max c.clock c.breaker.openUntil, Nat.le_max_left _ _, ?_⟩
  rcases c.breaker.state_cases with hs | hs | hs
  · rw [CircuitBreaker.canAttempt_closed hs]
  · rw [CircuitBreaker.canAttempt_open_late hs (Nat.le_max_right _ _)]
  · exact absurd hs hstate

def trippingConfig : ProxyConfig :=
  { plainConfig [plainTarget "/api".toList ["http://localhost:5001".toList]] with
    defaultCircuitBreakerConfig := ⟨1, 30, 1⟩ }

theorem idle_breaker_not_wedged_one_request :
    ∃ (proxy : Proxy) (env : Surroundings) (selected : Selected) (ctx : LoopContext)
      (c : BreakerClients),
    Proxy.ofConfig plainCrates trippingConfig = .ok proxy ∧
    env.targetOrder = proxy.targetMap.entries ∧
    proxy.receive env (plainRequest "/api/users".toList [] []) =
      .going (plainRequest "/api/users".toList [] [], selected) ∧
    proxy.approach env (plainRequest "/api/users".toList [] []) selected = .going ctx ∧
    Run BreakerClients.step BreakerClients.KeepsReport
      (BreakerClients.start proxy.defaultCircuitBreakerConfig 0)
      [.arrive ctx (plainRequest "/api/users".toList [] []) 1, .prepare 0 ∅ 2,
        .turn 0 (plainRound (.failed "connection refused")) 3] c ∧
    ¬c.breaker.Wedged := by
  have hprepare : ∀ (c : BreakerClients) (i now : Nat), c.KeepsReport (.prepare i ∅ now) := by
    intro c i now ctx req _ e h
    simp [addConditionalHeaders, findCached] at h
  have hturn : ∀ (c : BreakerClients) (ctx : LoopContext) (s : LoopState) (r : Round) (now : Nat),
      c.running[0]? = some (.looping ctx s) → ctx.Sendable s r → ctx.maxAttempts = 1 →
      c.KeepsReport (.turn 0 r now) := by
    intro c ctx s r now hc hsend hmax ctx' s' hc' _
    cases hc.symm.trans hc'
    exact ⟨hsend, fun _ hlt => by omega⟩
  have hrun : ∀ {config : CircuitBreakerConfig} {es : List ClientEvent} {c : BreakerClients},
      Run BreakerClients.step BreakerClients.KeepsReport (BreakerClients.start config 0) es c →
      c.running = [] → Run BreakerClients.step BreakerClients.KeepsReport
        (BreakerClients.start config 0) es c ∧ ¬c.breaker.Wedged :=
    fun hrun hidle => ⟨hrun, (idle_breaker_not_wedged hrun hidle).1⟩
  exact ⟨_, plainSurroundings _ (fun _ => plainRound .timedOut), _, _, _, rfl, rfl, rfl, rfl,
    hrun (.cons trivial rfl (.cons (hprepare _ _ _) rfl (.cons
      (hturn _ _ _ _ _ rfl ⟨_, _, rfl, rfl⟩ rfl) rfl (.nil _)))) rfl⟩

/-- Two requests whose upstream URI does not parse take the half-open slot with them. -/
theorem lost_requests_wedge :
    ∃ (proxy : Proxy) (env : Surroundings) (selected selected' : Selected)
      (ctx ctx' : LoopContext) (c : BreakerClients),
    Proxy.ofConfig plainCrates trippingConfig = .ok proxy ∧
    env.targetOrder = proxy.targetMap.entries ∧
    proxy.receive env (plainRequest "/api/users".toList [] []) =
      .going (plainRequest "/api/users".toList [] [], selected) ∧
    proxy.approach env (plainRequest "/api/users".toList [] []) selected = .going ctx ∧
    proxy.receive env (plainRequest "/api@".toList [] []) =
      .going (plainRequest "/api@".toList [] [], selected') ∧
    proxy.approach env (plainRequest "/api@".toList [] []) selected' = .going ctx' ∧
    Run BreakerClients.step anyStep
      (BreakerClients.start proxy.defaultCircuitBreakerConfig 0)
      [.arrive ctx (plainRequest "/api/users".toList [] []) 1, .prepare 0 ∅ 2,
        .turn 0 (plainRound (.failed "connection refused")) 3,
        .arrive ctx' (plainRequest "/api@".toList [] []) 30000000003, .prepare 0 ∅ 30000000004,
        .turn 0 (plainRound .timedOut) 30000000005,
        .arrive ctx' (plainRequest "/api@".toList [] []) 30000000006, .prepare 0 ∅ 30000000007,
        .turn 0 (plainRound .timedOut) 30000000008] c ∧
    c.running = [] ∧ c.breaker.Wedged := by
  exact ⟨_, plainSurroundings _ (fun _ => plainRound .timedOut), _, _, _, _, _, rfl, rfl, rfl,
    rfl, rfl, rfl,
    .cons trivial rfl (.cons trivial rfl (.cons trivial rfl (.cons trivial rfl
      (.cons trivial rfl (.cons trivial rfl (.cons trivial rfl (.cons trivial rfl
      (.cons trivial rfl (.nil _))))))))), rfl, rfl, Nat.le_refl _⟩

end Road7
