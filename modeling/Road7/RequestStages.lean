import Road7.ProxyRequest
import Road7.RetryTurn

namespace Road7

namespace Proxy

variable {proxy : Proxy} {env : Surroundings} {req req' : Request} {selected : Selected}
  {ctx : LoopContext} {s : LoopState}

theorem validate_going (h : proxy.validate req = .going req') :
    validateUri req.uri.toStr = .ok () ∧ req' = req.bodyRead := by
  unfold validate at h
  split at h
  next r hr =>
    obtain ⟨huri, rfl⟩ := validateRequest_ok hr
    refine ⟨huri, ?_⟩
    simpa [Body.toBytes, Body.empty, Request.bodyRead] using h.symm
  next => simp [Progress.refuse] at h

theorem receive_going (h : proxy.receive env req = .going (req', selected)) :
    validateUri req.uri.toStr = .ok () ∧ req' = req.bodyRead ∧
      proxy.route env req' = .going selected := by
  obtain ⟨r, hr, h⟩ := Progress.bind_eq_going.mp h
  obtain ⟨huri, rfl⟩ := validate_going hr
  obtain ⟨_, _, h⟩ := Progress.bind_eq_going.mp h
  obtain ⟨_, hroute, h⟩ := Progress.bind_eq_going.mp h
  simp only [Progress.going.injEq, Prod.mk.injEq] at h
  obtain ⟨rfl, rfl⟩ := h
  exact ⟨huri, rfl, hroute⟩

theorem authGate_going {crates : Crates} {systemTime : Nat}
    {authConfig : Option AuthenticationConfig} {u : Unit}
    (h : authGate crates systemTime authConfig req = .going u) :
    authenticate crates systemTime authConfig req = .ok () := by
  unfold authGate at h
  split at h
  next hok => exact hok
  next => simp [Progress.refuse] at h

/-- A request that reaches the breaker has passed the gate. -/
theorem approach_going (h : proxy.approach env req selected = .going ctx) :
    authenticate proxy.crates env.systemTime selected.authConfig req = .ok () ∧
      ∃ cacheKey, ctx = proxy.loopContext env req selected cacheKey := by
  obtain ⟨_, _, h⟩ := Progress.bind_eq_going.mp h
  obtain ⟨_, hgate, h⟩ := Progress.bind_eq_going.mp h
  obtain ⟨_, _, h⟩ := Progress.bind_eq_going.mp h
  obtain ⟨_, _, h⟩ := Progress.bind_eq_going.mp h
  exact ⟨authGate_going hgate, _, (Progress.going.inj h).symm⟩

theorem addConditionalHeaders_going {cacheKey : Str} {caches : Caches} {now : Nat}
    (h : addConditionalHeaders cacheKey caches now req = .going req') :
    ∃ headers, req' = { req with headers } := by
  unfold addConditionalHeaders at h
  split at h
  next =>
    obtain ⟨_, _, h⟩ := Progress.bind_eq_going.mp h
    obtain ⟨headers, _, h⟩ := Progress.bind_eq_going.mp h
    exact ⟨headers, (Progress.going.inj h).symm⟩
  next => exact ⟨req.headers, (Progress.going.inj h).symm⟩
  next => simp at h

theorem enterLoop_going (h : proxy.enterLoop env req selected = .going (ctx, s)) :
    authenticate proxy.crates env.systemTime selected.authConfig req = .ok () ∧
    (∃ cacheKey, ctx = proxy.loopContext env req selected cacheKey) ∧
    ∃ headers, s = LoopState.start { req with headers } := by
  obtain ⟨c, happroach, h⟩ := Progress.bind_eq_going.mp h
  obtain ⟨hgate, hctx⟩ := approach_going happroach
  obtain ⟨_, _, h⟩ := Progress.bind_eq_going.mp h
  obtain ⟨r, hr, h⟩ := Progress.bind_eq_going.mp h
  simp only [Progress.going.injEq, Prod.mk.injEq] at h
  obtain ⟨rfl, rfl⟩ := h
  obtain ⟨headers, rfl⟩ := addConditionalHeaders_going hr
  exact ⟨hgate, hctx, headers, rfl⟩

theorem begin_going (h : proxy.begin env req = .going (ctx, s)) :
    ∃ selected, proxy.receive env req = .going (req.bodyRead, selected) ∧
      proxy.enterLoop env req.bodyRead selected = .going (ctx, s) := by
  obtain ⟨⟨r, selected⟩, hreceive, h⟩ := Progress.bind_eq_going.mp h
  obtain ⟨_, rfl, _⟩ := receive_going hreceive
  exact ⟨selected, hreceive, h⟩

/-- What the loop knows of the proxy and of the request. -/
theorem context_of_begin (h : proxy.begin env req = .going (ctx, s)) :
    ctx.loadBalancer = proxy.loadBalancer ∧ ctx.clientIp = env.clientIp ∧
      ctx.path = req.uri.path := by
  obtain ⟨selected, _, henter⟩ := begin_going h
  obtain ⟨_, ⟨cacheKey, rfl⟩, _⟩ := enterLoop_going henter
  exact ⟨rfl, rfl, rfl⟩

end Proxy

end Road7
