import Road7.CacheClients
import Road7.LimiterChoice
import Road7.LoopReads

namespace Road7

/-- The limiters, in the order of their map, after the one of a path has been asked for a token. -/
def chargeIn (limiters : List (Sigma (fun _ : Str => RateLimiter))) (target : Str) :
    List (Sigma (fun _ : Str => RateLimiter)) :=
  match limiterEntry limiters target with
  | some found => limiters.map fun e => if e.1 = found.1 then ⟨e.1, found.2.acquire.2⟩ else e
  | none => limiters

def refillIn (limiters : List (Sigma (fun _ : Str => RateLimiter))) (target : Str) :
    List (Sigma (fun _ : Str => RateLimiter)) :=
  limiters.map fun e => if e.1 = target then ⟨e.1, e.2.refill⟩ else e

/-- A request that has come to a target. -/
structure Visit where
  id : Nat
  selected : Selected

/-- The requests with all that they share: the caches, the breakers, the counters of the balancer
and the limiters. -/
structure SharedClients where
  clients : CacheClients
  breakers : StrMap CircuitBreaker
  balancer : BalancerState
  limiters : List (Sigma (fun _ : Str => RateLimiter))
  visits : List Visit

/-- A step of a request or of a sweep, or a refill of the limiter of a path. -/
inductive SharedEvent where
  | client (e : CacheEvent)
  | refill (target : Str)

namespace SharedClients

def start (limiters : List (Sigma (fun _ : Str => RateLimiter))) (now : Nat) : SharedClients :=
  ⟨CacheClients.idle now, ∅, BalancerState.empty, limiters, []⟩

/-- The way of a request to its breaker. -/
def come (proxy : Proxy) (w : SharedClients) (env : Surroundings) (req : Request)
    (swept : List (Str × Str)) : Progress (LoopContext × Request) :=
  proxy.comeToBreaker (w.clients.seenBy { env with limiters := w.limiters } swept) req

/-- What a request meets on its arrival: the limiters, and the breaker that it comes to. -/
def met (proxy : Proxy) (w : SharedClients) (env : Surroundings) (req : Request)
    (swept : List (Str × Str)) : Surroundings :=
  match w.come proxy env req swept with
  | .going (ctx, _) =>
    { env with
      limiters := w.limiters
      breaker := ctx.breakerIn proxy w.breakers env.breakerNow }
  | _ => { env with limiters := w.limiters }

/-- What a turn of the loop meets. -/
def round (proxy : Proxy) (w : SharedClients) (ctx : LoopContext) (r : Round) : Round :=
  { r with balancer := w.balancer, breaker := ctx.breakerIn proxy w.breakers r.breakerNow }

/-- What an arrival leaves of the breakers and the limiters. -/
def arrived (proxy : Proxy) (w : SharedClients) (id : Nat) (env : Surroundings) (req : Request)
    (swept : List (Str × Str)) : SharedClients :=
  { w with
    breakers := match w.come proxy env req swept with
      | .going (ctx, _) => w.breakers.insert ctx.breakerKey
          ((ctx.breakerIn proxy w.breakers env.breakerNow).canAttempt env.breakerNow).2
      | _ => w.breakers
    limiters := match proxy.receive env req with
      | .going (req, _) => chargeIn w.limiters req.uri.path
      | _ => w.limiters
    visits := match proxy.receive env req with
      | .going (_, selected) => ⟨id, selected⟩ :: w.visits
      | _ => w.visits }

/-- What a turn leaves of the breakers and of the counters of the balancer. -/
def turned (w : SharedClients) (ctx : LoopContext) (s : LoopState) (r : Round) : SharedClients :=
  let result := ctx.turn s (w.clients.onCaches r)
  { w with
    breakers := BreakerTable.reported w.breakers ctx result.report r.breakerNow
    balancer := result.balancer }

def step (proxy : Proxy) (w : SharedClients) : SharedEvent → Option SharedClients
  | .client (.arrive id env req swept) =>
    (w.clients.step proxy (.arrive id (w.met proxy env req swept) req swept)).map fun clients =>
      { w.arrived proxy id env req swept with clients }
  | .client (.turn id r) =>
    match w.clients.running id with
    | some ⟨_, _, .looping ctx s⟩ =>
      (w.clients.step proxy (.turn id (w.round proxy ctx r))).map fun clients =>
        { w.turned ctx s (w.round proxy ctx r) with clients }
    | _ => none
  | .client e => (w.clients.step proxy e).map fun clients => { w with clients }
  | .refill target => some { w with limiters := refillIn w.limiters target }

variable {proxy : Proxy} {w w' : SharedClients} {e : SharedEvent} {es : List SharedEvent}
  {env : Surroundings} {req req' : Request} {swept : List (Str × Str)} {ctx : LoopContext}
  {s : LoopState} {r : Round} {id : Nat}

/-- What each of the events does. -/
inductive Moves (proxy : Proxy) (w : SharedClients) : SharedEvent → SharedClients → Prop
  | arrive {id : Nat} {env : Surroundings} {req : Request} {swept : List (Str × Str)}
      {clients : CacheClients} :
      w.clients.step proxy (.arrive id (w.met proxy env req swept) req swept) = some clients →
      Moves proxy w (.client (.arrive id env req swept))
        { w.arrived proxy id env req swept with clients }
  | prepare {id now : Nat} {clients : CacheClients} :
      w.clients.step proxy (.prepare id now) = some clients →
      Moves proxy w (.client (.prepare id now)) { w with clients }
  | turn {id : Nat} {r : Round} {env : Surroundings} {request : Request} {ctx : LoopContext}
      {s : LoopState} {clients : CacheClients} :
      w.clients.running id = some ⟨env, request, .looping ctx s⟩ →
      w.clients.step proxy (.turn id (w.round proxy ctx r)) = some clients →
      Moves proxy w (.client (.turn id r)) { w.turned ctx s (w.round proxy ctx r) with clients }
  | sweep {cacheKey key : Str} {now : Nat} {clients : CacheClients} :
      w.clients.step proxy (.sweep cacheKey key now) = some clients →
      Moves proxy w (.client (.sweep cacheKey key now)) { w with clients }
  | refill {target : Str} :
      Moves proxy w (.refill target) { w with limiters := refillIn w.limiters target }

theorem moves_of_step (h : w.step proxy e = some w') : w.Moves proxy e w' := by
  cases e with
  | client e =>
    cases e with
    | arrive id env req swept =>
      obtain ⟨clients, hclients, rfl⟩ := Option.map_eq_some_iff.mp h
      exact .arrive hclients
    | prepare id now =>
      obtain ⟨clients, hclients, rfl⟩ := Option.map_eq_some_iff.mp h
      exact .prepare hclients
    | turn id r =>
      simp only [step] at h
      split at h
      next hid =>
        obtain ⟨clients, hclients, rfl⟩ := Option.map_eq_some_iff.mp h
        exact .turn hid hclients
      next => simp at h
    | sweep cacheKey key now =>
      obtain ⟨clients, hclients, rfl⟩ := Option.map_eq_some_iff.mp h
      exact .sweep hclients
  | refill target =>
    cases h
    exact .refill

/-- The requests that share everything are requests on the caches, which find what the others have
left of the rest. -/
theorem clients_run {ok : SharedClients → SharedEvent → Prop}
    (h : Run (step proxy) ok w es w') :
    ∃ ces, Run (CacheClients.step proxy) anyStep w.clients ces w'.clients := by
  have hsim : ∀ {w : SharedClients} {e : SharedEvent} {w' : SharedClients} {c : CacheClients},
      w.clients = c → ok w e → w.step proxy e = some w' →
      w'.clients = c ∨ ∃ ce d, anyStep c ce ∧ c.step proxy ce = some d ∧ w'.clients = d := by
    intro w e w' c hc _ hstep
    subst hc
    cases moves_of_step hstep with
    | arrive hclients => exact .inr ⟨_, _, trivial, hclients, rfl⟩
    | prepare hclients => exact .inr ⟨_, _, trivial, hclients, rfl⟩
    | turn _ hclients => exact .inr ⟨_, _, trivial, hclients, rfl⟩
    | sweep hclients => exact .inr ⟨_, _, trivial, hclients, rfl⟩
    | refill => exact .inl rfl
  obtain ⟨ces, c, hrun, rfl⟩ := Run.simulate (R := fun w c => w.clients = c) hsim h rfl
  exact ⟨ces, hrun⟩

theorem sound_step (h : w.clients.Sound proxy) (hstep : w.step proxy e = some w') :
    w'.clients.Sound proxy := by
  cases moves_of_step hstep with
  | arrive hclients => exact CacheClients.sound_step h hclients
  | prepare hclients => exact CacheClients.sound_step h hclients
  | turn _ hclients => exact CacheClients.sound_step h hclients
  | sweep hclients => exact CacheClients.sound_step h hclients
  | refill => exact h

/-- The breaker lets the request in that comes to it. -/
def letsIn (proxy : Proxy) (w : SharedClients) (ctx : LoopContext) (now : Nat) : Bool :=
  ((ctx.breakerIn proxy w.breakers now).canAttempt now).1

theorem met_of_come (h : w.come proxy env req swept = .going (ctx, req')) :
    w.met proxy env req swept =
      { env with
        limiters := w.limiters
        breaker := ctx.breakerIn proxy w.breakers env.breakerNow } := by
  rw [met, h]

/-- A request is admitted where it comes to a breaker that lets it in. -/
theorem arrival_met (proxy : Proxy) (w : SharedClients) (env : Surroundings) (req : Request)
    (swept : List (Str × Str)) :
    CacheClients.arrival proxy (w.clients.seenBy (w.met proxy env req swept) swept) req =
      w.come proxy env req swept >>= fun come =>
        if w.letsIn proxy come.1 env.breakerNow then .going (.admitted come.1 come.2)
        else .refuse .circuitBreakerOpen := by
  have hcome : proxy.comeToBreaker (w.clients.seenBy (w.met proxy env req swept) swept) req =
      w.come proxy env req swept := by
    unfold met
    split
    next => rfl
    next => rfl
  rw [CacheClients.arrival, Proxy.arrive_eq, hcome]
  cases hgoing : w.come proxy env req swept with
  | ended ending => rfl
  | blocked => rfl
  | going come =>
    obtain ⟨ctx, req'⟩ := come
    rw [met_of_come hgoing]
    have hchecked : Proxy.checkBreaker (w.clients.seenBy { env with
          limiters := w.limiters
          breaker := ctx.breakerIn proxy w.breakers env.breakerNow } swept) =
        if w.letsIn proxy ctx env.breakerNow then .going () else .refuse .circuitBreakerOpen := rfl
    simp only [Progress.going_bind]
    rw [hchecked]
    cases w.letsIn proxy ctx env.breakerNow with
    | true => rfl
    | false => rfl

theorem lookup_reported (breakers : StrMap CircuitBreaker) (ctx : LoopContext)
    (report : Option Report) (now : Nat) (key : Str) :
    (BreakerTable.reported breakers ctx report now).lookup key =
      if key = ctx.breakerKey then
        (breakers.lookup key).map fun b => report.elim b (fun r => b.report r now)
      else breakers.lookup key := by
  unfold BreakerTable.reported
  by_cases hkey : key = ctx.breakerKey
  · subst hkey
    rw [if_pos rfl]
    cases hb : breakers.lookup ctx.breakerKey with
    | none => exact hb
    | some b =>
      cases report with
      | none => exact hb
      | some report => exact AList.lookup_insert _
  · rw [if_neg hkey]
    split
    next => exact AList.lookup_insert_ne hkey
    next => rfl

end SharedClients

end Road7
