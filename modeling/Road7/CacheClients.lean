import Road7.Arrival
import Road7.BreakerClients
import Road7.Exchange
import Mathlib.Logic.Function.Basic

namespace Road7

/-- A request in `proxy_request`: what it found on its arrival, itself as it arrived, and how
far it has come. -/
structure Client where
  env : Surroundings
  request : Request
  stage : Stage

/-- The end of a request. Of a reply out of the cache, `source` is the exchange that was last
stored under the key it was looked up under. -/
structure Reply where
  id : Nat
  request : Request
  ending : Ending
  source : Option Exchange

/-- The caches with the requests that use them, the replies that have been given and the
exchanges that have been stored, the latest first. -/
structure CacheClients where
  caches : Caches
  running : Nat → Option Client
  replies : List Reply
  stored : List Exchange
  clock : Nat

/-- A request arrives and comes to its breaker, with the sweeps that remove entries between its
two looks at its cache; an admitted one looks for its conditional headers; one in its retry loop
makes a turn; a sweep removes an entry. -/
inductive CacheEvent where
  | arrive (id : Nat) (env : Surroundings) (req : Request) (swept : List (Str × Str))
  | prepare (id now : Nat)
  | turn (id : Nat) (r : Round)
  | sweep (cacheKey key : Str) (now : Nat)

def CacheEvent.start : CacheEvent → Nat
  | .arrive _ env _ _ => env.hitNow
  | .prepare _ now => now
  | .turn _ r => r.now
  | .sweep _ _ now => now

def CacheEvent.time : CacheEvent → Nat
  | .arrive _ env _ _ => env.varyNow
  | .prepare _ now => now
  | .turn _ r => r.now
  | .sweep _ _ now => now

/-- The steps of a request that the upstream answers at its first attempt. -/
def fetched (id : Nat) (env : Surroundings) (req : Request) (r : Round) : List CacheEvent :=
  [.arrive id env req [], .prepare id r.now, .turn id r]

/-- Such a request, and another one that arrives after it. -/
def fetchedThen (env : Surroundings) (req : Request) (r : Round) (next : Request) :
    List CacheEvent :=
  fetched 0 env req r ++ [.arrive 1 env next []]

namespace CacheClients

def idle (now : Nat) : CacheClients := ⟨∅, fun _ => none, [], [], now⟩

def lastStored (proxy : Proxy) (c : CacheClients) (key : Str) : Option Exchange :=
  c.stored.find? (fun x => x.key proxy.crates.hashers.defaultHash = key)

/-- What a request sees of the caches on its arrival. -/
def seenBy (c : CacheClients) (env : Surroundings) (swept : List (Str × Str)) : Surroundings :=
  { env with hitCaches := c.caches, varyCaches := c.caches.removeEntries swept }

def runOn (c : CacheClients) (id : Nat) (client : Option Client) : CacheClients :=
  { c with running := Function.update c.running id client }

/-- A request goes on to its next stage, ends, or waits for itself. -/
def settle (c : CacheClients) (id : Nat) (env : Surroundings) (request : Request)
    (source : Option Exchange) : Progress Stage → CacheClients
  | .going stage => c.runOn id (some ⟨env, request, stage⟩)
  | .ended e => { c.runOn id none with replies := ⟨id, request, e, source⟩ :: c.replies }
  | .blocked => c.runOn id (some ⟨env, request, .blocked⟩)

/-- A turn of the loop on the caches as they are. -/
def onCaches (c : CacheClients) (r : Round) : Round := { r with caches := c.caches }

/-- The caches and the stored exchanges after a turn of the loop. -/
def afterTurn (c : CacheClients) (ctx : LoopContext) (id : Nat) (request : Request) (s : LoopState)
    (r : Round) : CacheClients :=
  { c with
    caches := (ctx.turn s (c.onCaches r)).caches
    stored := (ctx.exchange id request s (c.onCaches r)).toList ++ c.stored }

def arrival (proxy : Proxy) (env : Surroundings) (req : Request) : Progress Stage :=
  proxy.arrive env req >>= fun admitted => .going (.admitted admitted.1 admitted.2)

def effect (proxy : Proxy) (c : CacheClients) : CacheEvent → Option CacheClients
  | .arrive id env req swept =>
    if (c.running id).isNone then
      some ({ c with caches := c.caches.removeEntries swept }.settle id env req
        ((proxy.plainKey env req).bind (c.lastStored proxy))
        (arrival proxy (c.seenBy env swept) req))
    else none
  | .prepare id now =>
    match c.running id with
    | some ⟨env, request, .admitted ctx req⟩ =>
      some (c.settle id env request none (BreakerClients.prepared ctx c.caches now req))
    | _ => none
  | .turn id r =>
    match c.running id with
    | some ⟨env, request, .looping ctx s⟩ =>
      some ((c.afterTurn ctx id request s r).settle id env request
        (c.lastStored proxy ctx.cacheKey) (BreakerClients.turned ctx s (c.onCaches r)))
    | _ => none
  | .sweep cacheKey key _ => some { c with caches := c.caches.removeEntry cacheKey key }

def step (proxy : Proxy) (c : CacheClients) (e : CacheEvent) : Option CacheClients :=
  if c.clock ≤ e.start ∧ e.start ≤ e.time then
    (c.effect proxy e).map (fun d => { d with clock := e.time })
  else none

end CacheClients

/-- A request as it is kept for the key: conditional headers may have come to it, and nothing
else has changed but its body. -/
structure Request.KeptAs (req kept : Request) : Prop where
  method : kept.method = req.method
  uri : kept.uri = req.uri
  headers : ∀ name, kept.headers.get name = none → req.headers.get name = none

theorem Request.keptAs_bodyRead (req : Request) : req.KeptAs req.bodyRead :=
  ⟨rfl, rfl, fun _ h => h⟩

theorem Request.KeptAs.trans {req kept kept' : Request} (h : req.KeptAs kept)
    (h' : kept.KeptAs kept') : req.KeptAs kept' :=
  ⟨h'.method.trans h.method, h'.uri.trans h.uri,
    fun name hname => h.headers name (h'.headers name hname)⟩

theorem insertHeader_keeps {name n : Str} {value : Option Str} {headers headers' : HeaderMap}
    (h : insertHeader name value headers = .ok headers') (hnone : headers'.get n = none) :
    headers.get n = none := by
  unfold insertHeader at h
  split at h
  next value =>
    obtain ⟨v, _, rfl⟩ := map_eq_ok.mp h
    rw [HeaderMap.get_insert] at hnone
    split at hnone
    next => simp at hnone
    next => exact hnone
  next =>
    cases h
    exact hnone

theorem addConditionalHeaders_keeps {cacheKey : Str} {caches : Caches} {now : Nat}
    {req req' : Request} (h : addConditionalHeaders cacheKey caches now req = .going req') :
    req.KeptAs req' := by
  unfold addConditionalHeaders at h
  split at h
  next entry _ =>
    obtain ⟨headers, hetag, h⟩ := Progress.bind_eq_going.mp h
    obtain ⟨headers', hlast, h⟩ := Progress.bind_eq_going.mp h
    cases h
    refine ⟨rfl, rfl, fun name hname => ?_⟩
    exact insertHeader_keeps (Progress.orPanic_eq_going.mp hetag)
      (insertHeader_keeps (Progress.orPanic_eq_going.mp hlast) hname)
  next =>
    cases h
    exact ⟨rfl, rfl, fun _ hname => hname⟩
  next => simp at h

def Client.Sound (proxy : Proxy) (client : Client) : Prop :=
  match client.stage with
  | .admitted ctx req => proxy.Admits client.env client.request ctx ∧ req = client.request.bodyRead
  | .looping ctx s =>
    proxy.Admits client.env client.request ctx ∧ client.request.KeptAs s.originalReq
  | .blocked => True

structure Exchange.Sound (proxy : Proxy) (x : Exchange) : Prop where
  kept : x.request.KeptAs x.kept
  entry : storedEntry proxy.crates.md5 x.now x.response x.selected.corsConfig = .ok x.entry
  filed : ∃ cache : Cache, x.filed = cache.filed proxy.crates.toVec x.entry x.now

namespace CacheClients

/-- Each cache holds nothing but an entry under its own key, the one that was last stored. -/
structure Sound (proxy : Proxy) (c : CacheClients) : Prop where
  entries : ∀ {K k entry}, c.caches.entryAt K k = some entry →
    k = K ∧ ∃ x, c.lastStored proxy K = some x ∧ entry = x.filed
  clients : ∀ {id client}, c.running id = some client → client.Sound proxy
  exchanges : ∀ x ∈ c.stored, x.Sound proxy

variable {proxy : Proxy} {c d : CacheClients} {e : CacheEvent} {id : Nat} {env : Surroundings}
  {request : Request} {ctx : LoopContext} {s : LoopState} {r : Round} {x : Exchange}

theorem caches_settle {source : Option Exchange} (p : Progress Stage) :
    (c.settle id env request source p).caches = c.caches := by
  cases p <;> rfl

theorem stored_settle {source : Option Exchange} (p : Progress Stage) :
    (c.settle id env request source p).stored = c.stored := by
  cases p <;> rfl

theorem running_settle {i : Nat} {source : Option Exchange} {p : Progress Stage} {client : Client}
    (h : (c.settle id env request source p).running i = some client)
    (hactive : client.stage ≠ .blocked) :
    (i = id ∧ ∃ stage, p = .going stage ∧ client = ⟨env, request, stage⟩) ∨
      (i ≠ id ∧ c.running i = some client) := by
  by_cases hi : i = id
  · subst hi
    refine .inl ⟨rfl, ?_⟩
    cases p with
    | going stage => exact ⟨stage, rfl, by simpa [settle, runOn, eq_comm] using h⟩
    | ended ending => simp [settle, runOn] at h
    | blocked =>
      have hclient : client = ⟨env, request, .blocked⟩ := by
        simpa [settle, runOn, eq_comm] using h
      rw [hclient] at hactive
      exact absurd rfl hactive
  · refine .inr ⟨hi, ?_⟩
    cases p <;> simpa [settle, runOn, hi] using h

theorem step_eq_some (h : c.step proxy e = some d) :
    c.clock ≤ e.start ∧ e.start ≤ e.time ∧
      ∃ c', c.effect proxy e = some c' ∧ d = { c' with clock := e.time } := by
  unfold step at h
  split at h
  next hclock =>
    obtain ⟨c', hc', rfl⟩ := Option.map_eq_some_iff.mp h
    exact ⟨hclock.1, hclock.2, c', hc', rfl⟩
  next => simp at h

/-- What each of the events does. -/
inductive Effected (proxy : Proxy) (c : CacheClients) : CacheEvent → CacheClients → Prop
  | arrive {id : Nat} {env : Surroundings} {req : Request} {swept : List (Str × Str)} :
      (c.running id).isNone = true →
      Effected proxy c (.arrive id env req swept)
        ({ c with caches := c.caches.removeEntries swept }.settle id env req
          ((proxy.plainKey env req).bind (c.lastStored proxy))
          (arrival proxy (c.seenBy env swept) req))
  | prepare {id now : Nat} {env : Surroundings} {request req : Request} {ctx : LoopContext} :
      c.running id = some ⟨env, request, .admitted ctx req⟩ →
      Effected proxy c (.prepare id now)
        (c.settle id env request none (BreakerClients.prepared ctx c.caches now req))
  | turn {id : Nat} {r : Round} {env : Surroundings} {request : Request} {ctx : LoopContext}
      {s : LoopState} : c.running id = some ⟨env, request, .looping ctx s⟩ →
      Effected proxy c (.turn id r)
        ((c.afterTurn ctx id request s r).settle id env request (c.lastStored proxy ctx.cacheKey)
          (BreakerClients.turned ctx s (c.onCaches r)))
  | sweep {cacheKey key : Str} {now : Nat} : Effected proxy c (.sweep cacheKey key now)
      { c with caches := c.caches.removeEntry cacheKey key }

theorem effected (h : c.effect proxy e = some d) : Effected proxy c e d := by
  cases e with
  | arrive id env req swept =>
    simp only [effect] at h
    split at h
    next hid =>
      cases h
      exact .arrive hid
    next => simp at h
  | prepare id now =>
    simp only [effect] at h
    split at h
    next hid =>
      cases h
      exact .prepare hid
    next => simp at h
  | turn id r =>
    simp only [effect] at h
    split at h
    next hid =>
      cases h
      exact .turn hid
    next => simp at h
  | sweep cacheKey key now =>
    cases h
    exact .sweep

theorem step_effected (h : c.step proxy e = some d) :
    ∃ c', Effected proxy c e c' ∧ d = { c' with clock := e.time } := by
  obtain ⟨_, _, c', heffect, rfl⟩ := step_eq_some h
  exact ⟨c', effected heffect, rfl⟩

theorem idle_sound (now : Nat) : (idle now).Sound proxy where
  entries h := by cases h
  clients h := by cases h
  exchanges x hx := by cases hx

theorem Sound.later (h : c.Sound proxy) (now : Nat) : Sound proxy { c with clock := now } :=
  ⟨h.entries, h.clients, h.exchanges⟩

theorem Sound.runOn (h : c.Sound proxy) {client : Option Client}
    (hclient : ∀ cl, client = some cl → cl.Sound proxy) : (c.runOn id client).Sound proxy := by
  refine ⟨h.entries, fun {i cl} hi => ?_, h.exchanges⟩
  unfold CacheClients.runOn at hi
  by_cases hid : i = id
  · subst hid
    exact hclient cl (by simpa using hi)
  · exact h.clients (by simpa [hid] using hi)

theorem Sound.settle (h : c.Sound proxy) {source : Option Exchange} {p : Progress Stage}
    (hp : ∀ stage, p = .going stage → Client.Sound proxy ⟨env, request, stage⟩) :
    (c.settle id env request source p).Sound proxy := by
  cases p with
  | going stage =>
    refine h.runOn (fun cl hcl => ?_)
    cases hcl
    exact hp stage rfl
  | ended e =>
    have hnone : (c.runOn id none).Sound proxy := h.runOn (fun _ hcl => by cases hcl)
    exact ⟨hnone.entries, hnone.clients, hnone.exchanges⟩
  | blocked =>
    refine h.runOn (fun cl hcl => ?_)
    cases hcl
    trivial

theorem Sound.removeEntries (h : c.Sound proxy) (removed : List (Str × Str)) :
    Sound proxy { c with caches := c.caches.removeEntries removed } := by
  refine ⟨fun {K k entry} hentry => ?_, h.clients, h.exchanges⟩
  rw [Caches.entryAt_removeEntries] at hentry
  split at hentry
  next => simp at hentry
  next => exact h.entries hentry

theorem crates_of_admits (h : proxy.Admits env request ctx) : ctx.crates = proxy.crates := by
  rw [h.context]
  rfl

/-- A store puts the latest exchange of its key into the cache of its key. -/
theorem Sound.afterTurn (h : c.Sound proxy) (hadmits : proxy.Admits env request ctx)
    (hkept : request.KeptAs s.originalReq) : (c.afterTurn ctx id request s r).Sound proxy := by
  unfold CacheClients.afterTurn
  have hcrates := crates_of_admits hadmits
  cases hx : ctx.exchange id request s (c.onCaches r) with
  | none =>
    refine ⟨fun {K k entry} hfound => ?_, h.clients, h.exchanges⟩
    rw [LoopContext.entryAt_of_no_exchange hx] at hfound
    exact h.entries hfound
  | some x =>
    obtain ⟨config, hex⟩ := LoopContext.exchange_some hx
    have hfiled := hex.filed
    have hentry := hex.entry
    rw [hcrates] at hfiled hentry
    rw [hex.caches, hcrates]
    refine ⟨fun {K k entry} hfound => ?_, h.clients, fun y hy => ?_⟩
    · rw [Caches.entryAt_afterStore] at hfound
      split at hfound
      next hkey =>
        obtain ⟨rfl, rfl⟩ := hkey
        refine ⟨rfl, x, by simp [lastStored], ?_⟩
        rw [hfiled]
        exact (Option.some.inj hfound).symm
      next hkey =>
        obtain ⟨rfl, y, hy, hentry⟩ := h.entries hfound
        have hne : x.key proxy.crates.hashers.defaultHash ≠ k := fun heq => hkey ⟨heq.symm, heq.symm⟩
        refine ⟨rfl, y, ?_, hentry⟩
        simpa [lastStored, hne] using hy
    · rcases List.mem_cons.mp hy with rfl | hy
      · refine ⟨?_, ?_, _, hex.now ▸ hfiled⟩
        · rw [hex.request, hex.kept]
          exact hkept.trans (Request.keptAs_bodyRead _)
        · rw [hex.now, hex.selected]
          exact hentry
      · exact h.exchanges y hy

theorem receive_seenBy (c : CacheClients) (env : Surroundings) (swept : List (Str × Str))
    (req : Request) : proxy.receive (c.seenBy env swept) req = proxy.receive env req := rfl

theorem arrival_going {swept : List (Str × Str)} {req : Request} {stage : Stage}
    (h : arrival proxy (c.seenBy env swept) req = .going stage) :
    Client.Sound proxy ⟨env, req, stage⟩ := by
  obtain ⟨⟨ctx, req'⟩, harrive, h⟩ := Progress.bind_eq_going.mp h
  cases h
  obtain ⟨hadmits, rfl⟩ := Proxy.arrive_going harrive
  exact ⟨⟨hadmits.receives, hadmits.authenticates, hadmits.url, hadmits.context⟩, rfl⟩

theorem prepared_going {caches : Caches} {now : Nat} {req : Request} {stage : Stage}
    (hadmits : proxy.Admits env request ctx) (hreq : req = request.bodyRead)
    (h : BreakerClients.prepared ctx caches now req = .going stage) :
    Client.Sound proxy ⟨env, request, stage⟩ := by
  obtain ⟨req', hreq', h⟩ := Progress.bind_eq_going.mp h
  cases h
  subst hreq
  exact ⟨hadmits, (Request.keptAs_bodyRead _).trans (addConditionalHeaders_keeps hreq')⟩

theorem turned_going {stage : Stage} (hadmits : proxy.Admits env request ctx)
    (hkept : request.KeptAs s.originalReq)
    (h : BreakerClients.turned ctx s r = .going stage) :
    Client.Sound proxy ⟨env, request, stage⟩ := by
  obtain ⟨t, ht, h⟩ := Progress.bind_eq_going.mp h
  cases h
  have hreq := LoopContext.originalReq_of_turn_going ht
  refine ⟨hadmits, ?_⟩
  rw [hreq]
  exact hkept.trans (Request.keptAs_bodyRead _)

theorem sound_step (h : c.Sound proxy) (hstep : c.step proxy e = some d) : d.Sound proxy := by
  obtain ⟨c', heffect, rfl⟩ := step_effected hstep
  refine Sound.later ?_ _
  cases heffect with
  | arrive _ => exact (h.removeEntries _).settle (fun stage hstage => arrival_going hstage)
  | prepare hid =>
    obtain ⟨hadmits, hreq⟩ := h.clients hid
    exact h.settle (fun stage hstage => prepared_going hadmits hreq hstage)
  | turn hid =>
    obtain ⟨hadmits, hkept⟩ := h.clients hid
    exact (h.afterTurn hadmits hkept).settle (fun stage hstage =>
      turned_going hadmits hkept hstage)
  | @sweep cacheKey key _ => exact h.removeEntries [(cacheKey, key)]

theorem sound_run {ok : CacheClients → CacheEvent → Prop} {es : List CacheEvent} {now : Nat}
    (h : Run (step proxy) ok (idle now) es c) : c.Sound proxy :=
  h.invariant (fun hc _ hstep => sound_step hc hstep) (idle_sound now)

end CacheClients

end Road7
