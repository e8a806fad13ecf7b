import Road7.BalancerPanics
import Road7.CacheReplies
import Road7.SharedClients

namespace Road7

/-- Whatever a turn puts, and into whichever cache, it expires at an `Instant`. -/
def LoopContext.PutsInTime (ctx : LoopContext) (r : Round) : Prop :=
  ∀ config, ctx.selected.cacheConfig = some config →
    ∀ key, r.now + (r.caches.cacheFor config key).ttl < instantEnd

theorem LoopContext.PutsInTime.alike {ctx : LoopContext} {r r' : Round} (h : ctx.PutsInTime r)
    (h' : ctx.PutsInTime r') : ctx.PutsAlike r r' :=
  fun config _ _ _ hconfig => iff_of_true (h' config hconfig _) (h config hconfig _)

/-- A request and how far it has come. -/
def Client.progress (client : Client) : Request × Stage := (client.request, client.stage)

namespace CacheClients

variable {proxy : Proxy} {first : Nat → Bool} {c d c' d' : CacheClients} {id : Nat}
  {env env' : Surroundings} {req : Request} {swept : List (Str × Str)} {r r' : Round}

/-- The first user has stored an exchange under a key. -/
def Touched (proxy : Proxy) (first : Nat → Bool) (c : CacheClients) (key : Str) : Prop :=
  ∃ x ∈ c.stored, first x.id = true ∧ x.key proxy.crates.hashers.defaultHash = key

/-- The ends of the other users' requests. -/
def given (first : Nat → Bool) (c : CacheClients) : List (Nat × Ending) :=
  (c.replies.filter (fun reply => !first reply.id)).map (fun reply => (reply.id, reply.ending))

/-- Alike for the other users: the caches under the keys that the first one has stored nothing
under, the others' requests and their ends. -/
structure Alike (proxy : Proxy) (first : Nat → Bool) (c d : CacheClients) : Prop where
  caches : ∀ key, ¬c.Touched proxy first key → ¬d.Touched proxy first key →
    c.caches.lookup key = d.caches.lookup key
  running : ∀ id, first id = false →
    (c.running id).map Client.progress = (d.running id).map Client.progress
  given : c.given first = d.given first

theorem Alike.refl (c : CacheClients) : Alike proxy first c c :=
  ⟨fun _ _ _ => rfl, fun _ _ => rfl, rfl⟩

theorem Alike.symm (h : Alike proxy first c d) : Alike proxy first d c :=
  ⟨fun key hd hc => (h.caches key hc hd).symm, fun id hid => (h.running id hid).symm, h.given.symm⟩

theorem Alike.later (h : Alike proxy first c d) (now now' : Nat) :
    Alike proxy first { c with clock := now } { d with clock := now' } :=
  ⟨h.caches, h.running, h.given⟩

/-- A request of the others' is as far in the one state as in the other. -/
theorem Alike.looping (h : Alike proxy first c d) (hid : first id = false)
    {request request' : Request} {ctx ctx' : LoopContext} {s s' : LoopState}
    (hc : c.running id = some ⟨env, request, .looping ctx s⟩)
    (hd : d.running id = some ⟨env', request', .looping ctx' s'⟩) :
    request' = request ∧ ctx' = ctx ∧ s' = s := by
  have hsame := h.running id hid
  rw [hc, hd] at hsame
  cases hsame
  exact ⟨rfl, rfl, rfl⟩

theorem touched_settle {source : Option Exchange} {p : Progress Stage} {key : Str} :
    (c.settle id env req source p).Touched proxy first key ↔ c.Touched proxy first key := by
  rw [Touched, stored_settle, Touched]

theorem running_settle_of_ne {source : Option Exchange} {i : Nat} (hi : i ≠ id)
    (p : Progress Stage) : (c.settle id env req source p).running i = c.running i := by
  cases p <;> simp [settle, CacheClients.runOn, hi]

theorem given_settle_first {source : Option Exchange} (hid : first id = true)
    (p : Progress Stage) : (c.settle id env req source p).given first = c.given first := by
  cases p <;> simp [settle, CacheClients.runOn, CacheClients.given, hid]

/-- How far a request of the first user has come is nothing to the others. -/
theorem Alike.settle_first (h : Alike proxy first c d) (hid : first id = true)
    {source : Option Exchange} (p : Progress Stage) :
    Alike proxy first (c.settle id env req source p) d := by
  refine ⟨fun key hc hd => ?_, fun i hi => ?_, ?_⟩
  · rw [caches_settle]
    exact h.caches key (fun htouched => hc (touched_settle.mpr htouched)) hd
  · have hne : i ≠ id := by
      rintro rfl
      simp [hid] at hi
    rw [running_settle_of_ne hne]
    exact h.running i hi
  · rw [given_settle_first hid]
    exact h.given

theorem Alike.settle (h : Alike proxy first c d) {source source' : Option Exchange}
    (p : Progress Stage) : Alike proxy first (c.settle id env req source p)
      (d.settle id env' req source' p) := by
  refine ⟨fun key hc hd => ?_, fun i hi => ?_, ?_⟩
  · rw [caches_settle, caches_settle]
    exact h.caches key (fun htouched => hc (touched_settle.mpr htouched))
      (fun htouched => hd (touched_settle.mpr htouched))
  · by_cases hne : i = id
    · subst hne
      cases p <;> simp [CacheClients.settle, CacheClients.runOn, Client.progress]
    · rw [running_settle_of_ne hne, running_settle_of_ne hne]
      exact h.running i hi
  · have hgiven := h.given
    unfold CacheClients.given at hgiven ⊢
    cases p with
    | going stage => exact hgiven
    | blocked => exact hgiven
    | ended ending =>
      cases hid : first id with
      | true => simpa [CacheClients.settle, CacheClients.runOn, hid] using hgiven
      | false => simpa [CacheClients.settle, CacheClients.runOn, hid] using hgiven

theorem Alike.removeEntries (h : Alike proxy first c d) (removed : List (Str × Str)) :
    Alike proxy first { c with caches := c.caches.removeEntries removed }
      { d with caches := d.caches.removeEntries removed } :=
  ⟨fun key hc hd => Caches.lookup_removeEntries_congr removed (h.caches key hc hd), h.running,
    h.given⟩

theorem touched_afterTurn {ctx : LoopContext} {request : Request} {s : LoopState} {key : Str}
    (h : c.Touched proxy first key) :
    (c.afterTurn ctx id request s r).Touched proxy first key := by
  obtain ⟨x, hx, hfirst, hkey⟩ := h
  exact ⟨x, List.mem_append_right _ hx, hfirst, hkey⟩

/-- What the first user stores, it stores under keys that it has then touched. -/
theorem Alike.afterTurn_first (h : Alike proxy first c d) {ctx : LoopContext} {request : Request}
    {s : LoopState} (hid : first id = true) (hcrates : ctx.crates = proxy.crates)
    (hintime : ctx.PutsInTime (c.onCaches r)) :
    Alike proxy first (c.afterTurn ctx id request s r) d := by
  refine ⟨fun key hc hd => ?_, h.running, h.given⟩
  have hbefore : c.caches.lookup key = d.caches.lookup key :=
    h.caches key (fun htouched => hc (touched_afterTurn htouched)) hd
  unfold CacheClients.afterTurn at hc ⊢
  cases hx : ctx.exchange id request s (c.onCaches r) with
  | none =>
    rcases LoopContext.turn_of_no_exchange hx with hsame | ⟨config, key', hconfig, hlate, _⟩
    · rw [hsame]
      exact hbefore
    · exact absurd (hintime config hconfig key') (Nat.not_lt.mpr hlate)
  | some x =>
    obtain ⟨config, hex⟩ := LoopContext.exchange_some hx
    have hne : key ≠ x.key ctx.crates.hashers.defaultHash := by
      rintro rfl
      refine hc ⟨x, ?_, ?_, by rw [hcrates]⟩
      · simp [hx]
      · rw [hex.id, hid]
    rw [hex.caches, Caches.lookup_afterStore, if_neg hne]
    exact hbefore

theorem Alike.afterTurn (h : Alike proxy first c d) {ctx : LoopContext} {request : Request}
    {s : LoopState} (hmeets : ctx.MeetsAlike (d.onCaches r') (c.onCaches r)) :
    Alike proxy first (c.afterTurn ctx id request s r) (d.afterTurn ctx id request s r') := by
  refine ⟨fun key hc hd => ?_, h.running, h.given⟩
  have hbefore : c.caches.lookup key = d.caches.lookup key :=
    h.caches key (fun htouched => hc (touched_afterTurn htouched))
      (fun htouched => hd (touched_afterTurn htouched))
  exact LoopContext.lookup_turn_congr hmeets hbefore

theorem alike_arrive (h : Alike proxy first c d)
    (hsame : first id = false →
      arrival proxy (c.seenBy env swept) req = arrival proxy (d.seenBy env' swept) req)
    (hstepc : c.step proxy (.arrive id env req swept) = some c')
    (hstepd : d.step proxy (.arrive id env' req swept) = some d') : Alike proxy first c' d' := by
  obtain ⟨c'', hc, rfl⟩ := step_effected hstepc
  obtain ⟨d'', hd, rfl⟩ := step_effected hstepd
  refine Alike.later ?_ _ _
  cases hc with
  | arrive _ =>
    cases hd with
    | arrive _ =>
      have hswept := h.removeEntries swept
      cases hid : first id with
      | true => exact ((hswept.settle_first hid _).symm.settle_first hid _).symm
      | false =>
        rw [hsame hid]
        exact hswept.settle _

theorem alike_prepare_first {now : Nat} (h : Alike proxy first c d) (hid : first id = true)
    (hstep : c.step proxy (.prepare id now) = some c') : Alike proxy first c' d := by
  obtain ⟨c'', hc, rfl⟩ := step_effected hstep
  refine Alike.later (d := d) ?_ _ d.clock
  cases hc with
  | prepare _ => exact h.settle_first hid _

theorem alike_prepare {now : Nat} (h : Alike proxy first c d) (hid : first id = false)
    (hokc : ∀ env request ctx req, c.running id = some ⟨env, request, .admitted ctx req⟩ →
      ¬c.Touched proxy first ctx.cacheKey)
    (hokd : ∀ env request ctx req, d.running id = some ⟨env, request, .admitted ctx req⟩ →
      ¬d.Touched proxy first ctx.cacheKey)
    (hstepc : c.step proxy (.prepare id now) = some c')
    (hstepd : d.step proxy (.prepare id now) = some d') : Alike proxy first c' d' := by
  obtain ⟨c'', hc, rfl⟩ := step_effected hstepc
  obtain ⟨d'', hd, rfl⟩ := step_effected hstepd
  refine Alike.later ?_ _ _
  cases hc with
  | @prepare _ _ env request req ctx hrunning =>
    cases hd with
    | prepare hrunning' =>
      have hsame := h.running id hid
      rw [hrunning, hrunning'] at hsame
      cases hsame
      have hlookup := h.caches ctx.cacheKey (hokc _ _ _ _ hrunning) (hokd _ _ _ _ hrunning')
      have hprepared : BreakerClients.prepared ctx c.caches now req =
          BreakerClients.prepared ctx d.caches now req := by
        simp only [BreakerClients.prepared, addConditionalHeaders, Caches.findCached_congr hlookup]
      rw [hprepared]
      exact h.settle _

theorem alike_turn_first (hc : c.Sound proxy) (h : Alike proxy first c d) (hid : first id = true)
    (hintime : ∀ env request ctx s, c.running id = some ⟨env, request, .looping ctx s⟩ →
      ctx.PutsInTime (c.onCaches r))
    (hstep : c.step proxy (.turn id r) = some c') : Alike proxy first c' d := by
  obtain ⟨c'', heffect, rfl⟩ := step_effected hstep
  refine Alike.later (d := d) ?_ _ d.clock
  cases heffect with
  | turn hrunning =>
    have hcrates := crates_of_admits (hc.clients hrunning).1
    exact (h.afterTurn_first hid hcrates (hintime _ _ _ _ hrunning)).settle_first hid _

theorem alike_turn (h : Alike proxy first c d) {request : Request} {ctx : LoopContext}
    {s : LoopState} (hrunc : c.running id = some ⟨env, request, .looping ctx s⟩)
    (hrund : d.running id = some ⟨env', request, .looping ctx s⟩)
    (hmeets : ctx.MeetsAlike (d.onCaches r') (c.onCaches r))
    (hnext : (ctx.turn s (c.onCaches r)).next = (ctx.turn s (d.onCaches r')).next)
    (hstepc : c.step proxy (.turn id r) = some c')
    (hstepd : d.step proxy (.turn id r') = some d') : Alike proxy first c' d' := by
  obtain ⟨c'', hc, rfl⟩ := step_effected hstepc
  obtain ⟨d'', hd, rfl⟩ := step_effected hstepd
  refine Alike.later ?_ _ _
  cases hc with
  | turn hrunning =>
    cases hd with
    | turn hrunning' =>
      cases hrunc.symm.trans hrunning
      cases hrund.symm.trans hrunning'
      have hsame : BreakerClients.turned ctx s (c.onCaches r) =
          BreakerClients.turned ctx s (d.onCaches r') := by
        rw [BreakerClients.turned, BreakerClients.turned, hnext]
      rw [hsame]
      exact (h.afterTurn hmeets).settle _

theorem alike_sweep {cacheKey key : Str} {now : Nat} (h : Alike proxy first c d)
    (hstepc : c.step proxy (.sweep cacheKey key now) = some c')
    (hstepd : d.step proxy (.sweep cacheKey key now) = some d') : Alike proxy first c' d' := by
  obtain ⟨c'', hc, rfl⟩ := step_effected hstepc
  obtain ⟨d'', hd, rfl⟩ := step_effected hstepd
  refine Alike.later ?_ _ _
  cases hc with
  | sweep =>
    cases hd with
    | sweep => exact h.removeEntries [(cacheKey, key)]

end CacheClients

theorem belowMax_empty : BalancerState.empty.BelowMax :=
  ⟨fun key => by simp [BalancerState.empty, usizeMax],
    fun url => by simp [BalancerState.empty, usizeMax]⟩

/-- The url of an attempt does not turn on what the balancer counts. -/
def LoopContext.UrlFixed (ctx : LoopContext) (r : Round) : Prop :=
  ∀ st : BalancerState, st.BelowMax →
    (ctx.attemptUrl { r with balancer := st }).2 = (ctx.attemptUrl r).2

namespace SharedClients

variable {proxy : Proxy} {first : Nat → Bool} {w v w' v' : SharedClients} {e : SharedEvent}
  {env : Surroundings} {req req' : Request} {swept : List (Str × Str)} {ctx : LoopContext}
  {r : Round} {id : Nat} {key : Str}

/-- The first user has been for a target whose breaker stands under a key. -/
def Shares (first : Nat → Bool) (w : SharedClients) (key : Str) : Prop :=
  ∃ visit ∈ w.visits, first visit.id = true ∧ visit.selected.breakerKey = key

/-- The condition on the arrival of a request of the others: it does not ask for the metrics, it
looks at no key under which the first user has stored an exchange, and a breaker of the first user's
targets lets it in. -/
structure ArrivesApart (proxy : Proxy) (first : Nat → Bool) (w : SharedClients)
    (env : Surroundings) (req : Request) (swept : List (Str × Str)) : Prop where
  path : req.uri.path ≠ "/metrics".toList
  keys : ∀ key, proxy.plainKey env req = some key → ¬w.clients.Touched proxy first key
  breaker : ∀ ctx req', w.come proxy env req swept = .going (ctx, req') →
    w.Shares first ctx.breakerKey → w.letsIn proxy ctx env.breakerNow = true

/-- The condition on a turn of a request of the others: a 304 makes it look at no key under which
the first user has stored an exchange, its url does not turn on the counters of the balancer, and
the breaker takes its report without a panic. -/
structure TurnsApart (proxy : Proxy) (first : Nat → Bool) (w : SharedClients) (ctx : LoopContext)
    (r : Round) : Prop where
  keys : r.isNotModified = true → ¬w.clients.Touched proxy first ctx.cacheKey
  url : ctx.UrlFixed (w.round proxy ctx r)
  reports : ∀ report, (w.round proxy ctx r).breaker.reportPanics report r.breakerNow = false

/-- The condition that a step of the others' requests does not turn on the first user's, and that
what a turn puts expires at an `Instant`. -/
def Separated (proxy : Proxy) (first : Nat → Bool) (w : SharedClients) : SharedEvent → Prop
  | .client (.arrive id env req swept) => first id = false → w.ArrivesApart proxy first env req swept
  | .client (.prepare id _) => first id = false → ∀ env request ctx req,
      w.clients.running id = some ⟨env, request, .admitted ctx req⟩ →
        ¬w.clients.Touched proxy first ctx.cacheKey
  | .client (.turn id r) => ∀ env request ctx s,
      w.clients.running id = some ⟨env, request, .looping ctx s⟩ →
        ctx.PutsInTime (w.clients.onCaches r) ∧ (first id = false → w.TurnsApart proxy first ctx r)
  | _ => True

/-- What a run shows of the first user's doings: all but the progress of the first user's
requests behind the breaker. -/
def seen (first : Nat → Bool) : SharedEvent → Bool
  | .client (.prepare id _) => !first id
  | .client (.turn id _) => !first id
  | _ => true

/-- Alike for the other users: what is alike of the caches and of the requests, the breakers of the
targets that the first user has not been for, the limiters, and the targets that there were requests
for. -/
structure Alike (proxy : Proxy) (first : Nat → Bool) (w v : SharedClients) : Prop where
  clients : CacheClients.Alike proxy first w.clients v.clients
  breakers : ∀ key, ¬w.Shares first key → w.breakers.lookup key = v.breakers.lookup key
  limiters : w.limiters = v.limiters
  visits : w.visits = v.visits

theorem Alike.shares (h : Alike proxy first w v) : w.Shares first key ↔ v.Shares first key := by
  rw [Shares, h.visits, Shares]

theorem Alike.symm (h : Alike proxy first w v) : Alike proxy first v w :=
  ⟨h.clients.symm, fun key hkey => (h.breakers key (fun hw => hkey (h.shares.mp hw))).symm,
    h.limiters.symm, h.visits.symm⟩

/-- Every request that is under way has been noted for its target. -/
def Visited (w : SharedClients) : Prop :=
  ∀ id client key, w.clients.running id = some client → client.stage.breakerKey = some key →
    ∃ visit ∈ w.visits, visit.id = id ∧ visit.selected.breakerKey = key

theorem received_of_come (h : w.come proxy env req swept = .going (ctx, req')) :
    ∃ r', proxy.receive env req = .going (r', ctx.selected) := by
  obtain ⟨⟨r', selected⟩, hreceive, h⟩ := Progress.bind_eq_going.mp h
  obtain ⟨c, happroach, h⟩ := Progress.bind_eq_going.mp h
  cases h
  obtain ⟨_, _, happroach⟩ := Progress.bind_eq_going.mp happroach
  obtain ⟨_, _, happroach⟩ := Progress.bind_eq_going.mp happroach
  obtain ⟨_, _, happroach⟩ := Progress.bind_eq_going.mp happroach
  obtain ⟨_, _, happroach⟩ := Progress.bind_eq_going.mp happroach
  cases happroach
  exact ⟨_, hreceive⟩

theorem subset_arrived (proxy : Proxy) (w : SharedClients) (id : Nat) (env : Surroundings)
    (req : Request) (swept : List (Str × Str)) :
    w.visits ⊆ (w.arrived proxy id env req swept).visits := by
  intro visit hvisit
  unfold arrived
  dsimp only
  split
  next => exact List.mem_cons_of_mem _ hvisit
  next => exact hvisit

/-- A request that comes to a breaker is noted for its target. -/
theorem noted_of_come (h : w.come proxy env req swept = .going (ctx, req')) :
    ⟨id, ctx.selected⟩ ∈ (w.arrived proxy id env req swept).visits := by
  obtain ⟨r', hreceive⟩ := received_of_come h
  unfold arrived
  dsimp only
  rw [hreceive]
  exact List.mem_cons_self

theorem admitted_of_arrival {stage : Stage}
    (h : CacheClients.arrival proxy (w.clients.seenBy (w.met proxy env req swept) swept) req =
      .going stage) :
    ∃ ctx req', w.come proxy env req swept = .going (ctx, req') ∧ stage = .admitted ctx req' := by
  rw [arrival_met] at h
  obtain ⟨⟨ctx, req'⟩, hcome, h⟩ := Progress.bind_eq_going.mp h
  dsimp only at h
  split at h
  next =>
    cases h
    exact ⟨ctx, req', hcome, rfl⟩
  next => simp [Progress.refuse] at h

theorem visited_start (limiters : List (Sigma (fun _ : Str => RateLimiter))) (now : Nat) :
    (start limiters now).Visited := by
  intro id client key hid
  cases hid

theorem visited_step (h : w.Visited) (hstep : w.step proxy e = some w') : w'.Visited := by
  intro i client key hi hkey
  have hactive : client.stage ≠ .blocked := by
    intro hblocked
    rw [hblocked] at hkey
    cases hkey
  cases moves_of_step hstep with
  | @arrive id env req swept clients hclients =>
    obtain ⟨c, heffect, rfl⟩ := CacheClients.step_effected hclients
    cases heffect with
    | arrive _ =>
      rcases CacheClients.running_settle hi hactive with ⟨rfl, stage, hp, rfl⟩ | ⟨_, hold⟩
      · obtain ⟨ctx, req', hcome, rfl⟩ := admitted_of_arrival hp
        cases hkey
        exact ⟨_, noted_of_come hcome, rfl, rfl⟩
      · obtain ⟨visit, hvisit, hsame⟩ := h i client key hold hkey
        exact ⟨visit, subset_arrived _ _ _ _ _ swept hvisit, hsame⟩
  | @prepare id now clients hclients =>
    obtain ⟨c, heffect, rfl⟩ := CacheClients.step_effected hclients
    cases heffect with
    | @prepare _ _ env request req ctx hrunning =>
      rcases CacheClients.running_settle hi hactive with ⟨rfl, stage, hp, rfl⟩ | ⟨_, hold⟩
      · exact h i _ key hrunning ((keepsBreaker_prepared _ _ _ _ _ hp).symm.trans hkey)
      · exact h i client key hold hkey
  | @turn id r env request ctx s clients _ hclients =>
    obtain ⟨c, heffect, rfl⟩ := CacheClients.step_effected hclients
    cases heffect with
    | @turn _ _ env request ctx s hrunning =>
      rcases CacheClients.running_settle hi hactive with ⟨rfl, stage, hp, rfl⟩ | ⟨_, hold⟩
      · exact h i _ key hrunning ((keepsBreaker_turned _ _ _ _ hp).symm.trans hkey)
      · exact h i client key hold hkey
  | sweep hclients =>
    obtain ⟨c, heffect, rfl⟩ := CacheClients.step_effected hclients
    cases heffect with
    | sweep => exact h i client key hi hkey
  | refill => exact h i client key hi hkey

theorem lookup_arrived (h : w.come proxy env req swept = .going (ctx, req')) :
    (w.arrived proxy id env req swept).breakers.lookup key =
      if key = ctx.breakerKey then
        some ((ctx.breakerIn proxy w.breakers env.breakerNow).canAttempt env.breakerNow).2
      else w.breakers.lookup key := by
  have hbreakers : (w.arrived proxy id env req swept).breakers =
      w.breakers.insert ctx.breakerKey
        ((ctx.breakerIn proxy w.breakers env.breakerNow).canAttempt env.breakerNow).2 := by
    simp only [SharedClients.arrived, h]
  rw [hbreakers]
  split
  next hkey =>
    subst hkey
    exact AList.lookup_insert _
  next hkey => exact AList.lookup_insert_ne hkey

theorem breakers_arrived_of_no_come
    (h : ∀ come, w.come proxy env req swept ≠ .going come) :
    (w.arrived proxy id env req swept).breakers = w.breakers := by
  unfold arrived
  dsimp only
  split
  next ctx req' hcome => exact absurd hcome (h _)
  next => rfl

/-- An arrival of the first user changes no breaker but of a target that it has then been for. -/
theorem lookup_arrived_first (hid : first id = true)
    (hkey : ¬(w.arrived proxy id env req swept).Shares first key) :
    (w.arrived proxy id env req swept).breakers.lookup key = w.breakers.lookup key := by
  cases hcome : w.come proxy env req swept with
  | going come =>
    obtain ⟨ctx, req'⟩ := come
    rw [lookup_arrived hcome, if_neg]
    rintro rfl
    exact hkey ⟨_, noted_of_come hcome, hid, rfl⟩
  | ended ending => rw [breakers_arrived_of_no_come (by simp [hcome])]
  | blocked => rw [breakers_arrived_of_no_come (by simp [hcome])]

/-- A request of the others comes to its breaker in the same way. -/
theorem Alike.come (h : Alike proxy first w v) (hw : w.ArrivesApart proxy first env req swept)
    (hv : v.ArrivesApart proxy first env req swept) :
    v.come proxy env req swept = w.come proxy env req swept := by
  have hlookup : ∀ key, proxy.plainKey env req = some key →
      v.clients.caches.lookup key = w.clients.caches.lookup key := fun key hkey =>
    (h.clients.caches key (hw.keys key hkey) (hv.keys key hkey)).symm
  unfold SharedClients.come
  rw [← h.limiters]
  exact Proxy.comeToBreaker_congr (w.clients.seenBy { env with limiters := w.limiters } swept)
    env.breaker fun key hkey =>
      ⟨hlookup key hkey, Caches.lookup_removeEntries_congr swept (hlookup key hkey)⟩

theorem breakerIn_congr (h : w.breakers.lookup ctx.breakerKey = v.breakers.lookup ctx.breakerKey)
    (now : Nat) : ctx.breakerIn proxy w.breakers now = ctx.breakerIn proxy v.breakers now := by
  rw [LoopContext.breakerIn, h, LoopContext.breakerIn]

/-- The breaker decides alike on a request of the others. -/
theorem Alike.letsIn (h : Alike proxy first w v) (hw : w.ArrivesApart proxy first env req swept)
    (hv : v.ArrivesApart proxy first env req swept)
    (hcome : w.come proxy env req swept = .going (ctx, req')) :
    w.letsIn proxy ctx env.breakerNow = v.letsIn proxy ctx env.breakerNow := by
  by_cases hshares : w.Shares first ctx.breakerKey
  · rw [hw.breaker ctx req' hcome hshares,
      hv.breaker ctx req' ((h.come hw hv).trans hcome) (h.shares.mp hshares)]
  · rw [SharedClients.letsIn, breakerIn_congr (h.breakers _ hshares), SharedClients.letsIn]

theorem Alike.arrived (h : Alike proxy first w v)
    (hw : first id = false → w.ArrivesApart proxy first env req swept)
    (hv : first id = false → v.ArrivesApart proxy first env req swept) {c d : CacheClients}
    (hclients : CacheClients.Alike proxy first c d) :
    Alike proxy first { w.arrived proxy id env req swept with clients := c }
      { v.arrived proxy id env req swept with clients := d } := by
  have hvisits : (w.arrived proxy id env req swept).visits =
      (v.arrived proxy id env req swept).visits := by
    unfold SharedClients.arrived
    dsimp only
    rw [h.visits]
  have hlimiters : (w.arrived proxy id env req swept).limiters =
      (v.arrived proxy id env req swept).limiters := by
    unfold SharedClients.arrived
    dsimp only
    rw [h.limiters]
  refine ⟨hclients, fun key hkey => ?_, hlimiters, hvisits⟩
  have hkeyw : ¬(w.arrived proxy id env req swept).Shares first key := hkey
  have hkeyv : ¬(v.arrived proxy id env req swept).Shares first key := by
    rwa [Shares, ← hvisits]
  have hbefore : w.breakers.lookup key = v.breakers.lookup key := by
    refine h.breakers key ?_
    rintro ⟨visit, hvisit, hshares⟩
    exact hkeyw ⟨visit, subset_arrived _ _ _ _ _ _ hvisit, hshares⟩
  dsimp only
  cases hid : first id with
  | true => rw [lookup_arrived_first hid hkeyw, lookup_arrived_first hid hkeyv, hbefore]
  | false =>
    have hcome := h.come (hw hid) (hv hid)
    cases hgoing : w.come proxy env req swept with
    | going come =>
      obtain ⟨ctx, req'⟩ := come
      rw [lookup_arrived hgoing, lookup_arrived (hcome.trans hgoing)]
      split
      next heq =>
        subst heq
        rw [breakerIn_congr hbefore]
      next => exact hbefore
    | ended ending =>
      rw [breakers_arrived_of_no_come (by simp [hgoing]),
        breakers_arrived_of_no_come (by simp [hcome, hgoing]), hbefore]
    | blocked =>
      rw [breakers_arrived_of_no_come (by simp [hgoing]),
        breakers_arrived_of_no_come (by simp [hcome, hgoing]), hbefore]

/-- The rounds of a turn of the others' requests differ in nothing that the turn turns on. -/
theorem TurnsApart.meetsAlike (hw : w.TurnsApart proxy first ctx r)
    (hv : v.TurnsApart proxy first ctx r) :
    ctx.MeetsAlike (v.clients.onCaches (v.round proxy ctx r))
      (w.clients.onCaches (w.round proxy ctx r)) where
  url := (hw.url BalancerState.empty belowMax_empty).symm.trans
    (hv.url BalancerState.empty belowMax_empty)
  outcome := rfl
  reported report err := by
    have hrefused : ∀ {r' : Round}, r'.breaker.reportPanics report r'.breakerNow = false →
        r'.reported report err = .refuse err := by
      intro r' hr'
      rw [Round.reported, hr']
      exact if_neg Bool.false_ne_true
    exact (hrefused (hw.reports report)).trans (hrefused (hv.reports report)).symm
  now := rfl
  elapsed := rfl

/-- The progress of the first user's requests behind the breaker shows the others nothing. -/
theorem alike_unseen (hw : w.clients.Sound proxy) (hvisited : w.Visited)
    (h : Alike proxy first w v) (hok : w.Separated proxy first e) (he : seen first e = false)
    (hstep : w.step proxy e = some w') : Alike proxy first w' v := by
  cases moves_of_step hstep with
  | arrive _ => simp [seen] at he
  | @prepare id now clients hclients =>
    have hid : first id = true := by simpa [seen] using he
    exact ⟨CacheClients.alike_prepare_first h.clients hid hclients, h.breakers, h.limiters, h.visits⟩
  | @turn id r env request ctx s clients hrunning hclients =>
    have hid : first id = true := by simpa [seen] using he
    have hintime : ∀ env request ctx' s', w.clients.running id =
        some ⟨env, request, .looping ctx' s'⟩ →
        ctx'.PutsInTime (w.clients.onCaches (w.round proxy ctx r)) :=
      fun env request ctx' s' hrunning' => (hok env request ctx' s' hrunning').1
    refine ⟨CacheClients.alike_turn_first hw h.clients hid hintime hclients, fun key hkey => ?_,
      h.limiters, h.visits⟩
    have hne : key ≠ ctx.breakerKey := by
      rintro rfl
      obtain ⟨visit, hvisit, rfl, hshares⟩ := hvisited id _ _ hrunning rfl
      exact hkey ⟨visit, hvisit, hid, hshares⟩
    show (BreakerTable.reported _ _ _ _).lookup key = _
    rw [lookup_reported, if_neg hne]
    exact h.breakers key hkey
  | sweep => simp [seen] at he
  | refill => simp [seen] at he

/-- A step that the others see leaves them alike what was alike for them. -/
theorem alike_seen (h : Alike proxy first w v) (hokw : w.Separated proxy first e)
    (hokv : v.Separated proxy first e) (he : seen first e = true)
    (hstepw : w.step proxy e = some w') (hstepv : v.step proxy e = some v') :
    Alike proxy first w' v' := by
  cases moves_of_step hstepw with
  | @arrive id env req swept c hc =>
    cases moves_of_step hstepv with
    | arrive hd =>
      refine h.arrived hokw hokv (CacheClients.alike_arrive h.clients (fun hid => ?_) hc hd)
      have hcome := h.come (hokw hid) (hokv hid)
      rw [arrival_met, arrival_met, hcome]
      cases hgoing : w.come proxy env req swept with
      | ended ending => rfl
      | blocked => rfl
      | going come =>
        have hletsIn := h.letsIn (hokw hid) (hokv hid) hgoing
        simp only [Progress.going_bind, hletsIn]
  | @prepare id now c hc =>
    have hid : first id = false := by simpa [seen] using he
    cases moves_of_step hstepv with
    | prepare hd => exact ⟨CacheClients.alike_prepare h.clients hid (hokw hid) (hokv hid) hc hd,
        h.breakers, h.limiters, h.visits⟩
  | @turn id r env request ctx s c hrunning hc =>
    have hid : first id = false := by simpa [seen] using he
    cases moves_of_step hstepv with
    | @turn _ _ env' request' ctx' s' _ hrunning' hd =>
      obtain ⟨rfl, rfl, rfl⟩ := h.clients.looping hid hrunning hrunning'
      obtain ⟨hputsw, hapartw⟩ := hokw _ _ _ _ hrunning
      obtain ⟨hputsv, hapartv⟩ := hokv _ _ _ _ hrunning'
      have hmeets := (hapartw hid).meetsAlike (hapartv hid)
      obtain ⟨hreport, hnext⟩ := LoopContext.turn_congr (s := s') hmeets
        (LoopContext.PutsInTime.alike hputsv hputsw) (fun hmodified => Caches.findCached_congr
          (h.clients.caches _ ((hapartw hid).keys hmodified) ((hapartv hid).keys hmodified)) _ _)
      refine ⟨CacheClients.alike_turn h.clients hrunning hrunning' hmeets hnext hc hd,
        fun key hkey => ?_, h.limiters, h.visits⟩
      show (BreakerTable.reported _ _ _ _).lookup key = (BreakerTable.reported _ _ _ _).lookup key
      rw [lookup_reported, lookup_reported, h.breakers key hkey, hreport]
      rfl
  | @sweep cacheKey key now c hc =>
    cases moves_of_step hstepv with
    | sweep hd =>
      exact ⟨CacheClients.alike_sweep h.clients hc hd, h.breakers, h.limiters, h.visits⟩
  | refill =>
    cases moves_of_step hstepv with
    | refill => exact ⟨h.clients, h.breakers, by rw [h.limiters], h.visits⟩

end SharedClients

/-- Two runs that differ only in how the first user's requests go on behind the breaker give the
other users the same responses, if all steps meet the condition. -/
theorem others_served_alike {proxy : Proxy} {first : Nat → Bool}
    {limiters : List (Sigma (fun _ : Str => RateLimiter))} {start : Nat}
    {es es' : List SharedEvent} {w w' : SharedClients}
    (h : Run (SharedClients.step proxy) (SharedClients.Separated proxy first)
      (SharedClients.start limiters start) es w)
    (h' : Run (SharedClients.step proxy) (SharedClients.Separated proxy first)
      (SharedClients.start limiters start) es' w')
    (hsame : es.filter (SharedClients.seen first) = es'.filter (SharedClients.seen first)) :
    w.clients.given first = w'.clients.given first := by
  have hinvariant : ∀ {w : SharedClients} {e : SharedEvent} {w' : SharedClients},
      w.clients.Sound proxy ∧ w.Visited → w.step proxy e = some w' →
      w'.clients.Sound proxy ∧ w'.Visited := fun hw hstep =>
    ⟨SharedClients.sound_step hw.1 hstep, SharedClients.visited_step hw.2 hstep⟩
  have hstart : (SharedClients.start limiters start).clients.Sound proxy ∧
      (SharedClients.start limiters start).Visited :=
    ⟨CacheClients.idle_sound start, SharedClients.visited_start limiters start⟩
  have halike : (w.clients.Sound proxy ∧ w.Visited) ∧ (w'.clients.Sound proxy ∧ w'.Visited) ∧
      SharedClients.Alike proxy first w w' := by
    refine Run.unwind
      (R := fun w v => (w.clients.Sound proxy ∧ w.Visited) ∧ (v.clients.Sound proxy ∧ v.Visited) ∧
        SharedClients.Alike proxy first w v) ?_ ?_ ?_ h h' hsame
      ⟨hstart, hstart, ⟨CacheClients.Alike.refl _, fun _ _ => rfl, rfl, rfl⟩⟩
    · rintro w e w' v ⟨hw, hv, halike⟩ hok he hstep
      exact ⟨hinvariant hw hstep, hv, SharedClients.alike_unseen hw.1 hw.2 halike hok he hstep⟩
    · rintro w e w' v ⟨hv, hw, halike⟩ hok he hstep
      exact ⟨hv, hinvariant hw hstep,
        (SharedClients.alike_unseen hw.1 hw.2 halike.symm hok he hstep).symm⟩
    · rintro w v w' v' e ⟨hw, hv, halike⟩ hokw hokv hstepw hstepv he
      exact ⟨hinvariant hw hstepw, hinvariant hv hstepv,
        SharedClients.alike_seen halike hokw hokv he hstepw hstepv⟩
  exact halike.2.2.clients.given

/-- The hashing crates with the base64 texts of the two users below. -/
def userCrates : Crates :=
  { hashingCrates with
    base64Decode := fun s =>
      if s = "YWRhOjE=".toList then some (utf8 "ada:1".toList)
      else if s = "Ym9iOjI=".toList then some (utf8 "bob:2".toList) else none }

def userConfig : ProxyConfig :=
  plainConfig [{ cachingTarget "/api".toList ["http://localhost:5001".toList] with
    authentication := some ⟨.basic, none,
      some (((∅ : StrMap Str).insert "ada".toList "1".toList).insert "bob".toList "2".toList)⟩ }]

def adaCredentials : HeaderMap := [(authorizationHeader, utf8 "Basic YWRhOjE=".toList)]

def bobCredentials : HeaderMap := [(authorizationHeader, utf8 "Basic Ym9iOjI=".toList)]

def isFirst (id : Nat) : Bool := id = 0

/-- The first user gets a page with an answer to choose, then the second one asks for it. -/
def onePage (env : Surroundings) (answer : String) : List SharedEvent :=
  (fetchedThen env (getRequest "/api/me".toList adaCredentials)
    (plainRound (.response (textResponse [] answer)))
    (getRequest "/api/me".toList bobCredentials)).map .client

/-- Both users get their own page, the first one with an answer to choose. -/
def ownPages (env : Surroundings) (answer : String) : List SharedEvent :=
  (fetched 0 env (getRequest "/api/ada".toList adaCredentials)
      (plainRound (.response (textResponse [] answer))) ++
    fetched 1 env (getRequest "/api/bob".toList bobCredentials)
      (plainRound (.response (textResponse [] "bob")))).map .client

theorem LoopContext.urlFixed_of_no_balancer {ctx : LoopContext} (h : ctx.loadBalancer = none)
    (r : Round) : ctx.UrlFixed r := by
  intro st _
  simp only [attemptUrl, h]

theorem LoopContext.putsInTime_of_caches {ctx : LoopContext} {r : Round} {config : CacheConfig}
    (hconfig : ctx.selected.cacheConfig = some config)
    (hnew : r.now + (Cache.new config).ttl < instantEnd)
    (hall : r.caches.entries.all (fun e => decide (r.now + e.2.ttl < instantEnd)) = true) :
    ctx.PutsInTime r := by
  intro config' hconfig' key
  cases hconfig.symm.trans hconfig'
  unfold Caches.cacheFor
  cases hlookup : r.caches.lookup key with
  | none => exact hnew
  | some cache =>
    exact of_decide_eq_true (List.all_eq_true.mp hall _ (AList.mem_lookup_iff.mp hlookup))

namespace SharedClients

variable {proxy : Proxy} {first : Nat → Bool} {w : SharedClients} {id now : Nat}
  {env : Surroundings} {req req' request : Request} {swept : List (Str × Str)} {x : Exchange}
  {ctx : LoopContext} {s : LoopState} {r : Round} {key : Str}

theorem not_touched_of_stored (hstored : w.clients.stored = [x])
    (hne : (x.key proxy.crates.hashers.defaultHash == key) = false) :
    ¬w.clients.Touched proxy first key := by
  rintro ⟨y, hy, _, hkey⟩
  obtain rfl : y = x := by simpa [hstored] using hy
  simp [hkey] at hne

theorem separated_arrive (hpath : req.uri.path ≠ "/metrics".toList)
    (hstored : w.clients.stored = [x]) (hplain : proxy.plainKey env req = some key)
    (hne : (x.key proxy.crates.hashers.defaultHash == key) = false)
    (hcome : w.come proxy env req swept = .going (ctx, req'))
    (hletsIn : w.letsIn proxy ctx env.breakerNow = true) :
    w.Separated proxy first (.client (.arrive id env req swept)) := by
  refine fun _ => ⟨hpath, fun key' hkey' => ?_, fun ctx' req' hcome' _ => ?_⟩
  · cases hplain.symm.trans hkey'
    exact not_touched_of_stored hstored hne
  · cases hcome.symm.trans hcome'
    exact hletsIn

theorem separated_prepare (hstored : w.clients.stored = [x])
    (hid : w.clients.running id = some ⟨env, request, .admitted ctx req⟩)
    (hne : (x.key proxy.crates.hashers.defaultHash == ctx.cacheKey) = false) :
    w.Separated proxy first (.client (.prepare id now)) := by
  intro _ env' request' ctx' req' hid'
  cases hid.symm.trans hid'
  exact not_touched_of_stored hstored hne

theorem separated_turn (hid : w.clients.running id = some ⟨env, request, .looping ctx s⟩)
    (hintime : ctx.PutsInTime (w.clients.onCaches r))
    (hapart : first id = false → w.TurnsApart proxy first ctx r) :
    w.Separated proxy first (.client (.turn id r)) := by
  intro env' request' ctx' s' hid'
  cases hid.symm.trans hid'
  exact ⟨hintime, hapart⟩

theorem turnsApart_of_fresh (hfresh : r.isNotModified = false) (hbalancer : ctx.loadBalancer = none)
    (hreports : ∀ report,
      (w.round proxy ctx r).breaker.reportPanics report r.breakerNow = false) :
    w.TurnsApart proxy first ctx r := by
  refine ⟨fun hmodified => ?_, LoopContext.urlFixed_of_no_balancer hbalancer _, hreports⟩
  rw [hfresh] at hmodified
  cases hmodified

theorem separated_arrive_first (hid : first id = true) :
    w.Separated proxy first (.client (.arrive id env req swept)) := by
  intro hfirst
  rw [hid] at hfirst
  cases hfirst

theorem separated_prepare_first (hid : first id = true) :
    w.Separated proxy first (.client (.prepare id now)) := by
  intro hfirst
  rw [hid] at hfirst
  cases hfirst

theorem separated_turn_first (hid : first id = true)
    (hrunning : w.clients.running id = some ⟨env, request, .looping ctx s⟩)
    (hintime : ctx.PutsInTime (w.clients.onCaches r)) :
    w.Separated proxy first (.client (.turn id r)) := by
  refine separated_turn hrunning hintime fun hfirst => ?_
  rw [hid] at hfirst
  cases hfirst

end SharedClients

set_option maxRecDepth 4000 in
theorem others_served_alike_own_pages :
    ∃ (proxy : Proxy) (env : Surroundings) (w w' : SharedClients),
    Proxy.ofConfig userCrates userConfig = .ok proxy ∧
    env.targetOrder = proxy.targetMap.entries ∧
    Run (SharedClients.step proxy) (SharedClients.Separated proxy isFirst)
      (SharedClients.start [] 0) (ownPages env "one") w ∧
    Run (SharedClients.step proxy) (SharedClients.Separated proxy isFirst)
      (SharedClients.start [] 0) (ownPages env "two") w' ∧
    w.clients.given isFirst = w'.clients.given isFirst := by
  have hpath : "/api/bob".toList ≠ "/metrics".toList := by decide
  have htrace : ∃ (proxy : Proxy) (env : Surroundings) (w w' : SharedClients),
      Proxy.ofConfig userCrates userConfig = .ok proxy ∧
      env.targetOrder = proxy.targetMap.entries ∧
      Run (SharedClients.step proxy) (SharedClients.Separated proxy isFirst)
        (SharedClients.start [] 0) (ownPages env "one") w ∧
      Run (SharedClients.step proxy) (SharedClients.Separated proxy isFirst)
        (SharedClients.start [] 0) (ownPages env "two") w' :=
    ⟨_, plainSurroundings _ (fun _ => plainRound .timedOut), _, _, rfl, rfl,
      .cons (SharedClients.separated_arrive_first rfl) rfl
        (.cons (SharedClients.separated_prepare_first rfl) rfl
        (.cons (SharedClients.separated_turn_first rfl rfl
          (LoopContext.putsInTime_of_caches rfl (of_decide_eq_true rfl) rfl)) rfl
        (.cons (SharedClients.separated_arrive hpath rfl rfl rfl rfl rfl) rfl
        (.cons (SharedClients.separated_prepare rfl rfl rfl) rfl
        (.cons (SharedClients.separated_turn rfl
          (LoopContext.putsInTime_of_caches rfl (of_decide_eq_true rfl) rfl)
          fun _ => SharedClients.turnsApart_of_fresh rfl rfl
            (fun report => by cases report <;> rfl)) rfl (.nil _)))))),
      .cons (SharedClients.separated_arrive_first rfl) rfl
        (.cons (SharedClients.separated_prepare_first rfl) rfl
        (.cons (SharedClients.separated_turn_first rfl rfl
          (LoopContext.putsInTime_of_caches rfl (of_decide_eq_true rfl) rfl)) rfl
        (.cons (SharedClients.separated_arrive hpath rfl rfl rfl rfl rfl) rfl
        (.cons (SharedClients.separated_prepare rfl rfl rfl) rfl
        (.cons (SharedClients.separated_turn rfl
          (LoopContext.putsInTime_of_caches rfl (of_decide_eq_true rfl) rfl)
          fun _ => SharedClients.turnsApart_of_fresh rfl rfl
            (fun report => by cases report <;> rfl)) rfl (.nil _))))))⟩
  obtain ⟨proxy, env, w, w', hproxy, horder, hrun, hrun'⟩ := htrace
  exact ⟨proxy, env, w, w', hproxy, horder, hrun, hrun', others_served_alike hrun hrun' rfl⟩

set_option maxRecDepth 2000 in
/-- Both users are authenticated, and the second one gets what the upstream has answered to the
first one. -/
theorem first_answer_served_to_second :
    ∃ (proxy : Proxy) (env : Surroundings) (selected selected' : Selected)
      (auth : AuthenticationConfig) (w w' : SharedClients),
    Proxy.ofConfig userCrates userConfig = .ok proxy ∧
    env.targetOrder = proxy.targetMap.entries ∧
    proxy.receive env (getRequest "/api/me".toList adaCredentials) =
      .going ((getRequest "/api/me".toList adaCredentials).bodyRead, selected) ∧
    proxy.receive env (getRequest "/api/me".toList bobCredentials) =
      .going ((getRequest "/api/me".toList bobCredentials).bodyRead, selected') ∧
    selected.authConfig = some auth ∧ selected'.authConfig = some auth ∧
    selected.cacheConfig.isSome = true ∧
    authenticate proxy.crates env.systemTime (some auth)
      (getRequest "/api/me".toList adaCredentials) = .ok () ∧
    authenticate proxy.crates env.systemTime (some auth)
      (getRequest "/api/me".toList bobCredentials) = .ok () ∧
    Run (SharedClients.step proxy) anyStep (SharedClients.start [] 0) (onePage env "one") w ∧
    Run (SharedClients.step proxy) anyStep (SharedClients.start [] 0) (onePage env "two") w' ∧
    (onePage env "one").filter (SharedClients.seen isFirst) =
      (onePage env "two").filter (SharedClients.seen isFirst) ∧
    (∃ resp resp', w.clients.given isFirst = [(1, .cached resp)] ∧
      w'.clients.given isFirst = [(1, .cached resp')] ∧
      resp.body = Body.ofBytes (utf8 "one".toList) ∧
      resp'.body = Body.ofBytes (utf8 "two".toList)) :=
  ⟨_, plainSurroundings _ (fun _ => plainRound .timedOut), _, _, _, _, _, rfl, rfl, rfl, rfl, rfl,
    rfl, rfl, rfl, rfl,
    .cons trivial rfl (.cons trivial rfl (.cons trivial rfl (.cons trivial rfl (.nil _)))),
    .cons trivial rfl (.cons trivial rfl (.cons trivial rfl (.cons trivial rfl (.nil _)))),
    rfl, _, _, rfl, rfl, rfl, rfl⟩

end Road7
