import Road7.Arrival
import Road7.BreakerClients
import Road7.PlainProxy
import Road7.TargetRouting

namespace Road7

def CircuitBreakerConfig.limits (config : CircuitBreakerConfig) : BreakerLimits :=
  ⟨config.maxFailures, config.halfOpenAttempts, fromSecs config.resetTimeoutSeconds⟩

/-- The key that the breakers are kept under: the first url of the target, not its path. -/
def Selected.breakerKey (selected : Selected) : Str :=
  selected.targetUrls.head?.getD [] ++ ":circuit_breaker".toList

def LoopContext.breakerKey (ctx : LoopContext) : Str := ctx.selected.breakerKey

/-- The configuration that a breaker made for a request gets: of its target, else the default. -/
def LoopContext.breakerConfig (ctx : LoopContext) (proxy : Proxy) : CircuitBreakerConfig :=
  ctx.selected.circuitBreakerConfig.getD proxy.defaultCircuitBreakerConfig

/-- `entry(key).or_insert_with(..)`: the breaker that decides on a request. -/
def LoopContext.breakerIn (ctx : LoopContext) (proxy : Proxy) (breakers : StrMap CircuitBreaker)
    (now : Nat) : CircuitBreaker :=
  (breakers.lookup ctx.breakerKey).getD (CircuitBreaker.new (ctx.breakerConfig proxy) now)

/-- From the arrival of a request to its breaker. -/
def Proxy.comeToBreaker (proxy : Proxy) (env : Surroundings) (req : Request) :
    Progress (LoopContext × Request) := do
  let (req, selected) ← proxy.receive env req
  let ctx ← proxy.approach env req selected
  .going (ctx, req)

theorem Proxy.arrive_eq (proxy : Proxy) (env : Surroundings) (req : Request) :
    proxy.arrive env req = proxy.comeToBreaker env req >>= fun come =>
      Proxy.checkBreaker env >>= fun _ => .going come := by
  simp only [arrive, comeToBreaker, Progress.bind_assoc, Progress.going_bind]

/-- The key that the breaker of a request stands under, while the request can still use it. -/
def Stage.breakerKey : Stage → Option Str
  | .admitted ctx _ => some ctx.breakerKey
  | .looping ctx _ => some ctx.breakerKey
  | .blocked => none

/-- A request that moves on keeps its breaker. -/
def KeepsBreaker (key : Str) (p : Progress Stage) : Prop :=
  ∀ stage, p = .going stage → stage.breakerKey = some key

theorem keepsBreaker_prepared (ctx : LoopContext) (caches : Caches) (now : Nat) (req : Request) :
    KeepsBreaker ctx.breakerKey (BreakerClients.prepared ctx caches now req) := by
  intro stage h
  obtain ⟨_, _, h⟩ := Progress.bind_eq_going.mp h
  cases h
  rfl

theorem keepsBreaker_turned (ctx : LoopContext) (s : LoopState) (r : Round) :
    KeepsBreaker ctx.breakerKey (BreakerClients.turned ctx s r) := by
  intro stage h
  obtain ⟨_, _, h⟩ := Progress.bind_eq_going.mp h
  cases h
  rfl

/-- The breakers of all targets, with the requests that they have admitted. -/
structure BreakerTable where
  breakers : StrMap CircuitBreaker
  running : List Stage

/-- A request comes to its breaker; an admitted one looks for its conditional headers; one in its
retry loop makes a turn. -/
inductive TableEvent where
  | arrive (env : Surroundings) (req : Request) (now : Nat)
  | prepare (i : Nat) (caches : Caches) (now : Nat)
  | turn (i : Nat) (r : Round) (now : Nat)

/-- The request of an event that comes to a breaker. -/
def TableEvent.arrival (proxy : Proxy) : TableEvent → Option LoopContext
  | .arrive env req _ =>
    match proxy.comeToBreaker env req with
    | .going (ctx, _) => some ctx
    | _ => none
  | _ => none

def arrivals (proxy : Proxy) (es : List TableEvent) : List LoopContext :=
  es.filterMap (TableEvent.arrival proxy)

theorem arrivals_cons (proxy : Proxy) (e : TableEvent) (es : List TableEvent) :
    arrivals proxy (e :: es) = (e.arrival proxy).toList ++ arrivals proxy es := by
  unfold arrivals
  rw [List.filterMap_cons]
  cases e.arrival proxy with
  | none => rfl
  | some ctx => rfl

namespace BreakerTable

def empty : BreakerTable := ⟨∅, []⟩

def breakerFor (table : BreakerTable) (proxy : Proxy) (ctx : LoopContext) (now : Nat) :
    CircuitBreaker := ctx.breakerIn proxy table.breakers now

/-- A request reports to the breaker that has admitted it. -/
def reported (breakers : StrMap CircuitBreaker) (ctx : LoopContext) (report : Option Report)
    (now : Nat) : StrMap CircuitBreaker :=
  match breakers.lookup ctx.breakerKey, report with
  | some b, some r => breakers.insert ctx.breakerKey (b.report r now)
  | _, _ => breakers

def step (proxy : Proxy) (table : BreakerTable) : TableEvent → Option BreakerTable
  | .arrive env req now =>
    match proxy.comeToBreaker env req with
    | .going (ctx, req) =>
      let (admitted, b) := (table.breakerFor proxy ctx now).canAttempt now
      some ⟨table.breakers.insert ctx.breakerKey b,
        if admitted then .admitted ctx req :: table.running else table.running⟩
    | _ => none
  | .prepare i caches now =>
    match table.running[i]? with
    | some (.admitted ctx req) =>
      some ⟨table.breakers,
        BreakerClients.moveOn table.running i (BreakerClients.prepared ctx caches now req)⟩
    | _ => none
  | .turn i r now =>
    match table.running[i]? with
    | some (.looping ctx s) =>
      some ⟨reported table.breakers ctx (ctx.turn s r).report now,
        BreakerClients.moveOn table.running i (BreakerClients.turned ctx s r)⟩
    | _ => none

/-- The targets are looked through in an order of the map that they are in. -/
def InOrder (proxy : Proxy) (_ : BreakerTable) : TableEvent → Prop
  | .arrive env _ _ => IterationOf proxy.targetMap env.targetOrder
  | _ => True

/-- The breaker that decides on the request of an event has the limits that the request's own
target asks for. -/
def Governed (proxy : Proxy) (table : BreakerTable) : TableEvent → Prop
  | .arrive env req now => ∀ ctx req', proxy.comeToBreaker env req = .going (ctx, req') →
      (table.breakerFor proxy ctx now).limits = (ctx.breakerConfig proxy).limits
  | _ => True

/-- What the table does to a request that comes to it is what `proxy_request` does when it finds
the breaker of the table. -/
theorem admits_iff {table : BreakerTable} {proxy : Proxy} {env : Surroundings}
    {req req' : Request} {ctx : LoopContext} {now : Nat}
    (hcome : proxy.comeToBreaker env req = .going (ctx, req'))
    (hbreaker : env.breaker = table.breakerFor proxy ctx now) (hnow : env.breakerNow = now) :
    proxy.arrive env req = .going (ctx, req') ↔
      ((table.breakerFor proxy ctx now).canAttempt now).1 = true := by
  rw [Proxy.arrive_eq, hcome, Progress.going_bind]
  unfold Proxy.checkBreaker
  rw [hbreaker, hnow]
  split
  next hadmitted => simp [hadmitted]
  next hrefused => simp [hrefused, Progress.refuse]

/-- The limits of the breaker that stands under a key. -/
def limitsAt (table : BreakerTable) (key : Str) : Option BreakerLimits :=
  (table.breakers.lookup key).map CircuitBreaker.limits

theorem limits_breakerFor (table : BreakerTable) (proxy : Proxy) (ctx : LoopContext) (now : Nat) :
    (table.breakerFor proxy ctx now).limits =
      (table.limitsAt ctx.breakerKey).getD (ctx.breakerConfig proxy).limits := by
  unfold breakerFor LoopContext.breakerIn limitsAt
  cases table.breakers.lookup ctx.breakerKey with
  | none => rfl
  | some b => rfl

variable {proxy : Proxy} {table table' : BreakerTable} {e : TableEvent}

theorem limitsAt_insert (breakers : StrMap CircuitBreaker) (running : List Stage) (key : Str)
    (b : CircuitBreaker) (key' : Str) : limitsAt ⟨breakers.insert key b, running⟩ key' =
      if key' = key then some b.limits else limitsAt ⟨breakers, running⟩ key' := by
  unfold limitsAt
  by_cases hkey : key' = key
  · subst hkey
    rw [if_pos rfl, AList.lookup_insert]
    rfl
  · rw [if_neg hkey, AList.lookup_insert_ne hkey]

/-- Only the arrival of a request changes what limits are in force, and only where there are none
yet. -/
theorem limitsAt_step (h : step proxy table e = some table') (key : Str) :
    table'.limitsAt key = (e.arrival proxy).elim (table.limitsAt key) (fun ctx =>
      if key = ctx.breakerKey then
        some ((table.limitsAt key).getD (ctx.breakerConfig proxy).limits)
      else table.limitsAt key) := by
  cases e with
  | arrive env req now =>
    simp only [step] at h
    split at h
    next ctx req' hcome =>
      have hlimits := ((table.breakerFor proxy ctx now).canAttempt_keeps now).1
      cases h
      simp only [TableEvent.arrival, hcome, limitsAt_insert, hlimits, limits_breakerFor,
        Option.elim_some]
      by_cases hkey : key = ctx.breakerKey
      · rw [if_pos hkey, if_pos hkey, hkey]
      · rw [if_neg hkey, if_neg hkey]
        rfl
    next => simp at h
  | prepare i caches now =>
    simp only [step] at h
    split at h
    next =>
      cases h
      rfl
    next => simp at h
  | turn i r now =>
    simp only [step] at h
    split at h
    next ctx s _ =>
      cases h
      simp only [TableEvent.arrival, reported]
      split
      next b report hb _ =>
        rw [limitsAt_insert]
        by_cases hkey : key = ctx.breakerKey
        · rw [if_pos hkey, hkey, CircuitBreaker.report_limits]
          simp [limitsAt, hb]
        · rw [if_neg hkey]
          rfl
      next => rfl
    next => simp at h

theorem governed_iff : Governed proxy table e ↔ ∀ ctx, e.arrival proxy = some ctx →
    (table.limitsAt ctx.breakerKey).getD (ctx.breakerConfig proxy).limits =
      (ctx.breakerConfig proxy).limits := by
  cases e with
  | arrive env req now =>
    simp only [Governed, TableEvent.arrival, limits_breakerFor]
    constructor
    · intro h ctx harrival
      split at harrival
      next c req' hcome =>
        cases harrival
        exact h _ _ hcome
      next => simp at harrival
    · intro h ctx req' hcome
      exact h ctx (by rw [hcome])
  | prepare i caches now => simp [Governed, TableEvent.arrival]
  | turn i r now => simp [Governed, TableEvent.arrival]

/-- Under the keys of the requests that have come there are the limits that each of them asks for,
and under no other key is there anything. -/
structure FiledBy (proxy : Proxy) (come : List LoopContext) (table : BreakerTable) : Prop where
  filed : ∀ ctx ∈ come, table.limitsAt ctx.breakerKey = some (ctx.breakerConfig proxy).limits
  come : ∀ key limits, table.limitsAt key = some limits → ∃ ctx ∈ come, ctx.breakerKey = key

theorem filedBy_empty (proxy : Proxy) : FiledBy proxy [] empty :=
  ⟨by simp, fun key limits h => by simp [limitsAt, empty] at h⟩

/-- Requests that share a breaker ask for the same limits. -/
def SharedAlike (proxy : Proxy) (come : List LoopContext) : Prop :=
  ∀ ctx ∈ come, ∀ ctx' ∈ come, ctx.breakerKey = ctx'.breakerKey →
    (ctx.breakerConfig proxy).limits = (ctx'.breakerConfig proxy).limits

theorem FiledBy.sharedAlike {come : List LoopContext} (h : FiledBy proxy come table) :
    SharedAlike proxy come := by
  intro ctx hctx ctx' hctx' hkey
  have hfiled := h.filed ctx hctx
  rw [hkey, h.filed ctx' hctx'] at hfiled
  exact (Option.some.inj hfiled).symm

theorem FiledBy.step {come : List LoopContext} (h : FiledBy proxy come table)
    (hgoverned : Governed proxy table e) (hstep : BreakerTable.step proxy table e = some table') :
    FiledBy proxy (come ++ (e.arrival proxy).toList) table' := by
  have hlimits := limitsAt_step hstep
  cases harrival : e.arrival proxy with
  | none =>
    simp only [harrival, Option.elim_none] at hlimits
    rw [Option.toList_none, List.append_nil]
    exact ⟨fun ctx hctx => (hlimits _).trans (h.filed ctx hctx),
      fun key limits hkey => h.come key limits ((hlimits key).symm.trans hkey)⟩
  | some ctx =>
    have hown := governed_iff.mp hgoverned ctx harrival
    simp only [harrival, Option.elim_some] at hlimits
    constructor
    · intro c hc
      rw [hlimits]
      by_cases hkey : c.breakerKey = ctx.breakerKey
      · rw [if_pos hkey, hkey, hown]
        rcases List.mem_append.mp hc with hc | hc
        · have hfiled := h.filed c hc
          rw [hkey] at hfiled
          rw [hfiled, Option.getD_some] at hown
          rw [hown]
        · rw [List.mem_singleton.mp hc]
      · rw [if_neg hkey]
        rcases List.mem_append.mp hc with hc | hc
        · exact h.filed c hc
        · exact absurd (congrArg _ (List.mem_singleton.mp hc)) hkey
    · intro key limits hlimitsAt
      rw [hlimits] at hlimitsAt
      by_cases hkey : key = ctx.breakerKey
      · exact ⟨ctx, by simp, hkey.symm⟩
      · rw [if_neg hkey] at hlimitsAt
        obtain ⟨c, hc, hcome⟩ := h.come key limits hlimitsAt
        exact ⟨c, List.mem_append_left _ hc, hcome⟩

theorem FiledBy.governed {come : List LoopContext} (h : FiledBy proxy come table)
    (halike : SharedAlike proxy (come ++ (e.arrival proxy).toList)) : Governed proxy table e := by
  rw [governed_iff]
  intro ctx harrival
  rw [harrival] at halike
  cases hlimits : table.limitsAt ctx.breakerKey with
  | none => rfl
  | some limits =>
    obtain ⟨c, hc, hkey⟩ := h.come ctx.breakerKey limits hlimits
    have hfiled := h.filed c hc
    rw [hkey, hlimits] at hfiled
    rw [Option.getD_some, Option.some.inj hfiled]
    exact halike c (List.mem_append_left _ hc) ctx (by simp) hkey

theorem filedBy_of_governed {es : List TableEvent}
    (h : Run (step proxy) (Governed proxy) table es table') :
    ∀ {come : List LoopContext}, FiledBy proxy come table →
      FiledBy proxy (come ++ arrivals proxy es) table' := by
  induction h with
  | nil =>
    intro come hfiled
    rwa [arrivals, List.filterMap_nil, List.append_nil]
  | cons hgoverned hstep _ ih =>
    intro come hfiled
    rw [arrivals_cons, ← List.append_assoc]
    exact ih (hfiled.step hgoverned hstep)

theorem governed_of_sharedAlike {ok : BreakerTable → TableEvent → Prop} {es : List TableEvent}
    (h : Run (step proxy) ok table es table') :
    ∀ {come : List LoopContext}, FiledBy proxy come table →
      SharedAlike proxy (come ++ arrivals proxy es) →
      Run (step proxy) (Governed proxy) table es table' := by
  induction h with
  | nil s =>
    intro come _ _
    exact .nil s
  | @cons s t u e es _ hstep _ ih =>
    intro come hfiled halike
    rw [arrivals_cons, ← List.append_assoc] at halike
    have hgoverned : Governed proxy s e := by
      apply hfiled.governed
      intro ctx hctx ctx' hctx'
      exact halike ctx (List.mem_append_left _ hctx) ctx' (List.mem_append_left _ hctx')
    exact .cons hgoverned hstep (ih (hfiled.step hgoverned hstep) halike)

end BreakerTable

/-- What stands in the target map has been configured. -/
theorem mem_buildTargetMap {targets : List Target} {e : Sigma (fun _ : Str => TargetEntry)}
    (h : e ∈ (buildTargetMap targets).entries) : ∃ t ∈ targets, e = ⟨t.path, t.entry⟩ := by
  have hfold : ∀ (targets : List Target) (m : StrMap TargetEntry),
      e ∈ (targets.foldl (fun m t => m.insert t.path t.entry) m).entries →
      e ∈ m.entries ∨ ∃ t ∈ targets, e = ⟨t.path, t.entry⟩ := by
    intro targets
    induction targets with
    | nil => exact fun m h => .inl h
    | cons t targets ih =>
      intro m h
      rw [List.foldl_cons] at h
      rcases ih _ h with hm | ⟨t', ht', he⟩
      · rw [AList.entries_insert] at hm
        rcases List.mem_cons.mp hm with he | hm
        · exact .inr ⟨t, by simp, he⟩
        · exact .inl ((List.kerase_sublist _ _).subset hm)
      · exact .inr ⟨t', by simp [ht'], he⟩
  rcases hfold targets ∅ h with hnil | hmem
  · simp at hnil
  · exact hmem

theorem breakerDefault_of_ofConfig {crates : Crates} {config : ProxyConfig} {proxy : Proxy}
    (h : Proxy.ofConfig crates config = .ok proxy) :
    proxy.defaultCircuitBreakerConfig = config.defaultCircuitBreakerConfig := by
  obtain ⟨balancer, _, h⟩ := bind_eq_ok.mp h
  cases h
  rfl

/-- A request that comes to a breaker asks for the limits of a configured target that its path
belongs to, or of the default. -/
theorem breakerConfig_of_target {crates : Crates} {config : ProxyConfig} {proxy : Proxy}
    {env : Surroundings} {req req' : Request} {ctx : LoopContext}
    (hproxy : Proxy.ofConfig crates config = .ok proxy)
    (horder : IterationOf proxy.targetMap env.targetOrder)
    (h : proxy.comeToBreaker env req = .going (ctx, req')) :
    ∃ t ∈ config.targets, t.path <+: ctx.path ∧
      ctx.breakerConfig proxy =
        t.circuitBreakerConfig.getD config.defaultCircuitBreakerConfig := by
  have hmap := targetMap_of_ofConfig hproxy
  have hdefault := breakerDefault_of_ofConfig hproxy
  obtain ⟨⟨r, selected⟩, hreceive, h⟩ := Progress.bind_eq_going.mp h
  obtain ⟨c, happroach, h⟩ := Progress.bind_eq_going.mp h
  cases h
  obtain ⟨_, rfl, hroute⟩ := Proxy.receive_going hreceive
  obtain ⟨_, cacheKey, rfl⟩ := Proxy.approach_going happroach
  obtain ⟨e, hchosen, hselect⟩ := select_of_route hroute
  have hmem := horder.mem_iff.mp (List.mem_of_find?_eq_some hchosen)
  rw [hmap] at hmem
  obtain ⟨t, ht, rfl⟩ := mem_buildTargetMap hmem
  have hpre := List.find?_some hchosen
  rw [Bool.and_eq_true, List.isPrefixOf_iff_prefix] at hpre
  obtain ⟨strategy, _, hselect⟩ := bind_eq_ok.mp hselect
  cases hselect
  refine ⟨t, ht, hpre.1, ?_⟩
  unfold LoopContext.breakerConfig
  rw [hdefault]
  rfl

/-- The limits that each request of a run asks for are those of its target, and every breaker has
the limits of the target whose request it decides on exactly when the requests that share a first
url ask for the same. -/
theorem breaker_limits_iff {crates : Crates} {config : ProxyConfig} {proxy : Proxy}
    {es : List TableEvent} {table : BreakerTable}
    (hproxy : Proxy.ofConfig crates config = .ok proxy)
    (h : Run (BreakerTable.step proxy) (BreakerTable.InOrder proxy) BreakerTable.empty es table) :
    (∀ ctx ∈ arrivals proxy es, ∃ t ∈ config.targets, t.path <+: ctx.path ∧
      ctx.breakerConfig proxy =
        t.circuitBreakerConfig.getD config.defaultCircuitBreakerConfig) ∧
    (Run (BreakerTable.step proxy) (BreakerTable.Governed proxy) BreakerTable.empty es table ↔
      BreakerTable.SharedAlike proxy (arrivals proxy es)) := by
  have hempty := BreakerTable.filedBy_empty proxy
  refine ⟨?_, ?_, ?_⟩
  · generalize BreakerTable.empty = start at h
    induction h with
    | nil => simp [arrivals]
    | @cons s t u e es hok hstep _ ih =>
      intro ctx hctx
      rw [arrivals_cons] at hctx
      rcases List.mem_append.mp hctx with hctx | hctx
      · have harrival := Option.mem_toList.mp hctx
        cases e with
        | arrive env req now =>
          simp only [TableEvent.arrival] at harrival
          split at harrival
          next c req' hcome =>
            cases harrival
            exact breakerConfig_of_target hproxy hok hcome
          next => simp at harrival
        | prepare i caches now => simp [TableEvent.arrival] at harrival
        | turn i r now => simp [TableEvent.arrival] at harrival
      · exact ih ctx hctx
  · intro hgoverned
    have hfiled := BreakerTable.filedBy_of_governed hgoverned hempty
    rw [List.nil_append] at hfiled
    exact hfiled.sharedAlike
  · intro halike
    exact BreakerTable.governed_of_sharedAlike h hempty halike

/-- Two targets with one url, of which the second has limits of its own. -/
def sharingConfig : ProxyConfig :=
  plainConfig [plainTarget "/shop".toList ["http://localhost:5001".toList],
    { plainTarget "/bank".toList ["http://localhost:5001".toList] with
      circuitBreakerConfig := some ⟨10, 60, 2⟩ }]

/-- Two requests for one target, the first of which makes their breaker. -/
theorem breaker_limits_iff_one_target : ∃ (proxy : Proxy) (env : Surroundings)
    (table : BreakerTable),
    Proxy.ofConfig plainCrates sharingConfig = .ok proxy ∧
    Run (BreakerTable.step proxy) (BreakerTable.InOrder proxy) BreakerTable.empty
      [.arrive env (plainRequest "/bank".toList [] []) 0,
        .arrive env (plainRequest "/bank".toList [] []) 1] table ∧
    Run (BreakerTable.step proxy) (BreakerTable.Governed proxy) BreakerTable.empty
      [.arrive env (plainRequest "/bank".toList [] []) 0,
        .arrive env (plainRequest "/bank".toList [] []) 1] table := by
  have hlimits : ∀ {proxy : Proxy} {es : List TableEvent} {table : BreakerTable},
      Proxy.ofConfig plainCrates sharingConfig = .ok proxy →
      Run (BreakerTable.step proxy) (BreakerTable.InOrder proxy) BreakerTable.empty es table →
      BreakerTable.SharedAlike proxy (arrivals proxy es) →
      Run (BreakerTable.step proxy) (BreakerTable.Governed proxy) BreakerTable.empty es table :=
    fun hproxy h => (breaker_limits_iff hproxy h).2.mpr
  have hproxy : ∃ proxy env, Proxy.ofConfig plainCrates sharingConfig = .ok proxy ∧
      env.targetOrder = proxy.targetMap.entries ∧
      ∃ table table', BreakerTable.step proxy BreakerTable.empty
        (.arrive env (plainRequest "/bank".toList [] []) 0) = some table ∧
      BreakerTable.step proxy table
        (.arrive env (plainRequest "/bank".toList [] []) 1) = some table' :=
    ⟨_, plainSurroundings _ (fun _ => plainRound .timedOut), rfl, rfl, _, _, rfl, rfl⟩
  obtain ⟨proxy, env, hproxy, horder, table, table', hfirst, hsecond⟩ := hproxy
  have hok : ∀ table req now, BreakerTable.InOrder proxy table (.arrive env req now) :=
    fun _ _ _ => List.Perm.of_eq horder
  have hrun := Run.cons (hok _ _ _) hfirst (.cons (hok _ _ _) hsecond (.nil table'))
  refine ⟨proxy, env, table', hproxy, hrun, hlimits hproxy hrun ?_⟩
  have hone : ∀ ctx ∈ arrivals proxy [.arrive env (plainRequest "/bank".toList [] []) 0,
      .arrive env (plainRequest "/bank".toList [] []) 1],
      TableEvent.arrival proxy (.arrive env (plainRequest "/bank".toList [] []) 0) = some ctx := by
    intro ctx hctx
    obtain ⟨e, he, harrival⟩ := List.mem_filterMap.mp hctx
    rcases List.mem_pair.mp he with rfl | rfl
    · exact harrival
    · exact harrival
  intro ctx hctx ctx' hctx' _
  have hsame := (hone ctx hctx).symm.trans (hone ctx' hctx')
  rw [Option.some.inj hsame]

/-- The request for the second target is counted under the limits of the first one when that was
asked for before it, else under its own. -/
theorem first_request_sets_limits : ∃ (proxy : Proxy) (env : Surroundings)
    (table : BreakerTable) (ctx : LoopContext) (req : Request),
    Proxy.ofConfig plainCrates sharingConfig = .ok proxy ∧
    Run (BreakerTable.step proxy) (BreakerTable.InOrder proxy) BreakerTable.empty
      [.arrive env (plainRequest "/shop".toList [] []) 0] table ∧
    proxy.comeToBreaker env (plainRequest "/bank".toList [] []) = .going (ctx, req) ∧
    ctx.breakerConfig proxy = ⟨10, 60, 2⟩ ∧
    (table.breakerFor proxy ctx 1).limits = CircuitBreakerConfig.default.limits ∧
    (BreakerTable.empty.breakerFor proxy ctx 1).limits = CircuitBreakerConfig.limits ⟨10, 60, 2⟩ ∧
    ((table.breakerFor proxy ctx 1).canAttempt 1).1 = true ∧
    ¬BreakerTable.Governed proxy table (.arrive env (plainRequest "/bank".toList [] []) 1) := by
  have hproxy : ∃ proxy env, Proxy.ofConfig plainCrates sharingConfig = .ok proxy ∧
      env.targetOrder = proxy.targetMap.entries ∧
      ∃ table ctx req, BreakerTable.step proxy BreakerTable.empty
        (.arrive env (plainRequest "/shop".toList [] []) 0) = some table ∧
      proxy.comeToBreaker env (plainRequest "/bank".toList [] []) = .going (ctx, req) ∧
      ctx.breakerConfig proxy = ⟨10, 60, 2⟩ ∧
      (table.breakerFor proxy ctx 1).limits = CircuitBreakerConfig.default.limits ∧
      (BreakerTable.empty.breakerFor proxy ctx 1).limits =
        CircuitBreakerConfig.limits ⟨10, 60, 2⟩ ∧
      ((table.breakerFor proxy ctx 1).canAttempt 1).1 = true :=
    ⟨_, plainSurroundings _ (fun _ => plainRound .timedOut), rfl, rfl, _, _, _, rfl, rfl, rfl, rfl,
      rfl, rfl⟩
  obtain ⟨proxy, env, hproxy, horder, table, ctx, req, hstep, hcome, hconfig, hfirst, hown,
    hadmitted⟩ := hproxy
  have hok : BreakerTable.InOrder proxy BreakerTable.empty
      (.arrive env (plainRequest "/shop".toList [] []) 0) :=
    List.Perm.of_eq horder
  refine ⟨proxy, env, table, ctx, req, hproxy, .cons hok hstep (.nil table), hcome, hconfig,
    hfirst, hown, hadmitted, ?_⟩
  intro hgoverned
  have hlimits := hgoverned ctx req hcome
  rw [hfirst, hconfig] at hlimits
  have hmax : 3 = 10 := congrArg BreakerLimits.maxFailures hlimits
  omega

end Road7
