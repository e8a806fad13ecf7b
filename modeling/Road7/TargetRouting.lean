import Road7.BalancerPicks
import Road7.PlainProxy
import Road7.RequestStages

namespace Road7

/-- The entry that `find_target` settles on: the first, in the iteration order of the map, whose
path is a prefix and that provides urls for the request. -/
def chosenEntry (path : Str) (headers : HeaderMap)
    (order : List (Sigma (fun _ : Str => TargetEntry))) :
    Option (Sigma (fun _ : Str => TargetEntry)) :=
  order.find? (fun e => e.1.isPrefixOf path && (e.2.provided headers).isSome)

theorem findTarget_eq (defaults : TargetDefaults) (path : Str) (headers : HeaderMap)
    (order : List (Sigma (fun _ : Str => TargetEntry))) :
    findTarget defaults path headers order =
      match chosenEntry path headers order with
      | some e => (e.2.select defaults e.1 ((e.2.provided headers).getD [])).map some
      | none => .ok none := by
  induction order with
  | nil => rfl
  | cons e order ih =>
    obtain ⟨p, e⟩ := e
    simp only [findTarget, chosenEntry, List.find?_cons]
    cases hpre : p.isPrefixOf path with
    | false => simpa [chosenEntry] using ih
    | true =>
      cases hprov : e.provided headers with
      | none => simpa [hprov, chosenEntry] using ih
      | some urls => simp [hprov]

theorem targetUrls_of_select {e : TargetEntry} {defaults : TargetDefaults} {p : Str}
    {urls : List Str} {selected : Selected} (h : e.select defaults p urls = .ok selected) :
    selected.targetUrls = urls := by
  obtain ⟨strategy, _, h⟩ := bind_eq_ok.mp h
  cases h
  rfl

theorem select_of_route {proxy : Proxy} {env : Surroundings} {req : Request}
    {selected : Selected} (h : proxy.route env req = .going selected) :
    ∃ e, chosenEntry req.uri.path req.headers env.targetOrder = some e ∧
      e.2.select (proxy.targetDefaults env) e.1 ((e.2.provided req.headers).getD []) =
        .ok selected := by
  unfold Proxy.route at h
  rw [findTarget_eq] at h
  cases hchosen : chosenEntry req.uri.path req.headers env.targetOrder with
  | none => simp [hchosen, Progress.refuse] at h
  | some e =>
    simp only [hchosen] at h
    cases hselect : e.2.select (proxy.targetDefaults env) e.1
        ((e.2.provided req.headers).getD []) with
    | error p => simp [hselect, Except.map] at h
    | ok sel =>
      simp only [hselect, Except.map, Progress.going.injEq] at h
      exact ⟨e, rfl, h ▸ hselect⟩

theorem targetUrls_of_route {proxy : Proxy} {env : Surroundings} {req : Request}
    {selected : Selected} (h : proxy.route env req = .going selected) :
    ∃ e, chosenEntry req.uri.path req.headers env.targetOrder = some e ∧
      e.2.provided req.headers = some selected.targetUrls := by
  obtain ⟨e, hchosen, hselect⟩ := select_of_route h
  have hprov := List.find?_some hchosen
  simp only [Bool.and_eq_true] at hprov
  obtain ⟨urls, hurls⟩ := Option.isSome_iff_exists.mp hprov.2
  refine ⟨e, hchosen, ?_⟩
  rw [hurls, Option.getD_some] at hselect
  rw [hurls, targetUrls_of_select hselect]

/-- Requests with the same path and headers come to the same target, in one order of the map. -/
theorem same_route {proxy : Proxy} {env env' : Surroundings} {req req' : Request}
    {selected selected' : Selected} (h : proxy.route env req = .going selected)
    (h' : proxy.route env' req' = .going selected') (huri : req'.uri = req.uri)
    (hheaders : req'.headers = req.headers) (horder : env'.targetOrder = env.targetOrder) :
    selected'.targetUrls = selected.targetUrls ∧ selected'.authConfig = selected.authConfig ∧
      selected'.cacheConfig = selected.cacheConfig := by
  obtain ⟨e, hchosen, hselect⟩ := select_of_route h
  obtain ⟨e', hchosen', hselect'⟩ := select_of_route h'
  rw [huri, hheaders, horder, hchosen] at hchosen'
  cases hchosen'
  rw [hheaders] at hselect'
  obtain ⟨strategy, _, hselect⟩ := bind_eq_ok.mp hselect
  obtain ⟨strategy', _, hselect'⟩ := bind_eq_ok.mp hselect'
  cases hselect
  cases hselect'
  exact ⟨rfl, rfl, rfl⟩

/-- The balancer iterates over its own map, whatever the order. -/
def Round.OrderOf (r : Round) (loadBalancer : Option LoadBalancer) : Prop :=
  ∀ lb, loadBalancer = some lb → IterationOf lb.targets r.balancerOrder

/-- Every url that the balancer can pick for a path and a client is one of the given ones. -/
def LoadBalancer.PicksAmong (lb : LoadBalancer) (hs : Hashers) (path : Str) (clientIp : Option Str)
    (provided : List Str) : Prop :=
  ∀ key urls, ⟨key, urls⟩ ∈ lb.targets.entries → key.isPrefixOf path = true →
    ∀ url, lb.CanPick hs clientIp key urls url → url ∈ provided

theorem LoadBalancer.getTargetIn_first {lb : LoadBalancer} {hs : Hashers} {draw : Nat}
    {path : Str} {clientIp : Option Str} {key url : Str} {urls : List Str} {st : BalancerState}
    (hpre : key.isPrefixOf path = true)
    (h : (lb.pick hs draw clientIp key urls st).2 = some (.ok (some url)))
    (rest : List (Sigma (fun _ : Str => List Str))) :
    (lb.getTargetIn hs draw path clientIp (⟨key, urls⟩ :: rest) st).2 = .ok (some url) := by
  cases hpick : lb.pick hs draw clientIp key urls st with
  | mk st' answer =>
    rw [hpick] at h
    simp only at h
    simp [LoadBalancer.getTargetIn, hpre, hpick, h]

theorem weightsSum_of_new {targets : StrMap (List Str)} {algorithm : LoadBalancingAlgorithm}
    {weights : Option (StrMap (List Nat))} {lb : LoadBalancer}
    (h : LoadBalancer.new targets algorithm weights = .ok lb) :
    lb.weightsSum = lb.weights.mapValues List.sum := by
  obtain ⟨_, rfl⟩ := LoadBalancer.new_eq_ok_iff.mp h
  rfl

namespace LoopContext

variable {ctx : LoopContext} {s : LoopState} {rounds : Nat → Round}

/-- The loop makes its attempt number `n` (from 0), for this url. -/
def AttemptsAt (ctx : LoopContext) (s : LoopState) (rounds : Nat → Round) (n : Nat) (url : Str) :
    Prop :=
  ∃ t, ctx.after s rounds n = .going t ∧ t.retries < ctx.maxAttempts ∧
    (ctx.attemptUrl (rounds n)).2 = .ok url

theorem firstUrl_ok {urls : List Str} {url : Str} (h : firstUrl urls = .ok url) : url ∈ urls := by
  cases urls with
  | nil => simp [firstUrl] at h
  | cons u urls =>
    simp only [firstUrl, List.head?_cons, Option.elim_some, Except.ok.injEq] at h
    simp [h]

theorem attemptUrl_provided {r : Round} {url : Str} (horder : r.OrderOf ctx.loadBalancer)
    (hpicks : ∀ lb, ctx.loadBalancer = some lb → lb.PicksAmong ctx.crates.hashers ctx.path
      (some ctx.clientIp.toStr) ctx.selected.targetUrls)
    (h : (ctx.attemptUrl r).2 = .ok url) : url ∈ ctx.selected.targetUrls := by
  unfold attemptUrl at h
  split at h
  next => exact firstUrl_ok h
  next lb hlb =>
    obtain ⟨answer, hpick, h⟩ := bind_eq_ok.mp h
    cases answer with
    | none => exact firstUrl_ok h
    | some u =>
      simp only [Option.elim_some, Except.ok.injEq] at h
      subst h
      obtain ⟨key, urls, hmem, hpre, hcan⟩ := LoadBalancer.canPick_of_getTargetIn hpick
      exact hpicks lb hlb key urls ((horder lb hlb).mem_iff.mp hmem) hpre u hcan

/-- What the balancer can pick an attempt does go to, in some order of the map and state of
the counters. -/
theorem attempts_of_canPick {lb : LoadBalancer} (hlb : ctx.loadBalancer = some lb)
    (hsum : lb.weightsSum = lb.weights.mapValues List.sum) (hmax : 0 < ctx.maxAttempts)
    {key url : Str} {urls : List Str} (hmem : ⟨key, urls⟩ ∈ lb.targets.entries)
    (hpre : key.isPrefixOf ctx.path = true)
    (hcan : lb.CanPick ctx.crates.hashers (some ctx.clientIp.toStr) key urls url) (req : Request) :
    ∃ rounds : Nat → Round, (∀ n, (rounds n).OrderOf ctx.loadBalancer) ∧
      ctx.AttemptsAt (LoopState.start req) rounds 0 url := by
  obtain ⟨draw, st, hpick⟩ := LoadBalancer.pick_of_canPick hsum hcan
  obtain ⟨before, after, hsplit⟩ := List.append_of_mem hmem
  let round : Round := { plainRound .timedOut with
    balancerOrder := ⟨key, urls⟩ :: (before ++ after), balancer := st, draw }
  refine ⟨fun _ => round, fun _ lb' hlb' => ?_, LoopState.start req, rfl, hmax, ?_⟩
  · obtain rfl := Option.some.inj (hlb.symm.trans hlb')
    rw [IterationOf, hsplit]
    exact List.perm_middle.symm
  · have htarget := LoadBalancer.getTargetIn_first hpre hpick (before ++ after)
    simp only [attemptUrl, hlb]
    rw [show (lb.getTargetIn ctx.crates.hashers round.draw ctx.path (some ctx.clientIp.toStr)
      round.balancerOrder round.balancer).2 = .ok (some url) from htarget]
    rfl

end LoopContext

theorem targetMap_of_ofConfig {crates : Crates} {config : ProxyConfig} {proxy : Proxy}
    (h : Proxy.ofConfig crates config = .ok proxy) :
    proxy.targetMap = buildTargetMap config.targets := by
  obtain ⟨balancer, _, h⟩ := bind_eq_ok.mp h
  cases h
  rfl

/-- The balancer of a proxy is made of the targets of its configuration. -/
theorem new_of_ofConfig {crates : Crates} {config : ProxyConfig} {proxy : Proxy}
    {lb : LoadBalancer} (h : Proxy.ofConfig crates config = .ok proxy)
    (hlb : proxy.loadBalancer = some lb) : ∃ c, config.loadBalancer = some c ∧
      LoadBalancer.new (balancerTargets config.targets) c.algorithm c.weights = .ok lb := by
  obtain ⟨balancer, hbalancer, h⟩ := bind_eq_ok.mp h
  cases h
  obtain rfl : balancer = some lb := hlb
  unfold ProxyConfig.balancer at hbalancer
  split at hbalancer
  next c hc =>
    refine ⟨c, hc, ?_⟩
    obtain ⟨lb', hnew, hsome⟩ := map_eq_ok.mp hbalancer
    rw [hnew, Option.some.inj hsome]
  next => simp at hbalancer

theorem balancer_of_ofConfig {crates : Crates} {config : ProxyConfig} {proxy : Proxy}
    (h : Proxy.ofConfig crates config = .ok proxy) :
    ∀ lb, proxy.loadBalancer = some lb → lb.weightsSum = lb.weights.mapValues List.sum := by
  intro lb hlb
  obtain ⟨c, _, hnew⟩ := new_of_ofConfig h hlb
  exact weightsSum_of_new hnew

/-- The attempts of a request go to urls that its chosen target entry provides exactly when no
attempt is made, there is no balancer, or the balancer has nothing else to pick. -/
theorem attempts_provided_iff {crates : Crates} {config : ProxyConfig} {proxy : Proxy}
    {env : Surroundings} {req : Request} {ctx : LoopContext} {s : LoopState}
    (hconfig : Proxy.ofConfig crates config = .ok proxy)
    (hbegin : proxy.begin env req = .going (ctx, s)) :
    ∃ e provided, chosenEntry req.uri.path req.headers env.targetOrder = some e ∧
      e.2.provided req.headers = some provided ∧
      ((∀ rounds : Nat → Round, (∀ n, (rounds n).OrderOf proxy.loadBalancer) →
          ∀ n url, ctx.AttemptsAt s rounds n url → url ∈ provided) ↔
        ctx.maxAttempts = 0 ∨ ∀ lb, proxy.loadBalancer = some lb →
          lb.PicksAmong proxy.crates.hashers req.uri.path (some env.clientIp.toStr) provided) := by
  obtain ⟨selected, hreceive, henter⟩ := Proxy.begin_going hbegin
  obtain ⟨_, _, hroute⟩ := Proxy.receive_going hreceive
  obtain ⟨e, hchosen, hprovided⟩ := targetUrls_of_route hroute
  obtain ⟨_, ⟨cacheKey, rfl⟩, headers, rfl⟩ := Proxy.enterLoop_going henter
  refine ⟨e, selected.targetUrls, hchosen, hprovided, ?_⟩
  constructor
  · intro h
    rcases Nat.eq_zero_or_pos (proxy.loopContext env req.bodyRead selected cacheKey).maxAttempts
      with hmax | hmax
    · exact .inl hmax
    · refine .inr fun lb hlb key urls hmem hpre url hcan => ?_
      obtain ⟨rounds, horder, hat⟩ := LoopContext.attempts_of_canPick
        (show (proxy.loopContext env req.bodyRead selected cacheKey).loadBalancer = some lb from hlb)
        (balancer_of_ofConfig hconfig lb hlb) hmax hmem hpre hcan _
      exact h rounds horder 0 url hat
  · rintro (hmax | hpicks) rounds horder n url ⟨t, _, hlt, hurl⟩
    · omega
    · exact LoopContext.attemptUrl_provided (horder n) hpicks hurl

theorem attempts_provided_iff_no_balancer :
    ∃ (proxy : Proxy) (env : Surroundings) (ctx : LoopContext) (s : LoopState) (e : Sigma _)
      (provided : List Str),
    Proxy.ofConfig plainCrates
      (plainConfig [plainTarget "/api".toList ["http://localhost:5001".toList]]) = .ok proxy ∧
    proxy.begin env (plainRequest "/api/users".toList [] []) = .going (ctx, s) ∧
    chosenEntry "/api/users".toList [] env.targetOrder = some e ∧
    e.2.provided [] = some provided ∧
    ∀ rounds : Nat → Round, (∀ n, (rounds n).OrderOf proxy.loadBalancer) →
      ∀ n url, ctx.AttemptsAt s rounds n url → url ∈ provided := by
  obtain ⟨proxy, env, ctx, s, hproxy, hbalancer, hbegin⟩ :
      ∃ (proxy : Proxy) (env : Surroundings) (ctx : LoopContext) (s : LoopState),
      Proxy.ofConfig plainCrates
        (plainConfig [plainTarget "/api".toList ["http://localhost:5001".toList]]) = .ok proxy ∧
      proxy.loadBalancer = none ∧
      proxy.begin env (plainRequest "/api/users".toList [] []) = .going (ctx, s) :=
    ⟨_, plainSurroundings
      (buildTargetMap [plainTarget "/api".toList ["http://localhost:5001".toList]]).entries
      (fun _ => plainRound .timedOut), _, _, rfl, rfl, rfl⟩
  obtain ⟨e, provided, he, hprovided, hiff⟩ := attempts_provided_iff hproxy hbegin
  exact ⟨proxy, env, ctx, s, e, provided, hproxy, hbegin, he, hprovided,
    hiff.mpr (.inr fun lb hlb => by simp [hbalancer] at hlb)⟩

def versionedTarget : Target :=
  { plainTarget "/api/service1".toList ["http://localhost:5001".toList] with
    routingHeader := some "X-Api-Version".toList
    routingValues := some ((∅ : StrMap Str).insert "v1".toList
      "http://localhost:5001/v1".toList) }

def versionedConfig : ProxyConfig :=
  { plainConfig [versionedTarget] with loadBalancer := some ⟨.roundRobin, none⟩ }

/-- The balancer sends a request for version `v1` to the url without a version. -/
theorem balancer_ignores_routing_header :
    ∃ (proxy : Proxy) (env : Surroundings) (ctx : LoopContext) (s : LoopState) (e : Sigma _),
    Proxy.ofConfig plainCrates versionedConfig = .ok proxy ∧
    env.targetOrder = proxy.targetMap.entries ∧
    chosenEntry "/api/service1/users".toList [("x-api-version".toList, utf8 "v1".toList)]
      env.targetOrder = some e ∧
    e.2.provided [("x-api-version".toList, utf8 "v1".toList)] =
      some ["http://localhost:5001/v1".toList] ∧
    proxy.begin env (plainRequest "/api/service1/users".toList
      [("x-api-version".toList, utf8 "v1".toList)] []) = .going (ctx, s) ∧
    (∀ n, (env.rounds n).OrderOf proxy.loadBalancer) ∧
    ctx.AttemptsAt s env.rounds 0 "http://localhost:5001".toList := by
  let round : Round := { plainRound .timedOut with
    balancerOrder := (balancerTargets [versionedTarget]).entries }
  refine ⟨_, plainSurroundings _ (fun _ => round), _, _, _, rfl, rfl, rfl, rfl, rfl,
    fun n lb hlb => ?_, _, rfl, by decide, rfl⟩
  obtain rfl := Option.some.inj hlb
  exact List.Perm.refl _

end Road7
