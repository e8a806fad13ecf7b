import Road7.RetryReports
import Road7.RoundRobin

namespace Road7

namespace LoadBalancer

variable {lb : LoadBalancer} {key : Str} {urls : List Str} {weights : List Nat}
  {st : BalancerState} {hs : Hashers}

def callsFrom (lb : LoadBalancer) (hs : Hashers) (st : BalancerState) (calls : List BalancerCall) :
    BalancerState :=
  calls.foldl (fun st c => (lb.call hs st c).1) st

theorem isPrefixOf_of_answeringKey {draw : Nat} {path : Str} {clientIp : Option Str}
    {order : List (Sigma (fun _ : Str => List Str))}
    (h : lb.answeringKey hs draw path clientIp order st = some key) :
    key.isPrefixOf path = true := by
  induction order generalizing st with
  | nil => cases h
  | cons e order ih =>
    rw [answeringKey] at h
    split at h
    next hpre =>
      split at h
      next => exact Option.some.inj h ▸ hpre
      next => exact ih h
    next => exact ih h

theorem urls_of_order {order : List (Sigma (fun _ : Str => List Str))}
    (hurls : lb.targets.lookup key = some urls) (horder : IterationOf lb.targets order) :
    ∀ urls', ⟨key, urls'⟩ ∈ order → urls' = urls := by
  intro urls' hmem
  have hlookup := AList.mem_lookup_iff.mpr (horder.mem_iff.mp hmem)
  exact Option.some.inj ((Option.mem_def.mp hlookup).symm.trans hurls)

/-- A call leaves the turn of a key within its weights, and leaves it alone where its path does not
begin with the key. -/
theorem RotatesWith.turnOf_call (h : lb.RotatesWith key urls weights) (hs : Hashers)
    (hurls : lb.targets.lookup key = some urls) (hturn : turnOf st key < weights.sum)
    {c : BalancerCall} (horder : IterationOf lb.targets c.order) :
    turnOf (lb.call hs st c).1 key < weights.sum ∧
      (key.isPrefixOf c.path = false → turnOf (lb.call hs st c).1 key = turnOf st key) := by
  obtain ⟨hfor, hother⟩ := h.call hturn hs c.draw c.path c.clientIp c.order
    (urls_of_order hurls horder)
  by_cases hkey : lb.answeringKey hs c.draw c.path c.clientIp c.order st = some key
  · obtain ⟨_, _, _, _, _, hnext⟩ := hfor hkey
    constructor
    · show turnOf (lb.getTargetIn hs c.draw c.path c.clientIp c.order st).1 key < _
      rw [hnext]
      exact Nat.mod_lt _ (by omega)
    · intro hno
      rw [isPrefixOf_of_answeringKey hkey] at hno
      cases hno
  · have hsame := hother hkey
    exact ⟨lt_of_eq_of_lt hsame hturn, fun _ => hsame⟩

theorem RotatesWith.turnOf_callsFrom (h : lb.RotatesWith key urls weights) (hs : Hashers)
    (hurls : lb.targets.lookup key = some urls) {calls : List BalancerCall}
    (horder : ∀ c ∈ calls, IterationOf lb.targets c.order) (hturn : turnOf st key < weights.sum) :
    turnOf (lb.callsFrom hs st calls) key < weights.sum ∧
      ((∀ c ∈ calls, key.isPrefixOf c.path = false) →
        turnOf (lb.callsFrom hs st calls) key = turnOf st key) := by
  induction calls generalizing st with
  | nil => exact ⟨hturn, fun _ => rfl⟩
  | cons c calls ih =>
    obtain ⟨hlt, hsame⟩ := h.turnOf_call hs hurls hturn (horder c List.mem_cons_self)
    obtain ⟨hlt', hsame'⟩ := ih (fun c hc => horder c (List.mem_cons_of_mem _ hc)) hlt
    refine ⟨hlt', fun hothers => ?_⟩
    obtain ⟨hc, hcalls⟩ := List.forall_mem_cons.mp hothers
    exact (hsame' hcalls).trans (hsame hc)

/-- A call for a path that begins with one key alone takes the turn of that key. -/
theorem RotatesWith.takesTurn_only (h : lb.RotatesWith key urls weights)
    (hurls : lb.targets.lookup key = some urls) (hturn : turnOf st key < weights.sum)
    (hs : Hashers) (draw : Nat) {path : Str} (clientIp : Option Str)
    {order : List (Sigma (fun _ : Str => List Str))} (horder : IterationOf lb.targets order)
    (honly : ∀ k ∈ lb.targets, k.isPrefixOf path = true ↔ k = key) :
    TakesTurn key urls weights (turnOf st key)
      (lb.getTargetIn hs draw path clientIp order st) := by
  have hentry : ⟨key, urls⟩ ∈ order :=
    horder.mem_iff.mpr (AList.mem_lookup_iff.mp (Option.mem_def.mpr hurls))
  have hkey : key ∈ lb.targets := AList.lookup_isSome.mp (by rw [hurls]; rfl)
  obtain ⟨before, after, rfl⟩ := List.append_of_mem hentry
  have hnodup : (before ++ ⟨key, urls⟩ :: after).keys.Nodup :=
    (List.Perm.nodup_iff (horder.map Sigma.fst)).mpr lb.targets.nodupKeys
  have hbefore : ∀ e ∈ before, e.1.isPrefixOf path = false := by
    intro e he
    have hmem : e.1 ∈ lb.targets := by
      rw [AList.mem_keys]
      exact List.mem_map_of_mem (horder.mem_iff.mp (List.mem_append_left _ he))
    by_contra hpre
    obtain heq := (honly e.1 hmem).mp (by simpa using hpre)
    simp only [List.keys, List.map_append, List.map_cons, List.nodup_append] at hnodup
    exact hnodup.2.2 e.1 (List.mem_map_of_mem he) key List.mem_cons_self heq
  exact (h.call hturn hs draw path clientIp _ (urls_of_order hurls horder)).1
    (h.answeringKey_first hturn hs draw clientIp ((honly key hkey).mpr rfl) hbefore after)

end LoadBalancer

/-- The upstream answers an attempt with a response that is passed on. -/
def Round.Answers (r : Round) (resp : Response) : Prop :=
  r.outcome = .response resp ∧ resp.status ∉ retryStatuses ∧ resp.status ≠ notModified

namespace LoopContext

variable {ctx : LoopContext} {lb : LoadBalancer} {key good : Str} {urls : List Str}
  {weights : List Nat} {rounds : Nat → Round} {req : Request} {t : LoopState} {r : Round} {n : Nat}

/-- The rounds of a request find the balancer as calls for any paths have left it before the first
one, and as calls for other keys alone leave it between two of them. -/
structure OnBalancer (ctx : LoopContext) (lb : LoadBalancer) (key : Str) (rounds : Nat → Round) :
    Prop where
  order : ∀ n, IterationOf lb.targets (rounds n).balancerOrder
  before : ∃ calls : List BalancerCall, (∀ c ∈ calls, IterationOf lb.targets c.order) ∧
    (rounds 0).balancer = lb.callsFrom ctx.crates.hashers BalancerState.empty calls
  between : ∀ n, ∃ calls : List BalancerCall,
    (∀ c ∈ calls, IterationOf lb.targets c.order ∧ key.isPrefixOf c.path = false) ∧
    (rounds (n + 1)).balancer =
      lb.callsFrom ctx.crates.hashers (ctx.attemptUrl (rounds n)).1 calls

/-- An attempt gets the url whose turn it is. -/
theorem attemptUrl_takesTurn (hlb : ctx.loadBalancer = some lb)
    (hurls : lb.targets.lookup key = some urls) (h : lb.RotatesWith key urls weights)
    (honly : ∀ k ∈ lb.targets, k.isPrefixOf ctx.path = true ↔ k = key)
    (horder : IterationOf lb.targets r.balancerOrder)
    (hturn : LoadBalancer.turnOf r.balancer key < weights.sum) :
    ∃ i url, Owns weights (LoadBalancer.turnOf r.balancer key) i ∧ urls[i]? = some url ∧
      (ctx.attemptUrl r).2 = .ok url ∧ LoadBalancer.turnOf (ctx.attemptUrl r).1 key =
        (LoadBalancer.turnOf r.balancer key + 1) % weights.sum := by
  obtain ⟨i, url, howns, hurl, hpick, hnext⟩ := h.takesTurn_only hurls hturn ctx.crates.hashers
    r.draw (some ctx.clientIp.toStr) horder honly
  refine ⟨i, url, howns, hurl, ?_, ?_⟩
  · simp only [attemptUrl, hlb, hpick]
    rfl
  · simp only [attemptUrl, hlb, hnext]

/-- Attempt `n` takes turn `n` behind the one that the request has found. -/
theorem OnBalancer.turnOf_rounds (hon : ctx.OnBalancer lb key rounds)
    (hlb : ctx.loadBalancer = some lb) (hurls : lb.targets.lookup key = some urls)
    (h : lb.RotatesWith key urls weights) (hpos : 0 < weights.sum)
    (honly : ∀ k ∈ lb.targets, k.isPrefixOf ctx.path = true ↔ k = key) (n : Nat) :
    LoadBalancer.turnOf (rounds n).balancer key =
      (LoadBalancer.turnOf (rounds 0).balancer key + n) % weights.sum := by
  induction n with
  | zero =>
    obtain ⟨calls, horder, hbefore⟩ := hon.before
    rw [Nat.add_zero, Nat.mod_eq_of_lt]
    rw [hbefore]
    have hempty : LoadBalancer.turnOf BalancerState.empty key < weights.sum := hpos
    exact (h.turnOf_callsFrom ctx.crates.hashers hurls horder hempty).1
  | succ n ih =>
    have hturn : LoadBalancer.turnOf (rounds n).balancer key < weights.sum := by
      rw [ih]
      exact Nat.mod_lt _ hpos
    obtain ⟨_, _, _, _, _, hnext⟩ := attemptUrl_takesTurn hlb hurls h honly (hon.order n) hturn
    obtain ⟨calls, hcalls, hbetween⟩ := hon.between n
    have hlt : LoadBalancer.turnOf (ctx.attemptUrl (rounds n)).1 key < weights.sum := by
      rw [hnext]
      exact Nat.mod_lt _ hpos
    have hkept := (h.turnOf_callsFrom ctx.crates.hashers hurls
      (fun c hc => (hcalls c hc).1) hlt).2 fun c hc => (hcalls c hc).2
    rw [hbetween, hkept, hnext, ih, Nat.mod_add_mod, Nat.add_assoc]

theorem OnBalancer.attempt_owns (hon : ctx.OnBalancer lb key rounds)
    (hlb : ctx.loadBalancer = some lb) (hurls : lb.targets.lookup key = some urls)
    (h : lb.RotatesWith key urls weights) (hpos : 0 < weights.sum)
    (honly : ∀ k ∈ lb.targets, k.isPrefixOf ctx.path = true ↔ k = key) (n : Nat) :
    ∃ i url, Owns weights ((LoadBalancer.turnOf (rounds 0).balancer key + n) % weights.sum) i ∧
      urls[i]? = some url ∧ (ctx.attemptUrl (rounds n)).2 = .ok url := by
  have hturn := hon.turnOf_rounds hlb hurls h hpos honly n
  have hwithin : LoadBalancer.turnOf (rounds n).balancer key < weights.sum := by
    rw [hturn]
    exact Nat.mod_lt _ hpos
  obtain ⟨i, url, howns, hurl, hattempt, _⟩ :=
    attemptUrl_takesTurn hlb hurls h honly (hon.order n) hwithin
  exact ⟨i, url, hturn ▸ howns, hurl, hattempt⟩

/-- Within one rotation every url with a weight gets an attempt. -/
theorem OnBalancer.exists_attempt (hon : ctx.OnBalancer lb key rounds)
    (hlb : ctx.loadBalancer = some lb) (hurls : lb.targets.lookup key = some urls)
    (h : lb.RotatesWith key urls weights) (hpos : 0 < weights.sum)
    (honly : ∀ k ∈ lb.targets, k.isPrefixOf ctx.path = true ↔ k = key) {i : Nat}
    (hgood : urls[i]? = some good) (hweight : 0 < weights.getD i 0) :
    ∃ n < weights.sum, (ctx.attemptUrl (rounds n)).2 = .ok good := by
  obtain ⟨start, hstart⟩ : ∃ k, LoadBalancer.turnOf (rounds 0).balancer key = k := ⟨_, rfl⟩
  rw [← turns_in_window weights start i, Finset.card_pos] at hweight
  obtain ⟨k, hk⟩ := hweight
  obtain ⟨hrange, howns⟩ := Finset.mem_filter.mp hk
  obtain ⟨hle, hlt⟩ := Finset.mem_Ico.mp hrange
  obtain ⟨j, url, hj, hurl, hattempt⟩ := hon.attempt_owns hlb hurls h hpos honly (k - start)
  rw [hstart, Nat.add_sub_cancel' hle] at hj
  obtain rfl := howns.unique hj
  rw [hgood] at hurl
  exact ⟨k - start, by omega, Option.some.inj hurl ▸ hattempt⟩

/-- The loop comes to an attempt whose predecessors have all been retried. -/
theorem comesTo_of_retried (hprovided : ctx.Provided rounds)
    (hparse : ∀ n < ctx.maxAttempts, ∀ url, (ctx.attemptUrl (rounds n)).2 = .ok url → ∃ out,
      rebuildRequest ctx.crates.uriParser req url ctx.selected.targetUrlLen ctx.clientIp = .ok out)
    (hn : n < ctx.maxAttempts) (hretried : ∀ i < n, ctx.retried (rounds i) = true) :
    ∃ t, ctx.ComesTo (LoopState.start req) rounds n t := by
  induction n with
  | zero => exact ⟨_, ComesTo.start req⟩
  | succ n ih =>
    have hbefore : ∀ i < n, ctx.retried (rounds i) = true := fun i hi => hretried i (by omega)
    obtain ⟨t, hcomes⟩ := ih (by omega) hbefore
    have hlast := hretried n (Nat.lt_succ_self n)
    have hanswered : ctx.unanswered (rounds n) = false := by
      rw [unanswered, isNotModified_of_retried hlast, Bool.false_and]
    rcases hcomes.decided (by omega) (hparse n (by omega)) hanswered with
      ⟨_, _, hnext⟩ | ⟨_, _, hspent⟩ | ⟨hunprovided, _⟩
    · exact hnext
    · have hle := hspent hlast
      omega
    · exact absurd (hprovided n (by omega) hbefore) hunprovided

/-- An attempt that the upstream answers ends the loop with that answer. -/
theorem ComesTo.answered {resp : Response} (h : ctx.ComesTo (LoopState.start req) rounds n t)
    (hn : n < ctx.maxAttempts) (hurl : (ctx.attemptUrl (rounds n)).2 = .ok good)
    (hparse : ∃ out, rebuildRequest ctx.crates.uriParser req good ctx.selected.targetUrlLen
      ctx.clientIp = .ok out) (hanswered : (rounds n).Answers resp) :
    ctx.after (LoopState.start req) rounds (n + 1) =
      (ctx.answer t.bodyRead good (resp.applyTransforms ctx.selected.responseTransforms)
        (rounds n)).1 := by
  obtain ⟨out, hout⟩ : ∃ out, rebuildRequest ctx.crates.uriParser t.originalReq good
      ctx.selected.targetUrlLen ctx.clientIp = .ok out := by
    rcases h.request with hreq | hreq
    · exact hreq ▸ hparse
    · exact hreq ▸ rebuildRequest_bodyRead hparse
  obtain ⟨houtcome, hstatus, hmodified⟩ := hanswered
  have hnext := (turn_of_built (h.retries ▸ hn) hurl hout).1
  rw [(after_succ_of_going h.going).1, hnext]
  have hkept : (resp.applyTransforms ctx.selected.responseTransforms).status ≠ notModified := by
    exact hmodified
  simp only [settle, houtcome, if_neg hstatus, if_neg hkept]

end LoopContext

/-- A request over a rotation of backends, one of which answers, gets that answer: its attempts go
through the backends in turn, whatever other paths are served in between, so that as many attempts
as the weights come to are enough. -/
theorem failover {ctx : LoopContext} {lb : LoadBalancer} {key good : Str} {urls : List Str}
    {weights : List Nat} {rounds : Nat → Round} {req : Request} {i : Nat}
    (hlb : ctx.loadBalancer = some lb) (hurls : lb.targets.lookup key = some urls)
    (h : lb.RotatesWith key urls weights)
    (honly : ∀ k ∈ lb.targets, k.isPrefixOf ctx.path = true ↔ k = key)
    (hon : ctx.OnBalancer lb key rounds) (hattempts : weights.sum ≤ ctx.maxAttempts)
    (hprovided : ctx.Provided rounds)
    (hparse : ∀ n < ctx.maxAttempts, ∀ url, (ctx.attemptUrl (rounds n)).2 = .ok url → ∃ out,
      rebuildRequest ctx.crates.uriParser req url ctx.selected.targetUrlLen ctx.clientIp = .ok out)
    (hgood : urls[i]? = some good) (hweight : 0 < weights.getD i 0)
    (hup : ∀ n, (ctx.attemptUrl (rounds n)).2 = .ok good → ∃ resp, (rounds n).Answers resp)
    (hdown : ∀ n, (ctx.attemptUrl (rounds n)).2 ≠ .ok good → ctx.retried (rounds n) = true) :
    ∃ n < weights.sum, ∃ t resp, ctx.ComesTo (LoopState.start req) rounds n t ∧
      (ctx.attemptUrl (rounds n)).2 = .ok good ∧ (rounds n).Answers resp ∧
      ctx.after (LoopState.start req) rounds (n + 1) =
        (ctx.answer t.bodyRead good (resp.applyTransforms ctx.selected.responseTransforms)
          (rounds n)).1 := by
  have hpos : 0 < weights.sum := by
    have hle := sum_take_le weights (i + 1)
    rw [sum_take_succ] at hle
    omega
  have hex : ∃ n, n < weights.sum ∧ (ctx.attemptUrl (rounds n)).2 = .ok good :=
    hon.exists_attempt hlb hurls h hpos honly hgood hweight
  classical
  obtain ⟨hn, hurl⟩ := Nat.find_spec hex
  generalize hfirst : Nat.find hex = n at hn hurl
  have hbefore : ∀ j < n, ctx.retried (rounds j) = true := by
    intro j hj
    refine hdown j fun hgoodj => ?_
    rw [← hfirst] at hj
    exact Nat.find_min hex hj ⟨by omega, hgoodj⟩
  obtain ⟨t, hcomes⟩ := LoopContext.comesTo_of_retried hprovided hparse (by omega) hbefore
  obtain ⟨resp, hanswered⟩ := hup n hurl
  exact ⟨n, hn, t, resp, hcomes, hurl, hanswered,
    hcomes.answered (by omega) hurl (hparse n (by omega) good hurl) hanswered⟩

def balancedConfig : ProxyConfig :=
  { plainConfig [plainTarget "/api".toList ["http://a:1".toList, "http://b:1".toList]] with
    retries := ⟨"FixedInterval".toList, 1, 2, none, none, none⟩
    loadBalancer := some ⟨.roundRobin, none⟩ }

/-- A round on a balancer whose only backend that is up is one of them. -/
def oneUp (ctx : LoopContext) (good : Str) (order : List (Sigma (fun _ : Str => List Str)))
    (st : BalancerState) : Round :=
  let r := { plainRound (.failed "connection refused") with balancerOrder := order, balancer := st }
  match (ctx.attemptUrl r).2 with
  | .ok url =>
    if url = good then { r with outcome := .response ⟨200, [], Body.empty⟩ } else r
  | .error _ => r

/-- The rounds of one request alone on the balancer. -/
def aloneFrom (ctx : LoopContext) (good : Str) (order : List (Sigma (fun _ : Str => List Str)))
    (st : BalancerState) : Nat → Round
  | 0 => oneUp ctx good order st
  | n + 1 => aloneFrom ctx good order (ctx.attemptUrl (oneUp ctx good order st)).1 n

theorem oneUp_answers (ctx : LoopContext) (good : Str)
    (order : List (Sigma (fun _ : Str => List Str))) (st : BalancerState) :
    ((ctx.attemptUrl (oneUp ctx good order st)).2 = .ok good →
        (oneUp ctx good order st).Answers ⟨200, [], Body.empty⟩) ∧
      ((ctx.attemptUrl (oneUp ctx good order st)).2 ≠ .ok good →
        ctx.retried (oneUp ctx good order st) = true) := by
  have hsame : ctx.attemptUrl (oneUp ctx good order st) = ctx.attemptUrl
      { plainRound (.failed "connection refused") with
        balancerOrder := order, balancer := st } := by
    unfold oneUp
    dsimp only
    split
    next =>
      split
      next => rfl
      next => rfl
    next => rfl
  rw [hsame]
  unfold oneUp
  dsimp only
  generalize (ctx.attemptUrl _).2 = attempt
  cases attempt with
  | ok url =>
    dsimp only
    split
    next hgood =>
      exact ⟨fun _ => ⟨rfl, by decide, by decide⟩, fun hne => absurd (congrArg _ hgood) hne⟩
    next hother => exact ⟨fun heq => absurd (Except.ok.inj heq) hother, fun _ => rfl⟩
  | error p => exact ⟨nofun, fun _ => rfl⟩

theorem oneUp_balancer (ctx : LoopContext) (good : Str)
    (order : List (Sigma (fun _ : Str => List Str))) (st : BalancerState) :
    (oneUp ctx good order st).balancerOrder = order ∧ (oneUp ctx good order st).balancer = st := by
  unfold oneUp
  dsimp only
  split
  next =>
    split
    next => exact ⟨rfl, rfl⟩
    next => exact ⟨rfl, rfl⟩
  next => exact ⟨rfl, rfl⟩

theorem aloneFrom_eq (ctx : LoopContext) (good : Str)
    (order : List (Sigma (fun _ : Str => List Str))) (st : BalancerState) (n : Nat) :
    ∃ st', aloneFrom ctx good order st n = oneUp ctx good order st' ∧
      aloneFrom ctx good order st (n + 1) =
        oneUp ctx good order (ctx.attemptUrl (oneUp ctx good order st')).1 := by
  induction n generalizing st with
  | zero => exact ⟨st, rfl, rfl⟩
  | succ n ih => exact ih _

/-- A request that is alone on the balancer finds it as its last attempt has left it. -/
theorem aloneFrom_onBalancer {lb : LoadBalancer} {order : List (Sigma (fun _ : Str => List Str))}
    (horder : IterationOf lb.targets order) (ctx : LoopContext) (key good : Str) :
    ctx.OnBalancer lb key (aloneFrom ctx good order BalancerState.empty) := by
  refine ⟨fun n => ?_, ⟨[], nofun, (oneUp_balancer ctx good order _).2⟩, fun n => ⟨[], nofun, ?_⟩⟩
  · obtain ⟨st, hst, _⟩ := aloneFrom_eq ctx good order BalancerState.empty n
    rw [hst, (oneUp_balancer ctx good order st).1]
    exact horder
  · obtain ⟨st, hst, hnext⟩ := aloneFrom_eq ctx good order BalancerState.empty n
    rw [hst, hnext]
    exact (oneUp_balancer ctx good order _).2

theorem aloneFrom_answers (ctx : LoopContext) (good : Str)
    (order : List (Sigma (fun _ : Str => List Str))) (st : BalancerState) (n : Nat) :
    ((ctx.attemptUrl (aloneFrom ctx good order st n)).2 = .ok good →
        (aloneFrom ctx good order st n).Answers ⟨200, [], Body.empty⟩) ∧
      ((ctx.attemptUrl (aloneFrom ctx good order st n)).2 ≠ .ok good →
        ctx.retried (aloneFrom ctx good order st n) = true) := by
  obtain ⟨st', hst, _⟩ := aloneFrom_eq ctx good order st n
  rw [hst]
  exact oneUp_answers ctx good order st'

theorem failover_two_backends :
    ∃ (proxy : Proxy) (env : Surroundings) (ctx : LoopContext) (req : Request)
      (rounds : Nat → Round) (n : Nat) (resp : Response),
    Proxy.ofConfig plainCrates balancedConfig = .ok proxy ∧
    env.targetOrder = proxy.targetMap.entries ∧
    proxy.begin env (plainRequest "/api/users".toList [] []) =
      .going (ctx, LoopState.start req) ∧
    (rounds 0).outcome = .failed "connection refused" ∧ n < 2 ∧
    ctx.after (LoopState.start req) rounds (n + 1) = .ended (.upstream resp) := by
  have htrace : ∃ (proxy : Proxy) (env : Surroundings) (lb : LoadBalancer) (ctx : LoopContext)
      (req : Request) (order : List (Sigma (fun _ : Str => List Str))),
      Proxy.ofConfig plainCrates balancedConfig = .ok proxy ∧
      env.targetOrder = proxy.targetMap.entries ∧
      proxy.begin env (plainRequest "/api/users".toList [] []) =
        .going (ctx, LoopState.start req) ∧
      ctx.loadBalancer = some lb ∧ lb.algorithm = .roundRobin ∧
      lb.targets = AList.singleton "/api".toList ["http://a:1".toList, "http://b:1".toList] ∧
      order = [⟨"/api".toList, ["http://a:1".toList, "http://b:1".toList]⟩] ∧
      ctx.path = "/api/users".toList ∧ ctx.maxAttempts = 2 ∧
      (∃ d, ctx.selected.retryStrategy.delay 0 = .ok d) ∧
      (∃ out, rebuildRequest ctx.crates.uriParser req "http://a:1".toList
        ctx.selected.targetUrlLen ctx.clientIp = .ok out) ∧
      (∃ out, rebuildRequest ctx.crates.uriParser req "http://b:1".toList
        ctx.selected.targetUrlLen ctx.clientIp = .ok out) ∧
      (∀ (s : LoopState) (r : Round) (resp : Response), ∃ resp', (ctx.answer s "http://b:1".toList
        (resp.applyTransforms ctx.selected.responseTransforms) r).1 = .ended (.upstream resp')) ∧
      (aloneFrom ctx "http://b:1".toList order BalancerState.empty 0).outcome =
        .failed "connection refused" :=
    ⟨_, plainSurroundings _ (fun _ => plainRound .timedOut), _, _, _, _, rfl, rfl, rfl, rfl, rfl,
      rfl, rfl, rfl, rfl, ⟨_, rfl⟩, ⟨_, rfl⟩, ⟨_, rfl⟩, fun _ _ _ => ⟨_, rfl⟩, rfl⟩
  obtain ⟨proxy, env, lb, ctx, req, order, hproxy, hentries, hbegin, hlb, halgorithm, htargets,
    horder, hpath, hmax, hdelay, ha, hb, hanswer, hfirst⟩ := htrace
  have hurls : lb.targets.lookup "/api".toList =
      some ["http://a:1".toList, "http://b:1".toList] := by
    rw [htargets]
    rfl
  have hrotates : lb.RotatesWith "/api".toList ["http://a:1".toList, "http://b:1".toList]
      [1, 1] := by
    rw [LoadBalancer.RotatesWith, halgorithm]
    rfl
  have honly : ∀ k ∈ lb.targets, k.isPrefixOf ctx.path = true ↔ k = "/api".toList := by
    intro k hk
    rw [htargets] at hk
    have hkey : k = "/api".toList := by simpa [AList.mem_keys] using hk
    subst hkey
    rw [hpath]
    exact iff_of_true (by decide) rfl
  have hentry : IterationOf lb.targets order := by
    rw [horder, htargets]
    exact List.Perm.refl _
  have hon := aloneFrom_onBalancer hentry ctx "/api".toList "http://b:1".toList
  have hanswers := aloneFrom_answers ctx "http://b:1".toList order BalancerState.empty
  generalize aloneFrom ctx "http://b:1".toList order BalancerState.empty = rounds at *
  have hattempt : ∀ n, ∃ url ∈ ["http://a:1".toList, "http://b:1".toList],
      (ctx.attemptUrl (rounds n)).2 = .ok url := by
    intro n
    obtain ⟨i, url, _, hi, hattempt⟩ := hon.attempt_owns hlb hurls hrotates (by decide) honly n
    exact ⟨url, List.mem_of_getElem? hi, hattempt⟩
  have hparse : ∀ n < ctx.maxAttempts, ∀ url, (ctx.attemptUrl (rounds n)).2 = .ok url → ∃ out,
      rebuildRequest ctx.crates.uriParser req url ctx.selected.targetUrlLen ctx.clientIp =
        .ok out := by
    intro n _ url hurl
    obtain ⟨url', hmem, heq⟩ := hattempt n
    obtain rfl := Except.ok.inj (hurl.symm.trans heq)
    rcases List.mem_pair.mp hmem with rfl | rfl
    · exact ha
    · exact hb
  have hprovided : ctx.Provided rounds := by
    intro n hn _
    obtain ⟨url, _, heq⟩ := hattempt n
    refine ⟨⟨url, heq⟩, fun _ hlt => ?_⟩
    obtain rfl : n = 0 := by omega
    exact hdelay
  have hgood : ["http://a:1".toList, "http://b:1".toList][1]? = some "http://b:1".toList := rfl
  obtain ⟨n, hn, t, resp, _, _, _, hafter⟩ := failover hlb hurls hrotates honly hon
    (by rw [hmax]; decide) hprovided hparse hgood (by decide)
    (fun n hurl => ⟨_, (hanswers n).1 hurl⟩) (fun n hurl => (hanswers n).2 hurl)
  obtain ⟨resp', hresp⟩ := hanswer t.bodyRead _ resp
  exact ⟨proxy, env, ctx, req, _, n, resp', hproxy, hentries, hbegin, hfirst, hn,
    hafter.trans hresp⟩

end Road7
