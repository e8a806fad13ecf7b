import Mathlib.Data.List.Perm.Basic
import Road7.BalancerPicks
import Road7.PlainProxy
import Road7.RequestStages
import Road7.Runs

namespace Road7

/-- The connections that the balancer has counted to a url. -/
def BalancerState.count (st : BalancerState) (url : Str) : Nat := (st.connections.lookup url).getD 0

/-- One connection more to the url picked, and the same number to every other. -/
def CountsOne (st st' : BalancerState) (picked : Option Str) : Prop :=
  ∀ url, st'.count url = st.count url + if picked = some url then 1 else 0

def LoadBalancer.CountsConnections (lb : LoadBalancer) : Prop :=
  lb.algorithm = .leastConnections ∨ lb.algorithm = .weightedLeastConnections

namespace LoadBalancer

variable {lb : LoadBalancer}

theorem countsOne_ensured (urls : List Str) (st : BalancerState) :
    CountsOne st { st with connections := ensureConnections urls st.connections } none := by
  intro url
  simp only [BalancerState.count, lookup_ensureConnections]
  rfl

/-- A count that has no room for one more panics, and counts nothing. -/
theorem countsOne_counted (urls : List Str) (st : BalancerState) (url : Str) :
    CountsOne st (countConnection (ensureConnections urls st.connections) url st).1
      ((countConnection (ensureConnections urls st.connections) url st).2.bind
        fun answer => answer.toOption.join) := by
  rcases Nat.lt_or_ge (((ensureConnections urls st.connections).lookup url).getD 0) usizeMax with
    hlt | hge
  · rw [countConnection_of_lt hlt]
    show CountsOne st _ (some url)
    intro u
    simp only [BalancerState.count]
    by_cases hu : u = url
    · subst hu
      rw [AList.lookup_insert, Option.getD_some, lookup_ensureConnections, if_pos rfl]
    · rw [AList.lookup_insert_ne hu, lookup_ensureConnections,
        if_neg (fun h => hu (Option.some.inj h).symm), Nat.add_zero]
  · rw [countConnection_of_ge hge]
    exact countsOne_ensured urls st

theorem leastConnections_countsOne (urls : List Str) (st : BalancerState) :
    CountsOne st (leastConnections urls st).1
      ((leastConnections urls st).2.bind fun answer => answer.toOption.join) := by
  unfold leastConnections
  dsimp only
  split
  next url _ => exact countsOne_counted urls st url
  next => exact countsOne_ensured urls st

theorem weightedLeastConnections_countsOne (key : Str) (urls : List Str) (st : BalancerState) :
    CountsOne st (lb.weightedLeastConnections key urls st).1
      ((lb.weightedLeastConnections key urls st).2.bind fun answer => answer.toOption.join) := by
  unfold weightedLeastConnections
  split
  next =>
    intro url
    rfl
  next weights _ =>
    split
    next => exact countsOne_ensured (urls.take (weights.length + 1)) st
    next =>
      dsimp only
      split
      next url _ => exact countsOne_counted urls st url
      next => exact countsOne_ensured urls st

theorem CountsConnections.pick (h : lb.CountsConnections) (hs : Hashers) (draw : Nat)
    (clientIp : Option Str) (key : Str) (urls : List Str) (st : BalancerState) :
    CountsOne st (lb.pick hs draw clientIp key urls st).1
      ((lb.pick hs draw clientIp key urls st).2.bind fun answer => answer.toOption.join) := by
  unfold LoadBalancer.pick
  rcases h with halg | halg
  · rw [halg]
    exact leastConnections_countsOne urls st
  · rw [halg]
    exact weightedLeastConnections_countsOne key urls st

/-- A call counts one connection to the url that it answers with, and none without an answer. -/
theorem CountsConnections.getTargetIn (h : lb.CountsConnections) (hs : Hashers) (draw : Nat)
    (path : Str) (clientIp : Option Str) (order : List (Sigma (fun _ : Str => List Str)))
    (st : BalancerState) :
    CountsOne st (lb.getTargetIn hs draw path clientIp order st).1
      (lb.getTargetIn hs draw path clientIp order st).2.toOption.join := by
  induction order generalizing st with
  | nil =>
    intro url
    rfl
  | cons e order ih =>
    obtain ⟨key, urls⟩ := e
    simp only [LoadBalancer.getTargetIn]
    split
    next =>
      have hpick := h.pick hs draw clientIp key urls st
      split
      next st' answer heq =>
        rw [heq] at hpick
        exact hpick
      next st' heq =>
        rw [heq] at hpick
        intro url
        rw [ih st' url, hpick url]
        rfl
    next => exact ih st

end LoadBalancer

/-- An upstream attempt that has been started and has not ended. -/
structure Flight where
  ctx : LoopContext
  state : LoopState
  url : Str
  sent : Request

namespace LoopContext

/-- The url that the balancer itself picks for an attempt. -/
def picked (ctx : LoopContext) (r : Round) : Option Str :=
  ctx.loadBalancer.bind fun lb =>
    (lb.getTargetIn ctx.crates.hashers r.draw ctx.path (some ctx.clientIp.toStr) r.balancerOrder
      r.balancer).2.toOption.join

/-- The first half of a round: the url of the attempt, and its request on the way. -/
def launch (ctx : LoopContext) (s : LoopState) (r : Round) : BalancerState × Except Panic Flight :=
  ((ctx.attemptUrl r).1, (ctx.attemptUrl r).2.bind fun url =>
    (rebuildRequest ctx.crates.uriParser s.originalReq url ctx.selected.targetUrlLen
      ctx.clientIp).map fun built =>
        ⟨ctx, { s with originalReq := built.2 }, url,
          built.1.applyTransforms ctx.selected.requestTransforms⟩)

end LoopContext

/-- The second half: what comes of the attempt. -/
def Flight.land (f : Flight) (r : Round) : Progress LoopState :=
  (f.ctx.settle f.state f.url r).2.1

namespace LoopContext

variable {ctx : LoopContext} {s : LoopState} {r : Round} {f : Flight} {lb : LoadBalancer}

/-- A turn of the loop is its two halves, or the panic of the first. -/
theorem turn_eq_launch (hlt : s.retries < ctx.maxAttempts) :
    (ctx.turn s r).balancer = (ctx.launch s r).1 ∧
    (∀ f, (ctx.launch s r).2 = .ok f →
      (ctx.turn s r).sent = some f.sent ∧ (ctx.turn s r).next = f.land r) ∧
    ∀ p, (ctx.launch s r).2 = .error p →
      (ctx.turn s r).sent = none ∧ (ctx.turn s r).next = .ended (.panicked p) := by
  unfold turn attempt launch
  rw [if_pos hlt]
  cases hurl : ctx.attemptUrl r with
  | mk balancer url =>
    cases url with
    | error p => simp [Except.bind]
    | ok url =>
      cases hbuilt : rebuildRequest ctx.crates.uriParser s.originalReq url
          ctx.selected.targetUrlLen ctx.clientIp with
      | error p => simp [Except.bind, Except.map, hbuilt]
      | ok built => simp [Except.bind, Except.map, hbuilt, Flight.land]

theorem launch_countsOne (hlb : ctx.loadBalancer = some lb) (hcounts : lb.CountsConnections)
    (s : LoopState) (r : Round) : CountsOne r.balancer (ctx.launch s r).1 (ctx.picked r) := by
  have hcall := hcounts.getTargetIn ctx.crates.hashers r.draw ctx.path (some ctx.clientIp.toStr)
    r.balancerOrder r.balancer
  unfold launch attemptUrl picked
  rw [hlb]
  exact hcall

theorem flight_of_launch (h : (ctx.launch s r).2 = .ok f) :
    f.ctx = ctx ∧ (ctx.attemptUrl r).2 = .ok f.url := by
  obtain ⟨url, hurl, h⟩ := bind_eq_ok.mp h
  obtain ⟨built, _, rfl⟩ := map_eq_ok.mp h
  exact ⟨rfl, hurl⟩

/-- An attempt goes to the url that the balancer has picked. -/
theorem url_of_launch (h : (ctx.launch s r).2 = .ok f) {url : Str}
    (hpicked : ctx.picked r = some url) : f.url = url := by
  unfold picked at hpicked
  obtain ⟨lb, hlb, hanswer⟩ := Option.bind_eq_some_iff.mp hpicked
  have hattempt : (ctx.attemptUrl r).2 = .ok url := by
    unfold attemptUrl
    rw [hlb]
    dsimp only
    cases hcall : (lb.getTargetIn ctx.crates.hashers r.draw ctx.path (some ctx.clientIp.toStr)
        r.balancerOrder r.balancer).2 with
    | error p => simp [hcall, Except.toOption] at hanswer
    | ok answer =>
      rw [hcall] at hanswer
      obtain rfl : answer = some url := hanswer
      rfl
  exact Except.ok.inj ((flight_of_launch h).2.symm.trans hattempt)

/-- The balancer picks the url of an attempt, and the request for it goes out; or neither. -/
def PickGoesOut (ctx : LoopContext) (s : LoopState) (r : Round) : Prop :=
  (ctx.picked r).isSome ↔ ∃ f, (ctx.launch s r).2 = .ok f

end LoopContext

/-- The balancer with the requests in their retry loops, between attempts or on one. -/
structure Upstreams where
  balancer : BalancerState
  waiting : List (LoopContext × LoopState)
  flying : List Flight

/-- A request comes to the proxy; one in its loop starts an attempt, or finds none left; an attempt
ends. -/
inductive UpstreamEvent where
  | enter (env : Surroundings) (req : Request)
  | depart (i : Nat) (r : Round)
  | land (i : Nat) (r : Round)

namespace Upstreams

def start : Upstreams := ⟨BalancerState.empty, [], []⟩

/-- What a round finds in the balancer is what all requests have made of it. -/
def round (c : Upstreams) (r : Round) : Round := { r with balancer := c.balancer }

def step (proxy : Proxy) (c : Upstreams) : UpstreamEvent → Option Upstreams
  | .enter env req =>
    match proxy.begin env req with
    | .going p => some { c with waiting := p :: c.waiting }
    | _ => some c
  | .depart i r =>
    match c.waiting[i]? with
    | some (ctx, s) =>
      if s.retries < ctx.maxAttempts then
        match ctx.launch s (c.round r) with
        | (balancer, .ok f) => some ⟨balancer, c.waiting.eraseIdx i, f :: c.flying⟩
        | (balancer, .error _) => some ⟨balancer, c.waiting.eraseIdx i, c.flying⟩
      else some { c with waiting := c.waiting.eraseIdx i }
    | none => none
  | .land i r =>
    match c.flying[i]? with
    | some f =>
      match f.land r with
      | .going s => some ⟨c.balancer, (f.ctx, s) :: c.waiting, c.flying.eraseIdx i⟩
      | _ => some { c with flying := c.flying.eraseIdx i }
    | none => none

/-- The attempts to a url that have been started and have not ended. -/
def running (c : Upstreams) (url : Str) : Nat := c.flying.countP (fun f => f.url = url)

def Counted (c : Upstreams) : Prop := ∀ url, c.balancer.count url = c.running url

/-- No attempt ends, and one that starts goes to the pick of the balancer. -/
def KeepsCount (c : Upstreams) : UpstreamEvent → Prop
  | .enter _ _ => True
  | .depart i r => ∀ ctx s, c.waiting[i]? = some (ctx, s) → s.retries < ctx.maxAttempts →
      ctx.PickGoesOut s (c.round r)
  | .land _ _ => False

/-- Every request in its loop has the balancer of the proxy. -/
structure Balanced (lb : LoadBalancer) (c : Upstreams) : Prop where
  waiting : ∀ p ∈ c.waiting, p.1.loadBalancer = some lb
  flying : ∀ f ∈ c.flying, f.ctx.loadBalancer = some lb

variable {proxy : Proxy} {lb : LoadBalancer} {c d : Upstreams}

theorem running_cons (balancer : BalancerState) (waiting : List (LoopContext × LoopState))
    (f : Flight) (flying : List Flight) (url : Str) :
    running ⟨balancer, waiting, f :: flying⟩ url =
      running ⟨balancer, waiting, flying⟩ url + if f.url = url then 1 else 0 := by
  unfold running
  rw [List.countP_cons]
  simp only [decide_eq_true_eq]

/-- The attempt that has ended is missing among those that run. -/
theorem running_eraseIdx {i : Nat} {f : Flight} (hf : c.flying[i]? = some f)
    (waiting : List (LoopContext × LoopState)) :
    running ⟨c.balancer, waiting, c.flying.eraseIdx i⟩ f.url + 1 = c.running f.url := by
  obtain ⟨hi, hget⟩ := List.getElem?_eq_some_iff.mp hf
  have hperm := (List.getElem_cons_eraseIdx_perm hi).countP_eq (fun g => decide (g.url = f.url))
  rw [hget, List.countP_cons] at hperm
  simpa [running] using hperm

theorem Balanced.step {e : UpstreamEvent} (h : Balanced lb c) (hlb : proxy.loadBalancer = some lb)
    (hstep : Upstreams.step proxy c e = some d) : Balanced lb d := by
  cases e with
  | enter env req =>
    simp only [Upstreams.step] at hstep
    split at hstep
    next p hbegin =>
      cases hstep
      refine ⟨?_, h.flying⟩
      intro p hp
      rcases List.mem_cons.mp hp with rfl | hp
      · exact (Proxy.context_of_begin hbegin).1.trans hlb
      · exact h.waiting p hp
    next =>
      cases hstep
      exact h
  | depart i r =>
    simp only [Upstreams.step] at hstep
    split at hstep
    next ctx s hi =>
      have hctx := h.waiting _ (List.mem_of_getElem? hi)
      have hwaiting : ∀ p ∈ c.waiting.eraseIdx i, p.1.loadBalancer = some lb :=
        fun p hp => h.waiting p (List.mem_of_mem_eraseIdx hp)
      split at hstep
      next =>
        split at hstep
        next balancer f hlaunch =>
          cases hstep
          refine ⟨hwaiting, ?_⟩
          intro g hg
          rcases List.mem_cons.mp hg with rfl | hg
          · rw [(LoopContext.flight_of_launch (congrArg Prod.snd hlaunch)).1]
            exact hctx
          · exact h.flying g hg
        next =>
          cases hstep
          exact ⟨hwaiting, h.flying⟩
      next =>
        cases hstep
        exact ⟨hwaiting, h.flying⟩
    next => simp at hstep
  | land i r =>
    simp only [Upstreams.step] at hstep
    split at hstep
    next f hi =>
      have hflying : ∀ g ∈ c.flying.eraseIdx i, g.ctx.loadBalancer = some lb :=
        fun g hg => h.flying g (List.mem_of_mem_eraseIdx hg)
      split at hstep
      next s _ =>
        cases hstep
        refine ⟨?_, hflying⟩
        intro p hp
        rcases List.mem_cons.mp hp with rfl | hp
        · exact h.flying f (List.mem_of_getElem? hi)
        · exact h.waiting p hp
      next =>
        cases hstep
        exact ⟨h.waiting, hflying⟩
    next => simp at hstep

/-- An attempt that starts keeps the count exactly when it goes to the pick of the balancer. -/
theorem counted_launch_iff {ctx : LoopContext} {s : LoopState} {r : Round}
    (waiting : List (LoopContext × LoopState)) (hcounted : c.Counted)
    (hcounts : CountsOne c.balancer (ctx.launch s r).1 (ctx.picked r)) :
    (∀ f, (ctx.launch s r).2 = .ok f →
      (Counted ⟨(ctx.launch s r).1, waiting, f :: c.flying⟩ ↔ ctx.PickGoesOut s r)) ∧
    ∀ p, (ctx.launch s r).2 = .error p →
      (Counted ⟨(ctx.launch s r).1, waiting, c.flying⟩ ↔ ctx.PickGoesOut s r) := by
  have hcount : ∀ url, (ctx.launch s r).1.count url =
      c.running url + if ctx.picked r = some url then 1 else 0 := by
    intro url
    rw [hcounts url, hcounted url]
  unfold LoopContext.PickGoesOut
  constructor
  · intro f hf
    have hout : (∃ g, (ctx.launch s r).2 = .ok g) ↔ True := iff_true_intro ⟨f, hf⟩
    rw [hout, iff_true]
    constructor
    · intro h
      have hurl := h f.url
      rw [running_cons, hcount, if_pos rfl] at hurl
      have hone : (if ctx.picked r = some f.url then 1 else 0) = 1 :=
        Nat.add_left_cancel hurl
      split at hone
      next hpicked => rw [hpicked, Option.isSome_some]
      next => simp at hone
    · intro hsome url
      obtain ⟨u, hu⟩ := Option.isSome_iff_exists.mp hsome
      have hfu := LoopContext.url_of_launch hf hu
      rw [running_cons, hcount, hu, hfu]
      simp only [Option.some.injEq]
      rfl
  · intro p hp
    have hout : ¬∃ g, (ctx.launch s r).2 = .ok g := by
      rintro ⟨g, hg⟩
      rw [hp] at hg
      cases hg
    rw [iff_false_right hout]
    constructor
    · intro h hsome
      obtain ⟨u, hu⟩ := Option.isSome_iff_exists.mp hsome
      have hurl := h u
      rw [hcount, if_pos hu] at hurl
      have hsame : c.running u + 1 = c.running u := hurl
      omega
    · intro hnone url
      rw [hcount, if_neg]
      · rfl
      · intro hu
        rw [hu] at hnone
        exact hnone rfl

/-- A step keeps the count exactly under its condition. -/
theorem counted_step_iff {e : UpstreamEvent} (hcounts : lb.CountsConnections)
    (hbalanced : Balanced lb c) (hcounted : c.Counted)
    (hstep : Upstreams.step proxy c e = some d) : d.Counted ↔ c.KeepsCount e := by
  cases e with
  | enter env req =>
    simp only [KeepsCount, iff_true]
    simp only [Upstreams.step] at hstep
    split at hstep
    next =>
      cases hstep
      exact hcounted
    next =>
      cases hstep
      exact hcounted
  | depart i r =>
    simp only [Upstreams.step] at hstep
    split at hstep
    next ctx s hi =>
      have hctx := hbalanced.waiting _ (List.mem_of_getElem? hi)
      have hlaunch := counted_launch_iff (c.waiting.eraseIdx i) hcounted
        (ctx.launch_countsOne hctx hcounts s (c.round r))
      have hkeeps : c.KeepsCount (.depart i r) ↔
          (s.retries < ctx.maxAttempts → ctx.PickGoesOut s (c.round r)) := by
        unfold KeepsCount
        simp [hi]
      rw [hkeeps]
      split at hstep
      next hlt =>
        rw [forall_prop_of_true hlt]
        split at hstep
        next balancer f heq =>
          cases hstep
          have hiff := hlaunch.1 f (congrArg Prod.snd heq)
          rwa [heq] at hiff
        next balancer p heq =>
          cases hstep
          have hiff := hlaunch.2 p (congrArg Prod.snd heq)
          rwa [heq] at hiff
      next hge =>
        cases hstep
        exact iff_of_true hcounted (fun hlt => absurd hlt hge)
    next => simp at hstep
  | land i r =>
    simp only [KeepsCount, iff_false]
    simp only [Upstreams.step] at hstep
    split at hstep
    next f hi =>
      intro h
      have hurl := h f.url
      split at hstep
      next s _ =>
        cases hstep
        have herased := running_eraseIdx hi ((f.ctx, s) :: c.waiting)
        rw [hcounted f.url] at hurl
        omega
      next =>
        cases hstep
        have herased := running_eraseIdx hi c.waiting
        rw [hcounted f.url] at hurl
        omega
    next => simp at hstep

end Upstreams

/-- In every run the balancer has counted to each url as many connections as attempts to it run, in
every state, exactly when no attempt ends and each that starts goes to the pick of the balancer. -/
theorem connections_counted_iff {proxy : Proxy} {lb : LoadBalancer} {es : List UpstreamEvent}
    {c : Upstreams} (hlb : proxy.loadBalancer = some lb) (hcounts : lb.CountsConnections)
    (h : Run (Upstreams.step proxy) anyStep Upstreams.start es c) :
    Run (Upstreams.step proxy) (Run.keeping (Upstreams.step proxy) Upstreams.Counted)
      Upstreams.start es c ↔
    Run (Upstreams.step proxy) Upstreams.KeepsCount Upstreams.start es c := by
  have hbalanced : Upstreams.Balanced lb Upstreams.start := by
    constructor
    · simp [Upstreams.start]
    · simp [Upstreams.start]
  have hcounted : Upstreams.start.Counted := fun url => rfl
  refine h.keeping_iff (I := Upstreams.Balanced lb) ?_ hbalanced hcounted
  intro c e d hbalanced hcounted _ hstep
  exact ⟨hbalanced.step hlb hstep, Upstreams.counted_step_iff hcounts hbalanced hcounted hstep⟩

/-- Two backends, and the one with the fewest connections takes the next request. -/
def leastConnectedConfig : ProxyConfig :=
  { plainConfig [plainTarget "/api".toList ["http://a:1".toList, "http://b:1".toList]] with
    loadBalancer := some ⟨.leastConnections, none⟩ }

def leastConnectedRound : Round :=
  { plainRound (.response ⟨200, [], Body.empty⟩) with
    balancerOrder := [⟨"/api".toList, ["http://a:1".toList, "http://b:1".toList]⟩] }

/-- One request whose attempt runs. -/
theorem connections_counted_iff_first_attempt : ∃ (proxy : Proxy) (lb : LoadBalancer)
    (env : Surroundings) (c : Upstreams),
    Proxy.ofConfig plainCrates leastConnectedConfig = .ok proxy ∧
    proxy.loadBalancer = some lb ∧ IterationOf lb.targets leastConnectedRound.balancerOrder ∧
    c.running "http://a:1".toList = 1 ∧
    Run (Upstreams.step proxy) (Run.keeping (Upstreams.step proxy) Upstreams.Counted)
      Upstreams.start [.enter env (plainRequest "/api/users".toList [] []),
        .depart 0 leastConnectedRound] c := by
  have hcounted : ∀ {proxy : Proxy} {lb : LoadBalancer} {es : List UpstreamEvent} {c : Upstreams},
      proxy.loadBalancer = some lb → lb.CountsConnections →
      Run (Upstreams.step proxy) anyStep Upstreams.start es c →
      Run (Upstreams.step proxy) Upstreams.KeepsCount Upstreams.start es c →
      Run (Upstreams.step proxy) (Run.keeping (Upstreams.step proxy) Upstreams.Counted)
        Upstreams.start es c :=
    fun hlb hcounts h => (connections_counted_iff hlb hcounts h).mpr
  have hproxy : ∃ proxy lb env c d ctx s f,
      Proxy.ofConfig plainCrates leastConnectedConfig = .ok proxy ∧
      env.targetOrder = proxy.targetMap.entries ∧
      proxy.loadBalancer = some lb ∧ IterationOf lb.targets leastConnectedRound.balancerOrder ∧
      lb.algorithm = .leastConnections ∧
      Upstreams.step proxy Upstreams.start
        (.enter env (plainRequest "/api/users".toList [] [])) = some c ∧
      Upstreams.step proxy c (.depart 0 leastConnectedRound) = some d ∧
      d.running "http://a:1".toList = 1 ∧ c.waiting[0]? = some (ctx, s) ∧
      ctx.picked (c.round leastConnectedRound) = some "http://a:1".toList ∧
      (ctx.launch s (c.round leastConnectedRound)).2 = .ok f :=
    ⟨_, _, plainSurroundings _ (fun _ => plainRound .timedOut), _, _, _, _, _, rfl, rfl, rfl,
      List.Perm.refl _, rfl, rfl, rfl, rfl, rfl, rfl, rfl⟩
  obtain ⟨proxy, lb, env, c, d, ctx, s, f, hproxy, _, hlb, horder, halg, henter, hdepart, hrunning,
    hwaiting, hpicked, hlaunch⟩ := hproxy
  refine ⟨proxy, lb, env, d, hproxy, hlb, horder, hrunning, hcounted hlb (.inl halg)
    (.cons trivial henter (.cons trivial hdepart (.nil d))) ?_⟩
  refine .cons trivial henter (.cons ?_ hdepart (.nil d))
  intro ctx' s' hi _
  rw [hwaiting] at hi
  cases hi
  exact ⟨fun _ => ⟨f, hlaunch⟩, fun _ => Option.isSome_iff_exists.mpr ⟨_, hpicked⟩⟩

/-- The only attempt is answered, and its connection is still counted. -/
theorem ended_attempt_counted : ∃ (proxy : Proxy) (lb : LoadBalancer) (env : Surroundings)
    (c : Upstreams),
    Proxy.ofConfig plainCrates leastConnectedConfig = .ok proxy ∧
    env.targetOrder = proxy.targetMap.entries ∧
    proxy.loadBalancer = some lb ∧ lb.algorithm = .leastConnections ∧
    IterationOf lb.targets leastConnectedRound.balancerOrder ∧
    Run (Upstreams.step proxy) anyStep Upstreams.start
      [.enter env (plainRequest "/api/users".toList [] []), .depart 0 leastConnectedRound,
        .land 0 leastConnectedRound] c ∧
    c.waiting.length = 0 ∧ c.flying.length = 0 ∧ c.running "http://a:1".toList = 0 ∧
    c.balancer.count "http://a:1".toList = 1 := by
  refine ⟨_, _, plainSurroundings _ (fun _ => plainRound .timedOut), _, rfl, rfl, rfl, rfl,
    List.Perm.refl _, .cons trivial rfl (.cons trivial rfl (.cons trivial rfl (.nil _))), rfl, rfl,
    rfl, rfl⟩

end Road7
