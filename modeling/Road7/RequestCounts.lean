import Mathlib.Algebra.BigOperators.Group.List.Basic
import Road7.Handler
import Road7.Permits
import Road7.Tally

namespace Road7

/-- The counters of `Metrics` that the handlers add to, with their labels. A histogram is counted
by its observations, and in bytes by their sum. -/
inductive Metric where
  | httpRequestsTotal
  | httpMethodCounts (method : Str)
  | failedRequests
  | errorCounts (errorType : String)
  | requestSizeCount
  | requestSizeSum
  | responseSizeCount
  | responseSizeSum
  | httpResponsesTotal
  | successfulRequests
  | requestDurationCount
deriving DecidableEq, Repr

/-- What the counters of `Metrics::new` show: each labelled one has counted the label `init`. -/
def Metric.initially : Metric → Nat
  | .httpMethodCounts method => if method = "init".toList then 1 else 0
  | .errorCounts errorType => if errorType = "init" then 1 else 0
  | _ => 0

abbrev Addition := Metric × Nat

def failure (errorType : String) : List Addition :=
  [(.failedRequests, 1), (.errorCounts errorType, 1)]

namespace Proxy

/-- The hit path: the size of the response before it is built, and the rest behind that. -/
def hitAdditions (proxy : Proxy) (env : Surroundings) (selected : Selected) (url cacheKey : Str)
    (req : Request) : List Addition :=
  match selected.cacheConfig with
  | none => []
  | some _ =>
    match findCached env.hitCaches cacheKey cacheKey env.hitNow with
    | .hit entry =>
      match findCached env.varyCaches cacheKey
          (createCacheKey proxy.crates.hashers.defaultHash url req entry.varyHeaders)
          env.varyNow with
      | .hit entry =>
        [(.responseSizeCount, 1), (.responseSizeSum, entry.response.length)] ++
          match entry.toResponse proxy.securityHeadersConfig with
          | .ok _ => [(.httpResponsesTotal, 1), (.successfulRequests, 1), (.requestDurationCount, 1)]
          | .error _ => []
      | _ => []
    | _ => []

/-- A request without a token, or refused by its breaker, adds nothing. -/
def approachAdditions (proxy : Proxy) (env : Surroundings) (req : Request)
    (selected : Selected) : List Addition :=
  match takeToken env req.uri.path with
  | .going _ =>
    match authenticate proxy.crates env.systemTime selected.authConfig req with
    | .ok _ =>
      match firstUrl selected.targetUrls with
      | .ok url =>
        proxy.hitAdditions env selected url
          (createCacheKey proxy.crates.hashers.defaultHash url req none) req
      | .error _ => []
    | .error _ => failure "auth_error"
  | _ => []

def routeAdditions (proxy : Proxy) (env : Surroundings) (req : Request) : List Addition :=
  match proxy.route env req with
  | .going selected => proxy.approachAdditions env req selected
  | .ended (.refused _) => failure "no_target"
  | _ => []

/-- The paths of the proxy itself are answered before the request is counted, the static files
behind. -/
def countedAdditions (proxy : Proxy) (env : Surroundings) (req : Request) : List Addition :=
  match ownPaths { env with files := fun _ => .missing } req.uri.path with
  | .going _ =>
    (.httpRequestsTotal, 1) ::
      match ownPaths env req.uri.path with
      | .going _ => proxy.routeAdditions env req
      | _ => []
  | _ => []

def proxyRequestAdditions (proxy : Proxy) (env : Surroundings) (req : Request) : List Addition :=
  match validateRequest proxy.crates.clean req with
  | (.ok _, req) =>
    match req.body.toBytes with
    | (some bytes, body) =>
      [(.requestSizeCount, 1), (.requestSizeSum, bytes.length)] ++
        proxy.countedAdditions env { req with body }
    | (none, _) => []
  | (.error _, _) => failure "validation_error"

/-- What the handler of a request adds to the counters, in its order. The retry loop adds
nothing. -/
def additions (proxy : Proxy) (v : Visitor) : List Addition :=
  [(.httpRequestsTotal, 1), (.httpMethodCounts v.request.method, 1)] ++
    if proxy.rejectsBot v.request then failure "bot_detected"
    else proxy.proxyRequestAdditions v.env v.request

end Proxy

def Progress.ending {α : Type} : Progress α → Option Ending
  | .ended e => some e
  | _ => none

/-- What a request has come to before its retry loop, when it has come to its end there. -/
def Proxy.early (proxy : Proxy) (v : Visitor) : Option Ending :=
  if proxy.rejectsBot v.request then some (.refused (.forbidden "Bot detected"))
  else (proxy.begin v.env v.request).ending

/-- The label that a refusal is counted under. The proxy refuses without counting where it has no
token, an open breaker or no answer from the upstream. -/
def Ending.errorType : Ending → Option String
  | .refused (.forbidden _) => some "bot_detected"
  | .refused (.badRequest _) => some "validation_error"
  | .refused (.notFound _) => some "no_target"
  | .refused (.unauthorized _) => some "auth_error"
  | _ => none

def Ending.isCached : Ending → Bool
  | .cached _ => true
  | _ => false

def countIf (p : Prop) [Decidable p] : Nat := if p then 1 else 0

/-- The additions of a request fit its end: a failure is counted once and under its label, a reply
from the cache once as a success, and no byte of the request is. -/
structure Accounts (e : Option Ending) (additions : List Addition) : Prop where
  failed : additionsTo .failedRequests additions = countIf (e.bind Ending.errorType).isSome
  errors : ∀ errorType, additionsTo (.errorCounts errorType) additions =
    countIf (e.bind Ending.errorType = some errorType)
  responses : additionsTo .httpResponsesTotal additions = countIf (e.any Ending.isCached)
  successes : additionsTo .successfulRequests additions = countIf (e.any Ending.isCached)
  durations : additionsTo .requestDurationCount additions = countIf (e.any Ending.isCached)
  sizes : additionsTo .requestSizeSum additions = 0
  methods : ∀ method, additionsTo (.httpMethodCounts method) additions = 0

section Accounting

variable {e : Option Ending} {adds : List Addition} {errorType : String} {proxy : Proxy}
  {env : Surroundings} {req : Request} {selected : Selected}

/-- An end that is neither counted as a failure nor as a success. -/
def Uncounted (e : Option Ending) : Prop :=
  e.bind Ending.errorType = none ∧ e.any Ending.isCached = false

theorem accounts_nil (h : Uncounted e) : Accounts e [] := by
  obtain ⟨hfailed, hcached⟩ := h
  constructor <;> simp [additionsTo, countIf, hfailed, hcached]

theorem accounts_failure (hfailed : e.bind Ending.errorType = some errorType)
    (hcached : e.any Ending.isCached = false) : Accounts e (failure errorType) := by
  constructor <;> simp [additionsTo, failure, countIf, hfailed, hcached]

/-- The counters that no account is kept of. -/
def Metric.isNeutral : Metric → Bool
  | .httpRequestsTotal | .requestSizeCount | .responseSizeCount | .responseSizeSum => true
  | _ => false

theorem Accounts.cons (h : Accounts e adds) {metric : Metric} {n : Nat}
    (hneutral : metric.isNeutral = true ∨ n = 0) : Accounts e ((metric, n) :: adds) := by
  have hskip : ∀ k, k.isNeutral = false → additionsTo k ((metric, n) :: adds) =
      additionsTo k adds := by
    intro k hk
    rw [additionsTo]
    split
    next hmetric =>
      rcases hneutral with hneutral | rfl
      · rw [show metric = k from hmetric, hk] at hneutral
        cases hneutral
      · exact zero_add _
    next => exact zero_add _
  exact ⟨(hskip _ rfl).trans h.failed, fun errorType => (hskip _ rfl).trans (h.errors errorType),
    (hskip _ rfl).trans h.responses, (hskip _ rfl).trans h.successes,
    (hskip _ rfl).trans h.durations, (hskip _ rfl).trans h.sizes,
    fun method => (hskip _ rfl).trans (h.methods method)⟩

theorem accounts_hit (proxy : Proxy) (env : Surroundings) (selected : Selected) (url cacheKey : Str)
    (req : Request) : Accounts (proxy.serveFromCache env selected url cacheKey req).ending
      (proxy.hitAdditions env selected url cacheKey req) := by
  unfold Proxy.serveFromCache Proxy.hitAdditions
  cases selected.cacheConfig with
  | none => exact accounts_nil ⟨rfl, rfl⟩
  | some config =>
    dsimp only
    cases findCached env.hitCaches cacheKey cacheKey env.hitNow with
    | miss => exact accounts_nil ⟨rfl, rfl⟩
    | blocked => exact accounts_nil ⟨rfl, rfl⟩
    | hit entry =>
      dsimp only
      cases findCached env.varyCaches cacheKey
          (createCacheKey proxy.crates.hashers.defaultHash url req entry.varyHeaders)
          env.varyNow with
      | miss => exact accounts_nil ⟨rfl, rfl⟩
      | blocked => exact accounts_nil ⟨rfl, rfl⟩
      | hit found =>
        refine Accounts.cons (Accounts.cons ?_ (.inl rfl)) (.inl rfl)
        dsimp only
        cases found.toResponse proxy.securityHeadersConfig with
        | error p => exact accounts_nil ⟨rfl, rfl⟩
        | ok resp =>
          constructor <;> simp [additionsTo, countIf, Progress.endWith, Progress.orPanic,
            Progress.ending, Ending.errorType, Ending.isCached]

theorem accounts_approach (proxy : Proxy) (env : Surroundings) (req : Request)
    (selected : Selected) : Accounts (proxy.approach env req selected).ending
      (proxy.approachAdditions env req selected) := by
  unfold Proxy.approach Proxy.approachAdditions
  have htoken : takeToken env req.uri.path = .going () ∨
      takeToken env req.uri.path = .refuse (.tooManyRequests "Rate limit exceeded") := by
    unfold takeToken
    split
    next => split <;> simp
    next => exact .inl rfl
  rcases htoken with htoken | htoken
  · rw [htoken]
    dsimp only [Progress.going_bind]
    cases hauth : authenticate proxy.crates env.systemTime selected.authConfig req with
    | error err =>
      simp only [authGate, hauth]
      exact accounts_failure rfl rfl
    | ok u =>
      simp only [authGate, hauth, Progress.going_bind]
      cases firstUrl selected.targetUrls with
      | error p => exact accounts_nil ⟨rfl, rfl⟩
      | ok url =>
        have hhit := accounts_hit proxy env selected url
          (createCacheKey proxy.crates.hashers.defaultHash url req none) req
        dsimp only [Progress.orPanic, Progress.going_bind]
        cases hserve : proxy.serveFromCache env selected url
            (createCacheKey proxy.crates.hashers.defaultHash url req none) req with
        | going u =>
          rw [hserve] at hhit
          exact hhit
        | ended e =>
          rw [hserve] at hhit
          exact hhit
        | blocked =>
          rw [hserve] at hhit
          exact hhit
  · rw [htoken]
    exact accounts_nil ⟨rfl, rfl⟩

theorem Accounts.congr {e' : Option Ending} (h : Accounts e adds)
    (hfailed : e'.bind Ending.errorType = e.bind Ending.errorType)
    (hcached : e'.any Ending.isCached = e.any Ending.isCached) : Accounts e' adds := by
  refine ⟨?_, fun errorType => ?_, ?_, ?_, ?_, h.sizes, h.methods⟩
  · rw [hfailed]
    exact h.failed
  · rw [hfailed]
    exact h.errors errorType
  · rw [hcached]
    exact h.responses
  · rw [hcached]
    exact h.successes
  · rw [hcached]
    exact h.durations

/-- What comes behind a stage is accounted for with it, as long as it is not counted itself. -/
theorem Accounts.bind {α β : Type} {x : Progress α} {f : α → Progress β}
    (h : Accounts x.ending adds) (hrest : ∀ a, x = .going a → Uncounted (f a).ending) :
    Accounts (x >>= f).ending adds := by
  cases x with
  | going a =>
    obtain ⟨hfailed, hcached⟩ := hrest a rfl
    exact h.congr hfailed hcached
  | ended e => exact h
  | blocked => exact h

theorem uncounted_orPanic {α : Type} (x : Except Panic α) :
    Uncounted (Progress.orPanic x).ending := by
  cases x with
  | ok a => exact ⟨rfl, rfl⟩
  | error p => exact ⟨rfl, rfl⟩

theorem Uncounted.bind {α β : Type} {x : Progress α} {f : α → Progress β}
    (h : Uncounted x.ending) (hrest : ∀ a, x = .going a → Uncounted (f a).ending) :
    Uncounted (x >>= f).ending := by
  cases x with
  | going a => exact hrest a rfl
  | ended e => exact h
  | blocked => exact h

theorem uncounted_checkBreaker (env : Surroundings) :
    Uncounted (Proxy.checkBreaker env).ending := by
  unfold Proxy.checkBreaker
  split
  next => exact ⟨rfl, rfl⟩
  next => exact ⟨rfl, rfl⟩

theorem uncounted_addConditionalHeaders (cacheKey : Str) (caches : Caches) (now : Nat)
    (req : Request) : Uncounted (addConditionalHeaders cacheKey caches now req).ending := by
  unfold addConditionalHeaders
  split
  next =>
    refine (uncounted_orPanic _).bind fun _ _ => ?_
    exact (uncounted_orPanic _).bind fun _ _ => ⟨rfl, rfl⟩
  next => exact ⟨rfl, rfl⟩
  next => exact ⟨rfl, rfl⟩

theorem uncounted_ownPaths (env : Surroundings) (path : Str) :
    Uncounted (ownPaths env path).ending := by
  unfold ownPaths textReply
  split
  next => exact ⟨rfl, rfl⟩
  next =>
    split
    next => exact ⟨rfl, rfl⟩
    next =>
      split
      next => exact ⟨rfl, rfl⟩
      next => split <;> exact ⟨rfl, rfl⟩

theorem accounts_enterLoop (proxy : Proxy) (env : Surroundings) (req : Request)
    (selected : Selected) : Accounts (proxy.enterLoop env req selected).ending
      (proxy.approachAdditions env req selected) := by
  refine (accounts_approach proxy env req selected).bind fun ctx _ => ?_
  refine (uncounted_checkBreaker env).bind fun _ _ => ?_
  exact (uncounted_addConditionalHeaders _ _ _ _).bind fun _ _ => ⟨rfl, rfl⟩

theorem accounts_route (proxy : Proxy) (env : Surroundings) (req : Request) :
    Accounts (proxy.route env req >>= fun selected =>
      proxy.enterLoop env req selected).ending (proxy.routeAdditions env req) := by
  unfold Proxy.routeAdditions Proxy.route
  cases findTarget (proxy.targetDefaults env) req.uri.path req.headers env.targetOrder with
  | error p => exact accounts_nil ⟨rfl, rfl⟩
  | ok found =>
    cases found with
    | none => exact accounts_failure rfl rfl
    | some selected => exact accounts_enterLoop proxy env req selected

theorem accounts_counted (proxy : Proxy) (env : Surroundings) (req : Request) :
    Accounts (ownPaths env req.uri.path >>= fun _ => proxy.route env req >>= fun selected =>
      proxy.enterLoop env req selected).ending (proxy.countedAdditions env req) := by
  unfold Proxy.countedAdditions
  rw [Proxy.ownPaths_without_files]
  by_cases hanswered : req.uri.path ∈ answeredPaths
  · obtain ⟨resp, hown⟩ := Proxy.ownPaths_answered env hanswered
    rw [if_pos hanswered, hown]
    exact accounts_nil ⟨rfl, rfl⟩
  · rw [if_neg hanswered]
    refine Accounts.cons ?_ (.inl rfl)
    have hown := uncounted_ownPaths env req.uri.path
    cases hpath : ownPaths env req.uri.path with
    | going u => exact accounts_route proxy env req
    | ended e =>
      rw [hpath] at hown
      exact accounts_nil hown
    | blocked => exact accounts_nil ⟨rfl, rfl⟩

theorem begin_stages (proxy : Proxy) (env : Surroundings) (req : Request) :
    proxy.begin env req = proxy.validate req >>= fun req => ownPaths env req.uri.path >>= fun _ =>
      proxy.route env req >>= fun selected => proxy.enterLoop env req selected := by
  simp only [Proxy.begin, Proxy.receive, Progress.bind_assoc, Progress.going_bind]

theorem accounts_begin (proxy : Proxy) (env : Surroundings) (req : Request) :
    Accounts (proxy.begin env req).ending (proxy.proxyRequestAdditions env req) := by
  rw [begin_stages]
  unfold Proxy.proxyRequestAdditions Proxy.validate
  cases hvalid : validateRequest proxy.crates.clean req with
  | mk result req' =>
    cases result with
    | error err => exact accounts_failure rfl rfl
    | ok u =>
      -- The body has been read by the validation: there is no byte left to measure.
      obtain ⟨_, rfl⟩ := validateRequest_ok hvalid
      refine Accounts.cons (Accounts.cons ?_ (.inr rfl)) (.inl rfl)
      exact accounts_counted proxy env req.bodyRead

/-- What is added for a request fits what the request comes to before its retry loop. -/
theorem accounts_early (proxy : Proxy) (v : Visitor) :
    Accounts (proxy.early v) (if proxy.rejectsBot v.request then failure "bot_detected"
      else proxy.proxyRequestAdditions v.env v.request) := by
  unfold Proxy.early
  split
  next => exact accounts_failure rfl rfl
  next => exact accounts_begin proxy v.env v.request

end Accounting

/-- A handler starts; the next addition of one of them is made. -/
inductive BoardEvent where
  | receive (v : Visitor)
  | act (i : Nat)

def BoardEvent.received : BoardEvent → Option Visitor
  | .receive v => some v
  | .act _ => none

def received (es : List BoardEvent) : List Visitor := es.filterMap BoardEvent.received

def BoardEvent.tally (proxy : Proxy) : BoardEvent → TallyEvent Metric Nat
  | .receive v => .enter (proxy.additions v)
  | .act i => .act i

namespace MetricsBoard

def new : Tally Metric Nat := Tally.start Metric.initially

def step (proxy : Proxy) (board : Tally Metric Nat) (e : BoardEvent) :
    Option (Tally Metric Nat) := board.step (e.tally proxy)

theorem entered_tally (proxy : Proxy) (es : List BoardEvent) :
    entered (es.map (BoardEvent.tally proxy)) = (received es).map proxy.additions := by
  induction es with
  | nil => rfl
  | cons e es ih =>
    cases e with
    | receive v => exact congrArg (proxy.additions v :: ·) ih
    | act i => exact ih

theorem allTo_additions (proxy : Proxy) (k : Metric) (p : Visitor → Bool)
    (hone : ∀ v, additionsTo k (proxy.additions v) = if p v then 1 else 0) (vs : List Visitor) :
    allTo k (vs.map proxy.additions) = vs.countP p := by
  induction vs with
  | nil => rfl
  | cons v vs ih =>
    rw [List.map_cons, allTo_cons, ih, hone, List.countP_cons, Nat.add_comm]

end MetricsBoard

/-- The requests that have ended early in a way that is counted as a failure with a label. -/
def Proxy.failsWith (proxy : Proxy) (errorType : String) (v : Visitor) : Bool :=
  (proxy.early v).bind Ending.errorType = some errorType

def Proxy.fails (proxy : Proxy) (v : Visitor) : Bool :=
  ((proxy.early v).bind Ending.errorType).isSome

/-- The requests that are answered from the cache on their arrival. -/
def Proxy.hits (proxy : Proxy) (v : Visitor) : Bool := (proxy.early v).any Ending.isCached

namespace MetricsBoard

variable {proxy : Proxy} {es : List BoardEvent} {board : Tally Metric Nat}

theorem additionsTo_additions (proxy : Proxy) (v : Visitor) {k : Metric}
    (hk : k ≠ .httpRequestsTotal) : additionsTo k (proxy.additions v) =
      (if k = .httpMethodCounts v.request.method then 1 else 0) +
        additionsTo k (if proxy.rejectsBot v.request then failure "bot_detected"
          else proxy.proxyRequestAdditions v.env v.request) := by
  rw [Proxy.additions, additionsTo_append]
  congr 1
  simp [additionsTo, hk.symm, eq_comm]

theorem value_settled (h : Run (step proxy) anyStep new es board)
    (hsettled : ∀ additions ∈ board.pending, additions = []) (k : Metric) (p : Visitor → Bool)
    (hone : ∀ v, additionsTo k (proxy.additions v) = if p v then 1 else 0) :
    board.value k = Metric.initially k + (received es).countP p := by
  have hrun : Run Tally.step anyStep (Tally.start Metric.initially)
      (es.map (BoardEvent.tally proxy)) board := Run.map (f := BoardEvent.tally proxy) h
  rw [Tally.value_of_settled hrun hsettled k, entered_tally, allTo_additions proxy k p hone]

end MetricsBoard

theorem errorType_cases (e : Option Ending) : e.bind Ending.errorType = none ∨
    e.bind Ending.errorType = some "bot_detected" ∨
    e.bind Ending.errorType = some "validation_error" ∨
    e.bind Ending.errorType = some "no_target" ∨ e.bind Ending.errorType = some "auth_error" := by
  cases e with
  | none => exact .inl rfl
  | some e =>
    rw [Option.bind_some]
    cases e with
    | refused error => cases error <;> simp [Ending.errorType]
    | _ => exact .inl rfl

/-- Every failure has one of four labels. -/
theorem countP_fails (proxy : Proxy) (vs : List Visitor) : vs.countP proxy.fails =
    vs.countP (proxy.failsWith "bot_detected") + vs.countP (proxy.failsWith "validation_error") +
      vs.countP (proxy.failsWith "no_target") + vs.countP (proxy.failsWith "auth_error") := by
  induction vs with
  | nil => rfl
  | cons v vs ih =>
    simp only [List.countP_cons, ih, Proxy.fails, Proxy.failsWith]
    rcases errorType_cases (proxy.early v) with h | h | h | h | h <;> simp [h] <;> omega

/-- The size of a request is always observed as zero. When no handler is at work, the failures are
the requests that have been refused as a bot's, as invalid, without a target or without
authorization, each under its label, and the responses and successes are the replies from the
cache; and every request is counted under its method. -/
theorem request_counts {proxy : Proxy} {es : List BoardEvent} {board : Tally Metric Nat}
    (h : Run (MetricsBoard.step proxy) anyStep MetricsBoard.new es board) :
    board.value .requestSizeSum = 0 ∧
    ((∀ additions ∈ board.pending, additions = []) →
      board.value .failedRequests = (received es).countP proxy.fails ∧
      (∀ errorType ≠ "init", board.value (.errorCounts errorType) =
        (received es).countP (proxy.failsWith errorType)) ∧
      board.value .failedRequests = board.value (.errorCounts "bot_detected") +
        board.value (.errorCounts "validation_error") + board.value (.errorCounts "no_target") +
        board.value (.errorCounts "auth_error") ∧
      board.value .httpResponsesTotal = (received es).countP proxy.hits ∧
      board.value .successfulRequests = (received es).countP proxy.hits ∧
      board.value .requestDurationCount = (received es).countP proxy.hits ∧
      ∀ method ≠ "init".toList, board.value (.httpMethodCounts method) =
        (received es).countP (fun v => v.request.method = method)) := by
  have hadds := fun (v : Visitor) (k : Metric) =>
    @MetricsBoard.additionsTo_additions proxy v k
  constructor
  · have hrun : Run Tally.step anyStep (Tally.start Metric.initially)
        (es.map (BoardEvent.tally proxy)) board := Run.map (f := BoardEvent.tally proxy) h
    have hvalue := Tally.value_run hrun .requestSizeSum
    have hnone : ∀ v, additionsTo .requestSizeSum (proxy.additions v) = if false then 1 else 0 := by
      intro v
      rw [hadds v _ (by simp), (accounts_early proxy v).sizes]
      rfl
    rw [MetricsBoard.entered_tally, MetricsBoard.allTo_additions proxy _ _ hnone] at hvalue
    have hstart : (Tally.start Metric.initially).value .requestSizeSum +
        allTo .requestSizeSum (Tally.start Metric.initially).pending = 0 := rfl
    have hzero : (received es).countP (fun _ => false) = 0 := by simp
    rw [hstart, hzero] at hvalue
    omega
  · intro hsettled
    have hfailed : board.value .failedRequests = (received es).countP proxy.fails := by
      rw [MetricsBoard.value_settled h hsettled _ proxy.fails]
      · exact Nat.zero_add _
      · intro v
        rw [hadds v _ (by simp), (accounts_early proxy v).failed]
        exact Nat.zero_add _
    have herrors : ∀ errorType ≠ "init", board.value (.errorCounts errorType) =
        (received es).countP (proxy.failsWith errorType) := by
      intro errorType hinit
      rw [MetricsBoard.value_settled h hsettled _ (proxy.failsWith errorType)]
      · rw [Metric.initially, if_neg hinit, Nat.zero_add]
      · intro v
        rw [hadds v _ (by simp), (accounts_early proxy v).errors]
        simp [countIf, Proxy.failsWith]
    refine ⟨hfailed, herrors, ?_, ?_, ?_, ?_, ?_⟩
    · rw [hfailed, herrors _ (by decide), herrors _ (by decide), herrors _ (by decide),
        herrors _ (by decide)]
      exact countP_fails proxy (received es)
    · rw [MetricsBoard.value_settled h hsettled _ proxy.hits]
      · exact Nat.zero_add _
      · intro v
        rw [hadds v _ (by simp), (accounts_early proxy v).responses]
        exact Nat.zero_add _
    · rw [MetricsBoard.value_settled h hsettled _ proxy.hits]
      · exact Nat.zero_add _
      · intro v
        rw [hadds v _ (by simp), (accounts_early proxy v).successes]
        exact Nat.zero_add _
    · rw [MetricsBoard.value_settled h hsettled _ proxy.hits]
      · exact Nat.zero_add _
      · intro v
        rw [hadds v _ (by simp), (accounts_early proxy v).durations]
        exact Nat.zero_add _
    · intro method hinit
      rw [MetricsBoard.value_settled h hsettled _ (fun v => decide (v.request.method = method))]
      · rw [Metric.initially, if_neg hinit, Nat.zero_add]
      · intro v
        rw [hadds v _ (by simp), (accounts_early proxy v).methods, Nat.add_zero]
        simp [eq_comm]

/-- A request that no target is found for. -/
theorem request_counts_no_target : ∃ (proxy : Proxy) (env : Surroundings)
    (board : Tally Metric Nat), Proxy.ofConfig plainCrates (plainConfig []) = .ok proxy ∧
    Run (MetricsBoard.step proxy) anyStep MetricsBoard.new
      (.receive ⟨env, getRequest "/api".toList []⟩ :: List.replicate 7 (.act 0)) board ∧
    board.value .failedRequests = 1 ∧ board.value (.errorCounts "no_target") = 1 ∧
    board.value .successfulRequests = 0 := by
  have hcounts : ∀ {proxy : Proxy} {es : List BoardEvent} {board : Tally Metric Nat}
      {v : Visitor}, Run (MetricsBoard.step proxy) anyStep MetricsBoard.new es board →
      board.pending = [[]] → received es = [v] → proxy.failsWith "no_target" v = true →
      proxy.fails v = true → proxy.hits v = false →
      Run (MetricsBoard.step proxy) anyStep MetricsBoard.new es board ∧
        board.value .failedRequests = 1 ∧ board.value (.errorCounts "no_target") = 1 ∧
        board.value .successfulRequests = 0 := by
    intro proxy es board v hrun hpending hreceived hlabel hfails hhits
    obtain ⟨hfailed, herrors, _, _, hsuccesses, _⟩ := (request_counts hrun).2
      (by simp [hpending])
    refine ⟨hrun, ?_, ?_, ?_⟩
    · simp [hfailed, hreceived, hfails]
    · simp [herrors "no_target" (by decide), hreceived, hlabel]
    · simp [hsuccesses, hreceived, hhits]
  exact ⟨_, plainSurroundings [] (fun _ => plainRound .timedOut), _, rfl,
    hcounts (.cons trivial rfl (.cons trivial rfl (.cons trivial rfl (.cons trivial rfl
      (.cons trivial rfl (.cons trivial rfl (.cons trivial rfl (.cons trivial rfl (.nil _)))))))))
      rfl rfl rfl rfl rfl⟩

end Road7
