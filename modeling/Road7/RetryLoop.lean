import Road7.CachedResponse
import Road7.CircuitBreaker
import Road7.Crates
import Road7.FindTarget
import Road7.Progress
import Road7.RebuildRequest
import Road7.Transform

namespace Road7

/-- What `timeout(.., client.request(req))` comes to. -/
inductive Outcome where
  | response (resp : Response)
  | failed (err : String)
  | timedOut
deriving DecidableEq, Repr

/-- What `proxy_request` has settled before its retry loop. -/
structure LoopContext where
  crates : Crates
  loadBalancer : Option LoadBalancer
  path : Str
  clientIp : SocketAddr
  selected : Selected
  cacheKey : Str
  defaultCorsConfig : Option CorsConfig
  securityHeadersConfig : Option SecurityHeadersConfig

/-- The variables of the loop; `delays` counts the `delay()` calls made. -/
structure LoopState where
  retries : Nat
  delays : Nat
  originalReq : Request
deriving DecidableEq, Repr

def LoopState.start (req : Request) : LoopState := ⟨0, 0, req⟩

/-- What one round of the loop finds outside: the balancer's map in its order, its counters
and a random draw, the outcome of the request, the breaker that it reports to and when, the
caches with the time it looks at them, and the time since the loop was entered. -/
structure Round where
  balancerOrder : List (Sigma (fun _ : Str => List Str))
  balancer : BalancerState
  draw : Nat
  outcome : Outcome
  breaker : CircuitBreaker
  breakerNow : Nat
  caches : Caches
  now : Nat
  elapsed : Nat

/-- What a round does: the upstream request it sends, the report it makes to the breaker, and
what it leaves of the caches and of the balancer's counters. -/
structure RoundResult where
  sent : Option Request
  report : Option Report
  next : Progress LoopState
  caches : Caches
  balancer : BalancerState

def retryStatuses : List Nat := [408, 429, 500, 502, 503, 504]

def notModified : Nat := 304

def firstUrl (urls : List Str) : Except Panic Str :=
  urls.head?.elim (.error .indexOutOfRange) .ok

/-- The end of a request that reports a failure: the error reply, unless the report panics. -/
def Round.reported (r : Round) (report : Report) (e : ProxyError) : Progress LoopState :=
  if r.breaker.reportPanics report r.breakerNow then .ended (.panicked .overflow) else .refuse e

namespace LoopContext

def maxAttempts (ctx : LoopContext) : Nat := ctx.selected.retryStrategy.maxAttempts

/-- The url of an attempt: the balancer's pick, else the first url of the target. -/
def attemptUrl (ctx : LoopContext) (r : Round) : BalancerState × Except Panic Str :=
  match ctx.loadBalancer with
  | none => (r.balancer, firstUrl ctx.selected.targetUrls)
  | some lb =>
    let (balancer, pick) := lb.getTargetIn ctx.crates.hashers r.draw ctx.path
      (some ctx.clientIp.toStr) r.balancerOrder r.balancer
    (balancer, pick.bind (fun url => url.elim (firstUrl ctx.selected.targetUrls) .ok))

/-- `retries += 1`, and the `delay()` that is slept only before another attempt. -/
def retry (ctx : LoopContext) (s : LoopState) : Progress LoopState :=
  if s.retries + 1 < ctx.maxAttempts then
    match ctx.selected.retryStrategy.delay s.delays with
    | .ok _ => .going { s with retries := s.retries + 1, delays := s.delays + 1 }
    | .error p => .ended (.panicked p)
  else .going { s with retries := s.retries + 1 }

/-- The arm for a 304. Without a cached response control leaves the `match` with the
retries as they are. -/
def replay (ctx : LoopContext) (s : LoopState) (r : Round) : Progress LoopState :=
  match findCached r.caches ctx.cacheKey ctx.cacheKey r.now with
  | .hit entry => Progress.endWith .cached (entry.toResponse ctx.securityHeadersConfig)
  | .miss => .going s
  | .blocked => .blocked

/-- Storing a reply, with the caches that it leaves: the entry is made from the reply with its body
taken out. -/
def store (ctx : LoopContext) (s : LoopState) (targetUrl : Str) (resp : Response) (r : Round) :
    Except Panic Response × Caches :=
  match ctx.selected.cacheConfig with
  | none => (.ok resp, r.caches)
  | some config =>
    let data := resp.body.toBytes.1.getD []
    match CacheEntry.fromResponse ctx.crates.md5 r.now { resp with body := Body.empty }
        ctx.selected.corsConfig with
    | .error p => (.error p, r.caches)
    | .ok (entry, resp) =>
      let key := createCacheKey ctx.crates.hashers.defaultHash targetUrl s.originalReq
        entry.varyHeaders
      let (stored, caches) :=
        r.caches.store ctx.crates.toVec config key { entry with response := data } r.now
      (stored.map (fun _ => { resp with body := Body.ofBytes data }), caches)

def finishResponse (ctx : LoopContext) (resp : Response) : Except Panic Response := do
  let headers ← insertFreshCors resp.headers ctx.selected.corsConfig ctx.defaultCorsConfig
  let headers ← applySecurityHeaders headers ctx.securityHeadersConfig
  .ok { resp with headers }

def answer (ctx : LoopContext) (s : LoopState) (targetUrl : Str) (resp : Response) (r : Round) :
    Progress LoopState × Caches :=
  match ctx.store s targetUrl resp r with
  | (.ok resp, caches) => (Progress.endWith .upstream (ctx.finishResponse resp), caches)
  | (.error p, caches) => (.ended (.panicked p), caches)

def settle (ctx : LoopContext) (s : LoopState) (targetUrl : Str) (r : Round) :
    Option Report × Progress LoopState × Caches :=
  match r.outcome with
  | .response resp =>
    if resp.status ∈ retryStatuses then (none, ctx.retry s, r.caches)
    else
      let resp := resp.applyTransforms ctx.selected.responseTransforms
      if resp.status = notModified then (some .success, ctx.replay s r, r.caches)
      else (some .success, ctx.answer s targetUrl resp r)
  | .failed err =>
    if s.retries + 1 < ctx.maxAttempts then (none, ctx.retry s, r.caches)
    else (some .failure, r.reported .failure (.internalServerError err), r.caches)
  | .timedOut =>
    if r.elapsed ≥ fromSecs ctx.selected.targetTimeout then
      (some .failure, r.reported .failure .timeout, r.caches)
    else if s.retries + 1 < ctx.maxAttempts then (none, ctx.retry s, r.caches)
    else (some .failure, r.reported .failure .timeout, r.caches)

def attempt (ctx : LoopContext) (s : LoopState) (r : Round) : RoundResult :=
  match ctx.attemptUrl r with
  | (balancer, .error p) => ⟨none, none, .ended (.panicked p), r.caches, balancer⟩
  | (balancer, .ok targetUrl) =>
    match rebuildRequest ctx.crates.uriParser s.originalReq targetUrl
        ctx.selected.targetUrlLen ctx.clientIp with
    | .error p => ⟨none, none, .ended (.panicked p), r.caches, balancer⟩
    | .ok (req, originalReq) =>
      let (report, next, caches) := ctx.settle { s with originalReq } targetUrl r
      ⟨some (req.applyTransforms ctx.selected.requestTransforms), report, next, caches, balancer⟩

/-- One turn of the loop: an attempt while the retries last, else what stands behind it. -/
def turn (ctx : LoopContext) (s : LoopState) (r : Round) : RoundResult :=
  if s.retries < ctx.maxAttempts then ctx.attempt s r
  else ⟨none, some .exhausted,
    r.reported .exhausted (.serviceUnavailable "Maximum retries exceeded"), r.caches, r.balancer⟩

def after (ctx : LoopContext) (s : LoopState) (rounds : Nat → Round) : Nat → Progress LoopState
  | 0 => .going s
  | n + 1 =>
    match ctx.after s rounds n with
    | .going t => (ctx.turn t (rounds n)).next
    | stopped => stopped

/-- The upstream request of turn `n` (from 0). -/
def sentAt (ctx : LoopContext) (s : LoopState) (rounds : Nat → Round) (n : Nat) :
    Option Request :=
  match ctx.after s rounds n with
  | .going t => (ctx.turn t (rounds n)).sent
  | _ => none

def sent (ctx : LoopContext) (s : LoopState) (rounds : Nat → Round) (n : Nat) : List Request :=
  (List.range n).filterMap (ctx.sentAt s rounds)

end LoopContext

end Road7
