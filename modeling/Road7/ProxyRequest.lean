import Road7.RateLimiter
import Road7.RetryLoop
import Road7.Validate

namespace Road7

/-- What `run_proxy` makes of the configuration and no request changes. -/
structure Proxy where
  crates : Crates
  targetMap : StrMap TargetEntry
  loadBalancer : Option LoadBalancer
  botDetector : Option BotDetectorConfig
  defaultCorsConfig : Option CorsConfig
  defaultRetryConfig : RetryConfig
  defaultCircuitBreakerConfig : CircuitBreakerConfig
  defaultTimeoutSeconds : Nat
  securityHeadersConfig : Option SecurityHeadersConfig

def ProxyConfig.balancer (config : ProxyConfig) : Except Panic (Option LoadBalancer) :=
  match config.loadBalancer with
  | some lb => (LoadBalancer.new (balancerTargets config.targets) lb.algorithm lb.weights).map some
  | none => .ok none

def Proxy.ofConfig (crates : Crates) (config : ProxyConfig) : Except Panic Proxy := do
  let loadBalancer ← config.balancer
  .ok {
    crates
    targetMap := buildTargetMap config.targets
    loadBalancer
    botDetector := config.botDetector
    defaultCorsConfig := config.defaultCorsConfig
    defaultRetryConfig := config.retries
    defaultCircuitBreakerConfig := config.defaultCircuitBreakerConfig
    defaultTimeoutSeconds := config.defaultTimeoutSeconds
    securityHeadersConfig := config.securityHeadersConfig }

/-- What `serve_static_file` finds at a path; reading a directory fails and panics. -/
inductive StaticFile where
  | missing
  | unopenable
  | unreadable
  | contents (b : Bytes)
deriving DecidableEq, Repr

/-- What a request finds outside of itself, each part at the moment it looks: other requests
change the limiters, the caches, the breaker and the balancer all the time. -/
structure Surroundings where
  clientIp : SocketAddr
  metrics : Bytes
  limiterStatus : Bytes
  files : Str → StaticFile
  targetOrder : List (Sigma (fun _ : Str => TargetEntry))
  draws : Nat → Draw
  limiters : List (Sigma (fun _ : Str => RateLimiter))
  systemTime : Nat
  hitCaches : Caches
  hitNow : Nat
  varyCaches : Caches
  varyNow : Nat
  breaker : CircuitBreaker
  breakerNow : Nat
  conditionalCaches : Caches
  conditionalNow : Nat
  rounds : Nat → Round

def textReply (status : Nat) (headers : HeaderMap) (text : String) : Progress Unit :=
  .ended (.ownReply ⟨status, headers, Body.ofBytes (utf8 text.toList)⟩)

def contentTypeHeader : HeaderName := "content-type".toList

def ownPaths (env : Surroundings) (path : Str) : Progress Unit :=
  if path = "/health".toList then textReply 200 [] "OK"
  else if path = "/metrics".toList then
    .ended (.ownReply ⟨200, [(contentTypeHeader, utf8 "text/plain; charset=utf-8".toList)],
      Body.ofBytes env.metrics⟩)
  else if path = "/rate-limiter-status".toList then
    .ended (.ownReply ⟨200, [(contentTypeHeader, utf8 "application/json".toList)],
      Body.ofBytes env.limiterStatus⟩)
  else match env.files ("./static".toList ++ path) with
    | .missing => .going ()
    | .unopenable => textReply 404 [] "File not found"
    | .unreadable => .ended (.panicked .fileRead)
    | .contents b => .ended (.ownReply ⟨200, [], Body.ofBytes b⟩)

def takeToken (env : Surroundings) (path : Str) : Progress Unit :=
  match getLimiter env.limiters path with
  | some limiter =>
    if limiter.acquire.1 then .going ()
    else .refuse (.tooManyRequests "Rate limit exceeded")
  | none => .going ()

/-- The authentication gate: a type without its credential checks nothing. -/
def authenticate (crates : Crates) (systemTime : Nat) (authConfig : Option AuthenticationConfig)
    (req : Request) : Except String Unit :=
  match authConfig with
  | some config =>
    match config.authType with
    | .jwt =>
      match config.jwtSecret with
      | some secret => (validateJwt (crates.jwtDecode systemTime) req secret).map (fun _ => ())
      | none => .ok ()
    | .basic =>
      match config.basicUsers with
      | some users => validateBasic crates.base64Decode req users
      | none => .ok ()
  | none => .ok ()

def authGate (crates : Crates) (systemTime : Nat) (authConfig : Option AuthenticationConfig)
    (req : Request) : Progress Unit :=
  match authenticate crates systemTime authConfig req with
  | .ok () => .going ()
  | .error err => .refuse (.unauthorized err)

def addConditionalHeaders (cacheKey : Str) (caches : Caches) (now : Nat) (req : Request) :
    Progress Request :=
  match findCached caches cacheKey cacheKey now with
  | .hit entry => do
    let headers ← .orPanic (insertHeader "if-none-match".toList entry.etag req.headers)
    let headers ← .orPanic (insertHeader "if-modified-since".toList entry.lastModified headers)
    .going { req with headers }
  | .miss => .going req
  | .blocked => .blocked

namespace Proxy

def validate (proxy : Proxy) (req : Request) : Progress Request :=
  match validateRequest proxy.crates.clean req with
  | (.ok (), req) =>
    -- The size of the request is taken by reading its body.
    let (bytes, body) := req.body.toBytes
    if bytes.isSome then .going { req with body } else .ended (.panicked .bodyRead)
  | (.error err, _) => .refuse (.badRequest err)

def targetDefaults (proxy : Proxy) (env : Surroundings) : TargetDefaults :=
  ⟨proxy.defaultRetryConfig, proxy.defaultTimeoutSeconds, env.draws⟩

def route (proxy : Proxy) (env : Surroundings) (req : Request) : Progress Selected :=
  match findTarget (proxy.targetDefaults env) req.uri.path req.headers env.targetOrder with
  | .ok (some selected) => .going selected
  | .ok none => .refuse (.notFound "No target found for the given path")
  | .error p => .ended (.panicked p)

/-- The hit path: the entry under the key without `Vary`, then the one under the key with the
headers that the first one names. -/
def serveFromCache (proxy : Proxy) (env : Surroundings) (selected : Selected) (url cacheKey : Str)
    (req : Request) : Progress Unit :=
  match selected.cacheConfig with
  | none => .going ()
  | some _ =>
    match findCached env.hitCaches cacheKey cacheKey env.hitNow with
    | .miss => .going ()
    | .blocked => .blocked
    | .hit entry =>
      let newCacheKey := createCacheKey proxy.crates.hashers.defaultHash url req entry.varyHeaders
      match findCached env.varyCaches cacheKey newCacheKey env.varyNow with
      | .miss => .going ()
      | .blocked => .blocked
      | .hit entry => .endWith .cached (entry.toResponse proxy.securityHeadersConfig)

def loopContext (proxy : Proxy) (env : Surroundings) (req : Request) (selected : Selected)
    (cacheKey : Str) : LoopContext where
  crates := proxy.crates
  loadBalancer := proxy.loadBalancer
  path := req.uri.path
  clientIp := env.clientIp
  selected := selected
  cacheKey := cacheKey
  defaultCorsConfig := proxy.defaultCorsConfig
  securityHeadersConfig := proxy.securityHeadersConfig

/-- From the target found to the admission by its circuit breaker. -/
def approach (proxy : Proxy) (env : Surroundings) (req : Request) (selected : Selected) :
    Progress LoopContext := do
  takeToken env req.uri.path
  authGate proxy.crates env.systemTime selected.authConfig req
  let url ← .orPanic (firstUrl selected.targetUrls)
  let cacheKey := createCacheKey proxy.crates.hashers.defaultHash url req none
  proxy.serveFromCache env selected url cacheKey req
  .going (proxy.loopContext env req selected cacheKey)

def checkBreaker (env : Surroundings) : Progress Unit :=
  if (env.breaker.canAttempt env.breakerNow).1 then .going () else .refuse .circuitBreakerOpen

/-- From the target found to the retry loop. -/
def enterLoop (proxy : Proxy) (env : Surroundings) (req : Request) (selected : Selected) :
    Progress (LoopContext × LoopState) := do
  let ctx ← proxy.approach env req selected
  checkBreaker env
  let req ← addConditionalHeaders ctx.cacheKey env.conditionalCaches env.conditionalNow req
  .going (ctx, LoopState.start req)

/-- From the arrival of the request to its target. -/
def receive (proxy : Proxy) (env : Surroundings) (req : Request) :
    Progress (Request × Selected) := do
  let req ← proxy.validate req
  ownPaths env req.uri.path
  let selected ← proxy.route env req
  .going (req, selected)

def begin (proxy : Proxy) (env : Surroundings) (req : Request) :
    Progress (LoopContext × LoopState) := do
  let (req, selected) ← proxy.receive env req
  proxy.enterLoop env req selected

/-- `proxy_request`, as far as it comes in `n` turns of its retry loop. -/
def proxyRequest (proxy : Proxy) (env : Surroundings) (req : Request) (n : Nat) :
    Progress LoopState := do
  let (ctx, s) ← proxy.begin env req
  ctx.after s env.rounds n

def upstreamRequests (proxy : Proxy) (env : Surroundings) (req : Request) (n : Nat) :
    List Request :=
  match proxy.begin env req with
  | .going (ctx, s) => ctx.sent s env.rounds n
  | _ => []

end Proxy

end Road7
