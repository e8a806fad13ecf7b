import Road7.Config
import Road7.Http
import Road7.RetryStrategy

namespace Road7

/-- The tuple `build_target_map` files under the path of a target. -/
structure TargetEntry where
  urls : List Str
  authConfig : Option AuthenticationConfig
  retries : Option RetryConfig
  reqTransforms : Option (List Transform)
  respTransforms : Option (List Transform)
  cbConfig : Option CircuitBreakerConfig
  routingHeader : Option Str
  routingValues : Option (StrMap Str)
  cacheConfig : Option CacheConfig
  tTimeout : Option Nat
  corsConfig : Option CorsConfig

def Target.entry (t : Target) : TargetEntry where
  urls := t.urls
  authConfig := t.authentication
  retries := t.retries
  reqTransforms := t.requestTransforms
  respTransforms := t.responseTransforms
  cbConfig := t.circuitBreakerConfig
  routingHeader := t.routingHeader
  routingValues := t.routingValues
  cacheConfig := t.cacheConfig
  tTimeout := t.timeoutSeconds
  corsConfig := t.corsConfig

/-- `build_target_map`: of targets with one path the last counts. -/
def buildTargetMap (targets : List Target) : StrMap TargetEntry :=
  targets.foldl (fun m t => m.insert t.path t.entry) ∅

structure Selected where
  targetUrls : List Str
  targetUrlLen : Nat
  authConfig : Option AuthenticationConfig
  retryStrategy : RetryStrategy
  requestTransforms : Option (List Transform)
  responseTransforms : Option (List Transform)
  circuitBreakerConfig : Option CircuitBreakerConfig
  targetTimeout : Nat
  cacheConfig : Option CacheConfig
  corsConfig : Option CorsConfig

/-- The defaults that `find_target` falls back on, with the draws of the strategy it makes. -/
structure TargetDefaults where
  retryConfig : RetryConfig
  timeoutSeconds : Nat
  draws : Nat → Draw

/-- The urls an entry provides for a request; `none` when its routing header is absent from
the request or names no routing value. -/
def TargetEntry.provided (e : TargetEntry) (headers : HeaderMap) : Option (List Str) :=
  match e.routingHeader with
  | some headerName =>
    match headers.get (toLowerAscii headerName) with
    | some headerValue =>
      (e.routingValues.bind (fun values =>
        values.lookup ((headerToStr headerValue).getD []))).map (fun url => [url])
    | none => none
  | none => some e.urls

def TargetEntry.select (e : TargetEntry) (defaults : TargetDefaults) (p : Str)
    (urls : List Str) : Except Panic Selected := do
  let strategy ← (e.retries.getD defaults.retryConfig).toStrategy
  .ok {
    targetUrls := urls
    targetUrlLen := byteLen p
    authConfig := e.authConfig
    retryStrategy := strategy.boxed defaults.draws
    requestTransforms := e.reqTransforms
    responseTransforms := e.respTransforms
    circuitBreakerConfig := e.cbConfig
    targetTimeout := e.tTimeout.getD defaults.timeoutSeconds
    cacheConfig := e.cacheConfig
    corsConfig := e.corsConfig }

/-- `find_target`: the first entry, in the iteration order of the map, whose path is a prefix
and that provides urls. -/
def findTarget (defaults : TargetDefaults) (path : Str) (headers : HeaderMap) :
    List (Sigma (fun _ : Str => TargetEntry)) → Except Panic (Option Selected)
  | [] => .ok none
  | ⟨p, e⟩ :: rest =>
    if p.isPrefixOf path then
      match e.provided headers with
      | some urls => (e.select defaults p urls).map some
      | none => findTarget defaults path headers rest
    else findTarget defaults path headers rest

end Road7
