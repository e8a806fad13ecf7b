import Road7.CircuitBreaker
import Road7.Text
import Mathlib.Data.List.AList

namespace Road7

/-- `HashMap<String, V>` and `DashMap<String, V>`. Their iteration order is no part of the
value: where the code iterates, the entries are given in some order. -/
abbrev StrMap (V : Type) := AList (fun _ : Str => V)

def IterationOf {V : Type} (m : StrMap V) (order : List (Sigma (fun _ : Str => V))) : Prop :=
  order.Perm m.entries

inductive AuthenticationType where
  | jwt
  | basic
deriving DecidableEq, Repr

structure AuthenticationConfig where
  authType : AuthenticationType
  jwtSecret : Option Str
  basicUsers : Option (StrMap Str)

structure RetryConfig where
  strategy : Str
  baseDelaySeconds : Nat
  maxAttempts : Nat
  factor : Option Float
  stepDelaySeconds : Option Nat
  jitterFactor : Option Float

structure Transform where
  name : Str
  value : Option Str
  operation : Str
deriving DecidableEq, Repr

structure CorsConfig where
  enabled : Bool
  allowOrigin : Option Str
  allowHeaders : Option Str
  allowMethods : Option Str
deriving DecidableEq, Repr

structure CacheConfig where
  ttlSeconds : Nat
  maxSize : Nat
  serialize : Bool
  cleanupIntervalSeconds : Nat
deriving DecidableEq, Repr

structure SecurityHeadersConfig where
  strictTransportSecurity : Option Str
  xContentTypeOptions : Option Str
  xFrameOptions : Option Str
  contentSecurityPolicy : Option Str
  xXssProtection : Option Str
  referrerPolicy : Option Str
  permissionsPolicy : Option Str
  featurePolicy : Option Str
deriving DecidableEq, Repr

structure BotDetectorConfig where
  allow : List Str
  deny : List Str
  patterns : List Str
  emptyUserAgentIsBot : Bool
deriving DecidableEq, Repr

inductive LoadBalancingAlgorithm where
  | roundRobin
  | random
  | leastConnections
  | weightedRoundRobin
  | ipHash
  | consistentHashing
  | weightedLeastConnections
deriving DecidableEq, Repr

structure LoadBalancerConfig where
  algorithm : LoadBalancingAlgorithm
  weights : Option (StrMap (List Nat))

structure RateLimiterSettings where
  capacity : Nat
  maxRate : Nat
  every : Option Nat
  burstCapacity : Nat
deriving DecidableEq, Repr

structure Endpoint where
  path : Str
  rateLimiterConfig : Option RateLimiterSettings
deriving DecidableEq, Repr

structure Target where
  path : Str
  urls : List Str
  authentication : Option AuthenticationConfig
  retries : Option RetryConfig
  requestTransforms : Option (List Transform)
  responseTransforms : Option (List Transform)
  circuitBreakerConfig : Option CircuitBreakerConfig
  routingHeader : Option Str
  routingValues : Option (StrMap Str)
  timeoutSeconds : Option Nat
  cacheConfig : Option CacheConfig
  corsConfig : Option CorsConfig
  rateLimiterConfig : Option RateLimiterSettings
  endpoints : Option (List Endpoint)

structure ProxyConfig where
  targets : List Target
  retries : RetryConfig
  defaultCircuitBreakerConfig : CircuitBreakerConfig
  defaultTimeoutSeconds : Nat
  securityHeadersConfig : Option SecurityHeadersConfig
  defaultCorsConfig : Option CorsConfig
  loadBalancer : Option LoadBalancerConfig
  botDetector : Option BotDetectorConfig

def defaultTimeoutSeconds : Nat := 30

end Road7
