import Road7.HttpUri
import Road7.ProxyRequest

namespace Road7

/-- Crates for runs on plain text without credentials: nothing has to be sanitised, no token
decodes, and with empty caches no hash is looked at. -/
def plainCrates : Crates where
  uriParser := httpUri
  clean := id
  base64Decode := fun _ => none
  jwtDecode := fun _ _ _ => .error "InvalidToken"
  hashers := ⟨fun _ => 0, id⟩
  md5 := fun _ => []
  toVec := some
  regex := fun _ => none

def plainTarget (path : Str) (urls : List Str) : Target where
  path
  urls
  authentication := none
  retries := none
  requestTransforms := none
  responseTransforms := none
  circuitBreakerConfig := none
  routingHeader := none
  routingValues := none
  timeoutSeconds := none
  cacheConfig := none
  corsConfig := none
  rateLimiterConfig := none
  endpoints := none

/-- A configuration that tries every request once. -/
def plainConfig (targets : List Target) : ProxyConfig where
  targets
  retries := ⟨"FixedInterval".toList, 1, 1, none, none, none⟩
  defaultCircuitBreakerConfig := CircuitBreakerConfig.default
  defaultTimeoutSeconds := 30
  securityHeadersConfig := none
  defaultCorsConfig := none
  loadBalancer := none
  botDetector := none

def plainRound (outcome : Outcome) : Round where
  balancerOrder := []
  balancer := BalancerState.empty
  draw := 0
  outcome
  breaker := CircuitBreaker.new CircuitBreakerConfig.default 0
  breakerNow := 0
  caches := ∅
  now := 0
  elapsed := 0

def plainSurroundings (targetOrder : List (Sigma (fun _ : Str => TargetEntry)))
    (rounds : Nat → Round) : Surroundings where
  clientIp := ⟨"10.0.0.1".toList, 50000, false⟩
  metrics := []
  limiterStatus := []
  files := fun _ => .missing
  targetOrder
  draws := fun _ => ⟨0, 0, 0⟩
  limiters := []
  systemTime := 0
  hitCaches := ∅
  hitNow := 0
  varyCaches := ∅
  varyNow := 0
  breaker := CircuitBreaker.new CircuitBreakerConfig.default 0
  breakerNow := 0
  conditionalCaches := ∅
  conditionalNow := 0
  rounds

def plainRequest (path : Str) (headers : HeaderMap) (body : Bytes) : Request :=
  ⟨"POST".toList, ⟨none, none, path, none⟩, "HTTP/1.1".toList, headers, Body.ofBytes body⟩

/-- A hash without collisions: the bytes are the digits of a number. -/
def digitsHash : Bytes → Nat
  | [] => 0
  | b :: bs => digitsHash bs * 257 + b.toNat + 1

theorem digitsHash_injective : Function.Injective digitsHash := by
  intro xs
  induction xs with
  | nil =>
    intro ys h
    cases ys with
    | nil => rfl
    | cons y ys =>
      simp only [digitsHash] at h
      omega
  | cons x xs ih =>
    intro ys h
    cases ys with
    | nil =>
      simp only [digitsHash] at h
      omega
    | cons y ys =>
      simp only [digitsHash] at h
      have hx := x.toNat_lt
      have hy := y.toNat_lt
      have htail : digitsHash xs = digitsHash ys := by omega
      have hhead : x = y := UInt8.toNat_inj.mp (by omega)
      rw [hhead, ih htail]

/-- The plain crates with keys that tell the requests apart, and with the digest of the empty body
that an entry is made from. -/
def hashingCrates : Crates :=
  { plainCrates with
    hashers := ⟨digitsHash, id⟩
    md5 := fun _ => "d41d8cd98f00b204e9800998ecf8427e".toList
    toVec := fun b => some (jsonArray b) }

def cachingTarget (path : Str) (urls : List Str) : Target :=
  { plainTarget path urls with cacheConfig := some ⟨60, 10, false, 60⟩ }

def cachingConfig (urls : List Str) : ProxyConfig := plainConfig [cachingTarget "/api".toList urls]

def getRequest (path : Str) (headers : HeaderMap) : Request :=
  { plainRequest path headers [] with method := "GET".toList }

def textResponse (headers : HeaderMap) (text : String) : Response :=
  ⟨200, headers, Body.ofBytes (utf8 text.toList)⟩

end Road7
