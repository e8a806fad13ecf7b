import Road7.Build
import Road7.Config

namespace Road7

def usizeMax : Nat := 2 ^ 64 - 1

def StrMap.mapValues {V W : Type} (f : V → W) (m : StrMap V) : StrMap W where
  entries := m.entries.map (fun e => ⟨e.1, f e.2⟩)
  nodupKeys := by
    have hkeys : (m.entries.map (fun e => (⟨e.1, f e.2⟩ : Sigma (fun _ : Str => W)))).keys =
        m.entries.keys := by simp [List.keys]
    rw [List.NodupKeys, hkeys]
    exact m.nodupKeys

structure LoadBalancer where
  targets : StrMap (List Str)
  weights : StrMap (List Nat)
  weightsSum : StrMap Nat
  algorithm : LoadBalancingAlgorithm

structure BalancerState where
  counters : StrMap Nat
  connections : StrMap Nat

def BalancerState.empty : BalancerState := ⟨∅, ∅⟩

structure Hashers where
  defaultHash : Bytes → Nat
  sha256 : Bytes → Bytes

/-- `LoadBalancer::new` of a debug build: summing the weights of a key panics when it overflows. -/
def LoadBalancer.new (targets : StrMap (List Str)) (algorithm : LoadBalancingAlgorithm)
    (weights : Option (StrMap (List Nat))) : Except Panic LoadBalancer :=
  let weights := weights.getD (targets.mapValues (fun urls => List.replicate urls.length 1))
  if weights.entries.all (fun e => e.2.sum ≤ usizeMax) then
    .ok ⟨targets, weights, weights.mapValues List.sum, algorithm⟩
  else .error .overflow

/-- The map `run_proxy` collects for the balancer; of targets with one path the last counts. -/
def balancerTargets (targets : List Target) : StrMap (List Str) :=
  targets.foldl (fun m t => m.insert t.path t.urls) ∅

def indexUrl (urls : List Str) (i : Nat) : Except Panic (Option Str) :=
  match urls[i]? with
  | some url => .ok (some url)
  | none => .error .indexOutOfRange

/-- `entry(url).or_insert(0)` for every url of a list. -/
def ensureConnections (urls : List Str) (connections : StrMap Nat) : StrMap Nat :=
  urls.foldl (fun m url => if (m.lookup url).isSome then m else m.insert url 0) connections

/-- The scan of `LeastConnections`: the first url whose count is below all earlier ones. -/
def leastConnected : List (Str × Nat) → Nat → Option Str → Option Str
  | [], _, best => best
  | (url, count) :: rest, min, best =>
    if count < min then leastConnected rest count (some url)
    else leastConnected rest min best

/-- `count / weight < min` for scores as exact quotients; the start value `f64::MAX` is above
every finite score, and a zero weight gives no score below anything. -/
def scoreBelow (count weight : Nat) : Option (Nat × Nat) → Bool
  | none => weight ≠ 0
  | some (minCount, minWeight) => weight ≠ 0 && count * minWeight < minCount * weight

def leastScored : List (Str × Nat × Nat) → Option (Nat × Nat) → Option Str → Option Str
  | [], _, best => best
  | (url, count, weight) :: rest, min, best =>
    if scoreBelow count weight min then leastScored rest (some (count, weight)) (some url)
    else leastScored rest min best

/-- The scan of `WeightedRoundRobin` over the running sums of the weights. -/
def weightedIndex (counter : Nat) : List Nat → Nat → Nat → Option Nat
  | [], _, _ => none
  | weight :: rest, cumulative, i =>
    if counter < cumulative + weight then some i
    else weightedIndex counter rest (cumulative + weight) (i + 1)

/-- The first eight bytes, little endian; zero when there are fewer. -/
def fromLeBytes8 (b : Bytes) : Nat :=
  if b.length < 8 then 0 else (b.take 8).foldr (fun x acc => x.toNat + 256 * acc) 0

namespace LoadBalancer

/-- What an arm of `get_target` comes to: an answer (or a panic), or `none` when control
falls out of the `match` and the loop goes on to the next key. -/
abbrev Pick := BalancerState × Option (Except Panic (Option Str))

def roundRobin (key : Str) (urls : List Str) (st : BalancerState) : Pick :=
  let counter := (st.counters.lookup key).getD 0
  if urls.length = 0 then
    ({ st with counters := st.counters.insert key counter }, some (.error .divisionByZero))
  else
    ({ st with counters := st.counters.insert key ((counter + 1) % urls.length) },
      some (indexUrl urls (counter % urls.length)))

def chooseRandom (draw : Nat) (urls : List Str) (st : BalancerState) : Pick :=
  (st, some (.ok urls[draw % urls.length]?))

/-- `*conn_count.lock().await += 1` on the url picked, in a debug build. -/
def countConnection (connections : StrMap Nat) (url : Str) (st : BalancerState) : Pick :=
  match Build.debug.u64 ((connections.lookup url).getD 0 + 1) with
  | .ok count => ({ st with connections := connections.insert url count }, some (.ok (some url)))
  | .error p => ({ st with connections }, some (.error p))

def leastConnections (urls : List Str) (st : BalancerState) : Pick :=
  let connections := ensureConnections urls st.connections
  let counted := urls.map (fun url => (url, (connections.lookup url).getD 0))
  match leastConnected counted usizeMax none with
  | some url => countConnection connections url st
  | none => ({ st with connections }, none)

def weightedRoundRobin (lb : LoadBalancer) (key : Str) (urls : List Str) (st : BalancerState) :
    Pick :=
  let counter := (st.counters.lookup key).getD 0
  let st := { st with counters := st.counters.insert key counter }
  match lb.weights.lookup key, lb.weightsSum.lookup key with
  | some weights, some sum =>
    match weightedIndex counter weights 0 0 with
    | some i =>
      if sum = 0 then (st, some (.error .divisionByZero))
      else ({ st with counters := st.counters.insert key ((counter + 1) % sum) },
        some (indexUrl urls i))
    | none => (st, none)
  | _, _ => (st, some (.ok none))

def byHash (hash : Nat) (urls : List Str) (st : BalancerState) : Pick :=
  if urls.length = 0 then (st, some (.error .divisionByZero))
  else (st, some (indexUrl urls (hash % urls.length)))

def ipHash (hs : Hashers) (clientIp : Option Str) (urls : List Str) (st : BalancerState) : Pick :=
  match clientIp with
  | some ip => byHash (hs.defaultHash (utf8 ip ++ [0xFF])) urls st
  | none => (st, none)

def consistentHashing (hs : Hashers) (clientIp : Option Str) (urls : List Str)
    (st : BalancerState) : Pick :=
  match clientIp with
  | some ip => byHash (fromLeBytes8 (hs.sha256 (utf8 ip))) urls st
  | none => (st, none)

def weightedLeastConnections (lb : LoadBalancer) (key : Str) (urls : List Str)
    (st : BalancerState) : Pick :=
  match lb.weights.lookup key with
  | none => (st, some (.ok none))
  | some weights =>
    if weights.length < urls.length then
      -- The url is entered in the map before its weight is looked up.
      ({ st with connections := ensureConnections (urls.take (weights.length + 1)) st.connections },
        some (.error .indexOutOfRange))
    else
      let connections := ensureConnections urls st.connections
      let scored := (urls.zip weights).map
        (fun e => (e.1, (connections.lookup e.1).getD 0, e.2))
      match leastScored scored none none with
      | some url => countConnection connections url st
      | none => ({ st with connections }, none)

def pick (lb : LoadBalancer) (hs : Hashers) (draw : Nat) (clientIp : Option Str) (key : Str)
    (urls : List Str) (st : BalancerState) : Pick :=
  match lb.algorithm with
  | .roundRobin => roundRobin key urls st
  | .random => chooseRandom draw urls st
  | .leastConnections => leastConnections urls st
  | .weightedRoundRobin => lb.weightedRoundRobin key urls st
  | .ipHash => ipHash hs clientIp urls st
  | .consistentHashing => consistentHashing hs clientIp urls st
  | .weightedLeastConnections => lb.weightedLeastConnections key urls st

/-- The loop of `get_target` over the keys in the iteration order of the map. -/
def getTargetIn (lb : LoadBalancer) (hs : Hashers) (draw : Nat) (path : Str)
    (clientIp : Option Str) : List (Sigma (fun _ : Str => List Str)) → BalancerState →
    BalancerState × Except Panic (Option Str)
  | [], st => (st, .ok none)
  | ⟨key, urls⟩ :: rest, st =>
    if key.isPrefixOf path then
      match lb.pick hs draw clientIp key urls st with
      | (st, some answer) => (st, answer)
      | (st, none) => getTargetIn lb hs draw path clientIp rest st
    else getTargetIn lb hs draw path clientIp rest st

end LoadBalancer

end Road7
