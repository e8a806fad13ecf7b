import Road7.CacheKey
import Road7.TargetRouting

namespace Road7

/-- Hash functions with results as long as those of `DefaultHasher` and of SHA-256. -/
def Hashers.Sized (hs : Hashers) : Prop :=
  (∀ b, hs.defaultHash b < 2 ^ 64) ∧ ∀ b, (hs.sha256 b).length = 32

/-- The bytes of a number, little endian. -/
def leBytes : Nat → Nat → Bytes
  | 0, _ => []
  | k + 1, n => UInt8.ofNat n :: leBytes k (n / 256)

theorem length_leBytes (k n : Nat) : (leBytes k n).length = k := by
  induction k generalizing n with
  | zero => rfl
  | succ k ih => rw [leBytes, List.length_cons, ih]

theorem foldr_leBytes (k n : Nat) :
    (leBytes k n).foldr (fun x acc => x.toNat + 256 * acc) 0 = n % 256 ^ k := by
  induction k generalizing n with
  | zero => simp [leBytes, Nat.mod_one]
  | succ k ih =>
    rw [leBytes, List.foldr_cons, ih, Nat.pow_succ', Nat.mod_mul, UInt8.toNat_ofNat']

/-- Eight bytes are enough for an index of a `Vec`. -/
theorem fromLeBytes8_leBytes {n : Nat} (h : n < 2 ^ 64) : fromLeBytes8 (leBytes 32 n) = n := by
  unfold fromLeBytes8
  rw [length_leBytes, if_neg (by decide)]
  have htake : (leBytes 32 n).take 8 = leBytes 8 n := rfl
  rw [htake, foldr_leBytes]
  exact Nat.mod_eq_of_lt (by omega)

theorem utf8_inj {s t : Str} (h : utf8 s = utf8 t) : s = t := by
  have hstr : hashStr s ++ [] = hashStr t ++ [] := by
    unfold hashStr
    rw [h]
  exact (hashStr_append_inj hstr).1

theorem toString_inj {m n : Nat} (h : (toString m).toList = (toString n).toList) : m = n := by
  have hdigits : Nat.toDigits 10 m = Nat.toDigits 10 n := by
    rw [← Nat.toList_repr, ← Nat.toList_repr]
    exact h
  rw [← Nat.ofDigitChars_ten_toDigits (n := m), hdigits, Nat.ofDigitChars_ten_toDigits]

theorem SocketAddr.eq_of_parts {a a' : SocketAddr} (hip : a'.ip = a.ip) (hport : a'.port = a.port)
    (hv6 : a'.isV6 = a.isV6) : a' = a := by
  cases a
  cases a'
  rw [SocketAddr.mk.injEq]
  exact ⟨hip, hport, hv6⟩

/-- The texts of two connections of one client tell their ports apart. -/
theorem SocketAddr.port_of_toStr {a a' : SocketAddr} (hip : a'.ip = a.ip) (hv6 : a'.isV6 = a.isV6)
    (h : a'.toStr = a.toStr) : a'.port = a.port := by
  unfold SocketAddr.toStr at h
  rw [hip, hv6] at h
  dsimp only at h
  split at h
  next => exact toString_inj (List.append_cancel_left h)
  next =>
    have hport := List.append_cancel_left h
    exact toString_inj (List.cons.inj hport).2

namespace LoadBalancer

def Hashes (lb : LoadBalancer) : Prop :=
  lb.algorithm = .ipHash ∨ lb.algorithm = .consistentHashing

/-- The number that a client is sent by. -/
def hashOf (lb : LoadBalancer) (hs : Hashers) (ip : Str) : Nat :=
  match lb.algorithm with
  | .consistentHashing => fromLeBytes8 (hs.sha256 (utf8 ip))
  | _ => hs.defaultHash (utf8 ip ++ [0xFF])

/-- The answer out of the list of a key. -/
def hashedUrl (lb : LoadBalancer) (hs : Hashers) (ip : Str) (urls : List Str) :
    Except Panic (Option Str) :=
  if urls.length = 0 then .error .divisionByZero
  else indexUrl urls (lb.hashOf hs ip % urls.length)

/-- The key that a path is served under: the first of the order that it begins with. -/
def servingEntry (path : Str) (order : List (Sigma (fun _ : Str => List Str))) :
    Option (Sigma (fun _ : Str => List Str)) :=
  order.find? (fun e => e.1.isPrefixOf path)

variable {lb : LoadBalancer} {hs : Hashers}

theorem Hashes.pick (h : lb.Hashes) (hs : Hashers) (draw : Nat) (ip key : Str) (urls : List Str)
    (st : BalancerState) :
    lb.pick hs draw (some ip) key urls st = (st, some (lb.hashedUrl hs ip urls)) := by
  unfold LoadBalancer.pick hashedUrl hashOf
  rcases h with halg | halg
  · simp only [halg, ipHash, byHash]
    split
    next => rfl
    next => rfl
  · simp only [halg, consistentHashing, byHash]
    split
    next => rfl
    next => rfl

/-- The state of the balancer and the draws have no part in the answer. -/
theorem Hashes.getTargetIn (h : lb.Hashes) (hs : Hashers) (draw : Nat) (path ip : Str)
    (order : List (Sigma (fun _ : Str => List Str))) (st : BalancerState) :
    (lb.getTargetIn hs draw path (some ip) order st).2 =
      (servingEntry path order).elim (.ok none) (fun e => lb.hashedUrl hs ip e.2) := by
  induction order with
  | nil => rfl
  | cons e order ih =>
    obtain ⟨key, urls⟩ := e
    unfold servingEntry at ih ⊢
    simp only [LoadBalancer.getTargetIn, h.pick, List.find?_cons]
    cases key.isPrefixOf path with
    | true => rfl
    | false => exact ih

end LoadBalancer

theorem targets_of_new {targets : StrMap (List Str)} {algorithm : LoadBalancingAlgorithm}
    {weights : Option (StrMap (List Nat))} {lb : LoadBalancer}
    (h : LoadBalancer.new targets algorithm weights = .ok lb) : lb.targets = targets := by
  obtain ⟨_, rfl⟩ := LoadBalancer.new_eq_ok_iff.mp h
  rfl

/-- A map that is filled from the targets has their paths as its keys. -/
theorem mem_foldl_insert {V : Type} (f : Target → V) (targets : List Target) (m : StrMap V)
    (key : Str) : key ∈ targets.foldl (fun m t => m.insert t.path (f t)) m ↔
      key ∈ m ∨ ∃ t ∈ targets, t.path = key := by
  induction targets generalizing m with
  | nil => simp
  | cons t targets ih =>
    rw [List.foldl_cons, ih, AList.mem_insert]
    simp only [List.mem_cons, exists_eq_or_imp, eq_comm (a := key)]
    tauto

/-- The balancer has a key for each target. -/
theorem mem_balancerTargets_iff {targets : List Target} {key : Str} :
    key ∈ balancerTargets targets ↔ key ∈ buildTargetMap targets := by
  unfold balancerTargets buildTargetMap
  rw [mem_foldl_insert, mem_foldl_insert]
  simp

/-- A request that comes to its loop is served under some key of the balancer. -/
theorem exists_servingEntry {crates : Crates} {config : ProxyConfig} {proxy : Proxy}
    {lb : LoadBalancer} {env : Surroundings} {req : Request} {ctx : LoopContext} {s : LoopState}
    {order : List (Sigma (fun _ : Str => List Str))}
    (hproxy : Proxy.ofConfig crates config = .ok proxy) (hlb : proxy.loadBalancer = some lb)
    (htargets : IterationOf proxy.targetMap env.targetOrder)
    (horder : IterationOf lb.targets order) (hbegin : proxy.begin env req = .going (ctx, s)) :
    ∃ e, LoadBalancer.servingEntry ctx.path order = some e := by
  obtain ⟨c, _, hnew⟩ := new_of_ofConfig hproxy hlb
  have hmap := targetMap_of_ofConfig hproxy
  obtain ⟨selected, hreceive, henter⟩ := Proxy.begin_going hbegin
  obtain ⟨_, _, hroute⟩ := Proxy.receive_going hreceive
  obtain ⟨_, ⟨cacheKey, rfl⟩, _⟩ := Proxy.enterLoop_going henter
  obtain ⟨e, hchosen, _⟩ := targetUrls_of_route hroute
  have hpre := List.find?_some hchosen
  have hmem := htargets.mem_iff.mp (List.mem_of_find?_eq_some hchosen)
  rw [hmap] at hmem
  have hkey : e.1 ∈ balancerTargets config.targets := by
    rw [mem_balancerTargets_iff]
    exact List.mem_keys_of_mem hmem
  rw [← targets_of_new hnew] at hkey
  obtain ⟨urls, hurls⟩ := List.exists_of_mem_keys hkey
  apply Option.isSome_iff_exists.mp
  unfold LoadBalancer.servingEntry
  rw [List.find?_isSome]
  refine ⟨_, horder.mem_iff.mpr hurls, ?_⟩
  rw [Bool.and_eq_true] at hpre
  exact hpre.1

namespace LoopContext

/-- The same request with other hash functions in the balancer. -/
def withHashers (ctx : LoopContext) (hs : Hashers) : LoopContext :=
  { ctx with crates := { ctx.crates with hashers := hs } }

variable {ctx ctx' : LoopContext} {lb : LoadBalancer}
  {order : List (Sigma (fun _ : Str => List Str))} {e : Sigma (fun _ : Str => List Str)}

/-- The answer out of the list of the serving key is what the attempt goes by. -/
theorem attemptUrl_served (hlb : ctx.loadBalancer = some lb) (hhashes : lb.Hashes)
    (hs : Hashers) {r : Round} (he : LoadBalancer.servingEntry ctx.path r.balancerOrder = some e) :
    ((ctx.withHashers hs).attemptUrl r).2 = (lb.hashedUrl hs ctx.clientIp.toStr e.2).bind
      (fun url => url.elim (firstUrl ctx.selected.targetUrls) .ok) := by
  have hcall := hhashes.getTargetIn hs r.draw ctx.path ctx.clientIp.toStr r.balancerOrder r.balancer
  rw [he, Option.elim_some] at hcall
  unfold attemptUrl withHashers
  dsimp only
  rw [hlb]
  dsimp only
  rw [hcall]

/-- The hash of the client's text picks among the urls of the serving key. -/
theorem attemptUrl_hashed (hlb : ctx.loadBalancer = some lb) (hhashes : lb.Hashes)
    (hs : Hashers) {r : Round} (he : LoadBalancer.servingEntry ctx.path r.balancerOrder = some e)
    (hne : e.2 ≠ []) :
    ∃ url, e.2[lb.hashOf hs ctx.clientIp.toStr % e.2.length]? = some url ∧
      ((ctx.withHashers hs).attemptUrl r).2 = .ok url := by
  have hlen : 0 < e.2.length := List.length_pos_iff.mpr hne
  have hget := List.getElem?_eq_getElem (Nat.mod_lt (lb.hashOf hs ctx.clientIp.toStr) hlen)
  refine ⟨_, hget, ?_⟩
  rw [attemptUrl_served hlb hhashes hs he, LoadBalancer.hashedUrl, if_neg (by omega),
    indexUrl_some.mpr hget]
  rfl

theorem attemptUrl_noUrls (hlb : ctx.loadBalancer = some lb) (hhashes : lb.Hashes)
    (hs : Hashers) {r : Round} (he : LoadBalancer.servingEntry ctx.path r.balancerOrder = some e)
    (hnil : e.2 = []) :
    ((ctx.withHashers hs).attemptUrl r).2 = .error .divisionByZero := by
  rw [attemptUrl_served hlb hhashes hs he, LoadBalancer.hashedUrl, hnil, if_pos List.length_nil]
  rfl

end LoopContext

/-- Hash functions that give the two texts two numbers. -/
theorem exists_separating (lb : LoadBalancer) {ip ip' : Str} (hne : ip' ≠ ip) {i j : Nat}
    (hi : i < 2 ^ 64) (hj : j < 2 ^ 64) :
    ∃ hs : Hashers, hs.Sized ∧ lb.hashOf hs ip = i ∧ lb.hashOf hs ip' = j := by
  refine ⟨⟨fun b => if b = utf8 ip ++ [0xFF] then i else j,
    fun b => if b = utf8 ip then leBytes 32 i else leBytes 32 j⟩, ⟨?_, ?_⟩, ?_, ?_⟩
  · intro b
    dsimp only
    split
    next => exact hi
    next => exact hj
  · intro b
    dsimp only
    split
    next => exact length_leBytes 32 i
    next => exact length_leBytes 32 j
  · unfold LoadBalancer.hashOf
    split
    next =>
      dsimp only
      rw [if_pos rfl]
      exact fromLeBytes8_leBytes hi
    next => exact if_pos rfl
  · have hbytes : utf8 ip' ≠ utf8 ip := fun h => hne (utf8_inj h)
    unfold LoadBalancer.hashOf
    split
    next =>
      dsimp only
      rw [if_neg hbytes]
      exact fromLeBytes8_leBytes hj
    next => exact if_neg (fun h => hbytes (List.append_cancel_right h))

/-- Requests of two client texts are sent to any two urls of the serving key by some hash
functions. -/
theorem exists_sending_apart {ctx ctx' : LoopContext} {lb : LoadBalancer}
    {order : List (Sigma (fun _ : Str => List Str))} {e : Sigma (fun _ : Str => List Str)}
    (hlb : ctx.loadBalancer = some lb) (hlb' : ctx'.loadBalancer = some lb)
    (hhashes : lb.Hashes) (hsize : e.2.length ≤ usizeMax)
    (he : LoadBalancer.servingEntry ctx.path order = some e)
    (he' : LoadBalancer.servingEntry ctx'.path order = some e)
    (htext : ctx'.clientIp.toStr ≠ ctx.clientIp.toStr) {url url' : Str}
    (hurl : url ∈ e.2) (hurl' : url' ∈ e.2) :
    ∃ hs : Hashers, hs.Sized ∧ ∀ r : Round, r.balancerOrder = order →
      ((ctx.withHashers hs).attemptUrl r).2 = .ok url ∧
      ((ctx'.withHashers hs).attemptUrl r).2 = .ok url' := by
  obtain ⟨i, hi, rfl⟩ := List.mem_iff_getElem.mp hurl
  obtain ⟨j, hj, rfl⟩ := List.mem_iff_getElem.mp hurl'
  unfold usizeMax at hsize
  obtain ⟨hs, hsized, hhi, hhj⟩ := exists_separating lb htext (i := i) (j := j) (by omega)
    (by omega)
  have hnil : e.2 ≠ [] := List.ne_nil_of_mem hurl
  refine ⟨hs, hsized, ?_⟩
  rintro r rfl
  obtain ⟨u, hu, hattempt⟩ := ctx.attemptUrl_hashed hlb hhashes hs he hnil
  obtain ⟨u', hu', hattempt'⟩ := ctx'.attemptUrl_hashed hlb' hhashes hs he' hnil
  rw [hhi, Nat.mod_eq_of_lt hi, List.getElem?_eq_getElem hi] at hu
  rw [hhj, Nat.mod_eq_of_lt hj, List.getElem?_eq_getElem hj] at hu'
  obtain rfl := Option.some.inj hu
  obtain rfl := Option.some.inj hu'
  exact ⟨hattempt, hattempt'⟩

/-- Two requests for one path from one client address go to one backend, whatever the hash
functions, exactly when they come from one port or the key that serves the path has only one url. -/
theorem same_backend_iff {crates : Crates} {config : ProxyConfig} {proxy : Proxy}
    {lb : LoadBalancer} {env env' : Surroundings} {req req' : Request} {ctx ctx' : LoopContext}
    {s s' : LoopState} {order : List (Sigma (fun _ : Str => List Str))}
    (hproxy : Proxy.ofConfig crates config = .ok proxy) (hlb : proxy.loadBalancer = some lb)
    (hhashes : lb.Hashes) (hlen : ∀ e ∈ lb.targets.entries, e.2.length ≤ usizeMax)
    (htargets : IterationOf proxy.targetMap env.targetOrder)
    (horder : IterationOf lb.targets order)
    (hbegin : proxy.begin env req = .going (ctx, s))
    (hbegin' : proxy.begin env' req' = .going (ctx', s')) (hpath : ctx'.path = ctx.path)
    (hip : env'.clientIp.ip = env.clientIp.ip) (hv6 : env'.clientIp.isV6 = env.clientIp.isV6) :
    ∃ e, LoadBalancer.servingEntry ctx.path order = some e ∧
      ((∀ hs : Hashers, hs.Sized → ∀ r r' : Round, r.balancerOrder = order →
          r'.balancerOrder = order →
          ((ctx.withHashers hs).attemptUrl r).2 = ((ctx'.withHashers hs).attemptUrl r').2) ↔
        env'.clientIp.port = env.clientIp.port ∨ ∀ url ∈ e.2, ∀ url' ∈ e.2, url = url') := by
  obtain ⟨e, he⟩ := exists_servingEntry hproxy hlb htargets horder hbegin
  obtain ⟨hlbctx, hclient, _⟩ := Proxy.context_of_begin hbegin
  obtain ⟨hlbctx', hclient', _⟩ := Proxy.context_of_begin hbegin'
  rw [hlb] at hlbctx hlbctx'
  have he' : LoadBalancer.servingEntry ctx'.path order = some e := by
    rw [hpath]
    exact he
  refine ⟨e, he, ?_⟩
  constructor
  · intro h
    by_contra hnot
    push Not at hnot
    obtain ⟨hport, url, hurl, url', hurl', hne⟩ := hnot
    have htext : ctx'.clientIp.toStr ≠ ctx.clientIp.toStr := by
      intro htext
      rw [hclient, hclient'] at htext
      exact hport (SocketAddr.port_of_toStr hip hv6 htext)
    have hmem := horder.mem_iff.mp (List.mem_of_find?_eq_some he)
    obtain ⟨hs, hsized, hsent⟩ := exists_sending_apart hlbctx hlbctx' hhashes (hlen e hmem) he he'
      htext hurl hurl'
    let r : Round := { plainRound .timedOut with balancerOrder := order }
    obtain ⟨hattempt, hattempt'⟩ := hsent r rfl
    have hsame := h hs hsized r r rfl rfl
    rw [hattempt, hattempt'] at hsame
    exact hne (Except.ok.inj hsame)
  · rintro hcond hs _ r r' hr hr'
    rw [← hr] at he
    rw [← hr'] at he'
    by_cases hnil : e.2 = []
    · rw [ctx.attemptUrl_noUrls hlbctx hhashes hs he hnil,
        ctx'.attemptUrl_noUrls hlbctx' hhashes hs he' hnil]
    · obtain ⟨u, hu, hattempt⟩ := ctx.attemptUrl_hashed hlbctx hhashes hs he hnil
      obtain ⟨u', hu', hattempt'⟩ := ctx'.attemptUrl_hashed hlbctx' hhashes hs he' hnil
      rw [hattempt, hattempt']
      rcases hcond with hport | hone
      · have hsame : ctx'.clientIp = ctx.clientIp := by
          rw [hclient, hclient']
          exact SocketAddr.eq_of_parts hip hport hv6
        rw [hsame, hu] at hu'
        rw [Option.some.inj hu']
      · rw [hone u (List.mem_of_getElem? hu) u' (List.mem_of_getElem? hu')]

/-- The sum of the bytes, as wide as the result of `DefaultHasher`. -/
def sumHash (b : Bytes) : Nat := (b.map UInt8.toNat).sum % 2 ^ 64

def summingCrates : Crates :=
  { plainCrates with hashers := ⟨sumHash, fun _ => List.replicate 32 0⟩ }

theorem summingCrates_sized : summingCrates.hashers.Sized :=
  ⟨fun _ => Nat.mod_lt _ (by decide), fun _ => rfl⟩

def ipHashConfig : ProxyConfig :=
  { plainConfig [plainTarget "/api".toList ["http://a:1".toList, "http://b:1".toList]] with
    loadBalancer := some ⟨.ipHash, none⟩ }

def ipHashRound : Round :=
  { plainRound .timedOut with
    balancerOrder := [⟨"/api".toList, ["http://a:1".toList, "http://b:1".toList]⟩] }

/-- The surroundings of a request over the connection from a port. -/
def surroundingsFrom (port : Nat)
    (targetOrder : List (Sigma (fun _ : Str => TargetEntry))) : Surroundings :=
  { plainSurroundings targetOrder (fun _ => ipHashRound) with
    clientIp := ⟨"10.0.0.1".toList, port, false⟩ }

/-- Two requests over one connection. -/
theorem same_backend_iff_one_port : ∃ (proxy : Proxy) (env : Surroundings)
    (ctx ctx' : LoopContext) (s s' : LoopState),
    Proxy.ofConfig summingCrates ipHashConfig = .ok proxy ∧
    env.targetOrder = proxy.targetMap.entries ∧
    proxy.begin env (plainRequest "/api/users".toList [] []) = .going (ctx, s) ∧
    proxy.begin env (getRequest "/api/users".toList []) = .going (ctx', s') ∧
    ∀ hs : Hashers, hs.Sized →
      ((ctx.withHashers hs).attemptUrl ipHashRound).2 =
        ((ctx'.withHashers hs).attemptUrl ipHashRound).2 := by
  have hproxy : ∃ proxy lb env ctx ctx' s s',
      Proxy.ofConfig summingCrates ipHashConfig = .ok proxy ∧
      env.targetOrder = proxy.targetMap.entries ∧
      proxy.loadBalancer = some lb ∧ lb.algorithm = .ipHash ∧
      lb.targets.entries = ipHashRound.balancerOrder ∧
      proxy.begin env (plainRequest "/api/users".toList [] []) = .going (ctx, s) ∧
      proxy.begin env (getRequest "/api/users".toList []) = .going (ctx', s') ∧
      ctx'.path = ctx.path :=
    ⟨_, _, surroundingsFrom 50000 _, _, _, _, _, rfl, rfl, rfl, rfl, rfl, rfl, rfl, rfl⟩
  obtain ⟨proxy, lb, env, ctx, ctx', s, s', hproxy, htargets, hlb, halg, hentries, hbegin, hbegin',
    hpath⟩ := hproxy
  have hlen : ∀ e ∈ lb.targets.entries, e.2.length ≤ usizeMax := by
    intro e he
    rw [hentries] at he
    rw [List.mem_singleton.mp he]
    decide
  obtain ⟨e, _, hiff⟩ := same_backend_iff hproxy hlb (.inl halg) hlen (List.Perm.of_eq htargets)
    (List.Perm.of_eq hentries.symm) hbegin hbegin' hpath rfl rfl
  refine ⟨proxy, env, ctx, ctx', s, s', hproxy, htargets, hbegin, hbegin', ?_⟩
  intro hs hsized
  exact hiff.mpr (.inl rfl) hs hsized ipHashRound ipHashRound rfl rfl

/-- The next connection of a client is served by the other backend. -/
theorem next_port_other_backend : ∃ (proxy : Proxy) (order : List (Sigma _))
    (ctx ctx' : LoopContext) (s s' : LoopState),
    Proxy.ofConfig summingCrates ipHashConfig = .ok proxy ∧ summingCrates.hashers.Sized ∧
    order = proxy.targetMap.entries ∧
    proxy.begin (surroundingsFrom 50000 order) (getRequest "/api/users".toList []) =
      .going (ctx, s) ∧
    proxy.begin (surroundingsFrom 50001 order) (getRequest "/api/users".toList []) =
      .going (ctx', s') ∧
    (ctx.attemptUrl ipHashRound).2 = .ok "http://a:1".toList ∧
    (ctx'.attemptUrl ipHashRound).2 = .ok "http://b:1".toList :=
  ⟨_, _, _, _, _, _, rfl, summingCrates_sized, rfl, rfl, rfl, rfl, rfl⟩

end Road7
