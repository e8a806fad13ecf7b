import Road7.CorsReplay
import Road7.ForwardedBody
import Road7.ForwardedHeaders
import Road7.HeaderTransforms

namespace Road7

/-- The validator of a cached entry that is sent under a name. -/
def Lookup.validator (found : Lookup) (name : HeaderName) : Option Str :=
  match found with
  | .hit entry =>
    if name = "if-none-match".toList then entry.etag
    else if name = "if-modified-since".toList then entry.lastModified
    else none
  | .miss => none
  | .blocked => none

theorem Lookup.validator_forwarded (found : Lookup) :
    found.validator xForwardedForHeader = none := by
  have hmatch : xForwardedForHeader ≠ "if-none-match".toList := by decide
  have hsince : xForwardedForHeader ≠ "if-modified-since".toList := by decide
  cases found with
  | hit entry => rw [validator, if_neg hmatch, if_neg hsince]
  | miss => rfl
  | blocked => rfl

theorem Request.bodyRead_of_empty {req : Request} (h : req.body = Body.empty) :
    req.bodyRead = req := by
  unfold Request.bodyRead
  rw [← h]

/-- The value that `rebuild_request` sets under a name. -/
def ownValue (headers : HeaderMap) (authority : Option Str) (clientIp : SocketAddr)
    (name : HeaderName) : Option HeaderValue :=
  if name = xProxyHeader then some (utf8 "road7".toList)
  else if name = hostHeader then authority.map utf8
  else if name = xForwardedForHeader then some (forwardedFor headers clientIp.ip)
  else none

/-- The upstream is told of the proxy, and gets the authority of its own URI as its host. -/
theorem getAll_rebuildHeaders_own {headers out : HeaderMap} {authority : Option Str}
    {clientIp : SocketAddr} (h : rebuildHeaders headers authority clientIp = .ok out) :
    out.getAll xProxyHeader = [utf8 "road7".toList] ∧ out.getAll hostHeader =
      ((authority.map utf8).or (headers.getAll hostHeader).getLast?).toList := by
  have hproxy : hostHeader ≠ xProxyHeader := by decide
  obtain ⟨forwarded, _, h⟩ := bind_eq_ok.mp h
  cases authority with
  | none =>
    obtain ⟨withHost, hhost, h⟩ := bind_eq_ok.mp h
    cases hhost
    cases h
    refine ⟨by rw [HeaderMap.getAll_insert, if_pos rfl], ?_⟩
    have hforwarded : hostHeader ≠ xForwardedForHeader := by decide
    rw [HeaderMap.getAll_insert, if_neg hproxy, HeaderMap.getAll_insert, if_neg hforwarded,
      HeaderMap.getAll_copied]
    cases (headers.getAll hostHeader).getLast? <;> rfl
  | some auth =>
    obtain ⟨withHost, hhost, h⟩ := bind_eq_ok.mp h
    obtain ⟨v, hv, rfl⟩ := map_eq_ok.mp hhost
    cases h
    refine ⟨by rw [HeaderMap.getAll_insert, if_pos rfl], ?_⟩
    rw [HeaderMap.getAll_insert, if_neg hproxy, HeaderMap.getAll_insert, if_pos rfl,
      headerFromStrUnwrap_ok hv]
    rfl

theorem getAll_rebuildHeaders {headers out : HeaderMap} {authority : Option Str}
    {clientIp : SocketAddr} (h : rebuildHeaders headers authority clientIp = .ok out)
    (name : HeaderName) :
    out.getAll name = ((ownValue headers authority clientIp name).or
      (headers.getAll name).getLast?).toList := by
  obtain ⟨hproxy, hhost⟩ := getAll_rebuildHeaders_own h
  obtain ⟨hothers, hforwarded⟩ := rebuildHeaders_ok h
  unfold ownValue
  split
  next hname => exact hname ▸ hproxy
  next hnProxy =>
    split
    next hname => exact hname ▸ hhost
    next hnHost =>
      split
      next hname => exact hname ▸ hforwarded
      next hnForwarded =>
        refine (hothers name ?_).trans rfl
        simp [proxyHeaders, hnProxy, hnHost, hnForwarded]

theorem rebuildRequest_rest {parser : UriParser} {original rebuilt left : Request} {url : Str}
    {len : Nat} {clientIp : SocketAddr}
    (h : rebuildRequest parser original url len clientIp = .ok (rebuilt, left)) :
    rebuilt.method = original.method ∧ rebuilt.version = original.version ∧
      rebuildHeaders original.headers rebuilt.uri.authority clientIp = .ok rebuilt.headers := by
  obtain ⟨uri, _, h⟩ := bind_eq_ok.mp h
  obtain ⟨headers, hheaders, h⟩ := bind_eq_ok.mp h
  cases h
  exact ⟨rfl, rfl, hheaders⟩

theorem ownValue_congr {headers headers' : HeaderMap}
    (h : headers'.getAll xForwardedForHeader = headers.getAll xForwardedForHeader)
    (authority : Option Str) (clientIp : SocketAddr) (name : HeaderName) :
    ownValue headers' authority clientIp name = ownValue headers authority clientIp name := by
  unfold ownValue forwardedFor
  rw [HeaderMap.get_eq_head?, HeaderMap.get_eq_head?, h]

theorem getAll_validated {cacheKey : Str} {caches : Caches} {now : Nat} {req req' : Request}
    (h : addConditionalHeaders cacheKey caches now req = .going req') (name : HeaderName) :
    req'.headers.getAll name = ((findCached caches cacheKey cacheKey now).validator name).elim
      (req.headers.getAll name) (fun v => [utf8 v]) := by
  unfold addConditionalHeaders at h
  split at h
  next entry hentry =>
    obtain ⟨tagged, htagged, h⟩ := Progress.bind_eq_going.mp h
    obtain ⟨dated, hdated, h⟩ := Progress.bind_eq_going.mp h
    cases h
    have hetag := Progress.orPanic_eq_going.mp htagged
    have hmodified := Progress.orPanic_eq_going.mp hdated
    rw [hentry, Lookup.validator]
    split
    next hname =>
      subst hname
      rw [getAll_insertHeader hmodified (by decide), getAll_insertHeader_self hetag]
    next hmatch =>
      split
      next hname =>
        subst hname
        rw [getAll_insertHeader_self hmodified, getAll_insertHeader hetag (by decide)]
      next hsince => rw [getAll_insertHeader hmodified hsince, getAll_insertHeader hetag hmatch]; rfl
  next hmiss =>
    cases h
    rw [hmiss]
    rfl
  next => simp at h

namespace LoopContext

variable {ctx : LoopContext} {s t : LoopState} {rounds : Nat → Round} {n : Nat}

/-- The loop leaves of the original request all but its body. -/
theorem originalReq_of_after (h : ctx.after s rounds n = .going t) :
    t.originalReq.bodyRead = s.originalReq.bodyRead := by
  induction n generalizing t with
  | zero =>
    cases h
    rfl
  | succ n ih =>
    obtain ⟨u, hu, hturn⟩ := after_succ_going h
    rw [originalReq_of_turn_going hturn]
    exact ih hu

/-- The values that the transforms for a name make of others. -/
def transformed (ctx : LoopContext) (name : HeaderName) (values : List HeaderValue) :
    List HeaderValue :=
  (Transform.updates.updatesOf (ctx.selected.requestTransforms.getD []) name).foldl
    (fun values t => t.onValues values) values

/-- What an upstream gets of a request: its method and its version, no body, and under each name
what the transforms make of the value that the proxy sets there, or else of the last one that the
client has sent. -/
structure PassesRequest (ctx : LoopContext) (found : Lookup) (req sent : Request) : Prop where
  method : sent.method = req.method
  version : sent.version = req.version
  body : sent.body = Body.empty
  headers : ∀ name, sent.headers.getAll name = ctx.transformed name
    (((ownValue req.headers sent.uri.authority ctx.clientIp name).or
      ((found.validator name).map utf8)).or (req.headers.getAll name).getLast?).toList

theorem getAll_applyTransforms (req : Request) (name : HeaderName) :
    (req.applyTransforms ctx.selected.requestTransforms).headers.getAll name =
      ctx.transformed name (req.headers.getAll name) :=
  Transform.updates.read_foldl _ _ _

end LoopContext

namespace Proxy

/-- Attempt `n` of a request sends this upstream. -/
def SendsAt (proxy : Proxy) (env : Surroundings) (req : Request) (n : Nat) (sent : Request) : Prop :=
  ∃ ctx s, proxy.begin env req = .going (ctx, s) ∧ ctx.sentAt s env.rounds n = some sent

variable {proxy : Proxy} {env : Surroundings} {req sent : Request} {n : Nat}

/-- The loop starts with the request of the client, its body read, and with the validators of what
is cached for it. -/
theorem validated_of_begin {ctx : LoopContext} {s : LoopState}
    (h : proxy.begin env req = .going (ctx, s)) :
    ∃ headers, s = LoopState.start { req.bodyRead with headers } ∧ ∀ name, headers.getAll name =
      ((findCached env.conditionalCaches ctx.cacheKey ctx.cacheKey
        env.conditionalNow).validator name).elim (req.headers.getAll name) (fun v => [utf8 v]) := by
  obtain ⟨selected, _, henter⟩ := begin_going h
  obtain ⟨c, _, henter⟩ := Progress.bind_eq_going.mp henter
  obtain ⟨_, _, henter⟩ := Progress.bind_eq_going.mp henter
  obtain ⟨r, hr, henter⟩ := Progress.bind_eq_going.mp henter
  cases henter
  obtain ⟨headers, rfl⟩ := addConditionalHeaders_going hr
  exact ⟨headers, rfl, getAll_validated hr⟩

theorem SendsAt.passesRequest (h : proxy.SendsAt env req n sent) :
    ∃ ctx s url, proxy.begin env req = .going (ctx, s) ∧
      (ctx.attemptUrl (env.rounds n)).2 = .ok url ∧
      rebuildUri ctx.crates.uriParser req.uri url ctx.selected.targetUrlLen = .ok sent.uri ∧
      ctx.PassesRequest (findCached env.conditionalCaches ctx.cacheKey ctx.cacheKey
        env.conditionalNow) req sent := by
  obtain ⟨ctx, s, hbegin, hsent⟩ := h
  obtain ⟨rebuilt, ⟨t, url, left, hafter, _, hurl, hbuilt⟩, rfl⟩ :=
    LoopContext.sentAt_iff_rebuilds.mp hsent
  obtain ⟨headers, rfl, hvalidated⟩ := validated_of_begin hbegin
  have hbody := LoopContext.body_empty_of_after rfl hafter
  have horiginal : t.originalReq = { req.bodyRead with headers } := by
    have hread := LoopContext.originalReq_of_after hafter
    rw [Request.bodyRead_of_empty hbody] at hread
    exact hread
  rw [horiginal] at hbuilt
  obtain ⟨huri, hread, _⟩ := rebuildRequest_ok hbuilt
  obtain ⟨hmethod, hversion, hheaders⟩ := rebuildRequest_rest hbuilt
  refine ⟨ctx, _, url, hbegin, hurl, huri, hmethod, hversion, hread, fun name => ?_⟩
  have hforwarded : headers.getAll xForwardedForHeader =
      req.headers.getAll xForwardedForHeader := by
    rw [hvalidated, Lookup.validator_forwarded]
    rfl
  have hown := fun authority => ownValue_congr hforwarded authority ctx.clientIp name
  generalize findCached env.conditionalCaches ctx.cacheKey ctx.cacheKey env.conditionalNow = found
    at hvalidated ⊢
  have hlast : (headers.getAll name).getLast? =
      ((found.validator name).map utf8).or (req.headers.getAll name).getLast? := by
    rw [hvalidated name]
    cases found.validator name with
    | none => rfl
    | some v => rfl
  rw [LoopContext.getAll_applyTransforms, getAll_rebuildHeaders hheaders, hown, hlast,
    Option.or_assoc]
  rfl

end Proxy

/-- On every attempt the upstream gets the request of the client with no body, for the URI below the
url of the attempt, and with the headers that the proxy and the transforms make of the last values
that the client has sent; so that two attempts differ in their URI and in their host alone. -/
theorem request_passed_on {proxy : Proxy} {env : Surroundings} {req sent : Request} {n : Nat}
    (h : proxy.SendsAt env req n sent) :
    ∃ ctx s url, proxy.begin env req = .going (ctx, s) ∧
      (ctx.attemptUrl (env.rounds n)).2 = .ok url ∧
      rebuildUri ctx.crates.uriParser req.uri url ctx.selected.targetUrlLen = .ok sent.uri ∧
      ctx.PassesRequest (findCached env.conditionalCaches ctx.cacheKey ctx.cacheKey
        env.conditionalNow) req sent ∧
      ∀ m sent', proxy.SendsAt env req m sent' → ∀ name, name ≠ hostHeader →
        sent'.headers.getAll name = sent.headers.getAll name := by
  obtain ⟨ctx, s, url, hbegin, hurl, huri, hpasses⟩ := h.passesRequest
  refine ⟨ctx, s, url, hbegin, hurl, huri, hpasses, fun m sent' h' name hname => ?_⟩
  obtain ⟨ctx', s', _, hbegin', _, _, hpasses'⟩ := h'.passesRequest
  cases hbegin.symm.trans hbegin'
  rw [hpasses.headers, hpasses'.headers]
  unfold ownValue
  rw [if_neg hname, if_neg hname]

def twoAttemptsConfig : ProxyConfig :=
  { plainConfig [{ plainTarget "/api".toList ["http://a:1".toList, "http://b:1".toList] with
      requestTransforms := some [⟨"X-Tag".toList, some "-v2".toList, "Append".toList⟩] }] with
    retries := ⟨"FixedInterval".toList, 1, 2, none, none, none⟩
    loadBalancer := some ⟨.roundRobin, none⟩ }

/-- The second attempt goes to the other backend, with the tag of the first one. -/
theorem request_passed_on_two_attempts :
    ∃ (proxy : Proxy) (env : Surroundings) (req sent sent' : Request),
    Proxy.ofConfig plainCrates twoAttemptsConfig = .ok proxy ∧
    env.targetOrder = proxy.targetMap.entries ∧
    req = plainRequest "/api/users".toList [("x-tag".toList, utf8 "road".toList)]
      (utf8 "hello".toList) ∧
    proxy.SendsAt env req 0 sent ∧ proxy.SendsAt env req 1 sent' ∧
    sent.uri.authority = some "a:1".toList ∧ sent'.uri.authority = some "b:1".toList ∧
    sent.body = Body.empty ∧
    sent'.headers.getAll "x-tag".toList = [utf8 "road-v2".toList] := by
  have htrace : ∃ (proxy : Proxy) (env : Surroundings) (req sent sent' : Request),
      Proxy.ofConfig plainCrates twoAttemptsConfig = .ok proxy ∧
      env.targetOrder = proxy.targetMap.entries ∧
      req = plainRequest "/api/users".toList [("x-tag".toList, utf8 "road".toList)]
        (utf8 "hello".toList) ∧
      proxy.SendsAt env req 0 sent ∧ proxy.SendsAt env req 1 sent' ∧
      sent.uri.authority = some "a:1".toList ∧ sent'.uri.authority = some "b:1".toList ∧
      sent.headers.getAll "x-tag".toList = [utf8 "road-v2".toList] :=
    ⟨_, plainSurroundings _ (fun n => { plainRound (.failed "connection refused") with
        balancerOrder := [⟨"/api".toList, ["http://a:1".toList, "http://b:1".toList]⟩]
        balancer := ⟨AList.singleton "/api".toList n, ∅⟩ }), _, _, _, rfl, rfl, rfl,
      ⟨_, _, rfl, rfl⟩, ⟨_, _, rfl, rfl⟩, rfl, rfl, rfl⟩
  obtain ⟨proxy, env, req, sent, sent', hproxy, horder, hreq, hfirst, hsecond, ha, hb, htag⟩ :=
    htrace
  obtain ⟨ctx, s, url, _, _, _, hpasses, hagree⟩ := request_passed_on hfirst
  exact ⟨proxy, env, req, sent, sent', hproxy, horder, hreq, hfirst, hsecond, ha, hb, hpasses.body,
    (hagree 1 sent' hsecond _ (by decide)).trans htag⟩

end Road7
