import Road7.AuthGate

namespace Road7

theorem HeaderMap.getAll_cons (e : HeaderName × HeaderValue) (h : HeaderMap) (name : HeaderName) :
    HeaderMap.getAll (e :: h) name = if e.1 = name then e.2 :: h.getAll name else h.getAll name := by
  unfold getAll
  rw [List.filter_cons]
  by_cases hname : e.1 = name
  · simp [hname]
  · simp [hname]

/-- A copy loop that inserts leaves the last value of every name. -/
theorem HeaderMap.getAll_copied (headers acc : HeaderMap) (name : HeaderName) :
    (headers.foldl (fun (h : HeaderMap) e => h.insert e.1 e.2) acc).getAll name =
      (headers.getAll name).getLast?.elim (acc.getAll name) (fun v => [v]) := by
  induction headers generalizing acc with
  | nil => rfl
  | cons e headers ih =>
    rw [List.foldl_cons, ih, HeaderMap.getAll_insert, HeaderMap.getAll_cons]
    by_cases hname : e.1 = name
    · have hcopied : name = e.1 := hname.symm
      rw [if_pos hname, if_pos hcopied, List.getLast?_cons]
      cases (HeaderMap.getAll headers name).getLast? <;> rfl
    · have hcopied : ¬name = e.1 := fun h => hname h.symm
      rw [if_neg hname, if_neg hcopied]

theorem rebuildRequest_headers {parser : UriParser} {original rebuilt left : Request} {url : Str}
    {len : Nat} {clientIp : SocketAddr}
    (h : rebuildRequest parser original url len clientIp = .ok (rebuilt, left)) :
    ∃ authority, rebuildHeaders original.headers authority clientIp = .ok rebuilt.headers := by
  obtain ⟨uri, _, h⟩ := bind_eq_ok.mp h
  obtain ⟨headers, hheaders, h⟩ := bind_eq_ok.mp h
  cases h
  exact ⟨uri.authority, hheaders⟩

/-- The headers that `rebuild_request` sets itself. -/
def proxyHeaders : List HeaderName := [hostHeader, xForwardedForHeader, xProxyHeader]

/-- The `X-Forwarded-For` value behind a client: the first line it sent, when that is text, with
its address. -/
def forwardedFor (headers : HeaderMap) (clientIp : Str) : HeaderValue :=
  ((headers.get xForwardedForHeader).bind headerToStr).elim (utf8 clientIp)
    (fun existing => utf8 existing ++ utf8 ", ".toList ++ utf8 clientIp)

theorem rebuildHeaders_ok {headers out : HeaderMap} {authority : Option Str}
    {clientIp : SocketAddr} (h : rebuildHeaders headers authority clientIp = .ok out) :
    (∀ name, name ∉ proxyHeaders → out.getAll name = (headers.getAll name).getLast?.toList) ∧
      out.getAll xForwardedForHeader = [forwardedFor headers clientIp.ip] := by
  obtain ⟨forwarded, hforwarded, h⟩ := bind_eq_ok.mp h
  have hbuilt : ∃ withHost : HeaderMap, out = withHost.insert xProxyHeader (utf8 "road7".toList) ∧
      ∀ name, name ≠ hostHeader → withHost.getAll name =
        (HeaderMap.insert (headers.foldl (fun (h : HeaderMap) e => h.insert e.1 e.2) [])
          xForwardedForHeader forwarded).getAll name := by
    cases authority with
    | none =>
      obtain ⟨withHost, hhost, h⟩ := bind_eq_ok.mp h
      cases hhost
      cases h
      exact ⟨_, rfl, fun _ _ => rfl⟩
    | some auth =>
      obtain ⟨withHost, hhost, h⟩ := bind_eq_ok.mp h
      obtain ⟨v, _, rfl⟩ := map_eq_ok.mp hhost
      cases h
      refine ⟨_, rfl, fun name hname => ?_⟩
      rw [HeaderMap.getAll_insert, if_neg hname]
  obtain ⟨withHost, rfl, hkeep⟩ := hbuilt
  constructor
  · intro name hname
    simp only [proxyHeaders, List.mem_cons, List.not_mem_nil, or_false, not_or] at hname
    obtain ⟨hnHost, hnForwarded, hnProxy⟩ := hname
    rw [HeaderMap.getAll_insert, if_neg hnProxy, hkeep name hnHost, HeaderMap.getAll_insert,
      if_neg hnForwarded, HeaderMap.getAll_copied]
    cases (headers.getAll name).getLast? <;> rfl
  · have hproxy : xForwardedForHeader ≠ xProxyHeader := by decide
    have hnHost : xForwardedForHeader ≠ hostHeader := by decide
    rw [HeaderMap.getAll_insert, if_neg hproxy, hkeep _ hnHost, HeaderMap.getAll_insert, if_pos rfl,
      headerFromStrUnwrap_ok hforwarded]
    unfold forwardedFor
    cases (headers.get xForwardedForHeader).bind headerToStr with
    | none => rfl
    | some existing => simp only [utf8_append, Option.elim_some]

/-- The whole chain: every value that the client sent, in their order, and its address. -/
def forwardedChain (values : List HeaderValue) (clientIp : Str) : HeaderValue :=
  List.intercalate (utf8 ", ".toList) (values ++ [utf8 clientIp])

theorem forwardedChain_cons (value : HeaderValue) (values : List HeaderValue) (clientIp : Str) :
    forwardedChain (value :: values) clientIp =
      value ++ utf8 ", ".toList ++ forwardedChain values clientIp := by
  unfold forwardedChain
  cases values with
  | nil => simp [List.intercalate]
  | cons w values => simp [List.intercalate]

theorem length_le_forwardedChain (values : List HeaderValue) (clientIp : Str) :
    (utf8 clientIp).length ≤ (forwardedChain values clientIp).length := by
  induction values with
  | nil => simp [forwardedChain, List.intercalate]
  | cons value values ih =>
    rw [forwardedChain_cons]
    simp only [List.length_append]
    omega

/-- The chain is whole when there is nothing before the client, or one line of text. -/
theorem forwardedFor_eq_chain_iff (headers : HeaderMap) (clientIp : Str) :
    forwardedFor headers clientIp =
        forwardedChain (headers.getAll xForwardedForHeader) clientIp ↔
      headers.getAll xForwardedForHeader = [] ∨ ∃ value text,
        headers.getAll xForwardedForHeader = [value] ∧ headerToStr value = some text := by
  have hcomma : (utf8 ", ".toList).length = 2 := by decide
  unfold forwardedFor
  rw [HeaderMap.get_eq_head?]
  cases hvalues : headers.getAll xForwardedForHeader with
  | nil => simp [forwardedChain, List.intercalate]
  | cons value values =>
    have hrest := length_le_forwardedChain values clientIp
    rw [forwardedChain_cons, List.head?_cons, Option.bind_some]
    cases htext : headerToStr value with
    | none =>
      -- Without text the line is dropped, and the chain is too short.
      constructor
      · intro h
        have hlength := congrArg List.length h
        simp only [Option.elim_none, List.length_append] at hlength
        omega
      · intro h
        simp only [reduceCtorEq, false_or] at h
        obtain ⟨v, text, hv, hvtext⟩ := h
        cases hv
        simp [htext] at hvtext
    | some text =>
      rw [Option.elim_some, utf8_of_headerToStr htext]
      cases values with
      | nil =>
        have hlast : forwardedChain [] clientIp = utf8 clientIp := by
          simp [forwardedChain, List.intercalate]
        rw [hlast]
        exact iff_of_true rfl (.inr ⟨value, text, rfl, htext⟩)
      | cons w values =>
        constructor
        · intro h
          have htail := length_le_forwardedChain values clientIp
          have hlength := congrArg List.length h
          rw [forwardedChain_cons] at hlength
          simp only [List.length_append] at hlength
          omega
        · intro h
          simp at h

theorem getLast?_toList_eq_iff {α : Type} (xs : List α) :
    xs.getLast?.toList = xs ↔ xs.length ≤ 1 := by
  cases xs with
  | nil => simp
  | cons x xs =>
    cases xs with
    | nil => simp
    | cons y xs =>
      have hlong : ¬(x :: y :: xs).length ≤ 1 := by simp
      refine iff_of_false (fun heq => ?_) hlong
      have hlength := congrArg List.length heq
      rw [List.getLast?_cons_cons, List.getLast?_cons] at hlength
      simp at hlength

/-- The headers of the client reach the upstream as they are, and its address joins their whole
chain, exactly when none of them has a second value and the line to continue is text. -/
theorem headers_forwarded_iff {parser : UriParser} {original rebuilt left : Request} {url : Str}
    {len : Nat} {clientIp : SocketAddr}
    (h : rebuildRequest parser original url len clientIp = .ok (rebuilt, left)) :
    ((∀ name, name ∉ proxyHeaders →
        rebuilt.headers.getAll name = original.headers.getAll name) ∧
      rebuilt.headers.getAll xForwardedForHeader =
        [forwardedChain (original.headers.getAll xForwardedForHeader) clientIp.ip]) ↔
    ((∀ name, name ∉ proxyHeaders → (original.headers.getAll name).length ≤ 1) ∧
      (original.headers.getAll xForwardedForHeader = [] ∨ ∃ value text,
        original.headers.getAll xForwardedForHeader = [value] ∧
          headerToStr value = some text)) := by
  obtain ⟨authority, hheaders⟩ := rebuildRequest_headers h
  obtain ⟨hcopied, hforwarded⟩ := rebuildHeaders_ok hheaders
  have hchain := forwardedFor_eq_chain_iff original.headers clientIp.ip
  rw [hforwarded, List.cons.injEq, and_iff_left rfl, hchain]
  refine and_congr_left fun _ => forall₂_congr fun name hname => ?_
  rw [hcopied name hname, getLast?_toList_eq_iff]

theorem headers_forwarded_iff_one_hop : ∃ rebuilt left,
    rebuildRequest httpUri (plainRequest "/api/users".toList
      [(xForwardedForHeader, utf8 "203.0.113.7".toList)] []) "http://localhost:5001".toList
      (byteLen "/api".toList) ⟨"10.0.0.1".toList, 50000, false⟩ = .ok (rebuilt, left) ∧
    rebuilt.headers.getAll xForwardedForHeader =
      [forwardedChain [utf8 "203.0.113.7".toList] "10.0.0.1".toList] := by
  have hone : ∀ name, name ∉ proxyHeaders → (HeaderMap.getAll
      [(xForwardedForHeader, utf8 "203.0.113.7".toList)] name).length ≤ 1 := by
    intro name _
    unfold HeaderMap.getAll
    rw [List.length_map]
    exact List.length_filter_le _ _
  have hforward : ∀ {original rebuilt left : Request} {url : Str} {len : Nat} {ip : SocketAddr},
      rebuildRequest httpUri original url len ip = .ok (rebuilt, left) →
      original.headers = [(xForwardedForHeader, utf8 "203.0.113.7".toList)] →
      rebuildRequest httpUri original url len ip = .ok (rebuilt, left) ∧
        rebuilt.headers.getAll xForwardedForHeader =
          [forwardedChain [utf8 "203.0.113.7".toList] ip.ip] := by
    intro original rebuilt left url len ip hbuilt hheaders
    have hiff := headers_forwarded_iff hbuilt
    rw [hheaders] at hiff
    exact ⟨hbuilt, (hiff.mpr ⟨hone, .inr ⟨_, "203.0.113.7".toList, rfl, by decide⟩⟩).2⟩
  exact ⟨_, _, hforward rfl rfl⟩

/-- Two cookie lines, as they come over HTTP/2, and a chain of two lines: one of each arrives. -/
theorem second_lines_dropped : ∃ rebuilt left,
    rebuildRequest httpUri (plainRequest "/api/users".toList
      [("cookie".toList, utf8 "a=1".toList), ("cookie".toList, utf8 "b=2".toList),
        (xForwardedForHeader, utf8 "203.0.113.7".toList),
        (xForwardedForHeader, utf8 "198.51.100.2".toList)] []) "http://localhost:5001".toList
      (byteLen "/api".toList) ⟨"10.0.0.1".toList, 50000, false⟩ = .ok (rebuilt, left) ∧
    rebuilt.headers.getAll "cookie".toList = [utf8 "b=2".toList] ∧
    rebuilt.headers.getAll xForwardedForHeader = [utf8 "203.0.113.7, 10.0.0.1".toList] ∧
    [utf8 "203.0.113.7, 10.0.0.1".toList] ≠ [forwardedChain
      [utf8 "203.0.113.7".toList, utf8 "198.51.100.2".toList] "10.0.0.1".toList] :=
  ⟨_, _, rfl, rfl, rfl, by decide⟩

namespace LoopContext

variable {ctx : LoopContext} {s t : LoopState} {rounds : Nat → Round}

/-- The request that turn `n` builds for the upstream, before its transforms. -/
def Rebuilds (ctx : LoopContext) (s : LoopState) (rounds : Nat → Round) (n : Nat)
    (rebuilt : Request) : Prop :=
  ∃ t url left, ctx.after s rounds n = .going t ∧ t.retries < ctx.maxAttempts ∧
    (ctx.attemptUrl (rounds n)).2 = .ok url ∧
    rebuildRequest ctx.crates.uriParser t.originalReq url ctx.selected.targetUrlLen
      ctx.clientIp = .ok (rebuilt, left)

/-- What is sent is what has been built, transformed. -/
theorem sentAt_iff_rebuilds {n : Nat} {req : Request} :
    ctx.sentAt s rounds n = some req ↔ ∃ rebuilt, ctx.Rebuilds s rounds n rebuilt ∧
      req = rebuilt.applyTransforms ctx.selected.requestTransforms := by
  unfold sentAt Rebuilds
  cases hafter : ctx.after s rounds n with
  | going t =>
    rcases ctx.turn_cases t (rounds n) with
      ⟨hge, hsent, _⟩ | ⟨_, hsend, hsent, _⟩ | ⟨hlt, url, built, hurl, hbuilt, hsent, _⟩
    · refine iff_of_false (by simp [hsent]) ?_
      rintro ⟨_, ⟨t', _, _, ht, hlt, _⟩, _⟩
      cases ht
      omega
    · refine iff_of_false (by simp [hsent]) ?_
      rintro ⟨_, ⟨t', url, left, ht, _, hurl, hbuilt⟩, _⟩
      cases ht
      exact hsend ⟨url, _, hurl, hbuilt⟩
    · constructor
      · intro h
        have hreq := Option.some.inj (hsent.symm.trans h)
        exact ⟨built, ⟨t, url, _, rfl, hlt, hurl, hbuilt⟩, hreq.symm⟩
      · rintro ⟨_, ⟨t', url', left, ht, _, hurl', hbuilt'⟩, rfl⟩
        cases ht
        cases hurl.symm.trans hurl'
        cases hbuilt.symm.trans hbuilt'
        exact hsent
  | ended e => simp
  | blocked => simp

theorem headers_of_after {n : Nat} (h : ctx.after s rounds n = .going t) :
    t.originalReq.headers = s.originalReq.headers := by
  induction n generalizing t with
  | zero =>
    cases h
    rfl
  | succ n ih =>
    obtain ⟨u, hu, hturn⟩ := after_succ_going h
    rw [originalReq_of_turn_going hturn]
    exact ih hu

end LoopContext

/-- The headers that a cached entry makes the proxy set for the upstream. -/
def conditionalHeaders : List HeaderName := ["if-none-match".toList, "if-modified-since".toList]

theorem getAll_addConditionalHeaders {cacheKey : Str} {caches : Caches} {now : Nat}
    {req req' : Request} {name : HeaderName}
    (h : addConditionalHeaders cacheKey caches now req = .going req')
    (hname : name ∉ conditionalHeaders) : req'.headers.getAll name = req.headers.getAll name := by
  simp only [conditionalHeaders, List.mem_cons, List.not_mem_nil, or_false, not_or] at hname
  unfold addConditionalHeaders at h
  split at h
  next =>
    obtain ⟨_, hetag, h⟩ := Progress.bind_eq_going.mp h
    obtain ⟨_, hmodified, h⟩ := Progress.bind_eq_going.mp h
    cases h
    rw [getAll_insertHeader (Progress.orPanic_eq_going.mp hmodified) hname.2,
      getAll_insertHeader (Progress.orPanic_eq_going.mp hetag) hname.1]
  next =>
    cases h
    rfl
  next => simp at h

namespace Proxy

variable {proxy : Proxy} {env : Surroundings} {req req' : Request} {selected : Selected}

/-- The request that attempt `n` of a request builds for the upstream. -/
def Forwards (proxy : Proxy) (env : Surroundings) (req : Request) (n : Nat) (rebuilt : Request) :
    Prop :=
  ∃ ctx s, proxy.begin env req = .going (ctx, s) ∧ ctx.Rebuilds s env.rounds n rebuilt

/-- A header that the proxy does not set itself arrives with its last value. -/
theorem getAll_of_forwards {n : Nat} {rebuilt : Request} {name : HeaderName}
    (h : proxy.Forwards env req n rebuilt) (hproxy : name ∉ proxyHeaders)
    (hconditional : name ∉ conditionalHeaders) :
    rebuilt.headers.getAll name = (req.headers.getAll name).getLast?.toList := by
  obtain ⟨ctx, s, hbegin, t, url, left, hafter, _, _, hbuilt⟩ := h
  obtain ⟨selected, hreceive, henter⟩ := begin_going hbegin
  obtain ⟨c, _, henter⟩ := Progress.bind_eq_going.mp henter
  obtain ⟨_, _, henter⟩ := Progress.bind_eq_going.mp henter
  obtain ⟨r, hr, henter⟩ := Progress.bind_eq_going.mp henter
  cases henter
  obtain ⟨authority, hheaders⟩ := rebuildRequest_headers hbuilt
  have hcopied := (rebuildHeaders_ok hheaders).1 name hproxy
  rw [hcopied, LoopContext.headers_of_after hafter]
  exact congrArg (fun values => values.getLast?.toList)
    (getAll_addConditionalHeaders hr hconditional)

end Proxy

/-- The validator of the configured type reads this value, and accepts it. -/
def AuthenticationConfig.AcceptsValue (auth : AuthenticationConfig) (crates : Crates)
    (systemTime : Nat) (req : Request) (value : HeaderValue) : Prop :=
  auth.Accepts crates systemTime req ∧ req.headers.get authorizationHeader = some value

theorem authorization_of_accepts {crates : Crates} {systemTime : Nat}
    {auth : AuthenticationConfig} {req : Request} (h : auth.Accepts crates systemTime req) :
    ∃ value, req.headers.get authorizationHeader = some value := by
  cases hvalue : req.headers.get authorizationHeader with
  | some value => exact ⟨value, rfl⟩
  | none =>
    unfold AuthenticationConfig.Accepts at h
    split at h
    next =>
      obtain ⟨secret, claims, _, hjwt⟩ := h
      simp [validateJwt, hvalue, bind, Except.bind] at hjwt
    next =>
      obtain ⟨users, _, hbasic⟩ := h
      simp [validateBasic, hvalue, bind, Except.bind] at hbasic

/-- The upstream gets the value that the validator has accepted, and no other, exactly when there
is a credential to validate with and the last `Authorization` line says what the first one does. -/
theorem forwarded_authorization_iff {proxy : Proxy} {env : Surroundings}
    {req req' rebuilt : Request} {selected : Selected} {auth : AuthenticationConfig} {n : Nat}
    (hreceive : proxy.receive env req = .going (req', selected))
    (hauth : selected.authConfig = some auth) (hforward : proxy.Forwards env req n rebuilt) :
    (∃ value, auth.AcceptsValue proxy.crates env.systemTime req value ∧
        rebuilt.headers.getAll authorizationHeader = [value]) ↔
      auth.HasCredential ∧ (req.headers.getAll authorizationHeader).getLast? =
        (req.headers.getAll authorizationHeader).head? := by
  have hlast := Proxy.getAll_of_forwards hforward (by decide : authorizationHeader ∉ proxyHeaders)
    (by decide)
  obtain ⟨ctx, s, hbegin, _⟩ := hforward
  obtain ⟨_, hreceive', henter⟩ := Proxy.begin_going hbegin
  obtain ⟨_, rfl, _⟩ := Proxy.receive_going hreceive
  cases hreceive.symm.trans hreceive'
  have hgate := (Proxy.enterLoop_going henter).1
  rw [hauth] at hgate
  constructor
  · intro h
    obtain ⟨value, ⟨haccepts, hget⟩, hvalue⟩ := h
    refine ⟨AuthenticationConfig.hasCredential_of_accepts haccepts, ?_⟩
    rw [hlast] at hvalue
    rw [HeaderMap.get_eq_head?] at hget
    rw [hget]
    cases hvalues : (req.headers.getAll authorizationHeader).getLast? with
    | none => simp [hvalues] at hvalue
    | some last =>
      rw [hvalues] at hvalue
      exact congrArg some (List.singleton_inj.mp hvalue)
  · intro h
    obtain ⟨hcred, hsame⟩ := h
    have haccepts : auth.Accepts proxy.crates env.systemTime req :=
      AuthenticationConfig.accepts_of_authenticate hcred hgate
    obtain ⟨value, hvalue⟩ := authorization_of_accepts haccepts
    refine ⟨value, ⟨haccepts, hvalue⟩, ?_⟩
    rw [HeaderMap.get_eq_head?] at hvalue
    rw [hlast, hsame, hvalue]
    rfl

/-- The HS256 token of the claims below under the secret `k`. -/
def signedToken : Str :=
  ("eyJ0eXAiOiJKV1QiLCJhbGciOiJIUzI1NiJ9.eyJzdWIiOiJhbCIsImNvbXBhbnkiOiJjbyIsImV4cCI6NDEwMjQ0NDgw" ++
    "MH0.ZzVv7f4OihQZpHssXL-7sDJAueyq9OcOwWaO-fICjpc").toList

def signedClaims : Claims := ⟨"al".toList, "co".toList, 4102444800⟩

def tokenCrates : Crates :=
  { plainCrates with
    jwtDecode := fun systemTime token secret =>
      if token = signedToken ∧ secret = "k".toList then
        -- A minute of leeway behind `exp`.
        if systemTime ≤ signedClaims.exp + 60 then .ok signedClaims else .error "ExpiredSignature"
      else .error "InvalidSignature" }

def tokenConfig : ProxyConfig :=
  plainConfig [guardedTarget ⟨.jwt, some "k".toList, none⟩]

def bearer (token : Str) : HeaderName × HeaderValue :=
  (authorizationHeader, utf8 ("Bearer ".toList ++ token))

set_option maxRecDepth 4000 in
theorem forwarded_authorization_iff_one_line :
    ∃ (proxy : Proxy) (env : Surroundings) (rebuilt : Request) (value : HeaderValue),
    Proxy.ofConfig tokenCrates tokenConfig = .ok proxy ∧
    env.targetOrder = proxy.targetMap.entries ∧
    proxy.Forwards env (plainRequest "/api/users".toList [bearer signedToken] []) 0 rebuilt ∧
    AuthenticationConfig.AcceptsValue ⟨.jwt, some "k".toList, none⟩ proxy.crates env.systemTime
      (plainRequest "/api/users".toList [bearer signedToken] []) value ∧
    rebuilt.headers.getAll authorizationHeader = [value] := by
  have hone : ∀ {proxy : Proxy} {env : Surroundings} {req' rebuilt : Request}
      {selected : Selected} {auth : AuthenticationConfig},
      proxy.receive env (plainRequest "/api/users".toList [bearer signedToken] []) =
        .going (req', selected) →
      selected.authConfig = some auth →
      proxy.Forwards env (plainRequest "/api/users".toList [bearer signedToken] []) 0 rebuilt →
      auth.HasCredential →
      ∃ value, auth.AcceptsValue proxy.crates env.systemTime
        (plainRequest "/api/users".toList [bearer signedToken] []) value ∧
        rebuilt.headers.getAll authorizationHeader = [value] := by
    intro proxy env req' rebuilt selected auth hreceive hauth hforward hcred
    exact (forwarded_authorization_iff hreceive hauth hforward).mpr ⟨hcred, rfl⟩
  have hproxy : ∃ (proxy : Proxy) (env : Surroundings) (req' rebuilt : Request)
      (selected : Selected), Proxy.ofConfig tokenCrates tokenConfig = .ok proxy ∧
      env.targetOrder = proxy.targetMap.entries ∧
      proxy.receive env (plainRequest "/api/users".toList [bearer signedToken] []) =
        .going (req', selected) ∧
      selected.authConfig = some ⟨.jwt, some "k".toList, none⟩ ∧
      proxy.Forwards env (plainRequest "/api/users".toList [bearer signedToken] []) 0 rebuilt :=
    ⟨_, plainSurroundings _ fun _ => plainRound .timedOut, _, _, _, rfl, rfl, rfl, rfl,
      _, _, rfl, _, _, _, rfl, Nat.zero_lt_one, rfl, rfl⟩
  obtain ⟨proxy, env, req', rebuilt, selected, hconfig, horder, hreceive, hauth, hforward⟩ := hproxy
  obtain ⟨value, haccepts, hvalue⟩ := hone hreceive hauth hforward rfl
  exact ⟨proxy, env, rebuilt, value, hconfig, horder, hforward, haccepts, hvalue⟩

set_option maxRecDepth 4000 in
/-- The proxy validates the first of two lines, and sends the second one on. -/
theorem unvalidated_token_forwarded :
    ∃ (proxy : Proxy) (env : Surroundings) (req' rebuilt : Request) (selected : Selected),
    Proxy.ofConfig tokenCrates tokenConfig = .ok proxy ∧
    env.targetOrder = proxy.targetMap.entries ∧
    proxy.receive env (plainRequest "/api/users".toList
      [bearer signedToken, bearer "forged".toList] []) = .going (req', selected) ∧
    selected.authConfig = some ⟨.jwt, some "k".toList, none⟩ ∧
    proxy.Forwards env (plainRequest "/api/users".toList
      [bearer signedToken, bearer "forged".toList] []) 0 rebuilt ∧
    rebuilt.headers.getAll authorizationHeader = [(bearer "forged".toList).2] ∧
    ¬AuthenticationConfig.AcceptsValue ⟨.jwt, some "k".toList, none⟩ proxy.crates env.systemTime
      (plainRequest "/api/users".toList [bearer signedToken, bearer "forged".toList] [])
      (bearer "forged".toList).2 := by
  refine ⟨_, plainSurroundings _ fun _ => plainRound .timedOut, _, _, _, rfl, rfl, rfl, rfl,
    ⟨_, _, rfl, _, _, _, rfl, Nat.zero_lt_one, rfl, rfl⟩, rfl, ?_⟩
  intro h
  have hread : some (bearer signedToken).2 = some (bearer "forged".toList).2 := h.2
  have hlength := congrArg (fun value => (value.map List.length)) hread
  have hdiffer : (bearer signedToken).2.length ≠ (bearer "forged".toList).2.length := by
    decide
  exact hdiffer (Option.some.inj hlength)

end Road7
