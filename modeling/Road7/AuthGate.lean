import Road7.PlainProxy
import Road7.RequestStages

namespace Road7

namespace AuthenticationConfig

def HasCredential (auth : AuthenticationConfig) : Prop :=
  match auth.authType with
  | .jwt => auth.jwtSecret.isSome
  | .basic => auth.basicUsers.isSome

def Accepts (crates : Crates) (systemTime : Nat) (auth : AuthenticationConfig) (req : Request) :
    Prop :=
  match auth.authType with
  | .jwt => ∃ secret claims, auth.jwtSecret = some secret ∧
      validateJwt (crates.jwtDecode systemTime) req secret = .ok claims
  | .basic => ∃ users, auth.basicUsers = some users ∧
      validateBasic crates.base64Decode req users = .ok ()

variable {crates : Crates} {systemTime : Nat} {auth : AuthenticationConfig} {req : Request}

theorem accepts_of_authenticate (hcred : auth.HasCredential)
    (h : authenticate crates systemTime (some auth) req = .ok ()) :
    auth.Accepts crates systemTime req := by
  unfold HasCredential at hcred
  unfold authenticate at h
  unfold Accepts
  cases htype : auth.authType with
  | jwt =>
    simp only [htype] at hcred h
    obtain ⟨secret, hsecret⟩ := Option.isSome_iff_exists.mp hcred
    simp only [hsecret] at h
    cases hjwt : validateJwt (crates.jwtDecode systemTime) req secret with
    | error err => simp [hjwt, Except.map] at h
    | ok claims => exact ⟨secret, claims, hsecret, hjwt⟩
  | basic =>
    simp only [htype] at hcred h
    obtain ⟨users, husers⟩ := Option.isSome_iff_exists.mp hcred
    simp only [husers] at h
    exact ⟨users, husers, h⟩

theorem hasCredential_of_accepts (h : auth.Accepts crates systemTime req) : auth.HasCredential := by
  unfold Accepts at h
  unfold HasCredential
  cases htype : auth.authType with
  | jwt =>
    simp only [htype] at h ⊢
    obtain ⟨secret, _, hsecret, _⟩ := h
    simp [hsecret]
  | basic =>
    simp only [htype] at h ⊢
    obtain ⟨users, husers, _⟩ := h
    simp [husers]

/-- The gate lets everything pass when the credential is absent. -/
theorem authenticate_of_not_hasCredential (h : ¬auth.HasCredential) :
    authenticate crates systemTime (some auth) req = authenticate crates systemTime none req := by
  unfold HasCredential at h
  unfold authenticate
  cases htype : auth.authType with
  | jwt =>
    have hnone : auth.jwtSecret = none := by simpa [htype] using h
    simp [htype, hnone]
  | basic =>
    have hnone : auth.basicUsers = none := by simpa [htype] using h
    simp [htype, hnone]

end AuthenticationConfig

def Selected.withoutAuth (selected : Selected) : Selected := { selected with authConfig := none }

def LoopContext.withoutAuth (ctx : LoopContext) : LoopContext :=
  { ctx with selected := ctx.selected.withoutAuth }

namespace LoopContext

theorem withoutAuth_after (ctx : LoopContext) (s : LoopState) (rounds : Nat → Round) (n : Nat) :
    ctx.withoutAuth.after s rounds n = ctx.after s rounds n := by
  induction n with
  | zero => rfl
  | succ n ih =>
    simp only [after, ih]
    split <;> rfl

theorem withoutAuth_sent (ctx : LoopContext) (s : LoopState) (rounds : Nat → Round) (n : Nat) :
    ctx.withoutAuth.sent s rounds n = ctx.sent s rounds n := by
  have hat : ctx.withoutAuth.sentAt s rounds = ctx.sentAt s rounds := by
    funext i
    simp only [sentAt, withoutAuth_after]
    split <;> rfl
  rw [sent, sent, hat]

/-- A request is sent upstream, or a cached response is returned, within some turns. -/
def Serves (ctx : LoopContext) (s : LoopState) (rounds : Nat → Round) : Prop :=
  (∃ n, ctx.sent s rounds n ≠ []) ∨ ∃ n resp, ctx.after s rounds n = .ended (.cached resp)

end LoopContext

namespace Proxy

/-- What follows the selection of the target sends a request upstream or returns a cached
response. -/
def ServesFrom (proxy : Proxy) (env : Surroundings) (req : Request) (selected : Selected) :
    Prop :=
  (∃ resp, proxy.enterLoop env req selected = .ended (.cached resp)) ∨
    ∃ ctx s, proxy.enterLoop env req selected = .going (ctx, s) ∧ ctx.Serves s env.rounds

/-- `proxy_request` sends a request upstream or returns a cached response. -/
def Serves (proxy : Proxy) (env : Surroundings) (req : Request) : Prop :=
  (∃ n, proxy.upstreamRequests env req n ≠ []) ∨
    ∃ n resp, proxy.proxyRequest env req n = .ended (.cached resp)

variable {proxy : Proxy} {env : Surroundings} {req req' : Request} {selected : Selected}

theorem serves_iff_servesFrom (h : proxy.receive env req = .going (req', selected)) :
    proxy.Serves env req ↔ proxy.ServesFrom env req' selected := by
  have hbegin : proxy.begin env req = proxy.enterLoop env req' selected := by
    simp [begin, h]
  simp only [Serves, ServesFrom, upstreamRequests, proxyRequest, hbegin]
  cases hloop : proxy.enterLoop env req' selected with
  | going cs =>
    obtain ⟨ctx, s⟩ := cs
    simp [LoopContext.Serves]
  | ended e => simp
  | blocked => simp

theorem enterLoop_withoutAuth
    (h : authenticate proxy.crates env.systemTime selected.authConfig req = .ok ()) :
    proxy.enterLoop env req selected.withoutAuth =
      proxy.enterLoop env req selected >>= fun cs => .going (cs.1.withoutAuth, cs.2) := by
  have hgate : authGate proxy.crates env.systemTime selected.authConfig req = .going () := by
    simp [authGate, h]
  have hnone : authGate proxy.crates env.systemTime selected.withoutAuth.authConfig req =
      .going () := rfl
  unfold enterLoop approach
  rw [hgate, hnone]
  simp only [Progress.bind_assoc, Progress.going_bind]
  rfl

theorem servesFrom_withoutAuth
    (h : authenticate proxy.crates env.systemTime selected.authConfig req = .ok ()) :
    proxy.ServesFrom env req selected.withoutAuth ↔ proxy.ServesFrom env req selected := by
  unfold ServesFrom
  rw [enterLoop_withoutAuth h]
  cases proxy.enterLoop env req selected with
  | ended e => simp
  | blocked => simp
  | going cs =>
    obtain ⟨ctx, s⟩ := cs
    simp [LoopContext.Serves, LoopContext.withoutAuth_sent, LoopContext.withoutAuth_after]

theorem takeToken_ended {path : Str} {e : Ending} (h : takeToken env path = .ended e) :
    ∃ err, e = .refused err := by
  unfold takeToken at h
  split at h
  next =>
    split at h
    next => simp at h
    next => exact ⟨_, (Progress.ended.inj h).symm⟩
  next => simp at h

theorem authGate_ended {crates : Crates} {systemTime : Nat}
    {authConfig : Option AuthenticationConfig} {e : Ending}
    (h : authGate crates systemTime authConfig req = .ended e) : ∃ err, e = .refused err := by
  unfold authGate at h
  split at h
  next => simp at h
  next => exact ⟨_, (Progress.ended.inj h).symm⟩

theorem authenticate_of_servesFrom (h : proxy.ServesFrom env req selected) :
    authenticate proxy.crates env.systemTime selected.authConfig req = .ok () := by
  rcases h with ⟨resp, h⟩ | ⟨ctx, s, h, _⟩
  · -- Before the gate a request ends only with the refusal of a token.
    rcases Progress.bind_eq_ended.mp h with happroach | ⟨ctx, happroach, _⟩
    · rcases Progress.bind_eq_ended.mp happroach with htoken | ⟨_, _, happroach⟩
      · obtain ⟨err, herr⟩ := takeToken_ended htoken
        simp at herr
      · rcases Progress.bind_eq_ended.mp happroach with hgate | ⟨_, hgate, _⟩
        · obtain ⟨err, herr⟩ := authGate_ended hgate
          simp at herr
        · exact authGate_going hgate
    · exact (approach_going happroach).1
  · exact (enterLoop_going h).1

end Proxy

/-- A request that is served has been accepted exactly when there is a credential to check it
against. -/
theorem accepts_iff_of_serves {proxy : Proxy} {env : Surroundings} {req req' : Request}
    {selected : Selected} {auth : AuthenticationConfig}
    (hreceive : proxy.receive env req = .going (req', selected))
    (hauth : selected.authConfig = some auth) (hserves : proxy.Serves env req) :
    auth.Accepts proxy.crates env.systemTime req ↔ auth.HasCredential := by
  obtain ⟨_, rfl, _⟩ := Proxy.receive_going hreceive
  have hgate := Proxy.authenticate_of_servesFrom
    ((Proxy.serves_iff_servesFrom hreceive).mp hserves)
  rw [hauth] at hgate
  exact ⟨AuthenticationConfig.hasCredential_of_accepts,
    fun hcred => AuthenticationConfig.accepts_of_authenticate hcred hgate⟩

/-- A target without the credential serves whatever it would serve without authentication. -/
theorem serves_iff_of_not_hasCredential {proxy : Proxy} {env : Surroundings}
    {req req' : Request} {selected : Selected} {auth : AuthenticationConfig}
    (hreceive : proxy.receive env req = .going (req', selected))
    (hauth : selected.authConfig = some auth) (hcred : ¬auth.HasCredential) :
    proxy.Serves env req ↔ proxy.ServesFrom env req' selected.withoutAuth := by
  have hgate : authenticate proxy.crates env.systemTime selected.authConfig req' = .ok () := by
    rw [hauth, AuthenticationConfig.authenticate_of_not_hasCredential hcred]
    rfl
  rw [Proxy.serves_iff_servesFrom hreceive, Proxy.servesFrom_withoutAuth hgate]

/-- Every configured target with this authentication serves only the requests that the
validator of the configured type accepts. -/
def AuthenticationConfig.ServesOnlyAccepted (auth : AuthenticationConfig) : Prop :=
  ∀ {crates : Crates} {config : ProxyConfig} {proxy : Proxy} {env : Surroundings}
    {req req' : Request} {selected : Selected},
    Proxy.ofConfig crates config = .ok proxy →
    env.targetOrder.Perm proxy.targetMap.entries →
    proxy.receive env req = .going (req', selected) → selected.authConfig = some auth →
    proxy.Serves env req → auth.Accepts proxy.crates env.systemTime req

def guardedTarget (auth : AuthenticationConfig) : Target :=
  { plainTarget "/api".toList ["http://localhost:5001".toList] with authentication := some auth }

theorem guardedTarget_receives (auth : AuthenticationConfig) :
    ∃ (proxy : Proxy) (env : Surroundings) (req' : Request) (selected : Selected),
    Proxy.ofConfig plainCrates (plainConfig [guardedTarget auth]) = .ok proxy ∧
    env.targetOrder = proxy.targetMap.entries ∧
    proxy.receive env (plainRequest "/api/users".toList [] []) = .going (req', selected) ∧
    selected.authConfig = some auth ∧
    ∃ ctx s, proxy.enterLoop env req' selected.withoutAuth = .going (ctx, s) ∧
      ∃ r, ctx.sent s env.rounds 1 = [r] :=
  ⟨_, plainSurroundings _ (fun _ => plainRound (.response ⟨200, [], Body.empty⟩)), _, _, rfl,
    rfl, rfl, rfl, _, _, rfl, _, rfl⟩

/-- Targets serve only what the validator of the configured type accepts exactly when the
credential for that type is configured. -/
theorem served_only_accepted_iff (auth : AuthenticationConfig) :
    auth.ServesOnlyAccepted ↔ auth.HasCredential := by
  constructor
  · intro h
    by_contra hcred
    obtain ⟨proxy, env, req', selected, hproxy, horder, hreceive, hauth, ctx, s, hloop, r, hsent⟩ :=
      guardedTarget_receives auth
    have hserves := (serves_iff_of_not_hasCredential hreceive hauth hcred).mpr
      (.inr ⟨ctx, s, hloop, .inl ⟨1, by simp [hsent]⟩⟩)
    exact hcred (AuthenticationConfig.hasCredential_of_accepts
      (h hproxy (horder ▸ List.Perm.refl _) hreceive hauth hserves))
  · intro hcred _ _ _ _ _ _ _ _ _ hreceive hauth hserves
    exact (accepts_iff_of_serves hreceive hauth hserves).mpr hcred

/-- Without a secret the gate of a JWT target is open: a request without an Authorization
header is sent upstream. -/
theorem jwt_without_secret_serves : ∃ proxy : Proxy, ∃ env : Surroundings,
    Proxy.ofConfig plainCrates (plainConfig [guardedTarget ⟨.jwt, none, none⟩]) = .ok proxy ∧
    env.targetOrder = proxy.targetMap.entries ∧
    (plainRequest "/api/users".toList [] []).headers.get authorizationHeader = none ∧
    (∃ req' selected, proxy.receive env (plainRequest "/api/users".toList [] []) =
      .going (req', selected) ∧ selected.authConfig = some ⟨.jwt, none, none⟩) ∧
    (proxy.upstreamRequests env (plainRequest "/api/users".toList [] []) 1).length = 1 ∧
    ¬AuthenticationConfig.Accepts plainCrates 0 ⟨.jwt, none, none⟩
      (plainRequest "/api/users".toList [] []) := by
  refine ⟨_, plainSurroundings _ (fun _ => plainRound (.response ⟨200, [], Body.empty⟩)), rfl,
    rfl, rfl, ⟨_, _, rfl, rfl⟩, rfl, ?_⟩
  simp [AuthenticationConfig.Accepts]

end Road7
