import Road7.ForwardedRequest
import Road7.ForwardedResponse
import Road7.RetryReports

namespace Road7

/-- Two turns come to the same: the same end, or one that goes on with `m` retries more. -/
inductive SameTurn (m : Nat) : Progress LoopState → Progress LoopState → Prop
  | ended (e : Ending) : SameTurn m (.ended e) (.ended e)
  | blocked : SameTurn m .blocked .blocked
  | going {s s' : LoopState} : s.retries = m + s'.retries → SameTurn m (.going s) (.going s')

theorem SameTurn.endWith (m : Nat) (toEnding : Response → Ending)
    (result : Except Panic Response) :
    SameTurn m (Progress.endWith toEnding result) (Progress.endWith toEnding result) := by
  rcases Progress.endWith_cases toEnding result with ⟨resp, h⟩ | ⟨p, h⟩
  · rw [h]
    exact .ended _
  · rw [h]
    exact .ended _

theorem SameTurn.reported (m : Nat) (r : Round) (report : Report) (err : ProxyError) :
    SameTurn m (r.reported report err) (r.reported report err) := by
  obtain ⟨e, hended, _⟩ := r.reported_ended report err
  rw [hended]
  exact .ended _

namespace LoopContext

/-- The same loop with a single attempt. -/
def once (ctx : LoopContext) : LoopContext :=
  { ctx with
    selected := { ctx.selected with
      retryStrategy := { ctx.selected.retryStrategy with maxAttempts := 1 } } }

variable {ctx : LoopContext} {s s' t : LoopState} {r : Round} {rounds : Nat → Round} {req : Request}
  {e : Ending} {n : Nat}

theorem retry_once (hlast : ctx.maxAttempts ≤ s.retries + 1) (hfirst : s'.retries = 0) :
    SameTurn s.retries (ctx.retry s) (ctx.once.retry s') := by
  have hone : ¬s'.retries + 1 < ctx.once.maxAttempts := by
    rw [hfirst]
    exact Nat.lt_irrefl 1
  rw [retry, retry, if_neg (Nat.not_lt.mpr hlast), if_neg hone]
  exact .going (by dsimp only; omega)

theorem replay_once (hfirst : s'.retries = 0) (r : Round) :
    SameTurn s.retries (ctx.replay s r) (ctx.once.replay s' r) := by
  show SameTurn _ (ctx.replay s r) (ctx.replay s' r)
  unfold replay
  split
  next => exact .endWith _ _ _
  next => exact .going (by omega)
  next => exact .blocked

theorem answer_once (hreq : s.originalReq = s'.originalReq) (url : Str) (resp : Response)
    (r : Round) : ctx.once.answer s' url resp r = ctx.answer s url resp r := by
  have hstore : ctx.once.store s' url resp r = ctx.store s url resp r := by
    unfold store
    rw [hreq]
    rfl
  unfold answer
  rw [hstore]
  rfl

/-- The last attempt of a loop settles its outcome as a single attempt does. -/
theorem settle_once (hreq : s.originalReq = s'.originalReq) (hfirst : s'.retries = 0)
    (hlast : ctx.retried r = true → ctx.maxAttempts ≤ s.retries + 1) (url : Str) :
    SameTurn s.retries (ctx.settle s url r).2.1 (ctx.once.settle s' url r).2.1 ∧
      (ctx.once.settle s' url r).2.2 = (ctx.settle s url r).2.2 := by
  have hone : ¬s'.retries + 1 < ctx.once.maxAttempts := by
    rw [hfirst]
    exact Nat.lt_irrefl 1
  unfold settle
  unfold retried at hlast
  generalize r.outcome = outcome at hlast ⊢
  cases outcome with
  | response resp =>
    dsimp only at hlast ⊢
    split
    next hstatus => exact ⟨retry_once (hlast (by simpa using hstatus)) hfirst, rfl⟩
    next =>
      have hkept : ctx.once.selected.responseTransforms = ctx.selected.responseTransforms := rfl
      rw [hkept]
      split
      next => exact ⟨replay_once hfirst r, rfl⟩
      next =>
        rw [answer_once hreq]
        refine ⟨?_, rfl⟩
        rcases ctx.answer_cases s url (resp.applyTransforms ctx.selected.responseTransforms) r with
          ⟨resp', h⟩ | ⟨p, h⟩
        · rw [h]
          exact .ended _
        · rw [h]
          exact .ended _
  | failed err =>
    have hspent : ¬s.retries + 1 < ctx.maxAttempts := Nat.not_lt.mpr (hlast rfl)
    dsimp only
    rw [if_neg hspent, if_neg hone]
    exact ⟨.reported _ _ _ _, rfl⟩
  | timedOut =>
    dsimp only at hlast ⊢
    by_cases hlate : r.elapsed ≥ fromSecs ctx.selected.targetTimeout
    · have hlate' : r.elapsed ≥ fromSecs ctx.once.selected.targetTimeout := hlate
      rw [if_pos hlate, if_pos hlate']
      exact ⟨.reported _ _ _ _, rfl⟩
    · have hearly : r.elapsed < fromSecs ctx.selected.targetTimeout := Nat.not_le.mp hlate
      have hearly' : ¬r.elapsed ≥ fromSecs ctx.once.selected.targetTimeout := hlate
      have hspent : ¬s.retries + 1 < ctx.maxAttempts :=
        Nat.not_lt.mpr (hlast (by simpa using hearly))
      rw [if_neg hlate, if_neg hearly', if_neg hspent, if_neg hone]
      exact ⟨.reported _ _ _ _, rfl⟩

/-- Whether a request can be rebuilt, and how it fails, does not depend on its body. -/
theorem rebuildRequest_congr {parser : UriParser} {original original' : Request} {url : Str}
    {len : Nat} {clientIp : SocketAddr} (h : original.bodyRead = original'.bodyRead) :
    (∃ p, rebuildRequest parser original url len clientIp = .error p ∧
      rebuildRequest parser original' url len clientIp = .error p) ∨
    ∃ out out', rebuildRequest parser original url len clientIp = .ok (out, original.bodyRead) ∧
      rebuildRequest parser original' url len clientIp = .ok (out', original.bodyRead) := by
  have huri := congrArg Request.uri h
  have hheaders := congrArg Request.headers h
  change original.uri = original'.uri at huri
  change original.headers = original'.headers at hheaders
  have hfails : ∀ {p : Panic}, rebuildRequest parser original url len clientIp = .error p →
      rebuildRequest parser original' url len clientIp = .error p := by
    intro p hp
    unfold rebuildRequest at hp ⊢
    rw [← huri, ← hheaders]
    cases hbuilt : rebuildUri parser original.uri url len with
    | error p' =>
      rw [hbuilt] at hp
      exact hp
    | ok uri =>
      rw [hbuilt] at hp
      cases hmade : rebuildHeaders original.headers uri.authority clientIp with
      | error p' =>
        simp only [hmade, bind, Except.bind] at hp ⊢
        exact hp
      | ok headers => simp [hmade, bind, Except.bind] at hp
  cases hout : rebuildRequest parser original url len clientIp with
  | error p => exact .inl ⟨p, rfl, hfails hout⟩
  | ok out =>
    obtain ⟨uri, hbuilt, hrest⟩ := bind_eq_ok.mp hout
    obtain ⟨headers, hmade, _⟩ := bind_eq_ok.mp hrest
    rw [huri] at hbuilt
    rw [hheaders] at hmade
    obtain ⟨out', hout'⟩ : ∃ out', rebuildRequest parser original' url len clientIp = .ok out' :=
      ⟨_, bind_eq_ok.mpr ⟨uri, hbuilt, bind_eq_ok.mpr ⟨headers, hmade, rfl⟩⟩⟩
    have hleft := (rebuildRequest_ok hout).2.2
    have hleft' := (rebuildRequest_ok hout').2.2
    exact .inr ⟨out.1, out'.1, by rw [← hleft], by rw [h, ← hleft', hout']⟩

/-- An attempt panics before it sends anything as a single one does, or both settle the outcome. -/
theorem attempt_once (hreq : t.originalReq.bodyRead = req.bodyRead) (r : Round) :
    (∃ p, (ctx.attempt t r).next = .ended (.panicked p) ∧
      (ctx.once.attempt (LoopState.start req) r).next = .ended (.panicked p) ∧
      (ctx.attempt t r).caches = (ctx.once.attempt (LoopState.start req) r).caches) ∨
    ∃ url, ((ctx.attempt t r).next, (ctx.attempt t r).caches) = (ctx.settle t.bodyRead url r).2 ∧
      ((ctx.once.attempt (LoopState.start req) r).next,
        (ctx.once.attempt (LoopState.start req) r).caches) =
          (ctx.once.settle (LoopState.start req).bodyRead url r).2 := by
  have hsame : ctx.once.attemptUrl r = ctx.attemptUrl r := rfl
  unfold attempt
  rw [hsame]
  split
  next balancer p _ => exact .inl ⟨p, rfl, rfl, rfl⟩
  next balancer url _ =>
    have hparts : ctx.once.crates = ctx.crates ∧ ctx.once.clientIp = ctx.clientIp ∧
        ctx.once.selected.targetUrlLen = ctx.selected.targetUrlLen := ⟨rfl, rfl, rfl⟩
    rw [hparts.1, hparts.2.1, hparts.2.2]
    have hstart : t.originalReq.bodyRead = (LoopState.start req).originalReq.bodyRead := hreq
    rcases rebuildRequest_congr hstart with ⟨p, hp, hp'⟩ | ⟨out, out', hout, hout'⟩
    · rw [hp, hp']
      exact .inl ⟨p, rfl, rfl, rfl⟩
    · rw [hout, hout']
      refine .inr ⟨url, rfl, ?_⟩
      rw [hreq]
      rfl

theorem turn_of_lt (hlt : t.retries < ctx.maxAttempts) (r : Round) :
    ctx.turn t r = ctx.attempt t r := if_pos hlt

theorem turn_start_once (req : Request) (r : Round) :
    ctx.once.turn (LoopState.start req) r = ctx.once.attempt (LoopState.start req) r :=
  if_pos Nat.zero_lt_one

/-- The last attempt of a loop does what a single attempt does. -/
theorem turn_once (hlt : t.retries < ctx.maxAttempts)
    (hreq : t.originalReq.bodyRead = req.bodyRead)
    (hlast : ctx.retried r = true → ctx.maxAttempts ≤ t.retries + 1) :
    SameTurn t.retries (ctx.turn t r).next (ctx.once.turn (LoopState.start req) r).next ∧
      (ctx.once.turn (LoopState.start req) r).caches = (ctx.turn t r).caches := by
  rw [turn_of_lt hlt, turn_start_once]
  rcases attempt_once hreq r with ⟨p, hp, hp', hcaches⟩ | ⟨url, hsettle, hsettle'⟩
  · rw [hp, hp']
    exact ⟨.ended _, hcaches.symm⟩
  · have hread : t.bodyRead.originalReq = (LoopState.start req).bodyRead.originalReq := hreq
    have hfirst : (LoopState.start req).bodyRead.retries = 0 := rfl
    obtain ⟨hsame, hcaches⟩ := settle_once hread hfirst hlast url
    rw [← hsettle, ← hsettle'] at hsame hcaches
    exact ⟨hsame, hcaches⟩

/-- An attempt that may be followed by another one ends the loop by a panic: of its request, as a
single attempt does, or of the delay behind it. -/
theorem ended_of_retried (hlt : t.retries + 1 < ctx.maxAttempts)
    (hreq : t.originalReq.bodyRead = req.bodyRead) (hretried : ctx.retried r = true)
    (h : (ctx.turn t r).next = .ended e) :
    ((ctx.once.turn (LoopState.start req) r).next = .ended e ∧
      (ctx.once.turn (LoopState.start req) r).caches = (ctx.turn t r).caches) ∨
    ∃ p, ctx.selected.retryStrategy.delay t.delays = .error p ∧ e = .panicked p := by
  have hattempt : ctx.turn t r = ctx.attempt t r := turn_of_lt (by omega) r
  rw [hattempt] at h
  rw [hattempt, turn_start_once]
  rcases attempt_once hreq r with ⟨p, hp, hp', hcaches⟩ | ⟨url, hsettle, _⟩
  · rw [hp] at h
    exact .inl ⟨hp'.trans h, hcaches.symm⟩
  · have hnext : (ctx.settle t.bodyRead url r).2.1 = .ended e := by
      rw [← hsettle]
      exact h
    rcases ctx.settle_cases t.bodyRead url r with ⟨_, _, hretry⟩ | ⟨_, hnot, _⟩ | ⟨_, hnot, _⟩ |
      ⟨_, hspent, _⟩
    · rcases ctx.retry_cases t.bodyRead with ⟨_, d, hd⟩ | ⟨_, p, hp, hpanic⟩
      · cases (hd.symm.trans hretry.symm).trans hnext
      · cases (hpanic.symm.trans hretry.symm).trans hnext
        exact .inr ⟨p, hp, rfl⟩
    · cases hnot.symm.trans hretried
    · cases hnot.symm.trans hretried
    · have hle : ctx.maxAttempts ≤ t.retries + 1 := hspent hretried
      omega

end LoopContext

/-- Retries leave no trace in the reply: a loop that has ended has done so as one does that makes a
single attempt and meets the rounds from one of its attempts on, with the same in the caches; unless
a delay could not be computed. -/
theorem retries_leave_no_trace {ctx : LoopContext} {rounds : Nat → Round} {req : Request}
    {e : Ending} {n : Nat} (hmax : 0 < ctx.maxAttempts)
    (h : ctx.after (LoopState.start req) rounds n = .ended e) :
    ∃ k < n, ∃ t, ctx.after (LoopState.start req) rounds k = .going t ∧
      ((ctx.once.after (LoopState.start req) (fun i => rounds (k + i)) 2 = .ended e ∧
        (ctx.once.turn (LoopState.start req) (rounds k)).caches =
          (ctx.turn t (rounds k)).caches) ∨
        ∃ p, ctx.selected.retryStrategy.delay t.delays = .error p ∧ e = .panicked p) := by
  obtain ⟨k, hk, t, ht, hturn⟩ := LoopContext.turn_of_ended h
  have honce : ∀ {k : Nat} {e : Ending},
      (ctx.once.turn (LoopState.start req) (rounds k)).next = .ended e →
      ctx.once.after (LoopState.start req) (fun i => rounds (k + i)) 2 = .ended e := by
    intro k e hended
    simp only [LoopContext.after, Nat.add_zero, hended]
  by_cases hlt : t.retries < ctx.maxAttempts
  · refine ⟨k, hk, t, ht, ?_⟩
    have hreq : t.originalReq.bodyRead = req.bodyRead := LoopContext.originalReq_of_after ht
    by_cases hagain : ctx.retried (rounds k) = true ∧ t.retries + 1 < ctx.maxAttempts
    · rcases LoopContext.ended_of_retried hagain.2 hreq hagain.1 hturn with
        ⟨hended, hcaches⟩ | hdelay
      · exact .inl ⟨honce hended, hcaches⟩
      · exact .inr hdelay
    · obtain ⟨hsame, hcaches⟩ := LoopContext.turn_once hlt hreq fun hretried =>
        Nat.not_lt.mp fun hmore => hagain ⟨hretried, hmore⟩
      rw [hturn] at hsame
      refine .inl ⟨honce ?_, hcaches⟩
      generalize (ctx.once.turn (LoopState.start req) (rounds k)).next = next at hsame ⊢
      cases hsame with
      | ended => rfl
  · -- The retries are spent: the attempt before has spent the last one.
    have hge := Nat.not_lt.mp hlt
    cases k with
    | zero =>
      cases ht
      exact absurd hmax hlt
    | succ k =>
      obtain ⟨u, hu, hgoing⟩ := LoopContext.after_succ_going ht
      obtain ⟨hlt', hcases⟩ := LoopContext.going_cases hgoing
      have hreq : u.originalReq.bodyRead = req.bodyRead := LoopContext.originalReq_of_after hu
      rcases hcases with ⟨_, _, d, rfl⟩ | ⟨_, _, _, rfl⟩
      · have hlast : ctx.maxAttempts ≤ u.retries + 1 := hge
        obtain ⟨hsame, hcaches⟩ := LoopContext.turn_once hlt' hreq fun _ => hlast
        refine ⟨k, by omega, u, hu, .inl ⟨?_, hcaches⟩⟩
        rw [hgoing] at hsame
        generalize hnext : (ctx.once.turn (LoopState.start req) (rounds k)).next = next at hsame
        cases hsame with
        | @going _ s' hretries =>
          have hspent : ctx.once.maxAttempts ≤ s'.retries := by
            have hone : u.retries + 1 = u.retries + s'.retries := hretries
            show 1 ≤ s'.retries
            omega
          have hended := (LoopContext.turn_of_spent (r := rounds (k + 1)) hspent).1
          have hended' := (LoopContext.turn_of_spent (r := rounds (k + 1)) hge).1
          simp only [LoopContext.after, Nat.add_zero, hnext]
          rw [hended, ← hended', hturn]
      · exact absurd hlt' hlt

/-- A refused connection and then an answer: the reply is that of a single attempt. -/
theorem retries_leave_no_trace_refused_once :
    ∃ (proxy : Proxy) (env : Surroundings) (ctx : LoopContext) (req : Request) (resp : Response)
      (k : Nat),
    Proxy.ofConfig plainCrates twoAttemptsConfig = .ok proxy ∧
    env.targetOrder = proxy.targetMap.entries ∧
    proxy.begin env (plainRequest "/api/users".toList [] []) =
      .going (ctx, LoopState.start req) ∧
    (env.rounds 0).outcome = .failed "connection refused" ∧
    ctx.after (LoopState.start req) env.rounds 2 = .ended (.upstream resp) ∧ k < 2 ∧
    ctx.once.after (LoopState.start req) (fun i => env.rounds (k + i)) 2 =
      .ended (.upstream resp) := by
  have htrace : ∃ (proxy : Proxy) (env : Surroundings) (ctx : LoopContext) (req : Request)
      (resp : Response), Proxy.ofConfig plainCrates twoAttemptsConfig = .ok proxy ∧
      env.targetOrder = proxy.targetMap.entries ∧
      proxy.begin env (plainRequest "/api/users".toList [] []) =
        .going (ctx, LoopState.start req) ∧
      (env.rounds 0).outcome = .failed "connection refused" ∧ ctx.maxAttempts = 2 ∧
      ctx.after (LoopState.start req) env.rounds 2 = .ended (.upstream resp) :=
    ⟨_, plainSurroundings _ (fun n => if n = 0 then plainRound (.failed "connection refused")
        else plainRound (.response ⟨200, [], Body.empty⟩)), _, _, _, rfl, rfl, rfl, rfl, rfl, rfl⟩
  obtain ⟨proxy, env, ctx, req, resp, hproxy, horder, hbegin, hfirst, hattempts, hended⟩ := htrace
  have hmax : 0 < ctx.maxAttempts := by omega
  obtain ⟨k, hk, t, _, ⟨honce, _⟩ | ⟨p, _, hpanic⟩⟩ := retries_leave_no_trace hmax hended
  · exact ⟨proxy, env, ctx, req, resp, k, hproxy, horder, hbegin, hfirst, hended, hk, honce⟩
  · cases hpanic

end Road7
