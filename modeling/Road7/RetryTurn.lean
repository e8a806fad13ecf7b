import Road7.RetryLoop

namespace Road7

def Request.bodyRead (req : Request) : Request := { req with body := Body.empty }

def LoopState.bodyRead (s : LoopState) : LoopState :=
  { s with originalReq := s.originalReq.bodyRead }

@[simp] theorem LoopState.bodyRead_retries (s : LoopState) :
    s.bodyRead.retries = s.retries := rfl

@[simp] theorem LoopState.bodyRead_originalReq (s : LoopState) :
    s.bodyRead.originalReq = s.originalReq.bodyRead := rfl

/-- Rebuilding keeps the method and the version, and reads the body of the original. -/
theorem rebuildRequest_ok {parser : UriParser} {original req original' : Request} {url : Str}
    {len : Nat} {clientIp : SocketAddr}
    (h : rebuildRequest parser original url len clientIp = .ok (req, original')) :
    rebuildUri parser original.uri url len = .ok req.uri ∧
      req.body = Body.ofBytes (original.body.toBytes.1.getD []) ∧
      original' = original.bodyRead := by
  obtain ⟨uri, huri, h⟩ := bind_eq_ok.mp h
  obtain ⟨headers, _, h⟩ := bind_eq_ok.mp h
  obtain ⟨rfl, rfl⟩ := Prod.mk.inj (Except.ok.inj h)
  exact ⟨huri, rfl, rfl⟩

def Round.isNotModified (r : Round) : Bool :=
  match r.outcome with
  | .response resp => resp.status = notModified
  | _ => false

/-- A status that is tried again is not the 304. -/
theorem Round.isNotModified_eq_false {r : Round}
    (h : ∀ resp, r.outcome = .response resp → resp.status ∈ retryStatuses) :
    r.isNotModified = false := by
  unfold Round.isNotModified
  split
  next resp hresp =>
    have hstatus : resp.status ≠ notModified := by
      intro hn
      simpa [hn, retryStatuses, notModified] using h resp hresp
    simpa using hstatus
  next => rfl

/-- A request that reports a failure ends, with the error reply or a panic. -/
theorem Round.reported_ended (r : Round) (report : Report) (err : ProxyError) :
    ∃ e, r.reported report err = .ended e ∧ (e = .refused err ∨ e = .panicked .overflow) := by
  unfold Round.reported
  split
  next => exact ⟨_, rfl, .inr rfl⟩
  next => exact ⟨_, rfl, .inl rfl⟩

@[simp] theorem Round.reported_ne_going (r : Round) (report : Report) (err : ProxyError)
    (t : LoopState) : r.reported report err ≠ .going t := by
  obtain ⟨e, hended, _⟩ := r.reported_ended report err
  simp [hended]

@[simp] theorem Round.reported_ne_upstream (r : Round) (report : Report) (err : ProxyError)
    (resp : Response) : r.reported report err ≠ .ended (.upstream resp) := by
  obtain ⟨e, hended, rfl | rfl⟩ := r.reported_ended report err <;> simp [hended]

namespace LoopContext

/-- The outcome is one of those that are tried again while attempts are left. -/
def retried (ctx : LoopContext) (r : Round) : Bool :=
  match r.outcome with
  | .response resp => resp.status ∈ retryStatuses
  | .failed _ => true
  | .timedOut => r.elapsed < fromSecs ctx.selected.targetTimeout

/-- The request of an attempt can be built: there is a url, and the URI and the headers that
come out of it are valid. -/
def Sendable (ctx : LoopContext) (s : LoopState) (r : Round) : Prop :=
  ∃ url out, (ctx.attemptUrl r).2 = .ok url ∧ rebuildRequest ctx.crates.uriParser s.originalReq
    url ctx.selected.targetUrlLen ctx.clientIp = .ok out

/-- A turn gets as far as a report or another turn: an attempt can be built, and a delay that
is slept can be computed. -/
def Delivers (ctx : LoopContext) (s : LoopState) (r : Round) : Prop :=
  s.retries < ctx.maxAttempts → ctx.Sendable s r ∧
    (ctx.retried r = true → s.retries + 1 < ctx.maxAttempts →
      ∃ delay, ctx.selected.retryStrategy.delay s.delays = .ok delay)

theorem retry_cases (ctx : LoopContext) (s : LoopState) :
    ((s.retries + 1 < ctx.maxAttempts →
        ∃ delay, ctx.selected.retryStrategy.delay s.delays = .ok delay) ∧
      ∃ d, ctx.retry s = .going { s with retries := s.retries + 1, delays := d }) ∨
    (s.retries + 1 < ctx.maxAttempts ∧ ∃ p, ctx.selected.retryStrategy.delay s.delays = .error p ∧
      ctx.retry s = .ended (.panicked p)) := by
  unfold retry
  split
  next hlt =>
    split
    next delay hdelay => exact .inl ⟨fun _ => ⟨delay, hdelay⟩, _, rfl⟩
    next p hp => exact .inr ⟨hlt, p, hp, rfl⟩
  next hge => exact .inl ⟨fun hlt => absurd hlt hge, s.delays, rfl⟩

/-- A 304 is answered from the cache, blocks on an expired entry, or is passed over. -/
theorem replay_cases (ctx : LoopContext) (s : LoopState) (r : Round) :
    (∃ entry, findCached r.caches ctx.cacheKey ctx.cacheKey r.now = .hit entry ∧
      ((∃ resp, ctx.replay s r = .ended (.cached resp)) ∨
        ∃ p, ctx.replay s r = .ended (.panicked p))) ∨
    (findCached r.caches ctx.cacheKey ctx.cacheKey r.now = .miss ∧ ctx.replay s r = .going s) ∨
    (findCached r.caches ctx.cacheKey ctx.cacheKey r.now = .blocked ∧ ctx.replay s r = .blocked) := by
  unfold replay
  split
  next entry h => exact .inl ⟨entry, h, Progress.endWith_cases _ _⟩
  next h => exact .inr (.inl ⟨h, rfl⟩)
  next h => exact .inr (.inr ⟨h, rfl⟩)

theorem answer_cases (ctx : LoopContext) (s : LoopState) (url : Str) (resp : Response)
    (r : Round) : (∃ resp', (ctx.answer s url resp r).1 = .ended (.upstream resp')) ∨
      ∃ p, (ctx.answer s url resp r).1 = .ended (.panicked p) := by
  unfold answer
  split
  next => exact Progress.endWith_cases _ _
  next p _ _ => exact .inr ⟨p, rfl⟩

theorem settle_cases (ctx : LoopContext) (s : LoopState) (url : Str) (r : Round) :
    ((ctx.settle s url r).1 = none ∧ ctx.retried r = true ∧
      (ctx.settle s url r).2.1 = ctx.retry s) ∨
    ((ctx.settle s url r).1 = some .success ∧ ctx.retried r = false ∧ r.isNotModified = true ∧
      (ctx.settle s url r).2.1 = ctx.replay s r) ∨
    ((ctx.settle s url r).1 = some .success ∧ ctx.retried r = false ∧
      ∃ resp, (ctx.settle s url r).2.1 = (ctx.answer s url resp r).1) ∨
    ((ctx.settle s url r).1 = some .failure ∧
      (ctx.retried r = true → ctx.maxAttempts ≤ s.retries + 1) ∧
      ∃ e, (ctx.settle s url r).2.1 = r.reported .failure e) := by
  unfold settle retried Round.isNotModified
  generalize r.outcome = outcome
  cases outcome with
  | response resp =>
    dsimp only
    split
    next hretry => exact .inl ⟨rfl, by simpa using hretry, rfl⟩
    next hretry =>
      split
      next hstatus =>
        exact .inr (.inl ⟨rfl, by simpa using hretry, by simpa using hstatus, rfl⟩)
      next => exact .inr (.inr (.inl ⟨rfl, by simpa using hretry, _, rfl⟩))
  | failed err =>
    dsimp only
    split
    next => exact .inl ⟨rfl, rfl, rfl⟩
    next hge => exact .inr (.inr (.inr ⟨rfl, fun _ => Nat.not_lt.mp hge, _, rfl⟩))
  | timedOut =>
    dsimp only
    split
    next hlate =>
      refine .inr (.inr (.inr ⟨rfl, fun hearly => ?_, _, rfl⟩))
      simp only [decide_eq_true_eq] at hearly
      omega
    next hearly =>
      split
      next => exact .inl ⟨rfl, by simpa using hearly, rfl⟩
      next hge => exact .inr (.inr (.inr ⟨rfl, fun _ => Nat.not_lt.mp hge, _, rfl⟩))

theorem isNotModified_of_retried {ctx : LoopContext} {r : Round} (h : ctx.retried r = true) :
    r.isNotModified = false := by
  refine Round.isNotModified_eq_false (fun resp hresp => ?_)
  simpa [retried, hresp] using h

/-- All that a turn of the loop can do: give up, panic before it has sent anything, or send
a request and settle its outcome. -/
theorem turn_cases (ctx : LoopContext) (s : LoopState) (r : Round) :
    (ctx.maxAttempts ≤ s.retries ∧ (ctx.turn s r).sent = none ∧
      (ctx.turn s r).report = some .exhausted ∧
      ∃ e, (ctx.turn s r).next = r.reported .exhausted e) ∨
    (s.retries < ctx.maxAttempts ∧ ¬ctx.Sendable s r ∧ (ctx.turn s r).sent = none ∧
      (ctx.turn s r).report = none ∧ ∃ p, (ctx.turn s r).next = .ended (.panicked p)) ∨
    (s.retries < ctx.maxAttempts ∧ ∃ url req,
      (ctx.attemptUrl r).2 = .ok url ∧
      rebuildRequest ctx.crates.uriParser s.originalReq url ctx.selected.targetUrlLen
        ctx.clientIp = .ok (req, s.originalReq.bodyRead) ∧
      (ctx.turn s r).sent = some (req.applyTransforms ctx.selected.requestTransforms) ∧
      (ctx.turn s r).report = (ctx.settle s.bodyRead url r).1 ∧
      (ctx.turn s r).next = (ctx.settle s.bodyRead url r).2.1) := by
  unfold turn
  split
  next hlt =>
    refine .inr ?_
    unfold attempt
    split
    next balancer p hp =>
      refine .inl ⟨hlt, ?_, rfl, rfl, p, rfl⟩
      rintro ⟨url, out, hurl, _⟩
      simp [hp] at hurl
    next balancer url hurl =>
      split
      next p hp =>
        refine .inl ⟨hlt, ?_, rfl, rfl, p, rfl⟩
        rintro ⟨url', out, hurl', hout⟩
        simp only [hurl, Except.ok.injEq] at hurl'
        subst hurl'
        simp [hp] at hout
      next req originalReq hreq =>
        obtain ⟨_, _, rfl⟩ := rebuildRequest_ok hreq
        exact .inr ⟨hlt, url, req, by rw [hurl], hreq, rfl, rfl, rfl⟩
  next hge => exact .inl ⟨Nat.not_lt.mp hge, rfl, rfl, _, rfl⟩

/-- The report and the continuation of a turn, with what has led to them. -/
inductive TurnOutcome (ctx : LoopContext) (s : LoopState) (r : Round) :
    Option Report → Progress LoopState → Prop
  | exhausted (e : Ending) : ctx.maxAttempts ≤ s.retries →
      TurnOutcome ctx s r (some .exhausted) (.ended e)
  | unsendable (p : Panic) : s.retries < ctx.maxAttempts → ¬ctx.Sendable s r →
      TurnOutcome ctx s r none (.ended (.panicked p))
  | retried (d : Nat) : s.retries < ctx.maxAttempts → ctx.Sendable s r → ctx.retried r = true →
      (s.retries + 1 < ctx.maxAttempts →
        ∃ delay, ctx.selected.retryStrategy.delay s.delays = .ok delay) →
      TurnOutcome ctx s r none (.going { s.bodyRead with retries := s.retries + 1, delays := d })
  | undelayed (p : Panic) : s.retries + 1 < ctx.maxAttempts → ctx.retried r = true →
      ctx.selected.retryStrategy.delay s.delays = .error p →
      TurnOutcome ctx s r none (.ended (.panicked p))
  | passedOver : s.retries < ctx.maxAttempts → ctx.Sendable s r → ctx.retried r = false →
      r.isNotModified = true → findCached r.caches ctx.cacheKey ctx.cacheKey r.now = .miss →
      TurnOutcome ctx s r (some .success) (.going s.bodyRead)
  | blocked : s.retries < ctx.maxAttempts → ctx.Sendable s r → ctx.retried r = false →
      r.isNotModified = true → findCached r.caches ctx.cacheKey ctx.cacheKey r.now = .blocked →
      TurnOutcome ctx s r (some .success) .blocked
  | succeeded (e : Ending) : ctx.Sendable s r → ctx.retried r = false →
      TurnOutcome ctx s r (some .success) (.ended e)
  | failed (e : Ending) : ctx.Sendable s r →
      (ctx.retried r = true → ctx.maxAttempts ≤ s.retries + 1) →
      TurnOutcome ctx s r (some .failure) (.ended e)

theorem turn_outcome (ctx : LoopContext) (s : LoopState) (r : Round) :
    TurnOutcome ctx s r (ctx.turn s r).report (ctx.turn s r).next := by
  rcases ctx.turn_cases s r with ⟨hge, _, hreport, e, hnext⟩ |
    ⟨hlt, hsend, _, hreport, p, hnext⟩ | ⟨hlt, url, req, hurl, hreq, _, hreport, hnext⟩
  · obtain ⟨ending, hending, _⟩ := r.reported_ended .exhausted e
    rw [hreport, hnext, hending]
    exact .exhausted ending hge
  · rw [hreport, hnext]
    exact .unsendable p hlt hsend
  · have hsend : ctx.Sendable s r := ⟨url, _, hurl, hreq⟩
    rw [hreport, hnext]
    rcases ctx.settle_cases s.bodyRead url r with ⟨hr, hretried, hn⟩ | ⟨hr, hretried, hmod, hn⟩ |
      ⟨hr, hretried, resp, hn⟩ | ⟨hr, hlast, e, hn⟩ <;> rw [hr, hn]
    · rcases ctx.retry_cases s.bodyRead with ⟨hdelay, d, hd⟩ | ⟨hlt', p, hp, hpanic⟩
      · rw [hd]
        exact .retried d hlt hsend hretried hdelay
      · rw [hpanic]
        exact .undelayed p hlt' hretried hp
    · rcases ctx.replay_cases s.bodyRead r with
        ⟨_, _, ⟨_, he⟩ | ⟨_, he⟩⟩ | ⟨hmiss, he⟩ | ⟨hblocked, he⟩ <;> rw [he]
      · exact .succeeded _ hsend hretried
      · exact .succeeded _ hsend hretried
      · exact .passedOver hlt hsend hretried hmod hmiss
      · exact .blocked hlt hsend hretried hmod hblocked
    · rcases ctx.answer_cases s.bodyRead url resp r with ⟨_, he⟩ | ⟨_, he⟩ <;> rw [he]
      · exact .succeeded _ hsend hretried
      · exact .succeeded _ hsend hretried
    · obtain ⟨ending, hending, _⟩ := r.reported_ended .failure e
      rw [hending]
      exact .failed ending hsend hlast

variable {ctx : LoopContext} {s t : LoopState} {r : Round} {rounds : Nat → Round}

/-- A turn that leads to another one counts a retry, or passes over a 304 that nothing is
cached for. -/
theorem going_cases (h : (ctx.turn s r).next = .going t) :
    s.retries < ctx.maxAttempts ∧
    ((ctx.retried r = true ∧ (ctx.turn s r).report = none ∧
        ∃ d, t = { s.bodyRead with retries := s.retries + 1, delays := d }) ∨
      (r.isNotModified = true ∧ findCached r.caches ctx.cacheKey ctx.cacheKey r.now = .miss ∧
        (ctx.turn s r).report = some .success ∧ t = s.bodyRead)) := by
  have ho := ctx.turn_outcome s r
  rw [h] at ho
  generalize (ctx.turn s r).report = report at ho ⊢
  cases ho with
  | retried d hlt _ hretried _ => exact ⟨hlt, .inl ⟨hretried, rfl, d, rfl⟩⟩
  | passedOver hlt _ _ hmod hmiss => exact ⟨hlt, .inr ⟨hmod, hmiss, rfl, rfl⟩⟩

/-- A turn ends a request without a report exactly when it panics on the way to it. -/
theorem report_lost_iff :
    ((ctx.turn s r).report = none ∧ ∃ e, (ctx.turn s r).next = .ended e) ↔ ¬ctx.Delivers s r := by
  have ho := ctx.turn_outcome s r
  generalize (ctx.turn s r).report = report at ho ⊢
  generalize (ctx.turn s r).next = next at ho ⊢
  unfold Delivers
  cases ho with
  | exhausted e hge => simp; omega
  | unsendable p hlt hsend => simp [hlt, hsend]
  | retried d hlt hsend _ hdelay => simp [hsend]; exact fun _ _ => hdelay
  | undelayed p hlt hretried hp => simp [hretried, hlt, hp]; omega
  | passedOver hlt hsend hretried => simp [hsend, hretried]
  | blocked hlt hsend hretried => simp [hsend, hretried]
  | succeeded e hsend hretried => simp [hsend, hretried]
  | failed e hsend hlast =>
    simp only [reduceCtorEq, false_and, false_iff, Classical.not_not]
    exact fun _ => ⟨hsend, fun hretried hlt => absurd (hlast hretried) (by omega)⟩

theorem report_of_not_ended (h : (ctx.turn s r).next.isEnded = false) :
    (ctx.turn s r).report = none ∨ (ctx.turn s r).report = some .success := by
  have ho := ctx.turn_outcome s r
  generalize (ctx.turn s r).report = report at ho ⊢
  generalize (ctx.turn s r).next = next at ho h
  cases ho <;> simp_all [Progress.isEnded]

theorem originalReq_of_turn_going (h : (ctx.turn s r).next = .going t) :
    t.originalReq = s.originalReq.bodyRead := by
  rcases (going_cases h).2 with ⟨_, _, d, rfl⟩ | ⟨_, _, _, rfl⟩ <;> rfl

theorem after_succ_going {n : Nat} (h : ctx.after s rounds (n + 1) = .going t) :
    ∃ u, ctx.after s rounds n = .going u ∧ (ctx.turn u (rounds n)).next = .going t := by
  simp only [after] at h
  split at h
  next u hu => exact ⟨u, hu, h⟩
  next hstop => exact absurd h (hstop t)

end LoopContext

end Road7
