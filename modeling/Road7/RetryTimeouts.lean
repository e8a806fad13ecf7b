import Road7.RetryBound

namespace Road7

/-- When the loop was entered, when turn `n` called `timeout(..)`, and when its outcome was
looked at. -/
structure LoopClock where
  start : Nat
  called : Nat → Nat
  settled : Nat → Nat

/-- The clock never runs back, and `timeout(d, ..)` gives up after `d` at the earliest. -/
structure LoopClock.Times (clock : LoopClock) (ctx : LoopContext) (rounds : Nat → Round) :
    Prop where
  entered : clock.start ≤ clock.called 0
  answered : ∀ n, clock.called n ≤ clock.settled n
  again : ∀ n, clock.settled n ≤ clock.called (n + 1)
  elapsed : ∀ n, (rounds n).elapsed = clock.settled n - clock.start
  timeout : ∀ n, (rounds n).outcome = .timedOut →
    clock.called n + fromSecs ctx.selected.targetTimeout ≤ clock.settled n

/-- A retry status, a transport error, or the timeout of the attempt. -/
def Outcome.retryable : Outcome → Bool
  | .response resp => resp.status ∈ retryStatuses
  | .failed _ => true
  | .timedOut => true

namespace LoopClock.Times

variable {clock : LoopClock} {ctx : LoopContext} {rounds : Nat → Round}

/-- Every turn has begun at or after the entry of the loop, so that an attempt that has timed out
finds the time of the whole loop used up as well. -/
theorem start_le (h : clock.Times ctx rounds) (n : Nat) :
    clock.start ≤ clock.called n := by
  induction n with
  | zero => exact h.entered
  | succ n ih =>
    calc clock.start ≤ clock.called n := ih
      _ ≤ clock.settled n := h.answered n
      _ ≤ clock.called (n + 1) := h.again n

theorem timed_out (h : clock.Times ctx rounds) {n : Nat}
    (hout : (rounds n).outcome = .timedOut) :
    fromSecs ctx.selected.targetTimeout ≤ (rounds n).elapsed := by
  have hstart := h.start_le n
  have htimeout := h.timeout n hout
  rw [h.elapsed n]
  omega

theorem retried_iff (h : clock.Times ctx rounds) (n : Nat) :
    ctx.retried (rounds n) = true ↔
      (rounds n).outcome.retryable = true ∧ (rounds n).outcome ≠ .timedOut := by
  have hlate := h.timed_out (n := n)
  unfold LoopContext.retried Outcome.retryable
  cases hout : (rounds n).outcome with
  | response resp => simp
  | failed err => simp
  | timedOut => simpa using hlate hout

end LoopClock.Times

namespace LoopContext

/-- Every attempt with a retryable outcome is followed by another one as long as fewer than
`max_attempts` have been made. -/
def RetriesFollowed (ctx : LoopContext) (s : LoopState) (rounds : Nat → Round) : Prop :=
  ∀ n, (ctx.sentAt s rounds n).isSome = true → (rounds n).outcome.retryable = true →
    (ctx.sent s rounds (n + 1)).length < ctx.maxAttempts →
      (ctx.sentAt s rounds (n + 1)).isSome = true

/-- No attempt below the limit times out, and behind each that is tried again the delay can be
computed and the next request can be built. -/
def Followable (ctx : LoopContext) (s : LoopState) (rounds : Nat → Round) : Prop :=
  ∀ n t, ctx.after s rounds n = .going t → n + 1 < ctx.maxAttempts → ctx.Sendable t (rounds n) →
    (rounds n).outcome.retryable = true → (rounds n).outcome ≠ .timedOut ∧
      (∃ d, ctx.selected.retryStrategy.delay t.delays = .ok d) ∧
      ctx.Sendable t.bodyRead (rounds (n + 1))

variable {ctx : LoopContext} {s t : LoopState} {r : Round} {rounds : Nat → Round}

theorem sent_isSome_iff : (ctx.turn s r).sent.isSome = true ↔
    s.retries < ctx.maxAttempts ∧ ctx.Sendable s r := by
  rcases ctx.turn_cases s r with ⟨hge, hsent, _⟩ | ⟨_, hsend, hsent, _⟩ |
    ⟨hlt, url, req, hurl, hreq, hsent, _⟩
  · simp [hsent, Nat.not_lt.mpr hge]
  · simp [hsent, hsend]
  · simpa [hsent, hlt] using ⟨url, _, hurl, hreq⟩

theorem sentAt_of_going {n : Nat} (h : ctx.after s rounds n = .going t) :
    ctx.sentAt s rounds n = (ctx.turn t (rounds n)).sent := by
  simp [sentAt, h]

theorem going_of_sentAt {n : Nat} (h : (ctx.sentAt s rounds n).isSome = true) :
    ∃ t, ctx.after s rounds n = .going t := by
  unfold sentAt at h
  split at h
  next t ht => exact ⟨t, ht⟩
  next => simp at h

theorem sentAt_isSome_of_succ {n : Nat} (h : ctx.after s rounds (n + 1) = .going t) :
    (ctx.sentAt s rounds n).isSome = true := by
  obtain ⟨u, hu, hturn⟩ := after_succ_going h
  rw [sentAt_of_going hu]
  rcases ctx.turn_cases u (rounds n) with ⟨_, _, _, e, hend⟩ | ⟨_, _, _, _, p, hend⟩ |
    ⟨_, _, _, _, _, hsent, _⟩
  · simp [hend] at hturn
  · simp [hend] at hturn
  · simp [hsent]

theorem sent_succ_of_isSome {n : Nat} (h : (ctx.sentAt s rounds n).isSome = true) :
    (ctx.sent s rounds (n + 1)).length = (ctx.sent s rounds n).length + 1 := by
  obtain ⟨out, hout⟩ := Option.isSome_iff_exists.mp h
  unfold sent
  rw [List.range_succ, List.filterMap_append, List.length_append]
  simp [hout]

/-- Every turn in front of an attempt has made an attempt as well. -/
theorem length_sent_succ {n : Nat} (hgoing : ctx.after s rounds n = .going t)
    (hsent : (ctx.sentAt s rounds n).isSome = true) :
    (ctx.sent s rounds (n + 1)).length = n + 1 := by
  rw [sent_succ_of_isSome hsent]
  induction n generalizing t with
  | zero => rfl
  | succ n ih =>
    obtain ⟨u, hu, _⟩ := after_succ_going hgoing
    have hbefore := sentAt_isSome_of_succ hgoing
    rw [sent_succ_of_isSome hbefore, ih hu hbefore]

theorem isNotModified_of_retryable {r : Round} (h : r.outcome.retryable = true) :
    r.isNotModified = false := by
  refine Round.isNotModified_eq_false (fun resp hresp => ?_)
  simpa [Outcome.retryable, hresp] using h

/-- Behind a retryable outcome below the limit there is another attempt exactly when it is no
timeout, its delay can be computed, and the next request can be built. -/
theorem followed_iff {n : Nat} (hgoing : ctx.after s rounds n = .going t)
    (hsend : ctx.Sendable t (rounds n)) (hfew : t.retries + 1 < ctx.maxAttempts)
    (hmod : (rounds n).isNotModified = false) :
    (ctx.sentAt s rounds (n + 1)).isSome = true ↔ ctx.retried (rounds n) = true ∧
      (∃ d, ctx.selected.retryStrategy.delay t.delays = .ok d) ∧
      ctx.Sendable t.bodyRead (rounds (n + 1)) := by
  have hafter : ctx.after s rounds (n + 1) = (ctx.turn t (rounds n)).next := by
    simp [after, hgoing]
  have ho := ctx.turn_outcome t (rounds n)
  generalize (ctx.turn t (rounds n)).report = report at ho
  generalize (ctx.turn t (rounds n)).next = next at ho hafter
  cases ho with
  | retried d _ _ hretried hdelay =>
    rw [sentAt_of_going hafter, sent_isSome_iff]
    constructor
    · rintro ⟨_, hnext⟩
      exact ⟨hretried, hdelay hfew, hnext⟩
    · rintro ⟨_, _, hnext⟩
      exact ⟨hfew, hnext⟩
  | exhausted e hge => omega
  | unsendable p _ hnot => exact absurd hsend hnot
  | undelayed p _ _ hp => simp [sentAt, hafter, hp]
  | passedOver _ _ _ hmod' _ => exact absurd (hmod'.symm.trans hmod) (by decide)
  | blocked _ _ hnot => simp [sentAt, hafter, hnot]
  | succeeded e _ hnot => simp [sentAt, hafter, hnot]
  | failed e _ hlast =>
    have hnot : ctx.retried (rounds n) = false := by
      by_contra h
      have hge := hlast (by simpa using h)
      omega
    simp [sentAt, hafter, hnot]

end LoopContext

/-- Every retryable attempt below the limit is followed by another one exactly when none of them
is a timeout and what another attempt takes can be computed. -/
theorem retries_followed_iff {ctx : LoopContext} {rounds : Nat → Round} {clock : LoopClock}
    (hclock : clock.Times ctx rounds) (req : Request) :
    ctx.RetriesFollowed (LoopState.start req) rounds ↔
      ctx.Followable (LoopState.start req) rounds := by
  constructor
  · intro hfollowed n t hgoing hlt hsend hretryable
    have hretries := (LoopContext.retries_add_passedOver hgoing).2
    have hsent : (ctx.sentAt (LoopState.start req) rounds n).isSome = true := by
      rw [LoopContext.sentAt_of_going hgoing, LoopContext.sent_isSome_iff]
      exact ⟨by omega, hsend⟩
    have hfew := LoopContext.length_sent_succ hgoing hsent
    have hnext := hfollowed n hsent hretryable (by omega)
    rw [LoopContext.followed_iff hgoing hsend (by omega)
      (LoopContext.isNotModified_of_retryable hretryable), hclock.retried_iff] at hnext
    exact ⟨hnext.1.2, hnext.2⟩
  · intro hfollowable n hsent hretryable hfew
    obtain ⟨t, hgoing⟩ := LoopContext.going_of_sentAt hsent
    have hretries := (LoopContext.retries_add_passedOver hgoing).2
    rw [LoopContext.length_sent_succ hgoing hsent] at hfew
    rw [LoopContext.sentAt_of_going hgoing, LoopContext.sent_isSome_iff] at hsent
    obtain ⟨hout, hdelay, hnext⟩ := hfollowable n t hgoing hfew hsent.2 hretryable
    rw [LoopContext.followed_iff hgoing hsent.2 (by omega)
      (LoopContext.isNotModified_of_retryable hretryable), hclock.retried_iff]
    exact ⟨⟨hretryable, hout⟩, hdelay, hnext⟩

theorem retries_followed_iff_second_try : ∃ proxy : Proxy, ∃ env : Surroundings, ∃ ctx req,
    Proxy.ofConfig plainCrates
      { plainConfig [plainTarget "/api".toList ["http://localhost:5001".toList]] with
        retries := ⟨"FixedInterval".toList, 1, 3, none, none, none⟩ } = .ok proxy ∧
    env.targetOrder = proxy.targetMap.entries ∧
    proxy.begin env (plainRequest "/api/users".toList [] []) =
      .going (ctx, LoopState.start req) ∧
    (ctx.RetriesFollowed (LoopState.start req) env.rounds ↔
      ctx.Followable (LoopState.start req) env.rounds) :=
  ⟨_, plainSurroundings _ (fun n => plainRound (.response ⟨if n = 0 then 503 else 200, [],
    Body.empty⟩)), _, _, rfl, rfl, rfl,
    retries_followed_iff (⟨Nat.le_refl 0, fun _ => Nat.le_refl 0, fun _ => Nat.le_refl 0,
      fun _ => rfl, fun _ h => by cases h⟩ : LoopClock.Times ⟨0, fun _ => 0, fun _ => 0⟩ _ _) _⟩

/-- Three attempts are allowed, and the first one that times out is the last. -/
theorem timed_out_attempt_not_followed : ∃ proxy : Proxy, ∃ env : Surroundings, ∃ ctx req,
    ∃ clock : LoopClock,
    Proxy.ofConfig plainCrates
      { plainConfig [plainTarget "/api".toList ["http://localhost:5001".toList]] with
        retries := ⟨"FixedInterval".toList, 1, 3, none, none, none⟩ } = .ok proxy ∧
    env.targetOrder = proxy.targetMap.entries ∧
    proxy.begin env (plainRequest "/api/users".toList [] []) =
      .going (ctx, LoopState.start req) ∧
    clock.Times ctx env.rounds ∧ ctx.maxAttempts = 3 ∧ (env.rounds 0).outcome = .timedOut ∧
    ctx.after (LoopState.start req) env.rounds 1 = .ended (.refused .timeout) ∧
    ¬ctx.RetriesFollowed (LoopState.start req) env.rounds := by
  refine ⟨_, plainSurroundings _ (fun n => { plainRound .timedOut with
    elapsed := (n + 1) * fromSecs 30 }), _, _, ⟨0, fun n => n * fromSecs 30,
    fun n => (n + 1) * fromSecs 30⟩, rfl, rfl, rfl, ?_, rfl, rfl, rfl, ?_⟩
  · refine ⟨Nat.zero_le _, fun n => ?_, fun n => Nat.le_refl _, fun n => rfl, fun n _ => ?_⟩
    · exact Nat.mul_le_mul_right _ (Nat.le_succ n)
    · exact Nat.le_of_eq (Nat.succ_mul n _).symm
  · intro hfollowed
    cases hfollowed 0 rfl rfl (by decide)

end Road7
