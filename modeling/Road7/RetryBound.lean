import Road7.PlainProxy
import Road7.RetryTurn

namespace Road7

theorem length_filterMap_range_le {α : Type} {f : Nat → Option α} {m : Nat}
    (h : ∀ i, m ≤ i → f i = none) (n : Nat) : ((List.range n).filterMap f).length ≤ m := by
  have hmin : ((List.range n).filterMap f).length ≤ min n m := by
    induction n with
    | zero => simp
    | succ n ih =>
      rw [List.range_succ, List.filterMap_append, List.length_append]
      rcases Nat.lt_or_ge n m with hn | hn
      · have hone : ([n].filterMap f).length ≤ 1 := List.length_filterMap_le f [n]
        omega
      · simp only [List.filterMap_cons, h n hn, List.filterMap_nil, List.length_nil]
        omega
  omega

namespace LoopContext

variable {ctx : LoopContext} {s t : LoopState} {r : Round} {rounds : Nat → Round} {req : Request}

/-- A 304 that the loop passes over: the caches hold nothing for the request. -/
def passesOver (ctx : LoopContext) (r : Round) : Bool :=
  r.isNotModified && findCached r.caches ctx.cacheKey ctx.cacheKey r.now = .miss

/-- A 304 for which the caches hold nothing, or nothing that has not expired. -/
def unanswered (ctx : LoopContext) (r : Round) : Bool :=
  r.isNotModified && !(findCached r.caches ctx.cacheKey ctx.cacheKey r.now matches .hit _)

theorem retries_of_turn_going (h : (ctx.turn s r).next = .going t) :
    s.retries < ctx.maxAttempts ∧
      t.retries = if ctx.passesOver r then s.retries else s.retries + 1 := by
  obtain ⟨hlt, ⟨hretried, _, d, rfl⟩ | ⟨hmod, hmiss, _, rfl⟩⟩ := going_cases h
  · simp [hlt, passesOver, isNotModified_of_retried hretried]
  · simp [hlt, passesOver, hmod, hmiss]

theorem unanswered_of_turn_blocked (h : (ctx.turn s r).next = .blocked) :
    s.retries < ctx.maxAttempts ∧ ctx.unanswered r = true := by
  have ho := ctx.turn_outcome s r
  rw [h] at ho
  generalize (ctx.turn s r).report = report at ho
  cases ho with
  | blocked hlt _ _ hmod hblocked => exact ⟨hlt, by simp [unanswered, hmod, hblocked]⟩

/-- At the loop head every turn so far is a counted retry or a 304 passed over. -/
theorem retries_add_passedOver {n : Nat}
    (h : ctx.after (LoopState.start req) rounds n = .going t) :
    t.retries ≤ ctx.maxAttempts ∧
      t.retries + (List.range n).countP (fun i => ctx.passesOver (rounds i)) = n := by
  induction n generalizing t with
  | zero =>
    simp only [after, Progress.going.injEq] at h
    simp [← h, LoopState.start]
  | succ n ih =>
    obtain ⟨u, hu, hturn⟩ := after_succ_going h
    obtain ⟨hlt, ht⟩ := retries_of_turn_going hturn
    have hcount := (ih hu).2
    rw [List.range_succ, List.countP_append, List.countP_singleton]
    split at ht <;> simp_all <;> omega

/-- A run of the loop that has passed over a 304 and is not over after `max_attempts` turns
makes an attempt more than it is allowed. -/
theorem extra_attempt_of_passedOver {i : Nat} (hi : i < ctx.maxAttempts)
    (hpass : ctx.passesOver (rounds i) = true)
    (h : ctx.after (LoopState.start req) rounds ctx.maxAttempts = .going t) :
    t.retries < ctx.maxAttempts := by
  have hcount := (retries_add_passedOver h).2
  have hpos : 0 < (List.range ctx.maxAttempts).countP (fun i => ctx.passesOver (rounds i)) :=
    List.countP_pos_iff.mpr ⟨i, List.mem_range.mpr hi, hpass⟩
  omega

theorem not_passesOver_of_answered (h : ctx.unanswered r = false) : ctx.passesOver r = false := by
  cases hmod : r.isNotModified with
  | false => simp [passesOver, hmod]
  | true =>
    cases hfind : findCached r.caches ctx.cacheKey ctx.cacheKey r.now <;>
      simp_all [passesOver, unanswered]

theorem going_forever (h : (ctx.turn s r).next = .going s)
    (hsent : (ctx.turn s r).sent.isSome = true) (n : Nat) : ctx.after s (fun _ => r) n = .going s ∧
      (ctx.sent s (fun _ => r) n).length = n := by
  have hafter : ∀ n, ctx.after s (fun _ => r) n = .going s := by
    intro n
    induction n with
    | zero => rfl
    | succ n ih => simp [after, ih, h]
  obtain ⟨req, hreq⟩ := Option.isSome_iff_exists.mp hsent
  refine ⟨hafter n, ?_⟩
  have hat : ctx.sentAt s (fun _ => r) = some ∘ fun _ => req := by
    funext n
    simp [sentAt, hafter, hreq]
  rw [sent, hat, List.filterMap_eq_map, List.length_map, List.length_range]

/-- Every 304 that the loop comes to finds a live entry in the caches. -/
def Answered (ctx : LoopContext) (req : Request) (rounds : Nat → Round) : Prop :=
  ∀ n < ctx.maxAttempts, ∀ s, ctx.after (LoopState.start req) rounds n = .going s →
    ctx.unanswered (rounds n) = false

/-- Without a passed over 304 the loop head is reached for the n-th time after n retries. -/
theorem retries_eq_of_answered (h : ctx.Answered req rounds)
    {n : Nat} (hn : ctx.after (LoopState.start req) rounds n = .going t) :
    t.retries = n ∧ n ≤ ctx.maxAttempts := by
  induction n generalizing t with
  | zero =>
    simp only [after, Progress.going.injEq] at hn
    simp [← hn, LoopState.start]
  | succ n ih =>
    obtain ⟨u, hu, hturn⟩ := after_succ_going hn
    obtain ⟨hlt, ht⟩ := retries_of_turn_going hturn
    have hretries := (ih hu).1
    have hpass := not_passesOver_of_answered (h n (by omega) u hu)
    simp only [hpass, Bool.false_eq_true, if_false] at ht
    omega

theorem not_blocked_of_answered (h : ctx.Answered req rounds) (n : Nat) :
    ctx.after (LoopState.start req) rounds n ≠ .blocked := by
  induction n with
  | zero => simp [after]
  | succ n ih =>
    intro hb
    simp only [after] at hb
    split at hb
    next u hu =>
      have hretries := retries_eq_of_answered h hu
      obtain ⟨hlt, hun⟩ := unanswered_of_turn_blocked hb
      simp [h n (by omega) u hu] at hun
    next => exact ih hb

end LoopContext

/-- Where every 304 that the loop comes to finds a live entry in the caches, the loop ends, whatever
the outcomes are, and sends at most `max_attempts` requests. -/
theorem retry_loop_bounded {ctx : LoopContext} {rounds : Nat → Round} {req : Request}
    (h : ctx.Answered req rounds) :
    (∃ n e, ctx.after (LoopState.start req) rounds n = .ended e) ∧
      ∀ n, (ctx.sent (LoopState.start req) rounds n).length ≤ ctx.maxAttempts := by
  constructor
  · refine ⟨ctx.maxAttempts + 1, ?_⟩
    cases hend : ctx.after (LoopState.start req) rounds (ctx.maxAttempts + 1) with
    | ended e => exact ⟨e, rfl⟩
    | blocked => exact absurd hend (LoopContext.not_blocked_of_answered h _)
    | going t =>
      have hle := (LoopContext.retries_eq_of_answered h hend).2
      omega
  · refine length_filterMap_range_le fun i hi => ?_
    unfold LoopContext.sentAt
    split
    next t ht =>
      have hretries := LoopContext.retries_eq_of_answered h ht
      rcases ctx.turn_cases t (rounds i) with ⟨_, hsent, _⟩ | ⟨_, _, hsent, _⟩ | ⟨hlt, _⟩
      · exact hsent
      · exact hsent
      · omega
    next => rfl

theorem retry_loop_bounded_plain_reply : ∃ proxy : Proxy, ∃ env : Surroundings, ∃ ctx s,
    Proxy.ofConfig plainCrates
      (plainConfig [plainTarget "/api".toList ["http://localhost:5001".toList]]) = .ok proxy ∧
    env.targetOrder = proxy.targetMap.entries ∧
    proxy.begin env (plainRequest "/api/users".toList [] []) = .going (ctx, s) ∧
    (∃ n e, ctx.after s env.rounds n = .ended e) ∧
    ∀ n, (ctx.sent s env.rounds n).length ≤ ctx.maxAttempts :=
  ⟨_, plainSurroundings _ (fun _ => plainRound (.response ⟨200, [], Body.empty⟩)), _, _, rfl, rfl,
    rfl, retry_loop_bounded (fun _ _ _ _ => rfl)⟩

/-- An upstream that answers 304 to a request that nothing is cached for is asked for ever. -/
theorem passed_over_304_for_ever : ∃ proxy : Proxy, ∃ env : Surroundings, ∃ ctx s,
    Proxy.ofConfig plainCrates
      (plainConfig [plainTarget "/api".toList ["http://localhost:5001".toList]]) = .ok proxy ∧
    env.targetOrder = proxy.targetMap.entries ∧
    proxy.begin env (plainRequest "/api/users".toList [] []) = .going (ctx, s) ∧
    ctx.maxAttempts = 1 ∧
    ∀ n, ctx.after s env.rounds n = .going s ∧ (ctx.sent s env.rounds n).length = n := by
  refine ⟨_, plainSurroundings _ (fun _ => plainRound (.response ⟨304, [], Body.empty⟩)), _, _, rfl,
    rfl, rfl, rfl, fun n => LoopContext.going_forever ?_ ?_ n⟩
  · rfl
  · rfl

end Road7
