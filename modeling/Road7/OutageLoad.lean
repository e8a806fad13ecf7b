import Road7.BreakerClients
import Road7.OpenPeriod
import Road7.RunTotals

namespace Road7

/-- In time, a report that is no success leaves a breaker as it is, but for its count, or opens it
for a full reset timeout. -/
theorem CircuitBreaker.report_no_success {b : CircuitBreaker} {r : Report} {now : Nat}
    (hr : r ≠ .success) (hnow : now + b.resetTimeout < instantEnd) :
    ((b.report r now).state = b.state ∧ (b.report r now).openUntil = b.openUntil ∧
        (b.report r now).halfOpenAttempts = b.halfOpenAttempts) ∨
      ((b.report r now).state = .open ∧ (b.report r now).openUntil = now + b.resetTimeout) := by
  have hfailure : ((b.recordFailure now).state = b.state ∧
        (b.recordFailure now).openUntil = b.openUntil ∧
        (b.recordFailure now).halfOpenAttempts = b.halfOpenAttempts) ∨
      ((b.recordFailure now).state = .open ∧
        (b.recordFailure now).openUntil = now + b.resetTimeout) := by
    rcases Nat.lt_or_ge (b.failureCount + 1) b.maxFailures with hlt | hge
    · exact .inl (recordFailure_below now hlt)
    · exact .inr ⟨recordFailure_opens now hge, (recordFailure_in_time hge hnow).1⟩
  cases r with
  | success => exact absurd rfl hr
  | failure => exact hfailure
  | exhausted =>
    dsimp only [report]
    split
    next =>
      have hnow' : now + (b.recordFailure now).resetTimeout < instantEnd := by
        rw [recordFailure_resetTimeout]
        exact hnow
      exact .inr ⟨transitionToOpen_state _ _, by
        rw [transitionToOpen_of_lt hnow', recordFailure_resetTimeout]⟩
    next => exact hfailure

/-- The upstream requests that a request can still make. -/
def Stage.credit : Stage → Nat
  | .admitted ctx _ => ctx.maxAttempts
  | .looping ctx s => ctx.maxAttempts - s.retries
  | .blocked => 0

namespace BreakerClients

variable {c d : BreakerClients} {e : ClientEvent} {es : List ClientEvent}
  {ctx : LoopContext} {s : LoopState} {r : Round} {running : List Stage} {stage : Stage}
  {m i now reset slots n : Nat}

def admits (c : BreakerClients) : ClientEvent → Nat
  | .arrive _ _ now => if (c.breaker.canAttempt now).1 then 1 else 0
  | _ => 0

/-- The upstream request that a step sends. -/
def sends (c : BreakerClients) : ClientEvent → Nat
  | .turn i r _ =>
    match c.running[i]? with
    | some (.looping ctx s) => if (ctx.turn s r).sent.isSome then 1 else 0
    | _ => 0
  | _ => 0

/-- The step reports no success, and no request that comes may make more than `m` attempts. -/
def Outage (m : Nat) (c : BreakerClients) : ClientEvent → Prop
  | .arrive ctx _ _ => ctx.maxAttempts ≤ m
  | .prepare _ _ _ => True
  | .turn i r _ => ∀ ctx s, c.running[i]? = some (.looping ctx s) →
      (ctx.turn s r).report ≠ some .success

/-- How the breaker and its requests get from state to state. -/
inductive Moves (c : BreakerClients) : ClientEvent → BreakerClients → Prop
  | arrive {ctx : LoopContext} {req : Request} {now : Nat} :
      Moves c (.arrive ctx req now) ⟨(c.breaker.canAttempt now).2,
        if (c.breaker.canAttempt now).1 then .admitted ctx req :: c.running else c.running, now⟩
  | prepare {i : Nat} {ctx : LoopContext} {req : Request} {caches : Caches} {now : Nat} :
      c.running[i]? = some (.admitted ctx req) →
      Moves c (.prepare i caches now)
        ⟨c.breaker, moveOn c.running i (prepared ctx caches now req), now⟩
  | turn {i : Nat} {ctx : LoopContext} {s : LoopState} {r : Round} {now : Nat} :
      c.running[i]? = some (.looping ctx s) →
      Moves c (.turn i r now)
        ⟨(ctx.turn s r).report.elim c.breaker (fun report => c.breaker.report report now),
          moveOn c.running i (turned ctx s r), now⟩

theorem moves_of_step (h : c.step e = some d) : c.clock ≤ e.time ∧ c.Moves e d := by
  obtain ⟨hclock, heffect⟩ := step_eq_some h
  refine ⟨hclock, ?_⟩
  cases e with
  | arrive ctx req now =>
    cases heffect
    exact .arrive
  | prepare i caches now =>
    simp only [effect] at heffect
    split at heffect
    next ctx req hi =>
      cases heffect
      exact .prepare hi
    next => cases heffect
  | turn i r now =>
    simp only [effect] at heffect
    split at heffect
    next ctx s hi =>
      cases heffect
      exact .turn hi
    next => cases heffect

/-- What a step without a success does to the breaker: nothing, an attempt, or a failure. -/
theorem breaker_step (hok : c.Outage m e) (h : c.step e = some d) :
    c.clock ≤ e.time ∧ d.clock = e.time ∧ d.breaker.limits = c.breaker.limits ∧
      ((c.admits e = 0 ∧ d.breaker = c.breaker) ∨
        (c.admits e = (if (c.breaker.canAttempt e.time).1 then 1 else 0) ∧
          d.breaker = (c.breaker.canAttempt e.time).2) ∨
        (c.admits e = 0 ∧ ∃ report, report ≠ .success ∧
          d.breaker = c.breaker.report report e.time)) := by
  obtain ⟨hclock, hmoves⟩ := moves_of_step h
  refine ⟨hclock, ?_⟩
  cases hmoves with
  | @arrive ctx req now =>
    exact ⟨rfl, (c.breaker.canAttempt_keeps now).1, .inr (.inl ⟨rfl, rfl⟩)⟩
  | prepare => exact ⟨rfl, rfl, .inl ⟨rfl, rfl⟩⟩
  | @turn i ctx s r now hi =>
    refine ⟨rfl, ?_⟩
    cases hreport : (ctx.turn s r).report with
    | none => exact ⟨rfl, .inl ⟨rfl, rfl⟩⟩
    | some report =>
      have hsuccess : report ≠ .success := fun heq => hok ctx s hi (by rw [hreport, heq])
      exact ⟨c.breaker.report_limits report now, .inr (.inr ⟨rfl, report, hsuccess, rfl⟩)⟩

/-- The half-open periods of an outage so far: each one lets in one request more than it has slots,
and comes a reset timeout behind the one before, the first one not before `first`. -/
def Periods (first reset slots : Nat) (b : CircuitBreaker) (clock n : Nat) : Prop :=
  ∃ k, (b.state = .open ∧ n ≤ k * (slots + 1) ∧ first + k * reset ≤ b.openUntil) ∨
    (b.state = .halfOpen ∧ n + (slots - b.halfOpenAttempts) ≤ k * (slots + 1) ∧
      first + k * reset ≤ clock + reset)

section Periods

variable {b b' : CircuitBreaker} {clock first : Nat}

theorem Periods.later (h : Periods first reset slots b clock n) (hclock : clock ≤ now) :
    Periods first reset slots b now n := by
  obtain ⟨k, hopen | ⟨hstate, hn, hfirst⟩⟩ := h
  · exact ⟨k, .inl hopen⟩
  · exact ⟨k, .inr ⟨hstate, hn, by omega⟩⟩

theorem Periods.attempt (h : Periods first reset slots b clock n) (hclock : clock ≤ now)
    (hslots : b.halfOpenMaxAttempts = slots) :
    Periods first reset slots (b.canAttempt now).2 now
      (n + if (b.canAttempt now).1 then 1 else 0) := by
  obtain ⟨k, hperiods⟩ := h.later hclock
  rcases b.canAttempt_cases now with
    ⟨hstate, _⟩ | ⟨_, _, he⟩ | ⟨hstate, hlate, he⟩ | ⟨hstate, hfree, he⟩ | ⟨_, _, he⟩
  · rcases hperiods with ⟨hopen, _⟩ | ⟨hhalf, _⟩
    · cases hstate.symm.trans hopen
    · cases hstate.symm.trans hhalf
  · rw [he]
    exact ⟨k, hperiods⟩
  · rcases hperiods with ⟨_, hn, hfirst⟩ | ⟨hhalf, _⟩
    · rw [he]
      refine ⟨k + 1, .inr ⟨rfl, ?_, ?_⟩⟩
      · show n + 1 + (slots - 0) ≤ (k + 1) * (slots + 1)
        rw [Nat.succ_mul]
        omega
      · rw [Nat.succ_mul]
        omega
    · cases hstate.symm.trans hhalf
  · rcases hperiods with ⟨hopen, _⟩ | ⟨_, hn, hfirst⟩
    · cases hstate.symm.trans hopen
    · rw [he]
      rw [hslots] at hfree
      refine ⟨k, .inr ⟨hstate, ?_, hfirst⟩⟩
      show n + 1 + (slots - (b.halfOpenAttempts + 1)) ≤ k * (slots + 1)
      omega
  · rw [he]
    exact ⟨k, hperiods⟩

theorem Periods.failure (h : Periods first reset slots b clock n) (hclock : clock ≤ now)
    (hreset : b.resetTimeout = reset) (hnow : now + reset < instantEnd)
    (hbound : b.openUntil ≤ now + reset) {report : Report} (hreport : report ≠ .success) :
    Periods first reset slots (b.report report now) now n := by
  obtain ⟨k, hperiods⟩ := h.later hclock
  rcases b.report_no_success hreport (hreset ▸ hnow) with
    ⟨hstate, huntil, hattempts⟩ | ⟨hstate, huntil⟩
  · refine ⟨k, ?_⟩
    rw [hstate, huntil, hattempts]
    exact hperiods
  · rw [hreset] at huntil
    refine ⟨k, .inl ⟨hstate, ?_⟩⟩
    rcases hperiods with ⟨_, hn, hfirst⟩ | ⟨_, hn, hfirst⟩ <;> exact ⟨by omega, by omega⟩

end Periods

/-- What holds along an outage of the breaker and of the number of requests that it has let in. -/
structure Shedding (first : Nat) (limits : BreakerLimits) (c : BreakerClients) (n : Nat) :
    Prop where
  limited : c.breaker.limits = limits
  bounded : c.breaker.openUntil ≤ c.clock + limits.resetTimeout
  periods : Periods first limits.resetTimeout limits.halfOpenMaxAttempts c.breaker c.clock n

theorem Shedding.step {first : Nat} {limits : BreakerLimits} (hc : c.Shedding first limits n)
    (hok : c.Outage m e) (hnow : e.time + limits.resetTimeout < instantEnd)
    (h : c.step e = some d) : d.Shedding first limits (n + c.admits e) := by
  obtain ⟨hclock, hd, hlimits, hbreaker⟩ := breaker_step hok h
  obtain ⟨rfl, huntil, hperiods⟩ := hc
  have hbound : c.breaker.openUntil ≤ e.time + c.breaker.limits.resetTimeout := by omega
  rcases hbreaker with ⟨hnone, hb⟩ | ⟨hadmits, hb⟩ | ⟨hnone, report, hreport, hb⟩
  · rw [hnone, Nat.add_zero]
    refine ⟨hlimits, by rw [hb, hd]; exact hbound, ?_⟩
    rw [hb, hd]
    exact hperiods.later hclock
  · have hkeeps := (c.breaker.canAttempt_keeps e.time).2.1
    refine ⟨hlimits, by rw [hb, hd, hkeeps]; exact hbound, ?_⟩
    rw [hadmits, hb, hd]
    exact hperiods.attempt hclock rfl
  · rw [hnone, Nat.add_zero]
    refine ⟨hlimits, ?_, ?_⟩
    · rw [hb, hd]
      rcases c.breaker.report_no_success hreport hnow with ⟨_, heq, _⟩ | ⟨_, heq⟩
      · rw [heq]
        exact hbound
      · exact Nat.le_of_eq heq
    · rw [hb, hd]
      exact hperiods.failure hclock rfl hnow hbound hreport

theorem clock_of_step (h : c.step e = some d) : e.time = d.clock ∧ c.clock ≤ d.clock := by
  obtain ⟨hclock, hmoves⟩ := moves_of_step h
  cases hmoves with
  | arrive => exact ⟨rfl, hclock⟩
  | prepare => exact ⟨rfl, hclock⟩
  | turn => exact ⟨rfl, hclock⟩

/-- While no success is reported, an open breaker lets in one request more than it has slots for
each reset timeout that has gone by. -/
theorem admissions_le (hreset : 0 < c.breaker.resetTimeout) (hopen : c.breaker.state = .open)
    (huntil : c.breaker.openUntil ≤ c.clock + c.breaker.resetTimeout)
    (hfits : d.clock + c.breaker.resetTimeout < instantEnd) (h : Run step (Outage m) c es d) :
    runTotal step admits c es ≤ (c.breaker.halfOpenMaxAttempts + 1) *
      ((d.clock + c.breaker.resetTimeout - c.breaker.openUntil) / c.breaker.resetTimeout) := by
  have hstart : c.Shedding c.breaker.openUntil c.breaker.limits 0 :=
    ⟨rfl, huntil, 0, .inl ⟨hopen, by omega, by omega⟩⟩
  have htimed : Run step (fun _ e => e.time ≤ d.clock) c es d :=
    (h.timed clock ClientEvent.time clock_of_step).2
  have hend := (h.both htimed).total_invariant
    (P := Shedding c.breaker.openUntil c.breaker.limits)
    (fun hc hok hstep => hc.step hok.1
      (Nat.lt_of_le_of_lt (Nat.add_le_add_right hok.2 _) hfits) hstep) hstart
  rw [Nat.zero_add] at hend
  obtain ⟨_, hbound, k, hperiods⟩ := hend
  have hk : k ≤ (d.clock + c.breaker.resetTimeout - c.breaker.openUntil) /
      c.breaker.resetTimeout := by
    rw [Nat.le_div_iff_mul_le hreset]
    dsimp only [CircuitBreaker.limits] at hbound hperiods
    rcases hperiods with ⟨_, _, hfirst⟩ | ⟨_, _, hfirst⟩ <;> omega
  have hn : runTotal step admits c es ≤ k * (c.breaker.halfOpenMaxAttempts + 1) := by
    rcases hperiods with ⟨_, hn, _⟩ | ⟨_, hn, _⟩
    · exact hn
    · exact Nat.le_trans (Nat.le_add_right _ _) hn
  rw [Nat.mul_comm]
  exact Nat.le_trans hn (Nat.mul_le_mul_right _ hk)

def credits (running : List Stage) : Nat := (running.map Stage.credit).sum

def progressCredit : Progress Stage → Nat
  | .going stage => stage.credit
  | _ => 0

theorem moveOn_cons (first : Stage) (running : List Stage) (i : Nat) (p : Progress Stage) :
    moveOn (first :: running) (i + 1) p = first :: moveOn running i p := by
  cases p with
  | going => rfl
  | ended => rfl
  | blocked => rfl

/-- A request that moves on trades its credit for the one that it comes to. -/
theorem credits_moveOn (hi : running[i]? = some stage) (p : Progress Stage) :
    credits (moveOn running i p) + stage.credit = credits running + progressCredit p := by
  induction running generalizing i with
  | nil => cases hi
  | cons first running ih =>
    cases i with
    | zero =>
      cases hi
      cases p with
      | going stage' =>
        show (stage'.credit + credits running) + _ = (_ + credits running) + stage'.credit
        omega
      | ended e =>
        show credits running + _ = (_ + credits running) + 0
        omega
      | blocked =>
        show (0 + credits running) + _ = (_ + credits running) + 0
        omega
    | succ i =>
      have hrest := ih (i := i) hi
      rw [moveOn_cons]
      simp only [credits, List.map_cons, List.sum_cons] at hrest ⊢
      omega

/-- A turn without a success pays for the request that it sends out of the credit of its loop. -/
theorem turned_credit (hno : (ctx.turn s r).report ≠ some .success) :
    progressCredit (turned ctx s r) + (if (ctx.turn s r).sent.isSome then 1 else 0) ≤
      ctx.maxAttempts - s.retries := by
  have hcredit : ∀ t, (ctx.turn s r).next = .going t →
      t.retries = s.retries + 1 ∧ s.retries < ctx.maxAttempts := by
    intro t ht
    obtain ⟨hlt, ⟨_, _, _, rfl⟩ | ⟨_, _, hsuccess, _⟩⟩ := LoopContext.going_cases ht
    · exact ⟨rfl, hlt⟩
    · exact absurd hsuccess hno
  have hsent : (ctx.turn s r).sent.isSome → s.retries < ctx.maxAttempts := by
    rcases ctx.turn_cases s r with ⟨_, hsent, _⟩ | ⟨_, _, hsent, _⟩ | ⟨hlt, _⟩
    · simp [hsent]
    · simp [hsent]
    · exact fun _ => hlt
  unfold turned
  cases hnext : (ctx.turn s r).next with
  | going t =>
    obtain ⟨ht, hlt⟩ := hcredit t hnext
    show ctx.maxAttempts - t.retries + _ ≤ _
    split <;> omega
  | ended e =>
    show 0 + _ ≤ _
    split
    next hsome =>
      have hlt := hsent hsome
      omega
    next => omega
  | blocked =>
    show 0 + _ ≤ _
    split
    next hsome =>
      have hlt := hsent hsome
      omega
    next => omega

/-- Each step pays for the upstream request that it sends out of the credits of the running
requests, where a request that is let in brings its own. -/
theorem sends_paid (hok : c.Outage m e) (h : c.step e = some d) :
    credits d.running + c.sends e ≤ credits c.running + m * c.admits e := by
  obtain ⟨_, hmoves⟩ := moves_of_step h
  cases hmoves with
  | @arrive ctx req now =>
    have hmax : ctx.maxAttempts ≤ m := hok
    simp only [admits, sends]
    cases hadmitted : (c.breaker.canAttempt now).1 with
    | true =>
      simp only [if_true, credits, List.map_cons, List.sum_cons, Stage.credit]
      omega
    | false =>
      simp only [Bool.false_eq_true, if_false]
      omega
  | @prepare i ctx req caches now hi =>
    have hmove := credits_moveOn hi (prepared ctx caches now req)
    have hkept : progressCredit (prepared ctx caches now req) ≤ ctx.maxAttempts := by
      unfold prepared
      cases addConditionalHeaders ctx.cacheKey caches now req with
      | going req' => exact Nat.sub_le _ _
      | ended e => exact Nat.zero_le _
      | blocked => exact Nat.zero_le _
    simp only [admits, sends, Stage.credit] at hmove ⊢
    omega
  | @turn i ctx s r now hi =>
    have hmove := credits_moveOn hi (turned ctx s r)
    have hpaid := turned_credit (hok ctx s hi)
    simp only [admits, sends, hi, Stage.credit] at hmove ⊢
    omega

/-- What is sent upstream in an outage of an open breaker is no more than what the requests under
way may still try and `m` attempts for each request that it lets in. -/
theorem outage_load (hreset : 0 < c.breaker.resetTimeout) (hopen : c.breaker.state = .open)
    (huntil : c.breaker.openUntil ≤ c.clock + c.breaker.resetTimeout)
    (hfits : d.clock + c.breaker.resetTimeout < instantEnd) (h : Run step (Outage m) c es d) :
    runTotal step sends c es ≤ credits c.running + m * ((c.breaker.halfOpenMaxAttempts + 1) *
      ((d.clock + c.breaker.resetTimeout - c.breaker.openUntil) / c.breaker.resetTimeout)) := by
  have hpaid : credits d.running + runTotal step sends c es ≤
      credits c.running + runTotal step (fun c e => m * c.admits e) c es :=
    h.total_le (fun c => credits c.running) fun hok hstep => sends_paid hok hstep
  rw [runTotal_mul] at hpaid
  have hbound := Nat.mul_le_mul_left m (admissions_le hreset hopen huntil hfits h)
  omega

end BreakerClients

end Road7
