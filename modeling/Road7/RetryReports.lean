import Road7.RetryBound

namespace Road7

/-- What one can see of a turn of the loop: an attempt, a call of `delay()` that has returned, a
report to the breaker. -/
inductive LoopAction where
  | attempt
  | delay
  | report (r : Report)
deriving DecidableEq, Repr

def LoopState.delaysSince (s : LoopState) : Progress LoopState → Nat
  | .going t => t.delays - s.delays
  | _ => 0

/-- The report that goes with an end of the loop. A panic stands behind the report of a success, or
in that of a failure, which opens the breaker for a time that is no `Instant`. -/
def Ending.ReportedAs (e : Ending) (report : Report) : Prop :=
  match e with
  | .upstream _ | .cached _ => report = .success
  | .panicked p => report = .success ∨ p = .overflow
  | .refused err => report ≠ .success ∧ (err = .timeout ∨
      (∃ msg, err = .internalServerError msg) ∨
        err = .serviceUnavailable "Maximum retries exceeded")
  | .ownReply _ => False

theorem intersperse_replicate_succ {α : Type} (a d : α) (n : Nat) :
    (List.replicate (n + 2) a).intersperse d =
      (List.replicate (n + 1) a).intersperse d ++ [d, a] := by
  induction n with
  | zero => rfl
  | succ n ih =>
    calc (List.replicate (n + 3) a).intersperse d
        = a :: d :: (List.replicate (n + 2) a).intersperse d := rfl
      _ = a :: d :: ((List.replicate (n + 1) a).intersperse d ++ [d, a]) := by rw [ih]
      _ = (List.replicate (n + 2) a).intersperse d ++ [d, a] := rfl

theorem report_not_mem_intersperse (report : Report) (n : Nat) :
    .report report ∉ (List.replicate (n + 1) LoopAction.attempt).intersperse .delay := by
  induction n with
  | zero => simp
  | succ n ih =>
    rw [intersperse_replicate_succ]
    simp [ih]

namespace LoopContext

def actions (ctx : LoopContext) (s : LoopState) (r : Round) : List LoopAction :=
  let result := ctx.turn s r
  (result.sent.toList.map fun _ => .attempt) ++ result.report.toList.map .report ++
    List.replicate (s.delaysSince result.next) .delay

/-- The actions of the first turns of a run, one after the other. -/
def runActions (ctx : LoopContext) (s : LoopState) (rounds : Nat → Round) : Nat → List LoopAction
  | 0 => []
  | n + 1 => ctx.runActions s rounds n ++
      match ctx.after s rounds n with
      | .going t => ctx.actions t (rounds n)
      | _ => []

/-- The loop ends with one report, the right one, after at most `max_attempts` attempts with one
`delay()` between any two of them. -/
def ReportsOnce (ctx : LoopContext) (s : LoopState) (rounds : Nat → Round) : Prop :=
  ∃ n e k report, ctx.after s rounds n = .ended e ∧ k ≤ ctx.maxAttempts ∧
    ctx.runActions s rounds n =
      (List.replicate k .attempt).intersperse .delay ++ [.report report] ∧ e.ReportedAs report

/-- Attempt `n` has a url, and the delay behind it can be computed where one is asked for. -/
def ProvidedAt (ctx : LoopContext) (r : Round) (n : Nat) : Prop :=
  (∃ url, (ctx.attemptUrl r).2 = .ok url) ∧
    (ctx.retried r = true → n + 1 < ctx.maxAttempts →
      ∃ d, ctx.selected.retryStrategy.delay n = .ok d)

def Provided (ctx : LoopContext) (rounds : Nat → Round) : Prop :=
  ∀ n < ctx.maxAttempts, (∀ i < n, ctx.retried (rounds i) = true) → ctx.ProvidedAt (rounds n) n

variable {ctx : LoopContext} {s t : LoopState} {r : Round} {rounds : Nat → Round}

/-- Whether a request can be rebuilt does not depend on its body. -/
theorem rebuildRequest_bodyRead {parser : UriParser} {req : Request} {url : Str} {len : Nat}
    {clientIp : SocketAddr} (h : ∃ out, rebuildRequest parser req url len clientIp = .ok out) :
    ∃ out, rebuildRequest parser req.bodyRead url len clientIp = .ok out := by
  obtain ⟨out, hout⟩ := h
  obtain ⟨uri, huri, hout⟩ := bind_eq_ok.mp hout
  obtain ⟨headers, hheaders, _⟩ := bind_eq_ok.mp hout
  exact ⟨_, bind_eq_ok.mpr ⟨uri, huri, bind_eq_ok.mpr ⟨headers, hheaders, rfl⟩⟩⟩

theorem turn_of_spent (hge : ctx.maxAttempts ≤ s.retries) :
    (ctx.turn s r).next =
        r.reported .exhausted (.serviceUnavailable "Maximum retries exceeded") ∧
      ctx.actions s r = [.report .exhausted] := by
  have hturn : ctx.turn s r = ⟨none, some .exhausted,
      r.reported .exhausted (.serviceUnavailable "Maximum retries exceeded"), r.caches,
      r.balancer⟩ := by
    rw [turn, if_neg (Nat.not_lt.mpr hge)]
  obtain ⟨e, hended, _⟩ := r.reported_ended .exhausted
    (.serviceUnavailable "Maximum retries exceeded")
  unfold actions
  rw [hturn, hended]
  exact ⟨rfl, rfl⟩

/-- The end of a request that reports a failure goes with its report. -/
theorem reportedAs_of_reported {report : Report} {err : ProxyError} {e : Ending}
    (h : r.reported report err = .ended e)
    (herr : (Ending.refused err).ReportedAs report) : e.ReportedAs report := by
  obtain ⟨e', hended, rfl | rfl⟩ := r.reported_ended report err <;> cases hended.symm.trans h
  · exact herr
  · exact .inr rfl

/-- An attempt without a url panics before anything is sent. -/
theorem turn_of_no_url (hlt : s.retries < ctx.maxAttempts) {p : Panic}
    (hurl : (ctx.attemptUrl r).2 = .error p) :
    (ctx.turn s r).next = .ended (.panicked p) ∧ ctx.actions s r = [] := by
  have hpick : ctx.attemptUrl r = ((ctx.attemptUrl r).1, .error p) := Prod.ext rfl hurl
  have hturn : ctx.turn s r = ⟨none, none, .ended (.panicked p), r.caches,
      (ctx.attemptUrl r).1⟩ := by
    rw [turn, if_pos hlt, attempt, hpick]
  unfold actions
  rw [hturn]
  exact ⟨rfl, rfl⟩

/-- A turn whose request can be built does what settling its outcome does. -/
theorem turn_of_built {url : Str} {built : Request × Request} (hlt : s.retries < ctx.maxAttempts)
    (hurl : (ctx.attemptUrl r).2 = .ok url)
    (hbuilt : rebuildRequest ctx.crates.uriParser s.originalReq url ctx.selected.targetUrlLen
      ctx.clientIp = .ok built) :
    (ctx.turn s r).next = (ctx.settle s.bodyRead url r).2.1 ∧
      ctx.actions s r = .attempt :: (ctx.settle s.bodyRead url r).1.toList.map .report ++
        List.replicate (s.delaysSince (ctx.settle s.bodyRead url r).2.1) .delay := by
  rcases ctx.turn_cases s r with ⟨hge, _⟩ | ⟨_, hsend, _⟩ |
    ⟨_, url', req, hurl', _, hsent, hreport, hnext⟩
  · omega
  · exact absurd ⟨url, built, hurl, hbuilt⟩ hsend
  · obtain rfl := Except.ok.inj (hurl.symm.trans hurl')
    refine ⟨hnext, ?_⟩
    unfold actions
    dsimp only
    rw [hsent, hreport, hnext]
    rfl

/-- What settling an outcome comes to while every 304 is answered: another attempt after a delay,
a delay that cannot be computed, no attempt left after a retry status, or an end with its report. -/
inductive Settled (ctx : LoopContext) (s : LoopState) (r : Round) :
    Option Report → Progress LoopState → Prop
  | again {d : Nat} : ctx.retried r = true → s.retries + 1 < ctx.maxAttempts →
      ctx.selected.retryStrategy.delay s.delays = .ok d →
      Settled ctx s r none
        (.going { s with retries := s.retries + 1, delays := s.delays + 1 })
  | undelayed {p : Panic} : ctx.retried r = true → s.retries + 1 < ctx.maxAttempts →
      ctx.selected.retryStrategy.delay s.delays = .error p →
      Settled ctx s r none (.ended (.panicked p))
  | spent : ctx.retried r = true → ctx.maxAttempts ≤ s.retries + 1 →
      Settled ctx s r none (.going { s with retries := s.retries + 1 })
  | finished {report : Report} {e : Ending} : e.ReportedAs report →
      (ctx.retried r = true → ctx.maxAttempts ≤ s.retries + 1) →
      Settled ctx s r (some report) (.ended e)

theorem settled_retry (hretried : ctx.retried r = true) :
    Settled ctx s r none (ctx.retry s) := by
  unfold retry
  split
  next hlt =>
    split
    next hd => exact .again hretried hlt hd
    next hp => exact .undelayed hretried hlt hp
  next hge => exact .spent hretried (Nat.not_lt.mp hge)

theorem settled_endWith {toEnding : Response → Ending} {result : Except Panic Response}
    (hending : ∀ resp, (toEnding resp).ReportedAs .success)
    (hretried : ctx.retried r = false) :
    Settled ctx s r (some .success) (Progress.endWith toEnding result) := by
  have hnot : ctx.retried r = true → ctx.maxAttempts ≤ s.retries + 1 :=
    fun h => absurd (hretried.symm.trans h) (by decide)
  rcases Progress.endWith_cases toEnding result with ⟨resp, hresp⟩ | ⟨p, hp⟩
  · rw [hresp]
    exact .finished (hending resp) hnot
  · rw [hp]
    exact .finished (.inl rfl) hnot

theorem settled_reported {report : Report} {err : ProxyError}
    (herr : (Ending.refused err).ReportedAs report)
    (hlast : ctx.retried r = true → ctx.maxAttempts ≤ s.retries + 1) :
    Settled ctx s r (some report) (r.reported report err) := by
  obtain ⟨e, hended, _⟩ := r.reported_ended report err
  rw [hended]
  exact .finished (reportedAs_of_reported hended herr) hlast

theorem settled (hanswered : ctx.unanswered r = false) (url : Str) :
    Settled ctx s r (ctx.settle s url r).1 (ctx.settle s url r).2.1 := by
  unfold settle
  split
  next resp hresp =>
    split
    next hstatus => exact settled_retry (by simp [retried, hresp, hstatus])
    next hstatus =>
      have hretried : ctx.retried r = false := by simp [retried, hresp, hstatus]
      dsimp only
      split
      next hmod =>
        have hnotModified : r.isNotModified = true := by
          simpa [Round.isNotModified, hresp] using hmod
        unfold replay
        split
        next => exact settled_endWith (fun _ => rfl) hretried
        next hmiss => simp [unanswered, hnotModified, hmiss] at hanswered
        next hblocked => simp [unanswered, hnotModified, hblocked] at hanswered
      next =>
        unfold answer
        split
        next => exact settled_endWith (fun _ => rfl) hretried
        next =>
          exact .finished (.inl rfl) (fun h => absurd (hretried.symm.trans h) (by decide))
  next err hfailed =>
    split
    next => exact settled_retry (by simp [retried, hfailed])
    next hge =>
      exact settled_reported ⟨by decide, .inr (.inl ⟨err, rfl⟩)⟩ (fun _ => Nat.not_lt.mp hge)
  next htimed =>
    split
    next hlate =>
      refine settled_reported ⟨by decide, .inl rfl⟩ (fun h => ?_)
      simp only [retried, htimed, decide_eq_true_eq] at h
      omega
    next hearly =>
      split
      next => exact settled_retry (by simpa [retried, htimed] using hearly)
      next hge => exact settled_reported ⟨by decide, .inl rfl⟩ (fun _ => Nat.not_lt.mp hge)

/-- The loop is at attempt `n`: every attempt before it has been retried after one `delay()`. -/
structure ComesTo (ctx : LoopContext) (s : LoopState) (rounds : Nat → Round) (n : Nat)
    (t : LoopState) : Prop where
  going : ctx.after s rounds n = .going t
  retries : t.retries = n
  delays : t.delays = n
  retriedBefore : ∀ i < n, ctx.retried (rounds i) = true
  request : t.originalReq = s.originalReq ∨ t.originalReq = s.originalReq.bodyRead
  actions : ctx.runActions s rounds n ++ [.attempt] =
    (List.replicate (n + 1) .attempt).intersperse .delay

theorem ComesTo.start (req : Request) : ctx.ComesTo (LoopState.start req) rounds 0
    (LoopState.start req) :=
  ⟨rfl, rfl, rfl, fun _ hi => absurd hi (Nat.not_lt_zero _), .inl rfl, rfl⟩

theorem after_succ_of_going {n : Nat} (h : ctx.after s rounds n = .going t) :
    ctx.after s rounds (n + 1) = (ctx.turn t (rounds n)).next ∧
      ctx.runActions s rounds (n + 1) = ctx.runActions s rounds n ++ ctx.actions t (rounds n) := by
  simp [after, runActions, h]

/-- Nothing happens in a run behind its end. -/
theorem after_add_of_ended {n : Nat} {e : Ending} (h : ctx.after s rounds n = .ended e) (k : Nat) :
    ctx.after s rounds (n + k) = .ended e ∧
      ctx.runActions s rounds (n + k) = ctx.runActions s rounds n := by
  induction k with
  | zero => exact ⟨h, rfl⟩
  | succ k ih =>
    obtain ⟨hafter, hactions⟩ := ih
    rw [← Nat.add_assoc]
    simp [after, runActions, hafter, hactions]

theorem runActions_of_ended {m n : Nat} {e e' : Ending} (hm : ctx.after s rounds m = .ended e)
    (hn : ctx.after s rounds n = .ended e') :
    ctx.runActions s rounds m = ctx.runActions s rounds n := by
  rcases Nat.le_total m n with hle | hle
  · obtain ⟨k, rfl⟩ := Nat.exists_eq_add_of_le hle
    exact (after_add_of_ended hm k).2.symm
  · obtain ⟨k, rfl⟩ := Nat.exists_eq_add_of_le hle
    exact (after_add_of_ended hn k).2

theorem ReportsOnce.mem {n : Nat} {e : Ending} (h : ctx.ReportsOnce s rounds)
    (hend : ctx.after s rounds n = .ended e) :
    ∃ report, .report report ∈ ctx.runActions s rounds n := by
  obtain ⟨m, _, k, report, hm, _, hactions, _⟩ := h
  refine ⟨report, ?_⟩
  rw [← runActions_of_ended hm hend, hactions]
  simp

/-- A turn that ends the loop without a report leaves the whole run without one. -/
theorem ComesTo.unreported {n : Nat} {e : Ending} (h : ctx.ComesTo s rounds n t)
    (hend : (ctx.turn t (rounds n)).next = .ended e)
    (hacts : ctx.actions t (rounds n) = [] ∨ ctx.actions t (rounds n) = [.attempt]) :
    ¬ctx.ReportsOnce s rounds := by
  intro honce
  obtain ⟨hafter, hactions⟩ := after_succ_of_going h.going
  obtain ⟨report, hmem⟩ := honce.mem (hafter.trans hend)
  rw [hactions] at hmem
  refine report_not_mem_intersperse report n ?_
  rw [← h.actions]
  rcases hacts with hacts | hacts <;> rw [hacts] at hmem
  · rw [List.append_nil] at hmem
    exact List.mem_append_left _ hmem
  · exact hmem

/-- What a built attempt leads to is what its outcome is settled to. -/
theorem ComesTo.settled {n : Nat} {url : Str} (h : ctx.ComesTo s rounds n t)
    (hlt : n < ctx.maxAttempts) (hurl : (ctx.attemptUrl (rounds n)).2 = .ok url)
    (hparse : ∃ out, rebuildRequest ctx.crates.uriParser s.originalReq url
      ctx.selected.targetUrlLen ctx.clientIp = .ok out)
    (hanswered : ctx.unanswered (rounds n) = false) :
    ∃ report, Settled ctx t.bodyRead (rounds n) report (ctx.turn t (rounds n)).next ∧
      ctx.actions t (rounds n) = .attempt :: report.toList.map .report ++
        List.replicate (t.delaysSince (ctx.turn t (rounds n)).next) .delay := by
  obtain ⟨out, hout⟩ : ∃ out, rebuildRequest ctx.crates.uriParser t.originalReq url
      ctx.selected.targetUrlLen ctx.clientIp = .ok out := by
    rcases h.request with hreq | hreq
    · exact hreq ▸ hparse
    · exact hreq ▸ rebuildRequest_bodyRead hparse
  obtain ⟨hnext, hacts⟩ := turn_of_built (h.retries ▸ hlt) hurl hout
  rw [hnext]
  exact ⟨_, LoopContext.settled hanswered url, hacts⟩

/-- An attempt without a url, or with a delay behind it that cannot be computed, ends the loop in
a panic that nothing reports. Any other leads to the next one after a delay, or to the report. -/
theorem ComesTo.decided {n : Nat} (h : ctx.ComesTo s rounds n t) (hlt : n < ctx.maxAttempts)
    (hparse : ∀ url, (ctx.attemptUrl (rounds n)).2 = .ok url → ∃ out,
      rebuildRequest ctx.crates.uriParser s.originalReq url ctx.selected.targetUrlLen
        ctx.clientIp = .ok out)
    (hanswered : ctx.unanswered (rounds n) = false) :
    (ctx.ProvidedAt (rounds n) n ∧ n + 1 < ctx.maxAttempts ∧
      ∃ t', ctx.ComesTo s rounds (n + 1) t') ∨
    (ctx.ProvidedAt (rounds n) n ∧ ctx.ReportsOnce s rounds ∧
      (ctx.retried (rounds n) = true → ctx.maxAttempts ≤ n + 1)) ∨
    (¬ctx.ProvidedAt (rounds n) n ∧ ¬ctx.ReportsOnce s rounds) := by
  cases hurl : (ctx.attemptUrl (rounds n)).2 with
  | error p =>
    obtain ⟨hend, hacts⟩ := turn_of_no_url (h.retries ▸ hlt) hurl
    exact .inr (.inr ⟨fun ⟨⟨url, hok⟩, _⟩ => by simp [hurl] at hok,
      h.unreported hend (.inl hacts)⟩)
  | ok url =>
    obtain ⟨report, hsettled, hacts⟩ := h.settled hlt hurl (hparse url hurl) hanswered
    obtain ⟨hafter, hactions⟩ := after_succ_of_going h.going
    have hretries : t.bodyRead.retries = n := h.retries
    have hdelays : t.bodyRead.delays = n := h.delays
    generalize hnext : (ctx.turn t (rounds n)).next = next at hsettled hacts hafter
    cases hsettled with
    | again hretried hlt2 hd =>
      rw [hretries] at hlt2
      rw [hdelays] at hd
      refine .inl ⟨⟨⟨url, hurl⟩, fun _ _ => ⟨_, hd⟩⟩, hlt2, _, hafter, ?_, ?_, ?_, ?_, ?_⟩
      · simp [h.retries]
      · simp [hdelays]
      · intro i hi
        rcases Nat.lt_succ_iff_lt_or_eq.mp hi with hi | rfl
        · exact h.retriedBefore i hi
        · exact hretried
      · rcases h.request with hreq | hreq <;> simp [hreq, Request.bodyRead]
      · rw [hactions, hacts, intersperse_replicate_succ, ← h.actions]
        simp [LoopState.delaysSince, LoopState.bodyRead]
    | undelayed hretried hlt2 hp =>
      rw [hretries] at hlt2
      rw [hdelays] at hp
      refine .inr (.inr ⟨fun ⟨_, hdelay⟩ => ?_, h.unreported hnext (.inr hacts)⟩)
      obtain ⟨d, hd⟩ := hdelay hretried hlt2
      simp [hp] at hd
    | spent hretried hge =>
      rw [hretries] at hge
      obtain ⟨hafter', hactions'⟩ := after_succ_of_going hafter
      obtain ⟨hend, hreport⟩ : _ ∧ ctx.actions _ (rounds (n + 1)) = [.report .exhausted] :=
        turn_of_spent (s := { t.bodyRead with retries := t.bodyRead.retries + 1 })
          (by simpa [h.retries] using hge)
      obtain ⟨e, hended, _⟩ := (rounds (n + 1)).reported_ended .exhausted
        (.serviceUnavailable "Maximum retries exceeded")
      refine .inr (.inl ⟨⟨⟨url, hurl⟩, fun _ hlt2 => absurd hge (Nat.not_le.mpr hlt2)⟩,
        ⟨n + 2, e, n + 1, .exhausted, hafter'.trans (hend.trans hended), hlt, ?_, ?_⟩,
        fun _ => hge⟩)
      · rw [hactions', hactions, hacts, hreport, ← h.actions]
        simp [LoopState.delaysSince, LoopState.bodyRead]
      · exact reportedAs_of_reported hended ⟨by decide, .inr (.inr rfl)⟩
    | finished hreported hlast =>
      rw [hretries] at hlast
      refine .inr (.inl ⟨⟨⟨url, hurl⟩, fun hretried hlt2 =>
        absurd (hlast hretried) (Nat.not_le.mpr hlt2)⟩,
        ⟨n + 1, _, n + 1, _, hafter, hlt, ?_, hreported⟩, hlast⟩)
      rw [hactions, hacts, ← h.actions]
      simp [LoopState.delaysSince]

end LoopContext

/-- One run of the loop makes one report, the right one, and asks for one delay between any two
attempts, exactly when every attempt it comes to has a url and every delay can be computed. -/
theorem reports_once_iff {ctx : LoopContext} {rounds : Nat → Round} {req : Request}
    (hparse : ∀ n < ctx.maxAttempts, ∀ url, (ctx.attemptUrl (rounds n)).2 = .ok url → ∃ out,
      rebuildRequest ctx.crates.uriParser req url ctx.selected.targetUrlLen ctx.clientIp = .ok out)
    (hanswered : ∀ n < ctx.maxAttempts, ctx.unanswered (rounds n) = false) :
    ctx.ReportsOnce (LoopState.start req) rounds ↔ ctx.Provided rounds := by
  constructor
  · intro honce n hn hretried
    have hcomes : ∀ m ≤ n, ∃ t, ctx.ComesTo (LoopState.start req) rounds m t := by
      intro m hm
      induction m with
      | zero => exact ⟨_, .start req⟩
      | succ m ih =>
        obtain ⟨t, ht⟩ := ih (by omega)
        rcases ht.decided (by omega) (hparse m (by omega)) (hanswered m (by omega)) with
          ⟨_, _, hnext⟩ | ⟨_, _, hlast⟩ | ⟨_, hnot⟩
        · exact hnext
        · have hle := hlast (hretried m (by omega))
          omega
        · exact absurd honce hnot
    obtain ⟨t, ht⟩ := hcomes n (Nat.le_refl n)
    rcases ht.decided hn (hparse n hn) (hanswered n hn) with ⟨h, _⟩ | ⟨h, _⟩ | ⟨_, hnot⟩
    · exact h
    · exact h
    · exact absurd honce hnot
  · intro hprovided
    rcases Nat.eq_zero_or_pos ctx.maxAttempts with hzero | hpos
    · obtain ⟨hend, hreport⟩ := @LoopContext.turn_of_spent ctx (LoopState.start req)
        (rounds 0) (Nat.le_of_eq hzero)
      obtain ⟨e, hended, _⟩ := (rounds 0).reported_ended .exhausted
        (.serviceUnavailable "Maximum retries exceeded")
      exact ⟨1, e, 0, .exhausted, hend.trans hended, Nat.zero_le _, hreport,
        LoopContext.reportedAs_of_reported hended ⟨by decide, .inr (.inr rfl)⟩⟩
    · have hreach : ∀ k n t, n + k = ctx.maxAttempts → 0 < k →
          ctx.ComesTo (LoopState.start req) rounds n t →
            ctx.ReportsOnce (LoopState.start req) rounds := by
        intro k
        induction k with
        | zero => intro n t _ hk; omega
        | succ k ih =>
          intro n t hn _ ht
          have hlt : n < ctx.maxAttempts := by omega
          rcases ht.decided hlt (hparse n hlt) (hanswered n hlt) with
            ⟨_, hlt2, t', ht'⟩ | ⟨_, honce, _⟩ | ⟨hnot, _⟩
          · exact ih (n + 1) t' (by omega) (by omega) ht'
          · exact honce
          · exact absurd (hprovided n hlt ht.retriedBefore) hnot
      exact hreach ctx.maxAttempts 0 _ (Nat.zero_add _) hpos (.start req)

theorem reports_once_iff_plain_reply : ∃ proxy : Proxy, ∃ env : Surroundings, ∃ ctx req,
    Proxy.ofConfig plainCrates
      (plainConfig [plainTarget "/api".toList ["http://localhost:5001".toList]]) = .ok proxy ∧
    env.targetOrder = proxy.targetMap.entries ∧
    proxy.begin env (plainRequest "/api/users".toList [] []) =
      .going (ctx, LoopState.start req) ∧
    (ctx.ReportsOnce (LoopState.start req) env.rounds ↔ ctx.Provided env.rounds) :=
  ⟨_, plainSurroundings _ (fun _ => plainRound (.response ⟨200, [], Body.empty⟩)), _, _, rfl, rfl,
    rfl, reports_once_iff
      (by
        rintro n _ url hurl
        cases hurl
        exact ⟨_, rfl⟩)
      (fun _ _ => rfl)⟩

/-- Random delays below a base delay of no seconds: the first 503 ends in a panic, unreported. -/
theorem empty_delay_range_unreported : ∃ proxy : Proxy, ∃ env : Surroundings, ∃ ctx req,
    Proxy.ofConfig plainCrates
      { plainConfig [plainTarget "/api".toList ["http://localhost:5001".toList]] with
        retries := ⟨"RandomDelay".toList, 0, 2, none, none, none⟩ } = .ok proxy ∧
    env.targetOrder = proxy.targetMap.entries ∧
    proxy.begin env (plainRequest "/api/users".toList [] []) =
      .going (ctx, LoopState.start req) ∧
    (∀ n, ∀ url, (ctx.attemptUrl (env.rounds n)).2 = .ok url → ∃ out,
      rebuildRequest ctx.crates.uriParser req url ctx.selected.targetUrlLen ctx.clientIp =
        .ok out) ∧
    (∀ n, ctx.unanswered (env.rounds n) = false) ∧
    ctx.after (LoopState.start req) env.rounds 1 = .ended (.panicked .emptyRange) ∧
    ctx.runActions (LoopState.start req) env.rounds 1 = [.attempt] ∧
    ¬ctx.ReportsOnce (LoopState.start req) env.rounds := by
  refine ⟨_, plainSurroundings _ (fun _ => plainRound (.response ⟨503, [], Body.empty⟩)), _, _,
    rfl, rfl, rfl, ?_, fun _ => rfl, rfl, rfl, ?_⟩
  · rintro n url hurl
    cases hurl
    exact ⟨_, rfl⟩
  · intro honce
    obtain ⟨report, hmem⟩ := honce.mem (n := 1) rfl
    change LoopAction.report report ∈ [LoopAction.attempt] at hmem
    simp at hmem

end Road7
