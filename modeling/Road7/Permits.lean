import Road7.PlainProxy
import Road7.RetryReports
import Road7.Semaphore

namespace Road7

/-- A request in `proxy_request`, with what it finds there. -/
structure Visitor where
  env : Surroundings
  request : Request

/-- A request comes to `proxy_request`; one whose body has been read comes to the semaphore; one
with a permit comes to its end there after some turns of its retry loop. -/
inductive PermitEvent where
  | arrive (env : Surroundings) (req : Request)
  | come (i : Nat)
  | leave (i turns : Nat)

/-- The requests whose bodies are awaited, and those that have come to the semaphore. -/
structure Permits where
  reading : List Visitor
  semaphore : SemaphoreUse Visitor

/-- `proxy_request` does not come back, whatever number of turns its retry loop makes. -/
def Proxy.NeverEnds (proxy : Proxy) (v : Visitor) : Prop :=
  ∀ turns e, proxy.proxyRequest v.env v.request turns ≠ .ended e

theorem LoopContext.after_add_of_blocked {ctx : LoopContext} {s : LoopState} {rounds : Nat → Round}
    {n : Nat} (h : ctx.after s rounds n = .blocked) (k : Nat) :
    ctx.after s rounds (n + k) = .blocked := by
  induction k with
  | zero => exact h
  | succ k ih =>
    rw [← Nat.add_assoc]
    simp only [LoopContext.after, ih]

/-- A request that waits for itself never ends. -/
theorem Proxy.neverEnds_of_blocked {proxy : Proxy} {v : Visitor} {n : Nat}
    (h : proxy.proxyRequest v.env v.request n = .blocked) : proxy.NeverEnds v := by
  intro m e hended
  unfold proxyRequest at h hended
  cases hbegin : proxy.begin v.env v.request with
  | ended e' => simp [hbegin] at h
  | blocked => simp [hbegin] at hended
  | going p =>
    rw [hbegin, Progress.going_bind] at h hended
    rcases Nat.le_total n m with hle | hle
    · obtain ⟨k, rfl⟩ := Nat.exists_eq_add_of_le hle
      simp [LoopContext.after_add_of_blocked h k] at hended
    · obtain ⟨k, rfl⟩ := Nat.exists_eq_add_of_le hle
      simp [(LoopContext.after_add_of_ended hended k).1] at h

namespace Permits

def start : Permits := ⟨[], .start⟩

/-- `_permit` is acquired behind the validation and the size of the body, before any path is looked
at, and goes back when `proxy_request` returns or panics. -/
def step (proxy : Proxy) (sem : Semaphore Visitor) (s : Permits) : PermitEvent → Option Permits
  | .arrive env req => some { s with reading := s.reading ++ [⟨env, req⟩] }
  | .come i =>
    match s.reading[i]? with
    | some v =>
      match proxy.validate v.request with
      | .going _ => (sem.step s.semaphore (.come v)).map (⟨s.reading.eraseIdx i, ·⟩)
      | _ => some { s with reading := s.reading.eraseIdx i }
    | none => none
  | .leave i turns =>
    match s.semaphore.holding[i]? with
    | some v =>
      match proxy.proxyRequest v.env v.request turns with
      | .ended _ => (sem.step s.semaphore (.leave i)).map (⟨s.reading, ·⟩)
      | _ => none
    | none => none

variable {proxy : Proxy} {sem : Semaphore Visitor} {s t : Permits} {u : SemaphoreUse Visitor}
  {e : PermitEvent} {es : List PermitEvent} {n : Nat}

/-- A step is one of the semaphore for the request that comes or leaves, or nothing to it. -/
theorem step_simulates (h : step proxy sem s e = some t) :
    t.semaphore = s.semaphore ∨ ∃ p, Semaphore.Releases proxy.NeverEnds s.semaphore p ∧
      sem.step s.semaphore p = some t.semaphore := by
  cases e with
  | arrive env req =>
    cases h
    exact .inl rfl
  | come i =>
    simp only [step] at h
    split at h
    next v hv =>
      split at h
      next req hvalid =>
        obtain ⟨u, hu, rfl⟩ := Option.map_eq_some_iff.mp h
        exact .inr ⟨.come v, trivial, hu⟩
      next =>
        cases h
        exact .inl rfl
    next => simp at h
  | leave i turns =>
    simp only [step] at h
    split at h
    next v hi =>
      split at h
      next e hended =>
        obtain ⟨u, hu, rfl⟩ := Option.map_eq_some_iff.mp h
        refine .inr ⟨.leave i, ?_, hu⟩
        intro v' hi' hnever
        cases hi.symm.trans hi'
        exact hnever turns e hended
      next => simp at h
    next => simp at h

/-- A permit given back on the semaphore is given back by a request that has come to its end. -/
theorem leave_simulates {i : Nat} {u : SemaphoreUse Visitor}
    (hok : Semaphore.Releases proxy.NeverEnds s.semaphore (.leave i))
    (h : sem.step s.semaphore (.leave i) = some u) :
    ∃ turns, step proxy sem s (.leave i turns) = some { s with semaphore := u } := by
  have hi := (Option.ite_none_right_eq_some.mp h).1
  have hv : s.semaphore.holding[i]? = some s.semaphore.holding[i] := List.getElem?_eq_getElem hi
  have hends := hok _ hv
  unfold Proxy.NeverEnds at hends
  push Not at hends
  obtain ⟨turns, e, hended⟩ := hends
  refine ⟨turns, ?_⟩
  simp only [step, hv, hended, h, Option.map_some]

open Classical in
/-- How many of some requests never end. -/
noncomputable def neverEnding (proxy : Proxy) (vs : List Visitor) : Nat :=
  vs.countP (fun v => proxy.NeverEnds v)

/-- Every run is one of the semaphore, whose permits only those give back who end. -/
theorem run_simulates (h : Run (step proxy sem) anyStep s es t) :
    ∃ ps, Run sem.step (Semaphore.Releases proxy.NeverEnds) s.semaphore ps t.semaphore := by
  induction h with
  | nil s => exact ⟨[], .nil _⟩
  | cons _ hs _ ih =>
    obtain ⟨ps, hrun⟩ := ih
    rcases step_simulates hs with hsame | ⟨p, hok, hp⟩
    · rw [← hsame]
      exact ⟨ps, hrun⟩
    · exact ⟨p :: ps, .cons hok hp hrun⟩

open Classical in
theorem kept_of_run (hsem : sem.Fair n) (h : Run (step proxy sem) anyStep start es s) :
    Semaphore.Kept proxy.NeverEnds sem n s.semaphore := by
  obtain ⟨ps, hrun⟩ := run_simulates h
  exact Semaphore.Kept.run hrun hsem (Semaphore.kept_start hsem)

/-- A run of the semaphore to which nobody comes is one of requests that leave. -/
theorem leaves_of_releases {ps : List (PermitUse Visitor)} {u v : SemaphoreUse Visitor}
    (h : Run sem.step (Semaphore.Releases proxy.NeverEnds) u ps v) :
    ∀ reading, ps.filterMap PermitUse.asks = [] →
      ∃ es, Run (step proxy sem) anyStep ⟨reading, u⟩ es ⟨reading, v⟩ := by
  induction h with
  | nil u => exact fun reading _ => ⟨[], .nil _⟩
  | @cons u m v p ps hok hs _ ih =>
    intro reading hnone
    cases p with
    | come a => simp [PermitUse.asks] at hnone
    | leave i =>
      obtain ⟨es, hrest⟩ := ih reading (by simpa [PermitUse.asks] using hnone)
      obtain ⟨turns, hleave⟩ := @leave_simulates proxy sem ⟨reading, u⟩ i m hok hs
      exact ⟨.leave i turns :: es, .cons trivial hleave hrest⟩

end Permits

/-- Of the valid requests that have come to the semaphore, one can be let in, at once or some time
later, exactly when less than `poolSize` of those before it never end. Its path does not matter. The
requests are taken to get a thread whenever they go on: those that wait for a lock keep theirs, too,
and what comes of it is in `WorkerThreads`. -/
theorem let_in_iff {proxy : Proxy} {sem : Semaphore Visitor} {poolSize k : Nat}
    {es : List PermitEvent} {s : Permits} (hsem : sem.Fair poolSize)
    (h : Run (Permits.step proxy sem) anyStep Permits.start es s)
    (hk : k < s.semaphore.came.length) :
    (∃ es' t, Run (Permits.step proxy sem) anyStep s es' t ∧
        k < (t.semaphore.admitted sem).length) ↔
      Permits.neverEnding proxy (s.semaphore.came.take k) < poolSize := by
  classical
  have hkept := Permits.kept_of_run hsem h
  constructor
  · rintro ⟨es', t, hrun, ht⟩
    obtain ⟨ps, hps⟩ := Permits.run_simulates hrun
    exact hkept.room_of_run hsem hps hk ht
  · intro hroom
    obtain ⟨ps, u, hrun, hnone, hu⟩ := hkept.lets_in hsem hk hroom
    obtain ⟨es', hes'⟩ := Permits.leaves_of_releases hrun s.reading hnone
    exact ⟨es', _, hes', hu⟩

/-- An entry that has expired, in the cache of its key. -/
def expiredCaches (key : Str) : Caches :=
  AList.insert key ⟨AList.insert key ⟨[], [], 200, 0, none, none, none, none⟩ ∅, fromSecs 60, false⟩
    ∅

/-- The only permit of the pool is with a request that has found an expired entry. The health check
behind it is never answered. -/
theorem let_in_iff_expired_entry : ∃ (proxy : Proxy) (env : Surroundings) (s : Permits),
    Proxy.ofConfig plainCrates (cachingConfig ["http://localhost:5001".toList]) = .ok proxy ∧
    env.targetOrder = proxy.targetMap.entries ∧
    Run (Permits.step proxy (.counting 1)) anyStep .start
      [.arrive env (getRequest "/health".toList []),
        .arrive env (getRequest "/api/users".toList []), .come 1, .come 0] s ∧
    s.semaphore.came.length = 2 ∧
    ¬∃ es t, Run (Permits.step proxy (.counting 1)) anyStep s es t ∧
      1 < (t.semaphore.admitted (.counting 1)).length := by
  have hout : ∀ {proxy : Proxy} {es : List PermitEvent} {s : Permits} {v w : Visitor},
      Run (Permits.step proxy (.counting 1)) anyStep .start es s →
      s.semaphore.came = [v, w] → proxy.proxyRequest v.env v.request 0 = .blocked →
      ¬∃ es t, Run (Permits.step proxy (.counting 1)) anyStep s es t ∧
        1 < (t.semaphore.admitted (.counting 1)).length := by
    intro proxy es s v w hrun hcame hblocked
    have hnever := Proxy.neverEnds_of_blocked hblocked
    rw [let_in_iff Semaphore.counting_fair hrun (by rw [hcame]; exact Nat.lt_succ_self 1), hcame]
    simp [Permits.neverEnding, hnever]
  have hrun : ∃ (proxy : Proxy) (env : Surroundings) (s : Permits),
      Proxy.ofConfig plainCrates (cachingConfig ["http://localhost:5001".toList]) = .ok proxy ∧
      env.targetOrder = proxy.targetMap.entries ∧
      Run (Permits.step proxy (.counting 1)) anyStep .start
        [.arrive env (getRequest "/health".toList []),
          .arrive env (getRequest "/api/users".toList []), .come 1, .come 0] s ∧
      s.semaphore.came =
        [⟨env, getRequest "/api/users".toList []⟩, ⟨env, getRequest "/health".toList []⟩] ∧
      proxy.proxyRequest env (getRequest "/api/users".toList []) 0 = .blocked :=
    ⟨_, { plainSurroundings _ (fun _ => plainRound .timedOut) with
        hitCaches := expiredCaches "0".toList }, _, rfl, rfl,
      .cons trivial rfl (.cons trivial rfl (.cons trivial rfl (.cons trivial rfl (.nil _)))),
      rfl, rfl⟩
  obtain ⟨proxy, env, s, hproxy, horder, hrun, hcame, hblocked⟩ := hrun
  exact ⟨proxy, env, s, hproxy, horder, hrun, by rw [hcame]; rfl, hout hrun hcame hblocked⟩

end Road7
