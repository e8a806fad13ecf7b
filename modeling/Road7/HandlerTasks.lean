import Road7.RequestMetrics

namespace Road7

/-- What the handler is to the server that sees only its arrival, its bot check and its end. -/
def Handler.task (h : Handler) : Option Task :=
  match h.stage with
  | .received | .subtracted => none
  | .added | .counted | .entered => some (.received h.env h.req)
  | _ => some (.proxying h.env h.req)

namespace RequestMetrics

variable {proxy : Proxy} {c d : RequestMetrics} {es : List MetricsEvent}

def tasks (handlers : List Handler) : List Task := handlers.filterMap Handler.task

/-- The server counts the requests as the atomic counter does, and runs those handlers that are
behind their first statement and before their last but one. -/
structure Abstracts (proxy : Proxy) (c : RequestMetrics) (s : Server) : Prop where
  ongoing : s.ongoingRequests = c.counters.ongoingRequests
  tasks : s.tasks.Perm (tasks c.handlers)
  returned : ∀ h ∈ c.handlers, h.stage = .returned →
    ∃ n e, proxy.proxyRequest h.env h.req n = .ended e ∧ e.stage = some .returned

theorem tasks_perm {handlers : List Handler} {i : Nat} {h : Handler}
    (hi : handlers[i]? = some h) :
    (tasks handlers).Perm (h.task.toList ++ tasks (handlers.eraseIdx i)) := by
  have hperm := (perm_eraseIdx hi).filterMap Handler.task
  unfold tasks
  rw [List.filterMap_cons] at hperm
  cases htask : h.task with
  | none => rwa [htask] at hperm
  | some task => rwa [htask] at hperm

theorem tasks_replaced {handlers : List Handler} {i : Nat} {h : Handler}
    (hi : handlers[i]? = some h) (stage : Option HandlerStage) :
    (tasks (replaced handlers i h stage)).Perm
      ((stage.bind fun st => Handler.task { h with stage := st }).toList ++
        tasks (handlers.eraseIdx i)) := by
  have hperm := (perm_replaced hi stage).filterMap Handler.task
  rw [List.filterMap_append] at hperm
  cases stage with
  | none => exact hperm
  | some st =>
    simp only [Option.map_some, Option.toList_some, List.filterMap_cons, List.filterMap_nil]
      at hperm
    rw [Option.bind_some]
    cases htask : Handler.task { h with stage := st } with
    | none => rwa [htask] at hperm
    | some task => rwa [htask] at hperm

/-- A task of the server that is one of some tasks, and the others. -/
theorem exists_task {s : Server} {task : Task} {rest : List Task}
    (h : s.tasks.Perm (task :: rest)) :
    ∃ j, s.tasks[j]? = some task ∧ (s.tasks.eraseIdx j).Perm rest := by
  obtain ⟨j, hj⟩ := List.mem_iff_getElem?.mp (h.mem_iff.mpr List.mem_cons_self)
  exact ⟨j, hj, ((perm_eraseIdx hj).symm.trans h).cons_inv⟩

theorem step_finish {s : Server} {j n : Nat} {env : Surroundings} {req : Request} {e : Ending}
    (hj : s.tasks[j]? = some (.proxying env req))
    (hended : proxy.proxyRequest env req n = .ended e) :
    (e.stage = none →
      Server.step proxy s (.finish j n) = some ⟨s.ongoingRequests, s.tasks.eraseIdx j⟩) ∧
    (e.stage = some .returned →
      Server.step proxy s (.finish j n) = some ⟨s.ongoingRequests - 1, s.tasks.eraseIdx j⟩) := by
  constructor
  · intro hgone
    cases e with
    | panicked p => simp only [Server.step, hj, hended]
    | _ => cases hgone
  · intro hreturned
    cases e with
    | panicked p => cases hreturned
    | _ => simp only [Server.step, hj, hended]

/-- After a statement the server has the tasks of the other handlers and of what this one has come
to. -/
theorem Abstracts.replaced {s t : Server} {i : Nat} {h : Handler} {m : Counters}
    {stage : Option HandlerStage} (ha : c.Abstracts proxy s) (hi : c.handlers[i]? = some h)
    (hongoing : t.ongoingRequests = m.ongoingRequests)
    (htasks : t.tasks.Perm ((stage.bind fun st => Handler.task { h with stage := st }).toList ++
      RequestMetrics.tasks (c.handlers.eraseIdx i)))
    (hreturned : stage = some .returned →
      ∃ n e, proxy.proxyRequest h.env h.req n = .ended e ∧ e.stage = some .returned) :
    Abstracts proxy ⟨m, RequestMetrics.replaced c.handlers i h stage⟩ t := by
  refine ⟨hongoing, htasks.trans (tasks_replaced hi stage).symm, ?_⟩
  intro g hg hstage
  rcases mem_replaced hi hg with hg | ⟨st, rfl, rfl⟩
  · exact ha.returned g hg hstage
  · exact hreturned (congrArg some hstage)

/-- The end of `proxy_request` is nothing to the server as long as its handler goes on, and the end
of the task when it has panicked. -/
theorem ended_simulates {s : Server} {i n : Nat} {h : Handler} {e : Ending}
    (ha : c.Abstracts proxy s) (hi : c.handlers[i]? = some h)
    (htask : h.task = some (.proxying h.env h.req))
    (hended : proxy.proxyRequest h.env h.req n = .ended e) :
    Abstracts proxy ⟨c.counters, RequestMetrics.replaced c.handlers i h e.stage⟩ s ∨
      ∃ se t, Server.step proxy s se = some t ∧
        Abstracts proxy ⟨c.counters, RequestMetrics.replaced c.handlers i h e.stage⟩ t := by
  have hperm := ha.tasks.trans (tasks_perm hi)
  rw [htask] at hperm
  cases hgone : e.stage with
  | none =>
    obtain ⟨j, hj, hrest⟩ := exists_task hperm
    exact .inr ⟨.finish j n, _, (step_finish hj hended).1 hgone,
      ha.replaced hi ha.ongoing hrest (fun hr => by cases hr)⟩
  | some st =>
    have hst : st = .returned := by
      cases e with
      | panicked p => cases hgone
      | _ => exact (Option.some.inj hgone).symm
    subst hst
    exact .inl (ha.replaced hi ha.ongoing hperm (fun _ => ⟨n, e, hended, hgone⟩))

/-- A statement is a step of the server, or nothing to it. -/
theorem act_simulates {s : Server} {i turns : Nat} {h : Handler} {m : Counters}
    {stage : Option HandlerStage} (ha : c.Abstracts proxy s) (hi : c.handlers[i]? = some h)
    (hact : h.act proxy turns c.counters = some (m, stage)) :
    Abstracts proxy ⟨m, RequestMetrics.replaced c.handlers i h stage⟩ s ∨
      ∃ se t, Server.step proxy s se = some t ∧
        Abstracts proxy ⟨m, RequestMetrics.replaced c.handlers i h stage⟩ t := by
  have hperm := ha.tasks.trans (tasks_perm hi)
  unfold Handler.act at hact
  cases hstage : h.stage with
  | received =>
    simp only [hstage] at hact
    cases hact
    simp only [Handler.task, hstage, Option.toList_none, List.nil_append] at hperm
    exact .inr ⟨.start h.env h.req, _, rfl, ha.replaced hi (congrArg (· + 1) ha.ongoing)
      (hperm.cons _) (fun hr => by cases hr)⟩
  | added =>
    simp only [hstage] at hact
    cases hact
    simp only [Handler.task, hstage] at hperm
    exact .inl (ha.replaced hi ha.ongoing hperm (fun hr => by cases hr))
  | counted =>
    simp only [hstage] at hact
    cases hact
    simp only [Handler.task, hstage] at hperm
    exact .inl (ha.replaced hi ha.ongoing hperm (fun hr => by cases hr))
  | entered =>
    simp only [hstage] at hact
    cases hact
    simp only [Handler.task, hstage, Option.toList_some, List.singleton_append] at hperm
    obtain ⟨j, hj, hrest⟩ := exists_task hperm
    cases hbot : proxy.rejectsBot h.req with
    | true =>
      refine .inr ⟨.screen j, ⟨s.ongoingRequests, s.tasks.eraseIdx j⟩, ?_,
        ha.replaced hi ha.ongoing ?_ (fun hr => by cases hr)⟩
      · simp only [Server.step, hj, hbot, if_true]
      · exact hrest
    | false =>
      refine .inr ⟨.screen j, ⟨s.ongoingRequests, s.tasks.set j (.proxying h.env h.req)⟩, ?_,
        ha.replaced hi ha.ongoing ?_ (fun hr => by cases hr)⟩
      · simp only [Server.step, hj, hbot, Bool.false_eq_true, if_false]
      · have hlt := (List.getElem?_eq_some_iff.mp hj).1
        exact (List.set_perm_cons_eraseIdx hlt _).trans (hrest.cons _)
  | proxying =>
    have htask : h.task = some (.proxying h.env h.req) := by rw [Handler.task, hstage]
    simp only [hstage] at hact
    split at hact
    next =>
      cases hact
      rw [htask] at hperm
      exact .inl (ha.replaced hi ha.ongoing hperm (fun hr => by cases hr))
    next e hended =>
      cases hact
      exact ended_simulates ha hi htask (Proxy.proxyRequest_of_comeToCount hended 0)
    next => simp at hact
  | recounted =>
    simp only [hstage] at hact
    cases hact
    simp only [Handler.task, hstage] at hperm
    exact .inl (ha.replaced hi ha.ongoing hperm (fun hr => by cases hr))
  | loaded ongoing =>
    simp only [hstage] at hact
    cases hact
    simp only [Handler.task, hstage] at hperm
    exact .inl (ha.replaced hi ha.ongoing hperm (fun hr => by cases hr))
  | serving =>
    have htask : h.task = some (.proxying h.env h.req) := by rw [Handler.task, hstage]
    simp only [hstage] at hact
    split at hact
    next e hended =>
      cases hact
      exact ended_simulates ha hi htask hended
    next => simp at hact
  | returned =>
    simp only [hstage] at hact
    cases hact
    simp only [Handler.task, hstage, Option.toList_some, List.singleton_append] at hperm
    obtain ⟨n, e, hended, hreturned⟩ := ha.returned h (List.mem_of_getElem? hi) hstage
    obtain ⟨j, hj, hrest⟩ := exists_task hperm
    exact .inr ⟨.finish j n, _, (step_finish hj hended).2 hreturned,
      ha.replaced hi (congrArg (· - 1) ha.ongoing) hrest (fun hr => by cases hr)⟩
  | subtracted =>
    simp only [hstage] at hact
    cases hact
    simp only [Handler.task, hstage, Option.toList_none, List.nil_append] at hperm
    exact .inl (ha.replaced hi ha.ongoing hperm (fun hr => by cases hr))

/-- Every run of the handlers is a run of the server. -/
theorem run_simulates {ok : RequestMetrics → MetricsEvent → Prop} {s : Server}
    (h : Run (step proxy) ok c es d) (ha : c.Abstracts proxy s) :
    ∃ ses t, Run (Server.step proxy) anyStep s ses t ∧ d.Abstracts proxy t := by
  refine h.simulate (R := Abstracts proxy) ?_ ha
  intro c e d s ha _ hstep
  cases e with
  | receive env req =>
    cases hstep
    refine .inl ⟨ha.ongoing, ha.tasks, ?_⟩
    intro h hh hstage
    rcases List.mem_cons.mp hh with rfl | hh
    · cases hstage
    · exact ha.returned h hh hstage
  | act i turns =>
    obtain ⟨h, m, stage, hi, hact, rfl⟩ := act_eq_some hstep
    rcases act_simulates ha hi hact with hsame | ⟨se, t, hs, ht⟩
    · exact .inl hsame
    · exact .inr ⟨se, t, trivial, hs, ht⟩

/-- The atomic counter is never below the handlers that are between its two statements. -/
theorem tasks_le_ongoing (h : Run (step proxy) anyStep idle es c) :
    (tasks c.handlers).length ≤ c.counters.ongoingRequests := by
  have hidle : idle.Abstracts proxy Server.idle :=
    ⟨rfl, List.Perm.refl _, fun h hh => by simp [idle] at hh⟩
  obtain ⟨ses, t, hrun, ha⟩ := run_simulates h hidle
  have hge := (Server.counter_of_run hrun (Nat.le_refl _)).1
  rw [← ha.ongoing, ← ha.tasks.length_eq]
  simpa [Server.idle] using hge

end RequestMetrics

end Road7
