import Road7.PlainProxy
import Road7.RequestStages

namespace Road7

namespace LoopContext

variable {ctx : LoopContext} {s t : LoopState} {rounds : Nat → Round}

theorem body_of_sentAt {n : Nat} {req : Request} (h : ctx.sentAt s rounds n = some req) :
    ∃ t, ctx.after s rounds n = .going t ∧
      req.body = Body.ofBytes (t.originalReq.body.toBytes.1.getD []) := by
  unfold sentAt at h
  split at h
  next t ht =>
    refine ⟨t, ht, ?_⟩
    rcases ctx.turn_cases t (rounds n) with
      ⟨_, hsent, _⟩ | ⟨_, _, hsent, _⟩ | ⟨_, url, req', _, hreq, hsent, _⟩
    · simp [hsent] at h
    · simp [hsent] at h
    · obtain rfl := Option.some.inj (hsent.symm.trans h)
      exact (rebuildRequest_ok hreq).2.1
  next => simp at h

theorem body_empty_of_after (hs : s.originalReq.body = Body.empty) {n : Nat}
    (h : ctx.after s rounds n = .going t) : t.originalReq.body = Body.empty := by
  induction n generalizing t with
  | zero =>
    simp only [after, Progress.going.injEq] at h
    rwa [← h]
  | succ n ih =>
    obtain ⟨u, _, hturn⟩ := after_succ_going h
    rw [originalReq_of_turn_going hturn]
    rfl

end LoopContext

/-- The validation of a request has read its body, so all that is sent upstream is empty. -/
theorem upstream_bodies_empty {proxy : Proxy} {env : Surroundings} {req r : Request} {n : Nat}
    (h : r ∈ proxy.upstreamRequests env req n) : r.body = Body.empty := by
  unfold Proxy.upstreamRequests at h
  split at h
  next ctx s hbegin =>
    obtain ⟨selected, _, henter⟩ := Proxy.begin_going hbegin
    obtain ⟨_, _, headers, rfl⟩ := Proxy.enterLoop_going henter
    obtain ⟨i, _, hi⟩ := List.mem_filterMap.mp h
    obtain ⟨t, ht, hbody⟩ := LoopContext.body_of_sentAt hi
    rw [hbody, LoopContext.body_empty_of_after rfl ht]
    rfl
  next => simp at h

/-- What is sent upstream carries the body of the client exactly when that is empty. -/
theorem upstream_body_eq_iff {proxy : Proxy} {env : Surroundings} {req r : Request} {n : Nat}
    (h : r ∈ proxy.upstreamRequests env req n) :
    r.body.unread = req.body.unread ↔ req.body.unread = [] := by
  rw [upstream_bodies_empty h]
  exact eq_comm

theorem upstream_body_eq_iff_no_body : ∃ proxy : Proxy, ∃ env : Surroundings, ∃ r,
    Proxy.ofConfig plainCrates
      (plainConfig [plainTarget "/api".toList ["http://localhost:5001".toList]]) = .ok proxy ∧
    env.targetOrder = proxy.targetMap.entries ∧
    proxy.upstreamRequests env (plainRequest "/api/users".toList [] []) 1 = [r] ∧
    r.body.unread = (plainRequest "/api/users".toList [] []).body.unread := by
  have hone : ∀ {proxy : Proxy} {env : Surroundings} {req r : Request},
      proxy.upstreamRequests env req 1 = [r] → req.body.unread = [] →
        proxy.upstreamRequests env req 1 = [r] ∧ r.body.unread = req.body.unread :=
    fun hsent hbody =>
      ⟨hsent, (upstream_body_eq_iff (hsent ▸ List.mem_singleton_self _)).mpr hbody⟩
  exact ⟨_, plainSurroundings _ (fun _ => plainRound .timedOut), _, rfl, rfl, hone rfl rfl⟩

/-- The body `hello` passes the validation and is sent upstream as an empty one. -/
theorem hello_forwarded_empty : ∃ proxy : Proxy, ∃ env : Surroundings, ∃ r,
    Proxy.ofConfig plainCrates
      (plainConfig [plainTarget "/api".toList ["http://localhost:5001".toList]]) = .ok proxy ∧
    env.targetOrder = proxy.targetMap.entries ∧
    validateBody plainCrates.clean (Body.ofBytes (utf8 "hello".toList)) = (.ok (), Body.empty) ∧
    proxy.upstreamRequests env (plainRequest "/api/users".toList [] (utf8 "hello".toList)) 1 =
      [r] ∧ r.body = Body.empty := by
  refine ⟨_, plainSurroundings _ (fun _ => plainRound (.response ⟨200, [], Body.empty⟩)), _, rfl,
    rfl, by decide, rfl, rfl⟩

end Road7
