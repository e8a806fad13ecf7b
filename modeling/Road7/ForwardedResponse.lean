import Road7.ClientResponses
import Road7.HeaderTransforms

namespace Road7

namespace LoopContext

variable {ctx : LoopContext} {s t : LoopState} {url : Str} {resp resp' : Response} {r : Round}
  {rounds : Nat → Round} {name : HeaderName} {n : Nat} {e : Ending}

/-- The configuration has a value for the header on the way back to the client. -/
def SetsHeader (ctx : LoopContext) (name : HeaderName) : Prop :=
  (∃ t ∈ ctx.selected.responseTransforms.getD [], t.headerName = some name) ∨
  (∃ f ∈ corsFields, f.name = name ∧
    (f.freshValue ctx.selected.corsConfig ctx.defaultCorsConfig).isSome) ∨
  ∃ config value, ctx.securityHeadersConfig = some config ∧ (name, some value) ∈ config.inserts

/-- What a client gets of a response of the upstream: the same, but for the headers that the
configuration has a value for. A body that breaks off is passed on so, except where the target has
a cache: there an empty one takes its place. -/
structure PassesOn (ctx : LoopContext) (resp resp' : Response) : Prop where
  status : resp'.status = resp.status
  headers : ∀ name, ¬ctx.SetsHeader name → resp'.headers.getAll name = resp.headers.getAll name
  body : resp'.body = if ctx.selected.cacheConfig.isSome ∧ resp.body.broken then Body.empty
    else resp.body

theorem getAll_finishResponse (h : ctx.finishResponse resp = .ok resp') :
    resp'.status = resp.status ∧ resp'.body = resp.body ∧
      ∀ name, ¬ctx.SetsHeader name → resp'.headers.getAll name = resp.headers.getAll name := by
  obtain ⟨headers, hcors, h⟩ := bind_eq_ok.mp h
  obtain ⟨headers', hsecurity, h⟩ := bind_eq_ok.mp h
  cases h
  refine ⟨rfl, rfl, fun name hname => ?_⟩
  have hfresh : headers.getAll name = resp.headers.getAll name := by
    by_cases hf : name ∈ corsFields.map CorsField.name
    · obtain ⟨f, hfield, rfl⟩ := List.mem_map.mp hf
      have hnone : f.freshValue ctx.selected.corsConfig ctx.defaultCorsConfig = none := by
        rw [← Option.not_isSome_iff_eq_none]
        exact fun hsome => hname (.inr (.inl ⟨f, hfield, rfl, hsome⟩))
      rw [getAll_insertFreshCors hcors f hfield, CorsField.freshValues, hnone]
      rfl
    · exact getAll_insertFreshCors_of_not_mem hf hcors
  show headers'.getAll name = _
  rw [← hfresh]
  cases hconfig : ctx.securityHeadersConfig with
  | none =>
    rw [hconfig] at hsecurity
    cases hsecurity
    rfl
  | some config =>
    have hnames : (config.inserts.map Prod.fst).Nodup := by
      have hall : securityHeaderNames.Nodup := by decide
      exact hall
    rw [hconfig] at hsecurity
    by_cases hmem : name ∈ securityHeaderNames
    · have hinserts : name ∈ config.inserts.map Prod.fst := hmem
      obtain ⟨⟨_, value⟩, he, rfl⟩ := List.mem_map.mp hinserts
      rw [applySecurityHeaders_some] at hsecurity
      rw [getAll_insertAll_of_mem hsecurity hnames he]
      cases value with
      | none => rfl
      | some value => exact absurd (.inr (.inr ⟨config, value, hconfig, he⟩)) hname
    · exact getAll_applySecurityHeaders hsecurity hmem

theorem readOut_body (resp : Response) :
    resp.readOut.body = if resp.body.broken then Body.empty else resp.body := by
  obtain ⟨status, headers, ⟨unread, broken⟩⟩ := resp
  cases broken with
  | true => rfl
  | false => rfl

/-- The response that an answer ends in. -/
theorem passesOn_of_answer (h : (ctx.answer s url
      (resp.applyTransforms ctx.selected.responseTransforms) r).1 = .ended (.upstream resp')) :
    ctx.PassesOn resp resp' := by
  unfold answer at h
  split at h
  next stored caches hstore =>
    have hfinish : ctx.finishResponse stored = .ok resp' := by
      cases hfinish : ctx.finishResponse stored with
      | ok finished =>
        rw [hfinish] at h
        cases h
        rfl
      | error p =>
        rw [hfinish] at h
        cases h
    obtain ⟨hstatus, hbody, hheaders⟩ := getAll_finishResponse hfinish
    have hstored := readOut_of_store hstore
    have htransformed : ∀ name, ¬ctx.SetsHeader name →
        (resp.applyTransforms ctx.selected.responseTransforms).headers.getAll name =
          resp.headers.getAll name := fun name hname =>
      Transform.updates.read_foldl_of_unnamed fun t ht heq => hname (.inl ⟨t, ht, heq⟩)
    by_cases hcache : ctx.selected.cacheConfig.isSome = true
    · rw [if_pos hcache] at hstored
      subst hstored
      refine ⟨hstatus, fun name hname => (hheaders name hname).trans (htransformed name hname), ?_⟩
      rw [hbody, readOut_body]
      simp only [hcache, true_and]
      rfl
    · rw [if_neg hcache] at hstored
      subst hstored
      refine ⟨hstatus, fun name hname => (hheaders name hname).trans (htransformed name hname), ?_⟩
      rw [hbody, if_neg fun h => hcache h.1]
      rfl
  next => cases h

/-- A turn that ends in a response of the upstream passes on the one that it has got. -/
theorem passesOn_of_turn (h : (ctx.turn s r).next = .ended (.upstream resp')) :
    ∃ resp, r.outcome = .response resp ∧ ctx.PassesOn resp resp' := by
  rcases ctx.turn_cases s r with ⟨_, _, _, e, hnext⟩ | ⟨_, _, _, _, p, hnext⟩ |
    ⟨_, url, req, _, _, _, _, hnext⟩
  · exact absurd (hnext.symm.trans h) (r.reported_ne_upstream _ _ _)
  · cases hnext.symm.trans h
  rw [hnext] at h
  have hretry : ctx.retry s.bodyRead ≠ .ended (.upstream resp') := by
    intro hended
    rcases ctx.retry_cases s.bodyRead with ⟨_, d, hd⟩ | ⟨_, p, _, hp⟩
    · cases hd.symm.trans hended
    · cases hp.symm.trans hended
  unfold settle at h
  split at h
  next resp houtcome =>
    refine ⟨resp, houtcome, ?_⟩
    split at h
    next => exact absurd h hretry
    next =>
      dsimp only at h
      split at h
      next =>
        rcases ctx.replay_cases s.bodyRead r with ⟨_, _, ⟨resp', hc⟩ | ⟨p, hp⟩⟩ | ⟨_, hg⟩ | ⟨_, hb⟩
        · cases hc.symm.trans h
        · cases hp.symm.trans h
        · cases hg.symm.trans h
        · cases hb.symm.trans h
      next => exact passesOn_of_answer h
  next =>
    split at h
    next => exact absurd h hretry
    next => exact absurd h (r.reported_ne_upstream _ _ _)
  next =>
    split at h
    next => exact absurd h (r.reported_ne_upstream _ _ _)
    next =>
      split at h
      next => exact absurd h hretry
      next => exact absurd h (r.reported_ne_upstream _ _ _)

/-- A loop that has ended has done so in one of its turns. -/
theorem turn_of_ended (h : ctx.after s rounds n = .ended e) :
    ∃ k < n, ∃ t, ctx.after s rounds k = .going t ∧ (ctx.turn t (rounds k)).next = .ended e := by
  induction n with
  | zero => cases h
  | succ n ih =>
    cases hn : ctx.after s rounds n with
    | going t =>
      refine ⟨n, Nat.lt_succ_self n, t, hn, ?_⟩
      simpa only [after, hn] using h
    | ended e' =>
      have hsame : e' = e := by simpa only [after, hn, Progress.ended.injEq] using h
      obtain ⟨k, hk, hturn⟩ := ih (by rw [hn, hsame])
      exact ⟨k, by omega, hturn⟩
    | blocked => simp only [after, hn, reduceCtorEq] at h

end LoopContext

theorem begin_not_upstream {proxy : Proxy} {env : Surroundings} {req : Request} {resp : Response} :
    proxy.begin env req ≠ .ended (.upstream resp) := by
  have hown : ∀ e : Ending, e.Own → e.OwnOrCached := fun _ h => .inl h
  have hends : (proxy.begin env req).EndsIn Ending.OwnOrCached := by
    rw [Proxy.begin_eq]
    exact own_or_cached_arrive.bind fun come _ =>
      ((own_addConditionalHeaders _ _ _).mono hown).bind fun _ _ => Progress.endsIn_going _
  intro hbegin
  rcases hends _ hbegin with hmade | ⟨_, hcached⟩
  · cases hmade.made
  · cases hcached

/-- A response that comes to a client from the upstream is the one that the upstream has sent to the
attempt that ended the loop, but for the headers that the configuration has a value for; and it can
be read as that one can, except that a body that breaks off becomes an empty one where the target
has a cache. -/
theorem response_passed_on {proxy : Proxy} {env : Surroundings} {req : Request} {n : Nat}
    {resp' : Response} (h : proxy.proxyRequest env req n = .ended (.upstream resp')) :
    ∃ ctx s k t resp, proxy.begin env req = .going (ctx, s) ∧ k < n ∧
      ctx.after s env.rounds k = .going t ∧
      (ctx.turn t (env.rounds k)).next = .ended (.upstream resp') ∧
      (env.rounds k).outcome = .response resp ∧
      ctx.PassesOn resp resp' ∧
      (resp'.body = resp.body ↔ ctx.selected.cacheConfig = none ∨ resp.body.broken = false) := by
  rcases Progress.bind_eq_ended.mp h with hbegin | ⟨⟨ctx, s⟩, hbegin, hended⟩
  · exact absurd hbegin begin_not_upstream
  obtain ⟨k, hk, t, ht, hturn⟩ := LoopContext.turn_of_ended hended
  obtain ⟨resp, houtcome, hpasses⟩ := LoopContext.passesOn_of_turn hturn
  refine ⟨ctx, s, k, t, resp, hbegin, hk, ht, hturn, houtcome, hpasses, ?_⟩
  rw [hpasses.body]
  constructor
  · intro heq
    by_contra hneither
    obtain ⟨hcache, hbroken⟩ := not_or.mp hneither
    have hbroken : resp.body.broken = true := by simpa using hbroken
    rw [if_pos ⟨Option.isSome_iff_ne_none.mpr hcache, hbroken⟩] at heq
    rw [← heq] at hbroken
    cases hbroken
  · rintro (hcache | hbroken)
    · rw [if_neg fun hboth => by simp [hcache] at hboth]
    · rw [if_neg fun hboth => by simp [hbroken] at hboth]

/-- The upstream breaks off in the middle of `hello`; the client of a caching target gets a complete
empty response with the status 200. -/
theorem response_passed_on_broken_off :
    ∃ (proxy : Proxy) (env : Surroundings) (resp' : Response),
    Proxy.ofConfig hashingCrates (cachingConfig ["http://localhost:5001".toList]) = .ok proxy ∧
    env.targetOrder = proxy.targetMap.entries ∧
    (env.rounds 0).outcome = .response ⟨200, [], ⟨utf8 "hel".toList, true⟩⟩ ∧
    proxy.proxyRequest env (getRequest "/api/users".toList []) 1 = .ended (.upstream resp') ∧
    resp'.status = 200 ∧ resp'.body ≠ ⟨utf8 "hel".toList, true⟩ := by
  have htrace : ∃ (proxy : Proxy) (env : Surroundings) (resp' : Response),
      Proxy.ofConfig hashingCrates (cachingConfig ["http://localhost:5001".toList]) = .ok proxy ∧
      env.targetOrder = proxy.targetMap.entries ∧
      (env.rounds 0).outcome = .response ⟨200, [], ⟨utf8 "hel".toList, true⟩⟩ ∧
      proxy.proxyRequest env (getRequest "/api/users".toList []) 1 = .ended (.upstream resp') ∧
      ∀ ctx s, proxy.begin env (getRequest "/api/users".toList []) = .going (ctx, s) →
        ctx.selected.cacheConfig ≠ none :=
    ⟨_, plainSurroundings _ (fun _ => plainRound (.response ⟨200, [], ⟨utf8 "hel".toList, true⟩⟩)),
      _, rfl, rfl, rfl, rfl, fun ctx s hbegin => by
        cases hbegin
        nofun⟩
  obtain ⟨proxy, env, resp', hproxy, horder, hround, hreply, hcaches⟩ := htrace
  obtain ⟨ctx, s, k, t, resp, hbegin, hk, _, _, houtcome, hpasses, hsame⟩ :=
    response_passed_on hreply
  obtain rfl : k = 0 := by omega
  obtain rfl : _ = resp := Outcome.response.inj (hround.symm.trans houtcome)
  refine ⟨proxy, env, resp', hproxy, horder, hround, hreply, hpasses.status, fun hbody => ?_⟩
  rcases hsame.mp hbody with hnone | hwhole
  · exact hcaches ctx s hbegin hnone
  · cases hwhole

end Road7
