import Road7.BreakerTable

namespace Road7

/-- The urls that a request for a target can have in the first place. -/
def Target.firstUrls (t : Target) : List Str :=
  match t.routingHeader with
  | some _ => (t.routingValues.elim [] AList.entries).map Sigma.snd
  | none => t.urls.head?.toList

/-- The keys of breakers that a configuration has room for. -/
def ProxyConfig.breakerKeys (config : ProxyConfig) : List Str :=
  config.targets.flatMap fun t => t.firstUrls.map (· ++ ":circuit_breaker".toList)

namespace BreakerTable

variable {crates : Crates} {config : ProxyConfig} {proxy : Proxy} {table table' : BreakerTable}
  {e : TableEvent} {es : List TableEvent} {ctx : LoopContext} {key : Str}

theorem firstUrl_mem {t : Target} {headers : HeaderMap} {urls : List Str} {url : Str}
    (h : t.entry.provided headers = some urls) (hfirst : firstUrl urls = .ok url) :
    urls.head? = some url ∧ url ∈ t.firstUrls := by
  have hhead : urls.head? = some url := by
    cases urls with
    | nil => cases hfirst
    | cons u rest =>
      cases hfirst
      rfl
  refine ⟨hhead, ?_⟩
  unfold TargetEntry.provided at h
  unfold Target.firstUrls
  have hheader : t.entry.routingHeader = t.routingHeader := rfl
  rw [hheader] at h
  cases hrouting : t.routingHeader with
  | none =>
    rw [hrouting] at h
    cases h
    rw [Option.mem_toList]
    exact hhead
  | some name =>
    rw [hrouting] at h
    dsimp only at h ⊢
    split at h
    next value hvalue =>
      obtain ⟨u, hu, rfl⟩ := Option.map_eq_some_iff.mp h
      cases hhead
      obtain ⟨values, hvalues, hlookup⟩ := Option.bind_eq_some_iff.mp hu
      have hconfigured : t.routingValues = some values := hvalues
      rw [hconfigured, Option.elim_some]
      exact List.mem_map_of_mem (AList.mem_lookup_iff.mp hlookup)
    next => cases h

/-- A request comes to a breaker under a key that the configuration has room for. -/
theorem breakerKey_mem {env : Surroundings} {req req' : Request}
    (hproxy : Proxy.ofConfig crates config = .ok proxy)
    (horder : IterationOf proxy.targetMap env.targetOrder)
    (h : proxy.comeToBreaker env req = .going (ctx, req')) :
    ctx.breakerKey ∈ config.breakerKeys := by
  obtain ⟨⟨r, selected⟩, hreceive, h⟩ := Progress.bind_eq_going.mp h
  obtain ⟨c, happroach, h⟩ := Progress.bind_eq_going.mp h
  cases h
  obtain ⟨_, rfl, hroute⟩ := Proxy.receive_going hreceive
  obtain ⟨e, hchosen, hprovided⟩ := targetUrls_of_route hroute
  have hmem := horder.mem_iff.mp (List.mem_of_find?_eq_some hchosen)
  rw [targetMap_of_ofConfig hproxy] at hmem
  obtain ⟨t, ht, rfl⟩ := mem_buildTargetMap hmem
  obtain ⟨_, _, happroach⟩ := Progress.bind_eq_going.mp happroach
  obtain ⟨_, _, happroach⟩ := Progress.bind_eq_going.mp happroach
  obtain ⟨url, hfirst, happroach⟩ := Progress.bind_eq_going.mp happroach
  obtain ⟨_, _, happroach⟩ := Progress.bind_eq_going.mp happroach
  cases happroach
  obtain ⟨hhead, hurl⟩ := firstUrl_mem hprovided (Progress.orPanic_eq_going.mp hfirst)
  refine List.mem_flatMap.mpr ⟨t, ht, List.mem_map.mpr ⟨url, hurl, ?_⟩⟩
  show _ = selected.targetUrls.head?.getD [] ++ _
  rw [hhead, Option.getD_some]

theorem mem_breakers_iff : key ∈ table.breakers ↔ (table.limitsAt key).isSome = true := by
  rw [← AList.lookup_isSome, limitsAt, Option.isSome_map]

/-- No breaker is ever dropped, and none is made but for a request that comes to it. -/
theorem mem_breakers_step (h : step proxy table e = some table') :
    key ∈ table'.breakers ↔
      key ∈ table.breakers ∨ ∃ ctx, e.arrival proxy = some ctx ∧ ctx.breakerKey = key := by
  rw [mem_breakers_iff, mem_breakers_iff, limitsAt_step h]
  cases e.arrival proxy with
  | none => simp
  | some ctx =>
    rw [Option.elim_some]
    split
    next hkey => simp [hkey]
    next hkey => simp [Ne.symm hkey]

theorem mem_breakers_run {ok : BreakerTable → TableEvent → Prop}
    (h : Run (step proxy) ok table es table') (key : Str) :
    key ∈ table'.breakers ↔
      key ∈ table.breakers ∨ key ∈ (arrivals proxy es).map LoopContext.breakerKey := by
  induction h with
  | nil => simp [arrivals]
  | cons _ hstep _ ih =>
    rw [ih, mem_breakers_step hstep, arrivals_cons, List.map_append, List.mem_append, or_assoc]
    simp

theorem arrivals_keyed (hproxy : Proxy.ofConfig crates config = .ok proxy)
    (h : Run (step proxy) (InOrder proxy) table es table') :
    ∀ ctx ∈ arrivals proxy es, ctx.breakerKey ∈ config.breakerKeys := by
  induction h with
  | nil => simp [arrivals]
  | @cons s t u e es hok _ _ ih =>
    rw [arrivals_cons]
    intro ctx hctx
    rcases List.mem_append.mp hctx with hctx | hctx
    · cases e with
      | arrive env req now =>
        have harrival := Option.mem_toList.mp hctx
        simp only [TableEvent.arrival] at harrival
        split at harrival
        next c req' hcome =>
          cases harrival
          exact breakerKey_mem hproxy hok hcome
        next => cases harrival
      | prepare i caches now => cases hctx
      | turn i r now => cases hctx
    · exact ih ctx hctx

end BreakerTable

/-- In every run the breakers are those of the requests that have come to one, and there are never
more of them than the configuration has urls for its targets to be asked for first. -/
theorem breakers_bounded {crates : Crates} {config : ProxyConfig} {proxy : Proxy}
    {es : List TableEvent} {table : BreakerTable}
    (hproxy : Proxy.ofConfig crates config = .ok proxy)
    (h : Run (BreakerTable.step proxy) (BreakerTable.InOrder proxy) BreakerTable.empty es table) :
    (∀ key, key ∈ table.breakers ↔ key ∈ (arrivals proxy es).map LoopContext.breakerKey) ∧
      table.breakers.keys ⊆ config.breakerKeys ∧
      table.breakers.keys.length ≤ config.breakerKeys.length := by
  have hkeys : ∀ key, key ∈ table.breakers ↔
      key ∈ (arrivals proxy es).map LoopContext.breakerKey := by
    intro key
    have hrun := BreakerTable.mem_breakers_run h key
    have hnone : key ∉ BreakerTable.empty.breakers := List.not_mem_nil
    rwa [or_iff_right hnone] at hrun
  have hsub : table.breakers.keys ⊆ config.breakerKeys := by
    intro key hkey
    obtain ⟨ctx, hctx, rfl⟩ := List.mem_map.mp ((hkeys key).mp (AList.mem_keys.mpr hkey))
    exact BreakerTable.arrivals_keyed hproxy h ctx hctx
  exact ⟨hkeys, hsub, (List.subperm_of_subset table.breakers.nodupKeys hsub).length_le⟩

/-- Two targets behind one url have one breaker. -/
theorem breakers_bounded_shared_url : ∃ (proxy : Proxy) (env : Surroundings) (table : BreakerTable),
    Proxy.ofConfig plainCrates sharingConfig = .ok proxy ∧
    Run (BreakerTable.step proxy) (BreakerTable.InOrder proxy) BreakerTable.empty
      [.arrive env (plainRequest "/bank".toList [] []) 0,
        .arrive env (plainRequest "/shop".toList [] []) 1] table ∧
    table.breakers.keys = ["http://localhost:5001:circuit_breaker".toList] ∧
    table.breakers.keys.length ≤ sharingConfig.breakerKeys.length := by
  have htrace : ∃ (proxy : Proxy) (env : Surroundings) (table : BreakerTable),
      Proxy.ofConfig plainCrates sharingConfig = .ok proxy ∧
      Run (BreakerTable.step proxy) (BreakerTable.InOrder proxy) BreakerTable.empty
        [.arrive env (plainRequest "/bank".toList [] []) 0,
          .arrive env (plainRequest "/shop".toList [] []) 1] table ∧
      table.breakers.keys = ["http://localhost:5001:circuit_breaker".toList] :=
    ⟨_, plainSurroundings _ (fun _ => plainRound .timedOut), _, rfl,
      .cons (List.Perm.refl _) rfl (.cons (List.Perm.refl _) rfl (.nil _)), rfl⟩
  obtain ⟨proxy, env, table, hproxy, hrun, hkeys⟩ := htrace
  exact ⟨proxy, env, table, hproxy, hrun, hkeys, (breakers_bounded hproxy hrun).2.2⟩

end Road7
