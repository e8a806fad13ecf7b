import Road7.CacheClients

namespace Road7

namespace CacheClients

variable {proxy : Proxy} {c d : CacheClients} {e : CacheEvent} {env : Surroundings}
  {req : Request} {resp : Response} {swept : List (Str × Str)} {ctx : LoopContext}
  {s : LoopState} {r : Round} {x : Exchange} {key : Str}

theorem mem_of_lastStored (h : c.lastStored proxy key = some x) :
    x ∈ c.stored ∧ x.key proxy.crates.hashers.defaultHash = key :=
  ⟨List.mem_of_find?_eq_some h, by simpa using List.find?_some h⟩

/-- The hit path answers with the exchange last stored under the plain key; its second look at
the cache is under that key again. -/
theorem hit_source (h : c.Sound proxy)
    (hreply : proxy.arrive (c.seenBy env swept) req = .ended (.cached resp)) :
    ∃ selected url x, proxy.receive env req = .going (req.bodyRead, selected) ∧
      selected.targetUrls.head? = some url ∧
      findCached c.caches (proxy.key url req.bodyRead none) (proxy.key url req.bodyRead none)
        env.hitNow = .hit x.filed ∧
      c.lastStored proxy (proxy.key url req.bodyRead none) = some x ∧
      proxy.key url req.bodyRead x.filed.varyHeaders = proxy.key url req.bodyRead none ∧
      env.varyNow < x.filed.expiresAt ∧
      x.filed.toResponse proxy.securityHeadersConfig = .ok resp := by
  obtain ⟨selected, hreceive, happroach⟩ := Proxy.arrive_cached.mp hreply
  obtain ⟨_, _, url, hurl, hserve⟩ := Proxy.approach_cached.mp happroach
  obtain ⟨_, entry, found, hhit, hfound, hresp⟩ := Proxy.serveFromCache_cached.mp hserve
  have hentry : c.caches.entryAt (proxy.key url req.bodyRead none)
      (proxy.key url req.bodyRead none) = some entry := (Caches.findCached_hit.mp hhit).1
  obtain ⟨hfound, hlive⟩ := Caches.findCached_hit.mp hfound
  have hfound' : c.caches.entryAt (proxy.key url req.bodyRead none)
      (proxy.key url req.bodyRead entry.varyHeaders) = some found := by
    have hremoved := Caches.entryAt_removeEntries (K := proxy.key url req.bodyRead none)
      (k := proxy.key url req.bodyRead entry.varyHeaders) swept c.caches
    rw [show (c.seenBy env swept).varyCaches = c.caches.removeEntries swept from rfl,
      hremoved] at hfound
    split at hfound
    next => simp at hfound
    next => exact hfound
  obtain ⟨_, x, hx, rfl⟩ := h.entries hentry
  obtain ⟨hkey, y, hy, rfl⟩ := h.entries hfound'
  cases hx.symm.trans hy
  exact ⟨selected, url, x, hreceive, hurl, hhit, hx, hkey, hlive, hresp⟩

/-- The answer to a 304 is the exchange last stored under the plain key. -/
theorem replay_source (h : c.Sound proxy) (hadmits : proxy.Admits env req ctx)
    (hreply : BreakerClients.turned ctx s (c.onCaches r) = .ended (.cached resp)) :
    ∃ x, r.isNotModified = true ∧
      findCached c.caches ctx.cacheKey ctx.cacheKey r.now = .hit x.filed ∧
      c.lastStored proxy ctx.cacheKey = some x ∧
      x.filed.toResponse proxy.securityHeadersConfig = .ok resp := by
  rcases Progress.bind_eq_ended.mp hreply with hturn | ⟨_, _, hturn⟩
  · obtain ⟨hmodified, entry, hentry, hlive, hresp⟩ := LoopContext.cached_of_turn hturn
    obtain ⟨_, x, hx, rfl⟩ := h.entries hentry
    refine ⟨x, hmodified, Caches.findCached_hit.mpr ⟨hentry, hlive⟩, hx, ?_⟩
    rw [hadmits.context] at hresp
    exact hresp
  · simp at hturn

/-- The replies that a step can give, and where they come from. -/
inductive Answers (proxy : Proxy) (c : CacheClients) : CacheEvent → Reply → Prop
  | arrival {id : Nat} {env : Surroundings} {req : Request} {swept : List (Str × Str)}
      {ending : Ending} : CacheClients.arrival proxy (c.seenBy env swept) req = .ended ending →
      Answers proxy c (.arrive id env req swept)
        ⟨id, req, ending, (proxy.plainKey env req).bind (c.lastStored proxy)⟩
  | preparation {id now : Nat} {env : Surroundings} {request req : Request} {ctx : LoopContext}
      {ending : Ending} : c.running id = some ⟨env, request, .admitted ctx req⟩ →
      BreakerClients.prepared ctx c.caches now req = .ended ending →
      Answers proxy c (.prepare id now) ⟨id, request, ending, none⟩
  | turn {id : Nat} {r : Round} {env : Surroundings} {request : Request} {ctx : LoopContext}
      {s : LoopState} {ending : Ending} : c.running id = some ⟨env, request, .looping ctx s⟩ →
      BreakerClients.turned ctx s (c.onCaches r) = .ended ending →
      Answers proxy c (.turn id r) ⟨id, request, ending, c.lastStored proxy ctx.cacheKey⟩

theorem replies_settle {id : Nat} {request : Request} {source : Option Exchange}
    (p : Progress Stage) :
    (c.settle id env request source p).replies = c.replies ∨
      ∃ ending, p = .ended ending ∧ (c.settle id env request source p).replies =
        ⟨id, request, ending, source⟩ :: c.replies := by
  cases p with
  | going stage => exact .inl rfl
  | ended ending => exact .inr ⟨ending, rfl, rfl⟩
  | blocked => exact .inl rfl

/-- A step gives at most one reply, one of those that it can give. -/
theorem replies_of_step (h : c.step proxy e = some d) :
    d.replies = c.replies ∨ ∃ reply, Answers proxy c e reply ∧ d.replies = reply :: c.replies := by
  obtain ⟨c', heffect, rfl⟩ := step_effected h
  cases heffect with
  | arrive _ =>
    rcases replies_settle (arrival proxy _ _) with hsame | ⟨_, hp, hreply⟩
    · exact .inl hsame
    · exact .inr ⟨_, .arrival hp, hreply⟩
  | prepare hid =>
    rcases replies_settle (BreakerClients.prepared _ c.caches _ _) with hsame | ⟨_, hp, hreply⟩
    · exact .inl hsame
    · exact .inr ⟨_, .preparation hid hp, hreply⟩
  | turn hid =>
    rcases replies_settle (BreakerClients.turned _ _ (c.onCaches _)) with hsame | ⟨_, hp, hreply⟩
    · exact .inl hsame
    · exact .inr ⟨_, .turn hid hp, hreply⟩
  | sweep => exact .inl rfl

/-- A step stores nothing, or it is a turn that stores its exchange and may end with it. -/
theorem exchange_of_step (h : c.step proxy e = some d) : d.stored = c.stored ∨
    ∃ id r env request ctx s x source, e = .turn id r ∧
      c.running id = some ⟨env, request, .looping ctx s⟩ ∧
      ctx.exchange id request s (c.onCaches r) = some x ∧ d.stored = x :: c.stored ∧
      ∀ ending, BreakerClients.turned ctx s (c.onCaches r) = .ended ending →
        ⟨id, request, ending, source⟩ ∈ d.replies := by
  obtain ⟨c', heffect, rfl⟩ := step_effected h
  cases heffect with
  | arrive _ => exact .inl (stored_settle _)
  | prepare _ => exact .inl (stored_settle _)
  | @turn id r env request ctx s hid =>
    cases hx : ctx.exchange id request s (c.onCaches r) with
    | none =>
      refine .inl ((stored_settle _).trans ?_)
      simp [afterTurn, hx]
    | some x =>
      refine .inr ⟨id, r, env, request, ctx, s, x, c.lastStored proxy ctx.cacheKey, rfl, hid, hx,
        (stored_settle _).trans ?_, ?_⟩
      · simp [afterTurn, hx]
      · intro ending hended
        rw [hended]
        exact List.mem_cons_self
  | sweep => exact .inl rfl

/-- The exchange that an event stores. -/
def exchangeAt (c : CacheClients) : CacheEvent → Option Exchange
  | .turn id r =>
    match c.running id with
    | some ⟨_, request, .looping ctx s⟩ => ctx.exchange id request s (c.onCaches r)
    | _ => none
  | _ => none

theorem stored_of_step (h : c.step proxy e = some d) :
    d.stored = (c.exchangeAt e).toList ++ c.stored := by
  obtain ⟨c', heffect, rfl⟩ := step_effected h
  cases heffect with
  | arrive _ => exact stored_settle _
  | prepare _ => exact stored_settle _
  | turn hid =>
    refine (stored_settle _).trans ?_
    simp only [exchangeAt, hid]
    rfl
  | sweep => rfl

/-- What a stored exchange comes from, and where the step has put it. -/
theorem exchangeAt_some (hc : c.Sound proxy) (h : c.step proxy e = some d)
    (hx : c.exchangeAt e = some x) : ∃ config, x.selected.cacheConfig = some config ∧
      storedEntry proxy.crates.md5 x.now x.response x.selected.corsConfig = .ok x.entry ∧
      x.filed = (c.caches.cacheFor config (x.key proxy.crates.hashers.defaultHash)).filed
        proxy.crates.toVec x.entry x.now ∧
      d.caches = c.caches.afterStore proxy.crates.toVec config
        (x.key proxy.crates.hashers.defaultHash) x.entry x.now := by
  obtain ⟨c', heffect, rfl⟩ := step_effected h
  cases heffect with
  | arrive _ => simp [exchangeAt] at hx
  | prepare _ => simp [exchangeAt] at hx
  | sweep => simp [exchangeAt] at hx
  | turn hid =>
    simp only [exchangeAt, hid] at hx
    have hcrates := crates_of_admits (hc.clients hid).1
    obtain ⟨config, hex⟩ := LoopContext.exchange_some hx
    have hentry := hex.entry
    have hfiled := hex.filed
    have hcaches := hex.caches
    rw [hcrates] at hentry hfiled hcaches
    rw [← hex.now] at hentry hfiled hcaches
    rw [← hex.selected] at hentry
    refine ⟨config, hex.selected ▸ hex.configured, hentry, hfiled, ?_⟩
    exact (caches_settle _).trans hcaches

theorem stored_subset_of_step (h : c.step proxy e = some d) (hx : x ∈ c.stored) : x ∈ d.stored := by
  rcases exchange_of_step h with hsame | ⟨_, _, _, _, _, _, y, _, _, _, _, hstored, _⟩
  · rw [hsame]
    exact hx
  · rw [hstored]
    exact List.mem_cons_of_mem _ hx

theorem replies_subset_of_step {reply : Reply} (h : c.step proxy e = some d)
    (hreply : reply ∈ c.replies) : reply ∈ d.replies := by
  rcases replies_of_step h with hsame | ⟨reply', _, hreplies⟩
  · rw [hsame]
    exact hreply
  · rw [hreplies]
    exact List.mem_cons_of_mem _ hreply

/-- What holds of each reply that a step can give holds of all the replies of a run. -/
theorem replies_run {ok : CacheClients → CacheEvent → Prop} {Q : Reply → Prop}
    {es : List CacheEvent} {now : Nat}
    (hanswer : ∀ {c e reply}, c.Sound proxy → ok c e → Answers proxy c e reply → Q reply)
    (h : Run (step proxy) ok (idle now) es c) : ∀ reply ∈ c.replies, Q reply := by
  have hboth : c.Sound proxy ∧ ∀ reply ∈ c.replies, Q reply := by
    refine h.invariant (P := fun c => c.Sound proxy ∧ ∀ reply ∈ c.replies, Q reply) ?_
      ⟨idle_sound now, fun reply hreply => by cases hreply⟩
    rintro c e d ⟨hsound, hreplies⟩ hok hstep
    refine ⟨sound_step hsound hstep, ?_⟩
    rcases replies_of_step hstep with hsame | ⟨reply, hreply, hd⟩
    · rw [hsame]
      exact hreplies
    · rw [hd]
      intro reply' hmem
      rcases List.mem_cons.mp hmem with rfl | hmem
      · exact hanswer hsound hok hreply
      · exact hreplies reply' hmem
  exact hboth.2

/-- A reply out of the cache is made of the entry of its source. -/
def Sourced (proxy : Proxy) (c : CacheClients) : Prop :=
  ∀ reply ∈ c.replies, ∀ resp, reply.ending = .cached resp → ∃ x ∈ c.stored,
    reply.source = some x ∧ x.filed.toResponse proxy.securityHeadersConfig = .ok resp

theorem prepared_not_cached {caches : Caches} {now : Nat} :
    BreakerClients.prepared ctx caches now req ≠ .ended (.cached resp) := by
  intro h
  rcases Progress.bind_eq_ended.mp h with h | ⟨_, _, h⟩
  · unfold addConditionalHeaders at h
    split at h
    next =>
      rcases Progress.bind_eq_ended.mp h with h | ⟨_, _, h⟩
      · exact absurd h Proxy.orPanic_not_cached
      rcases Progress.bind_eq_ended.mp h with h | ⟨_, _, h⟩
      · exact absurd h Proxy.orPanic_not_cached
      · simp at h
    next => simp at h
    next => simp at h
  · simp at h

/-- What a step answers out of the cache has a source. -/
theorem source_of_answer {reply : Reply} (h : c.Sound proxy) (hreply : Answers proxy c e reply)
    (hcached : reply.ending = .cached resp) :
    ∃ x ∈ c.stored, reply.source = some x ∧
      x.filed.toResponse proxy.securityHeadersConfig = .ok resp := by
  cases hreply with
  | @arrival id env req swept ending hended =>
    cases hcached
    rcases Progress.bind_eq_ended.mp hended with hended | ⟨_, _, hended⟩
    · obtain ⟨selected, url, x, hreceive, hurl, _, hx, _, _, hresp⟩ := hit_source h hended
      refine ⟨x, (mem_of_lastStored hx).1, ?_, hresp⟩
      simp [Proxy.plainKey, hreceive, hurl, hx]
    · simp at hended
  | preparation hid hended =>
    cases hcached
    exact absurd hended prepared_not_cached
  | turn hid hended =>
    cases hcached
    obtain ⟨x, _, _, hx, hresp⟩ := replay_source h (h.clients hid).1 hended
    exact ⟨x, (mem_of_lastStored hx).1, hx, hresp⟩

theorem sourced_step (h : c.Sound proxy) (hc : c.Sourced proxy) (hstep : c.step proxy e = some d) :
    d.Sourced proxy := by
  intro reply hmem resp hcached
  have hold : (∃ x ∈ c.stored, reply.source = some x ∧
      x.filed.toResponse proxy.securityHeadersConfig = .ok resp) := by
    rcases replies_of_step hstep with hsame | ⟨reply', hanswer, hreplies⟩
    · exact hc reply (hsame ▸ hmem) resp hcached
    · rcases List.mem_cons.mp (hreplies ▸ hmem) with rfl | hmem
      · exact source_of_answer h hanswer hcached
      · exact hc reply hmem resp hcached
  obtain ⟨x, hx, hsource⟩ := hold
  exact ⟨x, stored_subset_of_step hstep hx, hsource⟩

theorem sourced_run {ok : CacheClients → CacheEvent → Prop} {es : List CacheEvent} {now : Nat}
    (h : Run (step proxy) ok (idle now) es c) : c.Sourced proxy := by
  have hboth : c.Sound proxy ∧ c.Sourced proxy := by
    refine h.invariant (P := fun c => c.Sound proxy ∧ c.Sourced proxy) ?_
      ⟨idle_sound now, fun reply hreply => by cases hreply⟩
    rintro c e d ⟨hsound, hsourced⟩ _ hstep
    exact ⟨sound_step hsound hstep, sourced_step hsound hsourced hstep⟩
  exact hboth.2

end CacheClients

end Road7
