import Road7.CacheReplies
import Road7.PlainProxy
import Road7.TargetChoice

namespace Road7

/-- The keys of the entries in all the caches, each with the key of its cache. -/
def Caches.entryKeys (caches : Caches) : List (Str × Str) :=
  caches.entries.flatMap (fun e => e.2.entries.keys.map (fun k => (e.1, k)))

/-- The request of an exchange has been taken to the target of a path. -/
def Exchange.serves (x : Exchange) (targetPath : Str) : Bool :=
  targetPath.isPrefixOf x.request.uri.path && x.selected.targetUrlLen == byteLen targetPath

theorem Caches.mem_entryKeys {caches : Caches} {K k : Str} :
    (K, k) ∈ caches.entryKeys ↔ (caches.entryAt K k).isSome = true := by
  unfold entryKeys entryAt
  rw [List.mem_flatMap, Option.isSome_bind]
  constructor
  · rintro ⟨⟨K', cache⟩, hcache, hk⟩
    obtain ⟨k', hk', heq⟩ := List.mem_map.mp hk
    cases heq
    rw [AList.mem_lookup_iff.mpr hcache]
    exact AList.lookup_isSome.mpr hk'
  · intro h
    obtain ⟨cache, hcache, hk⟩ := (Option.any_eq_true _ _).mp h
    exact ⟨⟨K, cache⟩, AList.mem_lookup_iff.mp hcache,
      List.mem_map.mpr ⟨k, AList.lookup_isSome.mp hk, rfl⟩⟩

theorem Caches.nodup_entryKeys (caches : Caches) : caches.entryKeys.Nodup := by
  refine List.nodup_flatMap.mpr ⟨fun e _ => ?_, ?_⟩
  · exact e.2.entries.keys_nodup.map (fun a b hab => (Prod.mk.inj hab).2)
  · refine (List.nodupKeys_iff_pairwise.mp caches.nodupKeys).imp (fun {a b} hne => ?_)
    apply List.disjoint_left.mpr
    intro e ha hb
    obtain ⟨_, _, rfl⟩ := List.mem_map.mp ha
    obtain ⟨_, _, heq⟩ := List.mem_map.mp hb
    exact hne (Prod.mk.inj heq).1.symm

theorem length_insert_le_iff {α : Type} [BEq α] [LawfulBEq α] {l : List α} {a : α} {m : Nat}
    (h : l.length ≤ m) : (l.insert a).length ≤ m ↔ a ∈ l ∨ l.length < m := by
  by_cases ha : a ∈ l
  · simp [ha, h]
  · rw [List.length_insert_of_not_mem ha]
    exact ⟨.inr, fun h => h.resolve_left ha⟩

namespace CacheClients

/-- The keys of the entries that are held for the target of a path: those whose latest exchange
has been with it. -/
def heldFor (proxy : Proxy) (c : CacheClients) (targetPath : Str) : List (Str × Str) :=
  c.caches.entryKeys.filter (fun e => (c.lastStored proxy e.2).any (·.serves targetPath))

/-- No target has more entries than the `max_size` of its cache configuration. -/
def WithinSizes (proxy : Proxy) (c : CacheClients) : Prop :=
  ∀ path e config, proxy.targetMap.lookup path = some e → e.cacheConfig = some config →
    (c.heldFor proxy path).length ≤ config.maxSize

/-- What is stored for a target replaces an entry that is held for it, or finds room below the
`max_size`. -/
def StoresWithin (proxy : Proxy) (c : CacheClients) (event : CacheEvent) : Prop :=
  ∀ x, c.exchangeAt event = some x → ∀ path e config, proxy.targetMap.lookup path = some e →
    e.cacheConfig = some config → x.serves path = true →
      (x.key proxy.crates.hashers.defaultHash, x.key proxy.crates.hashers.defaultHash) ∈
          c.heldFor proxy path ∨
        (c.heldFor proxy path).length < config.maxSize

variable {proxy : Proxy} {c d : CacheClients} {event : CacheEvent} {x : Exchange} {path K k : Str}

theorem mem_heldFor : (K, k) ∈ c.heldFor proxy path ↔
    (c.caches.entryAt K k).isSome = true ∧ (c.lastStored proxy k).any (·.serves path) = true := by
  unfold heldFor
  rw [List.mem_filter, Caches.mem_entryKeys]

theorem nodup_heldFor (proxy : Proxy) (c : CacheClients) (path : Str) :
    (c.heldFor proxy path).Nodup :=
  c.caches.nodup_entryKeys.filter _

/-- A step that stores nothing adds no entry. -/
theorem entryAt_of_no_exchange (hstep : c.step proxy event = some d)
    (hx : c.exchangeAt event = none) (h : (d.caches.entryAt K k).isSome = true) :
    (c.caches.entryAt K k).isSome = true := by
  obtain ⟨c', heffect, rfl⟩ := step_effected hstep
  have hremoved : ∀ removed, ((c.caches.removeEntries removed).entryAt K k).isSome = true →
      (c.caches.entryAt K k).isSome = true := by
    intro removed hsome
    rw [Caches.entryAt_removeEntries] at hsome
    split at hsome
    next => simp at hsome
    next => exact hsome
  cases heffect with
  | @arrive id env req swept _ =>
    rw [show (CacheClients.settle _ id env req _ _).caches = _ from caches_settle _] at h
    exact hremoved swept h
  | prepare _ =>
    dsimp only at h
    rwa [caches_settle] at h
  | turn hid =>
    simp only [exchangeAt, hid] at hx
    dsimp only at h
    rw [caches_settle, afterTurn, LoopContext.entryAt_of_no_exchange hx] at h
    exact h
  | @sweep cacheKey key _ => exact hremoved [(cacheKey, key)] h

theorem length_heldFor_of_no_exchange (hstep : c.step proxy event = some d)
    (hx : c.exchangeAt event = none) :
    (d.heldFor proxy path).length ≤ (c.heldFor proxy path).length := by
  refine (List.subperm_of_subset (nodup_heldFor proxy d path) ?_).length_le
  rintro ⟨K, k⟩ hmem
  obtain ⟨hentry, hlast⟩ := mem_heldFor.mp hmem
  have hstored : d.stored = c.stored := by simp [stored_of_step hstep, hx]
  unfold lastStored at hlast
  rw [hstored] at hlast
  exact mem_heldFor.mpr ⟨entryAt_of_no_exchange hstep hx hentry, hlast⟩

/-- After a store its key is held for its target alone, and the others as before. -/
theorem mem_heldFor_of_exchange (hc : c.Sound proxy) (hstep : c.step proxy event = some d)
    (hx : c.exchangeAt event = some x) : (K, k) ∈ d.heldFor proxy path ↔
      if k = x.key proxy.crates.hashers.defaultHash then K = k ∧ x.serves path = true
      else (K, k) ∈ c.heldFor proxy path := by
  obtain ⟨config, _, _, _, hcaches⟩ := exchangeAt_some hc hstep hx
  rw [mem_heldFor, hcaches, Caches.entryAt_afterStore]
  have hlast : d.lastStored proxy k =
      if k = x.key proxy.crates.hashers.defaultHash then some x else c.lastStored proxy k := by
    unfold lastStored
    rw [stored_of_step hstep, hx]
    by_cases hk : k = x.key proxy.crates.hashers.defaultHash
    · simp [hk]
    · simp [hk, Ne.symm hk]
  rw [hlast]
  by_cases hk : k = x.key proxy.crates.hashers.defaultHash
  · simp only [hk, and_true, if_true]
    by_cases hK : K = x.key proxy.crates.hashers.defaultHash
    · simp [hK]
    · have hnone : c.caches.entryAt K (x.key proxy.crates.hashers.defaultHash) = none := by
        rw [Option.eq_none_iff_forall_ne_some]
        intro entry hentry
        exact hK (hc.entries hentry).1.symm
      simp [hK, hnone]
  · simp only [hk, and_false, if_false]
    exact mem_heldFor.symm

/-- A store for another target takes an entry away at most, and one for this target adds one
unless it replaces one. -/
theorem length_heldFor_of_exchange (hc : c.Sound proxy) (hstep : c.step proxy event = some d)
    (hx : c.exchangeAt event = some x) :
    (x.serves path = false → (d.heldFor proxy path).length ≤ (c.heldFor proxy path).length) ∧
    (x.serves path = true → (d.heldFor proxy path).length =
      ((c.heldFor proxy path).insert (x.key proxy.crates.hashers.defaultHash,
        x.key proxy.crates.hashers.defaultHash)).length) := by
  have hmem (K k : Str) : (K, k) ∈ d.heldFor proxy path ↔ _ :=
    mem_heldFor_of_exchange hc hstep hx
  constructor
  · intro hserves
    refine (List.subperm_of_subset (nodup_heldFor proxy d path) ?_).length_le
    rintro ⟨K, k⟩ hkey
    rw [hmem, hserves] at hkey
    split at hkey
    next => simp at hkey
    next => exact hkey
  · intro hserves
    refine List.Perm.length_eq ((List.perm_ext_iff_of_nodup (nodup_heldFor proxy d path)
      (nodup_heldFor proxy c path).insert).mpr ?_)
    rintro ⟨K, k⟩
    rw [hmem, hserves, List.mem_insert_iff]
    by_cases hk : k = x.key proxy.crates.hashers.defaultHash
    · subst hk
      simp only [if_true, and_true, Prod.mk.injEq]
      constructor
      · exact .inl
      · rintro (hK | hkey)
        · exact hK
        · obtain ⟨entry, hentry⟩ := Option.isSome_iff_exists.mp (mem_heldFor.mp hkey).1
          exact (hc.entries hentry).1.symm
    · simp [hk]

theorem withinSizes_step_iff (hc : c.Sound proxy) (hwithin : c.WithinSizes proxy)
    (hstep : c.step proxy event = some d) :
    d.WithinSizes proxy ↔ StoresWithin proxy c event := by
  cases hx : c.exchangeAt event with
  | none =>
    refine iff_of_true (fun path e config he hconfig => ?_) (fun x hsome => ?_)
    · exact Nat.le_trans (length_heldFor_of_no_exchange hstep hx) (hwithin path e config he hconfig)
    · rw [hx] at hsome
      cases hsome
  | some x =>
    have hlength (p : Str) := @length_heldFor_of_exchange proxy c d event x p hc hstep hx
    constructor
    · intro h y hy path e config he hconfig hserves
      cases hx.symm.trans hy
      have hle := h path e config he hconfig
      rw [(hlength path).2 hserves] at hle
      exact (length_insert_le_iff (hwithin path e config he hconfig)).mp hle
    · intro h path e config he hconfig
      have hbefore := hwithin path e config he hconfig
      cases hserves : x.serves path with
      | false => exact Nat.le_trans ((hlength path).1 hserves) hbefore
      | true =>
        rw [(hlength path).2 hserves]
        exact (length_insert_le_iff hbefore).mpr (h x hx path e config he hconfig hserves)

end CacheClients

/-- What is stored is held for one target alone, one of the map, whose cache configuration it has
been stored by. -/
theorem CacheClients.exchange_serves {proxy : Proxy} {c : CacheClients} {id : Nat} {r : Round}
    {client : Client} {x : Exchange} (hc : c.Sound proxy) (hid : c.running id = some client)
    (horder : IterationOf proxy.targetMap client.env.targetOrder)
    (hx : c.exchangeAt (.turn id r) = some x) :
    ∃ path e, proxy.targetMap.lookup path = some e ∧ e.cacheConfig = x.selected.cacheConfig ∧
      ∀ p, x.serves p = true ↔ p = path := by
  obtain ⟨env, request, stage⟩ := client
  simp only [exchangeAt, hid] at hx
  split at hx
  next _ request' ctx s hclient =>
    cases Option.some.inj hclient
    obtain ⟨config, hex⟩ := LoopContext.exchange_some hx
    obtain ⟨_, _, hroute⟩ := Proxy.receive_going (hc.clients hid).1.receives
    obtain ⟨e, hchosen, hselect⟩ := select_of_route hroute
    have hpre := List.find?_some hchosen
    rw [Bool.and_eq_true, List.isPrefixOf_iff_prefix] at hpre
    have hlen := targetUrlLen_of_select hselect
    have hmem := horder.mem_iff.mp (List.mem_of_find?_eq_some hchosen)
    refine ⟨e.1, e.2, AList.mem_lookup_iff.mpr hmem, ?_, fun p => ?_⟩
    · rw [hex.selected]
      obtain ⟨_, _, hselect⟩ := bind_eq_ok.mp hselect
      rw [← Except.ok.inj hselect]
    · unfold Exchange.serves
      rw [Bool.and_eq_true, List.isPrefixOf_iff_prefix, beq_iff_eq, hex.selected, hlen, hex.request]
      constructor
      · rintro ⟨hp, hbytes⟩
        exact (prefix_eq_of_byteLen hpre.1 hp hbytes).symm
      · rintro rfl
        exact ⟨hpre.1, rfl⟩
  next => simp at hx

/-- In every run each target has at most `max_size` entries, in every state, exactly when every
store replaces an entry of its target or finds room below the `max_size`. -/
theorem within_sizes_iff {proxy : Proxy} {es : List CacheEvent} {c : CacheClients} {now : Nat}
    (h : Run (CacheClients.step proxy) anyStep (CacheClients.idle now) es c) :
    Run (CacheClients.step proxy) (Run.keeping (CacheClients.step proxy)
      (CacheClients.WithinSizes proxy)) (CacheClients.idle now) es c ↔
    Run (CacheClients.step proxy) (CacheClients.StoresWithin proxy) (CacheClients.idle now) es
      c := by
  have hidle : (CacheClients.idle now).WithinSizes proxy := fun _ _ _ _ _ => Nat.zero_le _
  refine h.keeping_iff (I := fun c => c.Sound proxy) ?_ (CacheClients.idle_sound now) hidle
  intro c e d hsound hwithin _ hstep
  exact ⟨CacheClients.sound_step hsound hstep,
    CacheClients.withinSizes_step_iff hsound hwithin hstep⟩

/-- A target that may keep one response. -/
def oneEntryConfig : ProxyConfig :=
  plainConfig [{ plainTarget "/api".toList ["http://a:1".toList] with
    cacheConfig := some ⟨60, 1, false, 60⟩ }]

theorem within_sizes_iff_one_page : ∃ (proxy : Proxy) (env : Surroundings) (c : CacheClients),
    Proxy.ofConfig hashingCrates oneEntryConfig = .ok proxy ∧
    env.targetOrder = proxy.targetMap.entries ∧
    (c.heldFor proxy "/api".toList).length = 1 ∧
    Run (CacheClients.step proxy) (Run.keeping (CacheClients.step proxy)
      (CacheClients.WithinSizes proxy)) (CacheClients.idle 0)
      (fetched 0 env (getRequest "/api/users".toList [])
        (plainRound (.response (textResponse [] "users")))) c := by
  refine ⟨_, plainSurroundings _ (fun _ => plainRound .timedOut), _, rfl, rfl, ?_,
    (within_sizes_iff (.cons trivial rfl (.cons trivial rfl (.cons trivial rfl (.nil _))))).mpr
      (.cons ?_ rfl (.cons ?_ rfl (.cons ?_ rfl (.nil _))))⟩
  · decide +kernel
  · intro x hx
    cases hx
  · intro x hx
    cases hx
  · intro x _ path e config he hconfig _
    refine .inr ?_
    have hone : config.maxSize = 1 := by
      by_cases hpath : path = "/api".toList
      · subst hpath
        cases he
        cases hconfig
        rfl
      · have hnone : (buildTargetMap oneEntryConfig.targets).lookup path = none :=
          (AList.lookup_insert_ne hpath).trans (AList.lookup_empty path)
        cases hnone.symm.trans he
    rw [hone]
    exact Nat.zero_lt_one

/-- Two pages, and both of them stay. -/
theorem second_page_beyond_size : ∃ (proxy : Proxy) (env : Surroundings) (c : CacheClients),
    Proxy.ofConfig hashingCrates oneEntryConfig = .ok proxy ∧
    env.targetOrder = proxy.targetMap.entries ∧
    Run (CacheClients.step proxy) anyStep (CacheClients.idle 0)
      (fetched 0 env (getRequest "/api/users".toList [])
          (plainRound (.response (textResponse [] "users"))) ++
        fetched 1 env (getRequest "/api/orders".toList [])
          (plainRound (.response (textResponse [] "orders")))) c ∧
    (c.heldFor proxy "/api".toList).length = 2 ∧ ¬c.WithinSizes proxy := by
  refine ⟨_, plainSurroundings _ (fun _ => plainRound .timedOut), _, rfl, rfl,
    .cons trivial rfl (.cons trivial rfl (.cons trivial rfl (.cons trivial rfl (.cons trivial rfl
      (.cons trivial rfl (.nil _)))))), ?_, fun h => ?_⟩
  · decide +kernel
  · exact absurd (h "/api".toList _ _ rfl rfl) (by decide +kernel)

end Road7
