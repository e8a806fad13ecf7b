import Road7.SharedClients
import Road7.UserSeparation
import Mathlib.Data.Fintype.EquivFin

namespace Road7

theorem storedEntry_later {md5 : Bytes → Str} {now : Nat} {resp : Response}
    {corsConfig : Option CorsConfig} {entry : CacheEntry}
    (h : storedEntry md5 now resp corsConfig = .ok entry) (later : Nat) :
    storedEntry md5 later resp corsConfig = .ok { entry with expiresAt := later } := by
  unfold storedEntry at h ⊢
  rw [fromResponse_eq] at h ⊢
  obtain ⟨made, hmade, rfl⟩ := map_eq_ok.mp h
  obtain ⟨cors, hcors, hmade⟩ := bind_eq_ok.mp hmade
  obtain ⟨etag, hetag, hmade⟩ := bind_eq_ok.mp hmade
  obtain ⟨lastModified, hlast, hmade⟩ := bind_eq_ok.mp hmade
  cases hmade
  rw [hcors, hetag, hlast]
  rfl

namespace LoopContext

variable {ctx : LoopContext} {id : Nat} {request : Request} {s : LoopState} {r : Round}
  {x : Exchange}

/-- A response is put under the same key whatever is in the caches, and how late it may be. -/
theorem offered_later (h : ctx.offered id request s r = some x) (m : Caches) (later : Nat) :
    ∃ y, ctx.offered id request s { r with caches := m, now := later } = some y ∧
      y.key ctx.crates.hashers.defaultHash = x.key ctx.crates.hashers.defaultHash := by
  have hsame : ctx.attemptUrl { r with caches := m, now := later } = ctx.attemptUrl r := rfl
  unfold offered at h ⊢
  rw [hsame]
  split at h
  next hlt =>
    split at h
    next targetUrl resp config hurl hresp hconfig =>
      split at h
      next => cases h
      next req kept hreq =>
        obtain ⟨hstatus, h⟩ := Option.ite_none_left_eq_some.mp h
        dsimp only at h
        split at h
        next => cases h
        next entry hentry =>
          cases h
          have hlater := storedEntry_later hentry later
          simp only [if_pos hlt, hurl, hresp, hconfig, hreq, if_neg hstatus, hlater]
          exact ⟨_, rfl, rfl⟩
    next => cases h
  next => cases h

/-- A request whose response is put is at its end. -/
theorem turned_of_offered (h : ctx.offered id request s r = some x) :
    ∃ e, BreakerClients.turned ctx s r = .ended e := by
  obtain ⟨config, hx⟩ := offered_some h
  have hnext : (ctx.turn s r).next =
      (ctx.answer { s with originalReq := x.kept } x.targetUrl x.response r).1 :=
    congrArg Prod.fst hx.turn
  unfold BreakerClients.turned
  rw [hnext]
  rcases ctx.answer_cases { s with originalReq := x.kept } x.targetUrl x.response r with
    ⟨resp, h⟩ | ⟨p, h⟩
  · rw [h]
    exact ⟨_, rfl⟩
  · rw [h]
    exact ⟨_, rfl⟩

end LoopContext

/-- The awaits of `proxy_request` behind a look that has found an entry, under whose `Ref` it stays:
four metrics are written, or one before the headers of the response panic. -/
def Ending.awaits : Ending → Nat
  | .cached _ => 4
  | .panicked .invalidHeaderValue => 1
  | _ => 0

/-- What a request has of the `Ref` on `proxy_state.caches` that it has looked through: nothing any
more; the `Ref`, off its thread, with some awaits ahead; or the `Ref` and its thread, for good. -/
inductive Guard where
  | dropped
  | kept (key : Str) (awaits : Nat)
  | lost (key : Str)

/-- A request that is off its thread with its `Ref`. -/
structure SuspendedHit where
  key : Str
  awaits : Nat

/-- A request whose thread waits for the shard that its response is to be stored in. -/
structure WaitingStore where
  id : Nat
  round : Round
  key : Str

/-- The requests on the worker threads of the runtime. A thread is taken by each store that waits,
by each request in `lost`, which waits for itself with the mutex of its entry locked, and by each
cleanup task in `sweeps`, which waits for such a mutex. The requests in `parked` await one, off
their threads. -/
structure WorkerThreads where
  clients : CacheClients
  hits : List SuspendedHit
  stores : List WaitingStore
  lost : List Str
  parked : List Str
  sweeps : List Str

/-- A request or a cleanup task is run by a free thread; a suspended request gets one again; a store
that waits gets its shard. -/
inductive ThreadEvent where
  | run (e : CacheEvent)
  | resume (i : Nat)
  | take (i now : Nat)

namespace WorkerThreads

def idle (now : Nat) : WorkerThreads := ⟨CacheClients.idle now, [], [], [], [], []⟩

def busy (s : WorkerThreads) : Nat := s.stores.length + s.lost.length + s.sweeps.length

/-- A read guard of the shard is out. A write guard is never kept over an await. -/
def holds (shardOf : Str → Nat) (s : WorkerThreads) (shard : Nat) : Bool :=
  s.hits.any (fun hit => shardOf hit.key = shard) || s.lost.any (fun key => shardOf key = shard) ||
    s.parked.any (fun key => shardOf key = shard)

/-- What the look of an arrival leaves of its `Ref`. -/
def arrivalGuard (key : Str) : Progress Stage → Guard
  | .ended e => if e.awaits = 0 then .dropped else .kept key e.awaits
  | .blocked => .lost key
  | .going _ => .dropped

/-- The later looks of a request have no await behind them. -/
def laterGuard (key : Str) : Progress Stage → Guard
  | .blocked => .lost key
  | _ => .dropped

def guardAfter (proxy : Proxy) (c : CacheClients) : CacheEvent → Guard
  | .arrive _ env req swept => (proxy.plainKey env req).elim .dropped fun key =>
      arrivalGuard key (CacheClients.arrival proxy (c.seenBy env swept) req)
  | .prepare id now =>
    match c.running id with
    | some ⟨_, _, .admitted ctx req⟩ =>
      laterGuard ctx.cacheKey (BreakerClients.prepared ctx c.caches now req)
    | _ => .dropped
  | .turn id r =>
    match c.running id with
    | some ⟨_, _, .looping ctx s⟩ =>
      laterGuard ctx.cacheKey (BreakerClients.turned ctx s (c.onCaches r))
    | _ => .dropped
  | .sweep _ _ _ => .dropped

/-- Of the looks at an expired entry the first one locks its mutex and then blocks in `remove`; the
later ones come no further than `entry.lock().await`. -/
def keep (s : WorkerThreads) : Guard → WorkerThreads
  | .dropped => s
  | .kept key awaits => { s with hits := ⟨key, awaits⟩ :: s.hits }
  | .lost key =>
    if s.lost.contains key then { s with parked := key :: s.parked }
    else { s with lost := key :: s.lost }

/-- The caches and the requests do what they do, and a request may keep its `Ref`. -/
def advance (proxy : Proxy) (s : WorkerThreads) (e : CacheEvent) : Option WorkerThreads :=
  (s.clients.step proxy e).map fun d => { s with clients := d }.keep (guardAfter proxy s.clients e)

/-- The key that a turn of the loop stores a response under. -/
def storeKey (c : CacheClients) (id : Nat) (r : Round) : Option Str :=
  match c.running id with
  | some ⟨_, request, .looping ctx s⟩ =>
    (ctx.offered id request s r).map (·.key ctx.crates.hashers.defaultHash)
  | _ => none

/-- What a free thread does. -/
def runOn (shardOf : Str → Nat) (workers : Nat) (proxy : Proxy) (s : WorkerThreads) :
    CacheEvent → Option WorkerThreads
  | .arrive id env req swept =>
    -- Between two looks of a request only other threads can remove entries, and none under a `Ref`
    -- that is there for good.
    if swept = [] ∨ s.busy + 1 < workers ∧ swept.all (fun e => !s.lost.contains e.1) then
      s.advance proxy (.arrive id env req swept)
    else none
  | .prepare id now => s.advance proxy (.prepare id now)
  | .turn id r =>
    if s.stores.any (fun w => w.id = id) then none
    else match storeKey s.clients id r with
      | some key =>
        if s.holds shardOf (shardOf key) then some { s with stores := ⟨id, r, key⟩ :: s.stores }
        else s.advance proxy (.turn id r)
      | none => s.advance proxy (.turn id r)
  | .sweep cacheKey key now =>
    if s.sweeps.contains cacheKey then none
    else if key = cacheKey ∧ s.lost.contains cacheKey then
      some { s with sweeps := cacheKey :: s.sweeps }
    else s.advance proxy (.sweep cacheKey key now)

def step (shardOf : Str → Nat) (workers : Nat) (proxy : Proxy) (s : WorkerThreads) :
    ThreadEvent → Option WorkerThreads
  | .run e => if s.busy < workers then s.runOn shardOf workers proxy e else none
  | .resume i =>
    if s.busy < workers then
      (s.hits[i]?).map fun hit => { s with
        hits := if hit.awaits ≤ 1 then s.hits.eraseIdx i
          else s.hits.set i { hit with awaits := hit.awaits - 1 } }
    else none
  | .take i now =>
    match s.stores[i]? with
    | some w =>
      if s.holds shardOf (shardOf w.key) then none
      else ({ s with stores := s.stores.eraseIdx i } : WorkerThreads).advance proxy
        (.turn w.id { w.round with now })
    | none => none

/-- How the threads get from state to state. -/
inductive Moves (shardOf : Str → Nat) (workers : Nat) (proxy : Proxy) (s : WorkerThreads) :
    ThreadEvent → WorkerThreads → Prop
  | advance {e : CacheEvent} {d : CacheClients} : s.busy < workers →
      (∀ w ∈ s.stores, ∀ r, e ≠ .turn w.id r) → s.clients.step proxy e = some d →
      Moves shardOf workers proxy s (.run e)
        ({ s with clients := d }.keep (guardAfter proxy s.clients e))
  | wait {id : Nat} {r : Round} {key : Str} : s.busy < workers → (∀ w ∈ s.stores, w.id ≠ id) →
      storeKey s.clients id r = some key → s.holds shardOf (shardOf key) = true →
      Moves shardOf workers proxy s (.run (.turn id r))
        { s with stores := ⟨id, r, key⟩ :: s.stores }
  | sweep {key : Str} {now : Nat} : s.busy < workers →
      Moves shardOf workers proxy s (.run (.sweep key key now)) { s with sweeps := key :: s.sweeps }
  | resume {i : Nat} {hits : List SuspendedHit} : s.busy < workers →
      Moves shardOf workers proxy s (.resume i) { s with hits }
  | take {i now : Nat} {w : WaitingStore} {d : CacheClients} : s.stores[i]? = some w →
      s.holds shardOf (shardOf w.key) = false →
      s.clients.step proxy (.turn w.id { w.round with now }) = some d →
      Moves shardOf workers proxy s (.take i now)
        ({ s with clients := d, stores := s.stores.eraseIdx i }.keep
          (guardAfter proxy s.clients (.turn w.id { w.round with now })))

variable {shardOf : Str → Nat} {workers : Nat} {proxy : Proxy} {s t : WorkerThreads}
  {e : ThreadEvent} {ce : CacheEvent} {w : WaitingStore} {key : Str} {es : List ThreadEvent}

theorem advance_moves (hbusy : s.busy < workers) (hturn : ∀ w ∈ s.stores, ∀ r, ce ≠ .turn w.id r)
    (h : s.advance proxy ce = some t) : s.Moves shardOf workers proxy (.run ce) t := by
  obtain ⟨d, hd, rfl⟩ := Option.map_eq_some_iff.mp h
  exact .advance hbusy hturn hd

theorem moves_of_step (h : s.step shardOf workers proxy e = some t) :
    s.Moves shardOf workers proxy e t := by
  cases e with
  | run ce =>
    obtain ⟨hbusy, h⟩ := Option.ite_none_right_eq_some.mp h
    cases ce with
    | arrive id env req swept =>
      exact advance_moves hbusy nofun (Option.ite_none_right_eq_some.mp h).2
    | prepare id now => exact advance_moves hbusy nofun h
    | turn id r =>
      obtain ⟨hnone, h⟩ := Option.ite_none_left_eq_some.mp h
      have hid : ∀ w ∈ s.stores, w.id ≠ id := by simpa using hnone
      have hturn : ∀ w ∈ s.stores, ∀ r', CacheEvent.turn id r ≠ .turn w.id r' := by
        intro w hw r' heq
        cases heq
        exact hid w hw rfl
      split at h
      next key hkey =>
        split at h
        next hheld =>
          cases h
          exact .wait hbusy hid hkey hheld
        next => exact advance_moves hbusy hturn h
      next => exact advance_moves hbusy hturn h
    | sweep cacheKey key now =>
      obtain ⟨_, h⟩ := Option.ite_none_left_eq_some.mp h
      split at h
      next hlost =>
        cases h
        obtain ⟨rfl, _⟩ := hlost
        exact .sweep hbusy
      next => exact advance_moves hbusy nofun h
  | resume i =>
    obtain ⟨hbusy, h⟩ := Option.ite_none_right_eq_some.mp h
    obtain ⟨hit, _, rfl⟩ := Option.map_eq_some_iff.mp h
    exact .resume hbusy
  | take i now =>
    simp only [step] at h
    split at h
    next w hw =>
      obtain ⟨hfree, h⟩ := Option.ite_none_left_eq_some.mp h
      obtain ⟨d, hd, rfl⟩ := Option.map_eq_some_iff.mp h
      exact .take hw (by simpa using hfree) hd
    next => cases h

@[simp] theorem clients_keep (s : WorkerThreads) (g : Guard) : (s.keep g).clients = s.clients := by
  cases g with
  | dropped => rfl
  | kept => rfl
  | lost => rw [keep]; split <;> rfl

@[simp] theorem stores_keep (s : WorkerThreads) (g : Guard) : (s.keep g).stores = s.stores := by
  cases g with
  | dropped => rfl
  | kept => rfl
  | lost => rw [keep]; split <;> rfl

theorem busy_keep_le (s : WorkerThreads) (g : Guard) : (s.keep g).busy ≤ s.busy + 1 := by
  cases g with
  | dropped => exact Nat.le_succ _
  | kept => exact Nat.le_succ _
  | lost =>
    rw [keep]
    split
    next => exact Nat.le_succ _
    next => simp only [busy, List.length_cons]; omega

/-- The mutex of an entry is locked once, and who awaits one finds it locked. -/
structure LocksOnce (s : WorkerThreads) : Prop where
  once : s.lost.Nodup
  locked : ∀ key ∈ s.parked, key ∈ s.lost

theorem LocksOnce.keep (h : s.LocksOnce) (g : Guard) : (s.keep g).LocksOnce := by
  cases g with
  | dropped => exact h
  | kept => exact ⟨h.once, h.locked⟩
  | lost key =>
    rw [WorkerThreads.keep]
    split
    next hlocked =>
      refine ⟨h.once, fun key' hkey' => ?_⟩
      rcases List.mem_cons.mp hkey' with rfl | hkey'
      · simpa using hlocked
      · exact h.locked key' hkey'
    next hfree =>
      have hnew : key ∉ s.lost := by simpa using hfree
      exact ⟨List.nodup_cons.mpr ⟨hnew, h.once⟩,
        fun key' hkey' => List.mem_cons_of_mem _ (h.locked key' hkey')⟩

/-- No more threads are taken than there are, the mutex of an entry takes one, and the requests that
wait for a shard wait in the middle of a turn that stores. -/
structure Sound (workers : Nat) (s : WorkerThreads) : Prop where
  busy : s.busy ≤ workers
  locks : s.LocksOnce
  ids : (s.stores.map WaitingStore.id).Nodup
  storing : ∀ w ∈ s.stores, ∃ env request ctx st x,
    s.clients.running w.id = some ⟨env, request, .looping ctx st⟩ ∧
      ctx.offered w.id request st w.round = some x ∧
      x.key ctx.crates.hashers.defaultHash = w.key

theorem idle_sound (workers now : Nat) : Sound workers (idle now) :=
  ⟨Nat.zero_le _, ⟨List.nodup_nil, List.forall_mem_nil _⟩, List.nodup_nil, List.forall_mem_nil _⟩

/-- A request in its loop stays there until it makes a turn. -/
theorem running_of_no_turn {c d : CacheClients} {id : Nat} {env : Surroundings} {request : Request}
    {ctx : LoopContext} {st : LoopState} (h : c.step proxy ce = some d)
    (hid : c.running id = some ⟨env, request, .looping ctx st⟩) (hturn : ∀ r, ce ≠ .turn id r) :
    d.running id = c.running id := by
  obtain ⟨c', heffect, rfl⟩ := CacheClients.step_effected h
  cases heffect with
  | @arrive id' _ _ _ hnone =>
    have hne : id ≠ id' := by
      rintro rfl
      rw [hid] at hnone
      cases hnone
    exact CacheClients.running_settle_of_ne hne _
  | @prepare id' _ _ _ _ _ hid' =>
    have hne : id ≠ id' := by
      rintro rfl
      cases hid.symm.trans hid'
    exact CacheClients.running_settle_of_ne hne _
  | @turn id' r _ _ _ _ _ =>
    have hne : id ≠ id' := by
      rintro rfl
      exact hturn r rfl
    exact CacheClients.running_settle_of_ne hne _
  | sweep => rfl

/-- The store that waits is the one that is made when the shard is free. -/
theorem guard_of_take (proxy : Proxy) (h : s.Sound workers) (hw : w ∈ s.stores) (now : Nat) :
    guardAfter proxy s.clients (.turn w.id { w.round with now }) = .dropped ∧
      storeKey s.clients w.id { w.round with now } = some w.key := by
  obtain ⟨env, request, ctx, st, x, hid, hx, hkey⟩ := h.storing w hw
  obtain ⟨y, hy, hsame⟩ := LoopContext.offered_later hx w.round.caches now
  obtain ⟨z, hz, _⟩ := LoopContext.offered_later hx s.clients.caches now
  obtain ⟨e, he⟩ := LoopContext.turned_of_offered hz
  have hround : s.clients.onCaches { w.round with now } =
      { w.round with caches := s.clients.caches, now := now } := rfl
  constructor
  · simp only [guardAfter, hid, hround, he, laterGuard]
  · simp only [storeKey, hid, hy, Option.map_some, hsame, hkey]

/-- The requests that go on waiting are others than the one that is served. -/
theorem Sound.id_ne (h : s.Sound workers) {i : Nat} (hi : s.stores[i]? = some w)
    {w' : WaitingStore} (hw' : w' ∈ s.stores.eraseIdx i) : w.id ≠ w'.id := by
  obtain ⟨j, hne, hj⟩ := List.mem_eraseIdx_iff_getElem?.mp hw'
  intro heq
  have hsame : (s.stores.map WaitingStore.id)[i]? = (s.stores.map WaitingStore.id)[j]? := by
    rw [List.getElem?_map, List.getElem?_map, hi, hj, Option.map_some, Option.map_some, heq]
  have hlt : i < (s.stores.map WaitingStore.id).length := by
    rw [List.length_map]
    exact (List.getElem?_eq_some_iff.mp hi).1
  exact hne ((List.getElem?_inj hlt h.ids).mp hsame).symm

theorem Sound.step (h : s.Sound workers) (hstep : s.step shardOf workers proxy e = some t) :
    t.Sound workers := by
  cases moves_of_step hstep with
  | @advance ce d hbusy hturn hd =>
    have hlocks : ({ s with clients := d } : WorkerThreads).LocksOnce :=
      ⟨h.locks.once, h.locks.locked⟩
    refine ⟨Nat.le_trans (busy_keep_le _ _) hbusy, hlocks.keep _, ?_, fun w hw => ?_⟩
    · rw [stores_keep]
      exact h.ids
    · rw [stores_keep] at hw
      obtain ⟨env, request, ctx, st, x, hid, hx⟩ := h.storing w hw
      rw [clients_keep]
      exact ⟨env, request, ctx, st, x, (running_of_no_turn hd hid (hturn w hw)).trans hid, hx⟩
  | @wait id r key hbusy hnone hkey _ =>
    refine ⟨?_, ⟨h.locks.once, h.locks.locked⟩, ?_, fun w hw => ?_⟩
    · simp only [WorkerThreads.busy, List.length_cons] at hbusy ⊢
      omega
    · rw [List.map_cons, List.nodup_cons]
      refine ⟨fun hmem => ?_, h.ids⟩
      obtain ⟨w, hw, hid⟩ := List.mem_map.mp hmem
      exact hnone w hw hid
    · rcases List.mem_cons.mp hw with rfl | hw
      · unfold storeKey at hkey
        split at hkey
        next env request ctx st hid =>
          obtain ⟨x, hx, hsame⟩ := Option.map_eq_some_iff.mp hkey
          exact ⟨env, request, ctx, st, x, hid, hx, hsame⟩
        next => cases hkey
      · exact h.storing w hw
  | sweep hbusy =>
    refine ⟨?_, ⟨h.locks.once, h.locks.locked⟩, h.ids, h.storing⟩
    simp only [WorkerThreads.busy, List.length_cons] at hbusy ⊢
    omega
  | resume => exact ⟨h.busy, ⟨h.locks.once, h.locks.locked⟩, h.ids, h.storing⟩
  | @take i now w d hw _ hd =>
    have hlt := (List.getElem?_eq_some_iff.mp hw).1
    have hbusy := h.busy
    have hlocks : ({ s with clients := d, stores := s.stores.eraseIdx i } :
        WorkerThreads).LocksOnce := ⟨h.locks.once, h.locks.locked⟩
    refine ⟨?_, hlocks.keep _, ?_, fun w' hw' => ?_⟩
    · refine Nat.le_trans (busy_keep_le _ _) ?_
      simp only [WorkerThreads.busy, List.length_eraseIdx, if_pos hlt] at hbusy ⊢
      omega
    · rw [stores_keep]
      exact h.ids.sublist ((List.eraseIdx_sublist _ i).map _)
    · rw [stores_keep] at hw'
      have hne := h.id_ne hw hw'
      obtain ⟨env, request, ctx, st, x, hid, hx⟩ :=
        h.storing w' ((List.eraseIdx_sublist _ _).subset hw')
      rw [clients_keep]
      refine ⟨env, request, ctx, st, x, (running_of_no_turn hd hid ?_).trans hid, hx⟩
      exact fun r heq => hne (CacheEvent.turn.inj heq).1

/-- The threads hold the requests up, and leave them what they do. -/
theorem clients_of_run (h : Run (step shardOf workers proxy) anyStep s es t) :
    ∃ ces, Run (CacheClients.step proxy) anyStep s.clients ces t.clients := by
  have hsim : ∀ {s : WorkerThreads} {e : ThreadEvent} {t : WorkerThreads} {c : CacheClients},
      s.clients = c → anyStep s e → s.step shardOf workers proxy e = some t →
      t.clients = c ∨ ∃ ce d, anyStep c ce ∧ c.step proxy ce = some d ∧ t.clients = d := by
    intro s e t c hc _ hstep
    subst hc
    cases moves_of_step hstep with
    | advance _ _ hd => exact .inr ⟨_, _, trivial, hd, clients_keep _ _⟩
    | wait => exact .inl rfl
    | sweep => exact .inl rfl
    | resume => exact .inl rfl
    | take _ _ hd => exact .inr ⟨_, _, trivial, hd, clients_keep _ _⟩
  obtain ⟨ces, c, hrun, rfl⟩ := Run.simulate (R := fun s c => s.clients = c) hsim h rfl
  exact ⟨ces, hrun⟩

theorem sound_of_run {now : Nat}
    (h : Run (step shardOf workers proxy) anyStep (idle now) es s) : s.Sound workers :=
  h.invariant (fun hs _ hstep => hs.step hstep) (idle_sound workers now)

/-- Behind a free thread the requests that are off their threads come to their ends. -/
theorem exists_released (shardOf : Str → Nat) (proxy : Proxy) (hits : List SuspendedHit) :
    ∀ {s : WorkerThreads}, s.hits = hits → s.busy < workers →
      ∃ es, Run (step shardOf workers proxy) anyStep s es { s with hits := [] } := by
  induction hits with
  | nil =>
    intro s hs _
    refine ⟨[], ?_⟩
    rw [← hs]
    exact .nil s
  | cons hit rest ih =>
    intro s hs hbusy
    have hfirst : ∀ (n : Nat) {s : WorkerThreads}, s.hits = ⟨hit.key, n⟩ :: rest →
        s.busy < workers →
        ∃ es, Run (step shardOf workers proxy) anyStep s es { s with hits := rest } := by
      intro n
      induction n with
      | zero =>
        intro s hs hbusy
        refine ⟨[.resume 0], .cons trivial ?_ (.nil _)⟩
        simp [step, hbusy, hs]
      | succ n ihn =>
        intro s hs hbusy
        cases n with
        | zero =>
          refine ⟨[.resume 0], .cons trivial ?_ (.nil _)⟩
          simp [step, hbusy, hs]
        | succ n =>
          obtain ⟨es, hes⟩ := ihn (s := { s with hits := ⟨hit.key, n + 1⟩ :: rest }) rfl hbusy
          refine ⟨.resume 0 :: es, .cons trivial ?_ hes⟩
          simp [step, hbusy, hs]
    obtain ⟨es, hes⟩ := hfirst hit.awaits hs hbusy
    obtain ⟨es', hes'⟩ := ih (s := { s with hits := rest }) rfl hbusy
    exact ⟨es ++ es', hes.append hes'⟩

/-- A request whose shard is free stores its response, and its thread is free again. -/
theorem exists_taken (proxy : Proxy) (h : s.Sound workers) {i : Nat} (hi : s.stores[i]? = some w)
    (hfree : s.holds shardOf (shardOf w.key) = false) :
    ∃ d, s.step shardOf workers proxy (.take i s.clients.clock) =
      some { s with clients := d, stores := s.stores.eraseIdx i } := by
  have hw := List.mem_of_getElem? hi
  obtain ⟨env, request, ctx, st, x, hid, _⟩ := h.storing w hw
  have hturn : (s.clients.step proxy
      (.turn w.id { w.round with now := s.clients.clock })).isSome = true := by
    rw [CacheClients.step, if_pos ⟨Nat.le_refl _, Nat.le_refl _⟩]
    simp only [CacheClients.effect, hid, Option.map_some, Option.isSome_some]
  obtain ⟨d, hd⟩ := Option.isSome_iff_exists.mp hturn
  have hguard := (guard_of_take proxy h hw s.clients.clock).1
  refine ⟨d, ?_⟩
  simp only [step, hi, hfree, advance, hd, Option.map_some, hguard, keep, Bool.false_eq_true,
    if_false]

/-- No shard is free that a request waits for, and no thread. -/
def Stopped (shardOf : Str → Nat) (workers : Nat) (s : WorkerThreads) : Prop :=
  s.busy = workers ∧ ∀ w ∈ s.stores, s.holds shardOf (shardOf w.key) = true

theorem step_of_stopped (h : s.Stopped shardOf workers) :
    s.step shardOf workers proxy e = none := by
  obtain ⟨hbusy, hheld⟩ := h
  cases e with
  | run ce => simp [step, hbusy]
  | resume i => simp [step, hbusy]
  | take i now =>
    simp only [step]
    split
    next w hw => rw [if_pos (hheld w (List.mem_of_getElem? hw))]
    next => rfl

/-- A cleanup that finds nothing takes a free thread for a moment. -/
theorem exists_step_of_free (shardOf : Str → Nat) (proxy : Proxy) (hbusy : s.busy < workers) :
    ∃ e t, s.step shardOf workers proxy e = some t := by
  obtain ⟨K, hK⟩ := Infinite.exists_notMem_finset s.sweeps.toFinset
  have hnone : ¬s.sweeps.contains K := by simpa using hK
  refine ⟨.run (.sweep K (' ' :: K) s.clients.clock), ?_⟩
  have hadvance : ∃ t, s.advance proxy (.sweep K (' ' :: K) s.clients.clock) = some t := by
    rw [advance, CacheClients.step, if_pos ⟨Nat.le_refl _, Nat.le_refl _⟩]
    exact ⟨_, rfl⟩
  obtain ⟨t, ht⟩ := hadvance
  refine ⟨t, ?_⟩
  have hother : ¬(' ' :: K = K ∧ s.lost.contains K) := fun h => List.cons_ne_self _ _ h.1
  simp only [step, if_pos hbusy, runOn, if_neg hnone, if_neg hother, ht]

theorem free_of_not_stopped (h : s.Sound workers) (hgoes : ¬s.Stopped shardOf workers) :
    s.busy < workers ∨ ∃ (i : Nat) (w : WaitingStore), s.stores[i]? = some w ∧
      s.holds shardOf (shardOf w.key) = false := by
  rcases Nat.lt_or_ge s.busy workers with hlt | hge
  · exact .inl hlt
  · have hheld : ¬∀ w ∈ s.stores, s.holds shardOf (shardOf w.key) = true :=
      fun hheld => hgoes ⟨Nat.le_antisymm h.busy hge, hheld⟩
    push Not at hheld
    obtain ⟨w, hw, hfree⟩ := hheld
    obtain ⟨i, hi⟩ := List.mem_iff_getElem?.mp hw
    exact .inr ⟨i, w, hi, by simpa using hfree⟩

theorem stopped_iff (shardOf : Str → Nat) (proxy : Proxy) (h : s.Sound workers) :
    (∀ e, s.step shardOf workers proxy e = none) ↔ s.Stopped shardOf workers := by
  constructor
  · intro hnone
    by_contra hgoes
    rcases free_of_not_stopped h hgoes with hbusy | ⟨i, w, hi, hfree⟩
    · obtain ⟨e, t, hstep⟩ := exists_step_of_free shardOf proxy hbusy
      rw [hnone] at hstep
      cases hstep
    · obtain ⟨d, hd⟩ := exists_taken proxy h hi hfree
      rw [hnone] at hd
      cases hd
  · exact fun hstopped e => step_of_stopped hstopped

/-- With a free thread a request gets its shard, but for a look that holds it for good. -/
theorem exists_served_of_free (h : s.Sound workers) (hbusy : s.busy < workers) (hw : w ∈ s.stores)
    (hlost : ∀ key ∈ s.lost, shardOf key ≠ shardOf w.key) :
    ∃ es t, Run (step shardOf workers proxy) anyStep s es t ∧ w ∉ t.stores := by
  obtain ⟨es, hes⟩ := exists_released shardOf proxy s.hits rfl hbusy
  obtain ⟨i, hi⟩ := List.mem_iff_getElem?.mp hw
  have hsound : ({ s with hits := [] } : WorkerThreads).Sound workers :=
    ⟨h.busy, ⟨h.locks.once, h.locks.locked⟩, h.ids, h.storing⟩
  have hfree : holds shardOf { s with hits := [] } (shardOf w.key) = false := by
    have hparked : ∀ key ∈ s.parked, shardOf key ≠ shardOf w.key :=
      fun key hkey => hlost key (h.locks.locked key hkey)
    simpa [holds] using ⟨hlost, hparked⟩
  obtain ⟨d, hd⟩ := exists_taken proxy hsound hi hfree
  refine ⟨_, _, hes.snoc trivial hd, fun hmem => ?_⟩
  exact h.id_ne hi hmem rfl

theorem exists_served (h : s.Sound workers) (hgoes : ¬s.Stopped shardOf workers)
    (hw : w ∈ s.stores) (hlost : ∀ key ∈ s.lost, shardOf key ≠ shardOf w.key) :
    ∃ es t, Run (step shardOf workers proxy) anyStep s es t ∧ w ∉ t.stores := by
  rcases free_of_not_stopped h hgoes with hbusy | ⟨i, w', hi, hfree⟩
  · exact exists_served_of_free h hbusy hw hlost
  · obtain ⟨d, hd⟩ := exists_taken proxy h hi hfree
    obtain ⟨hlt, hi'⟩ := List.getElem?_eq_some_iff.mp hi
    by_cases hrest : w ∈ s.stores.eraseIdx i
    · have hbusy : ({ s with clients := d, stores := s.stores.eraseIdx i } : WorkerThreads).busy <
          workers := by
        have hle := h.busy
        simp only [busy, List.length_eraseIdx, if_pos hlt] at hle ⊢
        omega
      obtain ⟨es, t, hrun, hserved⟩ :=
        exists_served_of_free (h.step hd) hbusy hrest hlost
      exact ⟨_, t, .cons trivial hd hrun, hserved⟩
    · exact ⟨_, _, .cons trivial hd (.nil _), hrest⟩

theorem mem_lost_keep (s : WorkerThreads) (g : Guard) (hkey : key ∈ s.lost) :
    key ∈ (s.keep g).lost := by
  cases g with
  | dropped => exact hkey
  | kept => exact hkey
  | lost =>
    rw [keep]
    split
    next => exact hkey
    next => exact List.mem_cons_of_mem _ hkey

/-- A request that comes behind a look that waits for itself waits with it. -/
theorem waits_step (hlost : key ∈ s.lost) (hshard : shardOf key = shardOf w.key)
    (hw : w ∈ s.stores) (hstep : s.step shardOf workers proxy e = some t) :
    key ∈ t.lost ∧ w ∈ t.stores := by
  cases moves_of_step hstep with
  | advance => exact ⟨mem_lost_keep _ _ hlost, by rwa [stores_keep]⟩
  | wait => exact ⟨hlost, List.mem_cons_of_mem _ hw⟩
  | sweep => exact ⟨hlost, hw⟩
  | resume => exact ⟨hlost, hw⟩
  | @take i now w' d hi hfree _ =>
    have hheld : s.holds shardOf (shardOf w.key) = true := by
      simp only [holds, Bool.or_eq_true, List.any_eq_true, decide_eq_true_eq]
      exact .inl (.inr ⟨key, hlost, hshard⟩)
    refine ⟨mem_lost_keep _ _ hlost, ?_⟩
    rw [stores_keep]
    obtain ⟨j, hj⟩ := List.mem_iff_getElem?.mp hw
    refine List.mem_eraseIdx_iff_getElem?.mpr ⟨j, ?_, hj⟩
    rintro rfl
    cases hi.symm.trans hj
    rw [hfree] at hheld
    cases hheld

end WorkerThreads

/-- On some number of threads the requests do what they do without them, as far as they get, and the
looks at an expired entry take one of them, however many they are. The proxy comes to a stop for good
exactly when each of its threads is taken and every request that waits for a shard finds it held, be
it by one that only waits for a thread. Until then such a request can still get its shard, but for
one that a look holds which waits for itself. -/
theorem worker_threads_stop_iff {proxy : Proxy} {shardOf : Str → Nat} {workers now : Nat}
    {es : List ThreadEvent} {s : WorkerThreads}
    (h : Run (WorkerThreads.step shardOf workers proxy) anyStep (WorkerThreads.idle now) es s) :
    (∃ ces, Run (CacheClients.step proxy) anyStep (CacheClients.idle now) ces s.clients) ∧
    s.LocksOnce ∧
    ((∀ e, s.step shardOf workers proxy e = none) ↔
      s.busy = workers ∧ ∀ w ∈ s.stores, s.holds shardOf (shardOf w.key) = true) ∧
    ∀ w ∈ s.stores,
      (∃ es' t, Run (WorkerThreads.step shardOf workers proxy) anyStep s es' t ∧ w ∉ t.stores) ↔
        (∃ e t, s.step shardOf workers proxy e = some t) ∧
          ∀ key ∈ s.lost, shardOf key ≠ shardOf w.key := by
  have hsound := WorkerThreads.sound_of_run h
  have hstopped := WorkerThreads.stopped_iff shardOf proxy hsound
  refine ⟨WorkerThreads.clients_of_run h, hsound.locks, hstopped, fun w hw => ⟨?_, ?_⟩⟩
  · rintro ⟨es', t, hrun, hserved⟩
    constructor
    · cases hrun with
      | nil => exact absurd hw hserved
      | cons _ hstep _ => exact ⟨_, _, hstep⟩
    · intro key hlost hshard
      have hkept := hrun.invariant (P := fun s => key ∈ s.lost ∧ w ∈ s.stores)
        (fun hs _ hstep => WorkerThreads.waits_step hs.1 hshard hs.2 hstep) ⟨hlost, hw⟩
      exact hserved hkept.2
  · rintro ⟨⟨e, t, hstep⟩, hlost⟩
    refine WorkerThreads.exists_served hsound (fun hstop => ?_) hw hlost
    rw [WorkerThreads.step_of_stopped hstop] at hstep
    cases hstep

set_option maxRecDepth 2000 in
/-- On one thread, as it is by default: two requests for a page miss it, the response of the first
is stored, a third request finds it, and the response of the second comes before the third one has
got its thread again. Nothing is served any more. -/
theorem worker_threads_stop_iff_one_thread :
    ∃ (proxy : Proxy) (env : Surroundings) (r : Round) (s : WorkerThreads),
    Proxy.ofConfig hashingCrates (cachingConfig ["http://localhost:5001".toList]) = .ok proxy ∧
    env.targetOrder = proxy.targetMap.entries ∧
    r.outcome = .response (textResponse [] "users") ∧
    Run (WorkerThreads.step (fun _ => 0) 1 proxy) anyStep (WorkerThreads.idle 0)
      [.run (.arrive 0 env (getRequest "/api/users".toList []) []), .run (.prepare 0 0),
        .run (.arrive 1 env (getRequest "/api/users".toList []) []), .run (.prepare 1 0),
        .run (.turn 0 r), .run (.arrive 2 env (getRequest "/api/users".toList []) []),
        .run (.turn 1 r)] s ∧
    s.hits.length = 1 ∧ s.stores.length = 1 ∧ s.lost = [] ∧
    ∀ e, s.step (fun _ => 0) 1 proxy e = none := by
  have htrace : ∃ (proxy : Proxy) (env : Surroundings) (r : Round) (s : WorkerThreads),
      Proxy.ofConfig hashingCrates (cachingConfig ["http://localhost:5001".toList]) = .ok proxy ∧
      env.targetOrder = proxy.targetMap.entries ∧
      r.outcome = .response (textResponse [] "users") ∧
      Run (WorkerThreads.step (fun _ => 0) 1 proxy) anyStep (WorkerThreads.idle 0)
        [.run (.arrive 0 env (getRequest "/api/users".toList []) []), .run (.prepare 0 0),
          .run (.arrive 1 env (getRequest "/api/users".toList []) []), .run (.prepare 1 0),
          .run (.turn 0 r), .run (.arrive 2 env (getRequest "/api/users".toList []) []),
          .run (.turn 1 r)] s ∧
      s.hits.length = 1 ∧ s.stores.length = 1 ∧ s.lost = [] ∧ s.sweeps = [] :=
    ⟨_, plainSurroundings _ (fun _ => plainRound .timedOut),
      plainRound (.response (textResponse [] "users")), _, rfl, rfl, rfl,
      .cons trivial rfl (.cons trivial rfl (.cons trivial rfl (.cons trivial rfl
        (.cons trivial rfl (.cons trivial rfl (.cons trivial rfl (.nil _))))))), rfl, rfl, rfl, rfl⟩
  obtain ⟨proxy, env, r, s, hproxy, horder, hr, hrun, hhits, hstores, hlost, hsweeps⟩ := htrace
  have hheld : ∀ w ∈ s.stores, s.holds (fun _ => 0) ((fun _ => 0 : Str → Nat) w.key) = true := by
    intro w _
    obtain ⟨hit, hhit⟩ := List.exists_mem_of_length_pos (Nat.lt_of_lt_of_eq Nat.one_pos hhits.symm)
    simp only [WorkerThreads.holds, Bool.or_eq_true, List.any_eq_true, decide_eq_true_eq]
    exact .inl (.inl ⟨hit, hhit, trivial⟩)
  have hbusy : s.busy = 1 := by
    rw [WorkerThreads.busy, hstores, hlost, hsweeps]
    rfl
  exact ⟨proxy, env, r, s, hproxy, horder, hr, hrun, hhits, hstores, hlost,
    (worker_threads_stop_iff hrun).2.2.1.mpr ⟨hbusy, hheld⟩⟩

end Road7
