import Road7.CacheHistory
import Road7.RwLock
import Mathlib.Logic.Function.Basic

namespace Road7

/-- Where a call of `Cache::get` stands: before `entries.get`; with the `Ref` that it returned;
before `entries.remove`, with the shadowed `Ref` still in scope; back. -/
inductive GetPhase where
  | calling
  | looking (entry : CacheEntry)
  | removing
  | returned (answer : Option CacheEntry)
deriving DecidableEq, Repr

inductive Owner where
  | getter
  | other (i : Nat)
deriving DecidableEq, Repr

/-- A call of `get` on a cache with the locks of its shards. -/
structure GetCall where
  cache : Cache
  locks : Nat → RwLock Owner
  phase : GetPhase

/-- The call takes its next step, or another task does something to a lock, or, under the write
guard of its shard, to an entry. -/
inductive GetEvent where
  | get (now : Nat)
  | lock (i shard : Nat) (op : LockOp)
  | insert (i : Nat) (key : Str) (entry : CacheEntry)
  | remove (i : Nat) (key : Str)

namespace GetCall

def start (cache : Cache) : GetCall := ⟨cache, fun _ => RwLock.free, .calling⟩

def withLock (c : GetCall) (shard : Nat) (l : RwLock Owner) : GetCall :=
  { c with locks := Function.update c.locks shard l }

/-- The next step of the call, which waits while the lock that it asks for is not to be had. -/
def next (shardOf : Str → Nat) (key : Str) (c : GetCall) (now : Nat) : Option GetCall :=
  let shard := shardOf key
  match c.phase with
  | .calling => do
    let l ← (c.locks shard).apply .getter .read
    match c.cache.entries.lookup key with
    | some entry => some { c.withLock shard l with phase := .looking entry }
    | none => some { c with phase := .returned none }
  | .looking entry =>
    if entry.expiresAt > now then do
      let l ← (c.locks shard).apply .getter .releaseRead
      some { c.withLock shard l with phase := .returned (some entry) }
    else some { c with phase := .removing }
  | .removing => do
    let l ← (c.locks shard).apply .getter .write
    let l ← l.apply .getter .releaseWrite
    let l ← l.apply .getter .releaseRead
    some { c.withLock shard l with
      cache := { c.cache with entries := c.cache.entries.erase key }
      phase := .returned none }
  | .returned _ => none

def step (shardOf : Str → Nat) (key : Str) (c : GetCall) : GetEvent → Option GetCall
  | .get now => c.next shardOf key now
  | .lock i shard op => ((c.locks shard).apply (.other i) op).map (c.withLock shard)
  | .insert i k entry =>
    if (c.locks (shardOf k)).writer = some (.other i) then
      some { c with cache := { c.cache with entries := c.cache.entries.insert k entry } }
    else none
  | .remove i k =>
    if (c.locks (shardOf k)).writer = some (.other i) then
      some { c with cache := { c.cache with entries := c.cache.entries.erase k } }
    else none

/-- The call asks for the write guard of the shard on which it holds a read guard. -/
def WaitsForItself (shardOf : Str → Nat) (key : Str) (c : GetCall) : Prop :=
  c.phase = .removing ∧ .getter ∈ (c.locks (shardOf key)).readers

/-- The condition that the call, if it looks at the entry now, finds it live. -/
def FindsLive (c : GetCall) (e : GetEvent) : Prop :=
  ∀ now entry, e = .get now → c.phase = .looking entry → now < entry.expiresAt

def Alone (now : Nat) (_ : GetCall) (e : GetEvent) : Prop := e = .get now

/-- While the call looks at an entry or wants to remove it, its read guard is out. -/
def Guarded (shardOf : Str → Nat) (key : Str) (c : GetCall) : Prop :=
  (∃ entry, c.phase = .looking entry) ∨ c.phase = .removing →
    .getter ∈ (c.locks (shardOf key)).readers

variable {shardOf : Str → Nat} {key : Str} {c d : GetCall} {e : GetEvent} {es : List GetEvent}

/-- A step of another task changes neither the phase of the call nor its guards. -/
theorem step_other (h : c.step shardOf key e = some d) (he : ∀ now, e ≠ .get now) :
    d.phase = c.phase ∧ ∀ shard, .getter ∈ (d.locks shard).readers ↔
      .getter ∈ (c.locks shard).readers := by
  cases e with
  | get now => exact absurd rfl (he now)
  | lock i shard op =>
    obtain ⟨l, hl, rfl⟩ := Option.map_eq_some_iff.mp h
    refine ⟨rfl, fun shard' => ?_⟩
    by_cases hs : shard' = shard
    · subst hs
      simpa [withLock] using (RwLock.apply_other hl (by simp)).1
    · simp [withLock, hs]
  | insert i k entry =>
    simp only [step] at h
    split at h
    next => cases h; exact ⟨rfl, fun _ => Iff.rfl⟩
    next => simp at h
  | remove i k =>
    simp only [step] at h
    split at h
    next => cases h; exact ⟨rfl, fun _ => Iff.rfl⟩
    next => simp at h

/-- All that the call does in a step while it does not wait for itself. -/
theorem next_cases {now : Nat} (h : c.next shardOf key now = some d)
    (hguard : c.Guarded shardOf key) :
    (c.phase = .calling ∧ d.cache = c.cache ∧ ∃ entry, d.phase = .looking entry ∧
        c.cache.entries.lookup key = some entry ∧ .getter ∈ (d.locks (shardOf key)).readers) ∨
      (c.phase = .calling ∧ d.cache = c.cache ∧ d.phase = .returned none ∧
        c.cache.entries.lookup key = none) ∨
      (∃ entry, c.phase = .looking entry ∧ now < entry.expiresAt ∧ d.cache = c.cache ∧
        d.phase = .returned (some entry)) ∨
      (∃ entry, c.phase = .looking entry ∧ entry.expiresAt ≤ now ∧
        d = { c with phase := .removing }) := by
  unfold next at h
  split at h
  next hphase =>
    obtain ⟨l, hl, h⟩ := Option.bind_eq_some_iff.mp h
    split at h
    next entry hentry =>
      cases h
      refine .inl ⟨hphase, rfl, entry, rfl, hentry, ?_⟩
      simp only [RwLock.apply] at hl
      split at hl
      next => cases hl; simp [withLock]
      next => simp at hl
    next hnone =>
      cases h
      exact .inr (.inl ⟨hphase, rfl, rfl, hnone⟩)
  next entry hphase =>
    split at h
    next hlive =>
      obtain ⟨l, _, h⟩ := Option.bind_eq_some_iff.mp h
      cases h
      exact .inr (.inr (.inl ⟨entry, hphase, hlive, rfl, rfl⟩))
    next hdead =>
      cases h
      exact .inr (.inr (.inr ⟨entry, hphase, Nat.not_lt.mp hdead, rfl⟩))
  next hphase =>
    obtain ⟨l, hl, _⟩ := Option.bind_eq_some_iff.mp h
    rw [RwLock.write_eq_none (hguard (.inr hphase))] at hl
    simp at hl
  next => simp at h

theorem guarded_step (h : c.step shardOf key e = some d) (hguard : c.Guarded shardOf key) :
    d.Guarded shardOf key := by
  by_cases he : ∃ now, e = .get now
  · obtain ⟨now, rfl⟩ := he
    rcases next_cases h hguard with ⟨_, _, entry, _, _, hmem⟩ | ⟨_, _, hphase, _⟩ |
      ⟨entry, _, _, _, hphase⟩ | ⟨entry, hphase, _, rfl⟩
    · exact fun _ => hmem
    · simp [Guarded, hphase]
    · simp [Guarded, hphase]
    · exact fun _ => hguard (.inl ⟨entry, hphase⟩)
  · obtain ⟨hphase, hreaders⟩ := step_other h (fun now hnow => he ⟨now, hnow⟩)
    unfold Guarded
    rw [hphase, hreaders]
    exact hguard

/-- A call that waits for itself does so for ever, whatever the others do. -/
theorem waits_step (h : c.step shardOf key e = some d) (hwaits : c.WaitsForItself shardOf key) :
    d.WaitsForItself shardOf key := by
  by_cases he : ∃ now, e = .get now
  · obtain ⟨now, rfl⟩ := he
    rcases next_cases h (fun _ => hwaits.2) with ⟨hphase, _⟩ | ⟨hphase, _⟩ | ⟨_, hphase, _⟩ |
      ⟨_, hphase, _⟩ <;> simp [hwaits.1] at hphase
  · obtain ⟨hphase, hreaders⟩ := step_other h (fun now hnow => he ⟨now, hnow⟩)
    exact ⟨by rw [hphase, hwaits.1], (hreaders _).mpr hwaits.2⟩

theorem waits_run {ok : GetCall → GetEvent → Prop} (h : Run (step shardOf key) ok c es d)
    (hwaits : c.WaitsForItself shardOf key) : d.WaitsForItself shardOf key :=
  h.invariant (fun hc _ hstep => waits_step hstep hc) hwaits

/-- A step comes to the wait exactly when it finds the entry expired. -/
theorem removing_iff (h : c.step shardOf key e = some d) (hguard : c.Guarded shardOf key)
    (hphase : c.phase ≠ .removing) : d.phase = .removing ↔ ¬c.FindsLive e := by
  by_cases he : ∃ now, e = .get now
  · obtain ⟨now, rfl⟩ := he
    unfold FindsLive
    rcases next_cases h hguard with ⟨hc, _, entry, hd, _⟩ | ⟨hc, _, hd, _⟩ |
      ⟨entry, hc, hlive, _, hd⟩ | ⟨entry, hc, hdead, rfl⟩
    · simp [hc, hd]
    · simp [hc, hd]
    · simp [hc, hd, hlive]
    · simpa [hc] using hdead
  · obtain ⟨hphase', _⟩ := step_other h (fun now hnow => he ⟨now, hnow⟩)
    rw [hphase']
    refine iff_of_false hphase (fun hlive => hlive ?_)
    intro now entry hnow _
    exact absurd ⟨now, hnow⟩ he

/-- A run waits for itself in the end exactly when it has found the entry expired. -/
theorem run_waits_iff (h : Run (step shardOf key) anyStep c es d) (hguard : c.Guarded shardOf key)
    (hphase : c.phase ≠ .removing) :
    d.WaitsForItself shardOf key ↔ ¬Run (step shardOf key) FindsLive c es d := by
  induction h with
  | nil c => exact iff_of_false (fun hwaits => hphase hwaits.1) (fun hrun => hrun (.nil c))
  | @cons c m d e es _ hstep hrest ih =>
    have hm := guarded_step hstep hguard
    by_cases hlive : c.FindsLive e
    · have hphase' : m.phase ≠ .removing := fun hr => (removing_iff hstep hguard hphase).mp hr hlive
      rw [ih hm hphase']
      refine not_congr ⟨fun hrun => .cons hlive hstep hrun, fun hrun => ?_⟩
      cases hrun with
      | cons _ hstep' hrun =>
        cases hstep.symm.trans hstep'
        exact hrun
    · have hphase' := (removing_iff hstep hguard hphase).mpr hlive
      refine iff_of_true (waits_run hrest ⟨hphase', hm (.inr hphase')⟩) (fun hrun => ?_)
      cases hrun with
      | cons hlive' _ _ => exact hlive hlive'

theorem start_guarded (cache : Cache) : (start cache).Guarded shardOf key := by
  simp [Guarded, start]

/-- Alone and with nothing expired, the call returns and leaves what `Cache.get` says. -/
theorem alone_returns {cache : Cache} {now : Nat} (h : cache.getBlocks key now = false) :
    ∃ es d, Run (step shardOf key) (Alone now) (start cache) es d ∧
      d.phase = .returned (cache.get key now).1 ∧ d.cache = (cache.get key now).2 := by
  cases hentry : cache.entries.lookup key with
  | none =>
    have hnext : (start cache).step shardOf key (.get now) =
        some { start cache with phase := .returned none } := by
      simp [step, next, start, RwLock.apply, RwLock.free, hentry]
    refine ⟨_, _, .cons rfl hnext (.nil _), ?_, ?_⟩ <;> simp [start, Cache.get, hentry]
  | some entry =>
    have hlive : now < entry.expiresAt := by
      simp only [Cache.getBlocks, hentry, Option.any_some, decide_eq_false_iff_not] at h
      omega
    have hguard : (RwLock.free : RwLock Owner).apply .getter .read =
        some ⟨[.getter], none, .inl rfl⟩ := rfl
    have hfound : (start cache).step shardOf key (.get now) =
        some { (start cache).withLock (shardOf key) ⟨[.getter], none, .inl rfl⟩ with
          phase := .looking entry } := by
      simp [step, next, start, hguard, hentry]
    obtain ⟨locks, hreturn⟩ : ∃ locks, GetCall.step shardOf key
        { (start cache).withLock (shardOf key) ⟨[.getter], none, .inl rfl⟩ with
          phase := .looking entry } (.get now) = some ⟨cache, locks, .returned (some entry)⟩ := by
      simp [step, next, start, withLock, hlive, RwLock.apply]
    refine ⟨_, _, .cons rfl hfound (.cons rfl hreturn (.nil _)), ?_, ?_⟩ <;>
      simp [Cache.get, hentry, hlive]

/-- Alone, a call that would block never returns. -/
theorem alone_blocks {cache : Cache} {now : Nat} (hblocks : cache.getBlocks key now = true)
    (h : Run (step shardOf key) (Alone now) (start cache) es d) (answer : Option CacheEntry) :
    d.phase ≠ .returned answer := by
  obtain ⟨entry, hentry, hdead⟩ : ∃ entry, cache.entries.lookup key = some entry ∧
      entry.expiresAt ≤ now := by
    simpa [Cache.getBlocks, Option.any_eq_true] using hblocks
  have hinv : d.Guarded shardOf key ∧ ((d.phase = .calling ∧ d.cache = cache) ∨
      d.phase = .looking entry ∨ d.phase = .removing) := by
    refine h.invariant (P := fun c => c.Guarded shardOf key ∧
      ((c.phase = .calling ∧ c.cache = cache) ∨ c.phase = .looking entry ∨ c.phase = .removing))
      ?_ ⟨start_guarded cache, .inl ⟨rfl, rfl⟩⟩
    rintro c e c' ⟨hguard, hphase⟩ rfl hstep
    refine ⟨guarded_step hstep hguard, ?_⟩
    rcases next_cases hstep hguard with ⟨hc, _, found, hc', hfound, _⟩ | ⟨hc, _, _, hnone⟩ |
      ⟨found, hc, hlive, _⟩ | ⟨_, _, _, rfl⟩
    · rcases hphase with ⟨_, hcache⟩ | hlook | hremove
      · rw [hcache, hentry] at hfound
        cases hfound
        exact .inr (.inl hc')
      · simp [hc] at hlook
      · simp [hc] at hremove
    · rcases hphase with ⟨_, hcache⟩ | hlook | hremove
      · simp [hcache, hentry] at hnone
      · simp [hc] at hlook
      · simp [hc] at hremove
    · rcases hphase with ⟨hcall, _⟩ | hlook | hremove
      · simp [hc] at hcall
      · cases hc.symm.trans hlook
        omega
      · simp [hc] at hremove
    · exact .inr (.inr rfl)
  rcases hinv.2 with ⟨hphase, _⟩ | hphase | hphase <;> simp [hphase]

end GetCall

/-- A call of `get` returns, with nobody else about, exactly when it finds no expired entry; and
among others it comes to ask for the write guard of the shard that it holds a read guard of, and
never returns from there, exactly when it finds its entry expired. -/
theorem get_completes_iff (shardOf : Str → Nat) (cache : Cache) (key : Str) :
    (∀ now, (∃ es d answer, Run (GetCall.step shardOf key) (GetCall.Alone now)
        (GetCall.start cache) es d ∧ d.phase = .returned answer) ↔
      cache.getBlocks key now = false) ∧
    (∀ es d, Run (GetCall.step shardOf key) anyStep (GetCall.start cache) es d →
      (d.WaitsForItself shardOf key ↔
        ¬Run (GetCall.step shardOf key) GetCall.FindsLive (GetCall.start cache) es d)) ∧
    ∀ c es d, c.WaitsForItself shardOf key → Run (GetCall.step shardOf key) anyStep c es d →
      d.WaitsForItself shardOf key := by
  refine ⟨fun now => ⟨?_, fun hlive => ?_⟩, fun es d h => ?_, fun c es d hwaits h => ?_⟩
  · rintro ⟨es, d, answer, h, hphase⟩
    by_contra hblocks
    exact GetCall.alone_blocks (by simpa using hblocks) h answer hphase
  · obtain ⟨es, d, h, hphase, _⟩ := GetCall.alone_returns hlive
    exact ⟨es, d, _, h, hphase⟩
  · exact GetCall.run_waits_iff h (GetCall.start_guarded cache) (by simp [GetCall.start])
  · exact GetCall.waits_run h hwaits

def cacheOfOne (key : Str) (body : Bytes) : Cache :=
  (Cache.new ⟨60, 10, false, 60⟩).afterPut some key (plainEntry body) 0

theorem get_completes_iff_live :
    (∃ es d answer, Run (GetCall.step (fun _ => 0) "a".toList) (GetCall.Alone 1)
      (GetCall.start (cacheOfOne "a".toList [])) es d ∧ d.phase = .returned answer) ∧
    ∃ d, Run (GetCall.step (fun _ => 0) "a".toList) GetCall.FindsLive
      (GetCall.start (cacheOfOne "a".toList [])) [.get 1, .lock 0 0 .read, .get 2] d ∧
      ¬d.WaitsForItself (fun _ => 0) "a".toList := by
  obtain ⟨halone, hrun, _⟩ := get_completes_iff (fun _ => 0) (cacheOfOne "a".toList []) "a".toList
  have hcalling : (GetCall.start (cacheOfOne "a".toList [])).FindsLive (.get 1) := by
    simp [GetCall.FindsLive, GetCall.start]
  have hlooking : ∀ c : GetCall, c.phase = .looking { plainEntry [] with expiresAt := fromSecs 60 } →
      c.FindsLive (.get 2) := by
    rintro c hc now entry hnow hphase
    cases hnow
    cases hc.symm.trans hphase
    decide
  have h : Run (GetCall.step (fun _ => 0) "a".toList) GetCall.FindsLive
      (GetCall.start (cacheOfOne "a".toList [])) [.get 1, .lock 0 0 .read, .get 2] _ :=
    .cons hcalling rfl (.cons (by simp [GetCall.FindsLive]) rfl
      (.cons (hlooking _ rfl) rfl (.nil _)))
  refine ⟨(halone 1).mpr (by decide), _, h, fun hwaits => ?_⟩
  exact (hrun _ _ (h.mono (fun _ _ _ => trivial))).mp hwaits h

/-- A get of an expired entry takes the read guard of its shard and then waits for the write
guard. -/
theorem expired_get_waits_for_itself : ∃ d,
    Run (GetCall.step (fun _ => 0) "a".toList) (GetCall.Alone (fromSecs 60))
      (GetCall.start (cacheOfOne "a".toList [])) [.get (fromSecs 60), .get (fromSecs 60)] d ∧
    d.WaitsForItself (fun _ => 0) "a".toList ∧
    ∀ now, d.step (fun _ => 0) "a".toList (.get now) = none :=
  ⟨_, .cons rfl rfl (.cons rfl rfl (.nil _)), ⟨rfl, List.mem_cons_self⟩, fun _ => rfl⟩

end Road7
