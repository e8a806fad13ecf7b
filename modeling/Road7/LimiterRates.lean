import Mathlib.Logic.Function.Basic
import Road7.RefillInterval

namespace Road7

/-- The configuration that the last call of `add_limiter` for a path was made with. -/
def lastAdded (added : List (Str × RateLimiterConfig)) (key : Str) : Option RateLimiterConfig :=
  added.foldl (fun last e => if e.1 = key then some e.2 else last) none

theorem lookup_foldlM_addLimiter {key : Str} {added : List (Str × RateLimiterConfig)}
    {limiters₀ limiters : StrMap RateLimiter} {last : Option RateLimiterConfig}
    (h : added.foldlM (fun m e => addLimiter m e.1 e.2) limiters₀ = .ok limiters)
    (hlast : (limiters₀.lookup key).map Except.ok = last.map RateLimiter.new) :
    (limiters.lookup key).map Except.ok =
      (added.foldl (fun last e => if e.1 = key then some e.2 else last) last).map
        RateLimiter.new := by
  induction added generalizing limiters₀ last with
  | nil =>
    cases h
    exact hlast
  | cons e added ih =>
    obtain ⟨limiters₁, hadd, hrest⟩ := bind_eq_ok.mp h
    refine ih hrest ?_
    simp only [addLimiter] at hadd
    cases hnew : RateLimiter.new e.2 with
    | error err => simp [hnew, Except.map] at hadd
    | ok l =>
      obtain rfl : limiters₀.insert e.1 l = limiters₁ := by simpa [hnew, Except.map] using hadd
      dsimp only
      by_cases hkey : e.1 = key
      · subst hkey
        rw [AList.lookup_insert, if_pos rfl, Option.map_some, Option.map_some, hnew]
      · rw [AList.lookup_insert_ne (Ne.symm hkey), if_neg hkey]
        exact hlast

/-- Of several limiters for one path the last stands in the map, made from its own
configuration. -/
theorem lookup_addLimiters {added : List (Str × RateLimiterConfig)}
    {limiters : StrMap RateLimiter} (h : addLimiters added = .ok limiters) (key : Str) :
    (limiters.lookup key).map Except.ok = (lastAdded added key).map RateLimiter.new :=
  lookup_foldlM_addLimiter h rfl

/-- `period / (max_rate as u32)` of the configuration that the limiter keeps. -/
def RateLimiter.refillInterval (l : RateLimiter) : Nat := l.period / (l.maxRate % 2 ^ 32)

theorem RateLimiter.new_settings {config : RateLimiterConfig} {l : RateLimiter}
    (h : RateLimiter.new config = .ok l) :
    l.period = config.period ∧ l.maxRate = config.maxRate := by
  unfold RateLimiter.new at h
  split at h
  next => simp at h
  next =>
    split at h
    next => simp at h
    next =>
      cases h
      exact ⟨rfl, rfl⟩

/-- The limiters of the proxy, with the moment at which the refill task of each has made its
interval, the ticks that it has taken, and the tokens that requests have got. -/
structure LimitedRequests where
  limiters : StrMap RateLimiter
  started : Str → Option Nat
  ticks : Str → Nat
  granted : Str → Nat
  clock : Nat

/-- A request asks for a token, with the order in which it finds the limiters; a refill task is
polled first; one takes a tick. -/
inductive LimitedEvent where
  | request (path : Str) (order : List (Sigma (fun _ : Str => RateLimiter))) (now : Nat)
  | start (key : Str) (now : Nat)
  | tick (key : Str) (now : Nat)

def LimitedEvent.time : LimitedEvent → Nat
  | .request _ _ now => now
  | .start _ now => now
  | .tick _ now => now

namespace LimitedRequests

def start (limiters : StrMap RateLimiter) (now : Nat) : LimitedRequests :=
  ⟨limiters, fun _ => none, fun _ => 0, fun _ => 0, now⟩

def charged (s : LimitedRequests) (path : Str)
    (order : List (Sigma (fun _ : Str => RateLimiter))) : Str → Nat :=
  match limiterEntry order path with
  | some e => if e.2.acquire.1 then Function.update s.granted e.1 (s.granted e.1 + 1) else s.granted
  | none => s.granted

/-- Tick `k` of an interval is due `k` periods behind its start, late ticks included: those are
caught up with at once. -/
def effect (s : LimitedRequests) : LimitedEvent → Option LimitedRequests
  | .request path order _ =>
    some { s with
      limiters := chargeLimiter s.limiters order path
      granted := s.charged path order }
  | .start key now =>
    match s.limiters.lookup key, s.started key with
    | some l, none =>
      if l.refillInterval = 0 then none
      else some { s with started := Function.update s.started key (some now) }
    | _, _ => none
  | .tick key now =>
    match s.limiters.lookup key, s.started key with
    | some l, some started =>
      if started + s.ticks key * l.refillInterval ≤ now then
        some { s with
          limiters := s.limiters.insert key l.refill
          ticks := Function.update s.ticks key (s.ticks key + 1) }
      else none
    | _, _ => none

def step (s : LimitedRequests) (e : LimitedEvent) : Option LimitedRequests :=
  if s.clock ≤ e.time then (s.effect e).map ({ · with clock := e.time }) else none

/-- The limiters are looked through in an order of the map that they are in. -/
def InOrder (s : LimitedRequests) : LimitedEvent → Prop
  | .request _ order _ => IterationOf s.limiters order
  | _ => True

/-- What holds of the limiter of a path: its tokens and those handed out are at least its limit,
and at most its limit and its ticks; and its ticks are not ahead of their time. -/
structure Metered (l₀ : RateLimiter) (t₀ : Nat) (key : Str) (s : LimitedRequests) : Prop where
  limiter : ∃ l, s.limiters.lookup key = some l ∧ l.limit = l₀.limit ∧
    l.refillInterval = l₀.refillInterval ∧ l.tokens ≤ l₀.limit ∧
    l₀.limit ≤ s.granted key + l.tokens ∧ s.granted key + l.tokens ≤ l₀.limit + s.ticks key
  timed : ∀ started, s.started key = some started → 0 < l₀.refillInterval ∧ t₀ ≤ started ∧
    started + (s.ticks key - 1) * l₀.refillInterval ≤ s.clock
  unstarted : s.started key = none → s.ticks key = 0

variable {s t : LimitedRequests} {e : LimitedEvent} {es : List LimitedEvent} {l₀ l : RateLimiter}
  {t₀ : Nat} {key : Str}

theorem refillInterval_effect (l : RateLimiter) (e : RateEvent) :
    (l.effect e).refillInterval = l.refillInterval := by
  cases e with
  | acquire =>
    simp only [RateLimiter.effect, RateLimiter.acquire]
    split <;> rfl
  | tick => rfl

theorem step_eq_some (h : s.step e = some t) :
    s.clock ≤ e.time ∧ ∃ s', s.effect e = some s' ∧ t = { s' with clock := e.time } := by
  obtain ⟨hclock, h⟩ := Option.ite_none_right_eq_some.mp h
  obtain ⟨s', hs', rfl⟩ := Option.map_eq_some_iff.mp h
  exact ⟨hclock, s', hs', rfl⟩

theorem mem_of_limiterEntry {order : List (Sigma (fun _ : Str => RateLimiter))} {path : Str}
    {x : Sigma (fun _ : Str => RateLimiter)} (h : limiterEntry order path = some x) : x ∈ order := by
  rcases Option.or_eq_some_iff.mp h with h | ⟨_, h⟩
  · exact List.mem_of_find?_eq_some h
  · exact List.mem_of_find?_eq_some h

/-- A request takes a token from the limiter that it is charged to, if there is one, and leaves
the others alone. -/
theorem Metered.request {path : Str} {order : List (Sigma (fun _ : Str => RateLimiter))} {now : Nat}
    (h : s.Metered l₀ t₀ key) (horder : IterationOf s.limiters order) (hnow : s.clock ≤ now) :
    Metered l₀ t₀ key { s with
      limiters := chargeLimiter s.limiters order path
      granted := s.charged path order
      clock := now } := by
  obtain ⟨l, hl, hlimit, hinterval, htokens, hlow, hhigh⟩ := h.limiter
  refine ⟨?_, fun started hs => ?_, h.unstarted⟩
  · unfold charged chargeLimiter
    cases hentry : limiterEntry order path with
    | none => exact ⟨l, hl, hlimit, hinterval, htokens, hlow, hhigh⟩
    | some x =>
      have hx : s.limiters.lookup x.1 = some x.2 :=
        AList.mem_lookup_iff.mpr (horder.mem_iff.mp (mem_of_limiterEntry hentry))
      dsimp only [Option.elim_some]
      by_cases hkey : x.1 = key
      · subst hkey
        cases hl.symm.trans hx
        refine ⟨x.2.acquire.2, AList.lookup_insert _, ?_, ?_, ?_⟩
        · rw [← hlimit]
          exact RateLimiter.limit_effect x.2 .acquire
        · rw [← hinterval]
          exact refillInterval_effect x.2 .acquire
        · unfold RateLimiter.acquire
          split
          next hpos =>
            simp only [if_true, Function.update_self]
            omega
          next =>
            simp only [Bool.false_eq_true, if_false]
            exact ⟨htokens, hlow, hhigh⟩
      · have hgranted : (if x.2.acquire.1 = true then
            Function.update s.granted x.1 (s.granted x.1 + 1) else s.granted) key =
            s.granted key := by
          split
          next => rw [Function.update_of_ne (Ne.symm hkey)]
          next => rfl
        rw [hgranted, AList.lookup_insert_ne (Ne.symm hkey)]
        exact ⟨l, hl, hlimit, hinterval, htokens, hlow, hhigh⟩
  · obtain ⟨hpos, hstarted, hticks⟩ := h.timed started hs
    exact ⟨hpos, hstarted, Nat.le_trans hticks hnow⟩

theorem Metered.later {now : Nat} (h : s.Metered l₀ t₀ key) (hnow : s.clock ≤ now) :
    Metered l₀ t₀ key { s with clock := now } := by
  refine ⟨h.limiter, fun started hs => ?_, h.unstarted⟩
  obtain ⟨hpos, hstarted, hticks⟩ := h.timed started hs
  exact ⟨hpos, hstarted, Nat.le_trans hticks hnow⟩

theorem Metered.started {k : Str} {now : Nat} (h : s.Metered l₀ t₀ key)
    (hl : s.limiters.lookup k = some l) (hnone : s.started k = none)
    (hinterval : l.refillInterval ≠ 0) (hnow : s.clock ≤ now) (ht₀ : t₀ ≤ s.clock) :
    Metered l₀ t₀ key { s with
      started := Function.update s.started k (some now)
      clock := now } := by
  by_cases hkey : k = key
  · subst hkey
    obtain ⟨m, hm, hlimit, hinterval', hrest⟩ := h.limiter
    cases hl.symm.trans hm
    have hticks := h.unstarted hnone
    refine ⟨⟨l, hl, hlimit, hinterval', hrest⟩, fun started hstarted => ?_, fun hnot => ?_⟩
    · simp only [Function.update_self, Option.some.injEq] at hstarted
      subst hstarted
      exact ⟨by omega, Nat.le_trans ht₀ hnow, by simp [hticks]⟩
    · simp at hnot
  · refine ⟨h.limiter, fun started hstarted => ?_, fun hnot => ?_⟩
    · simp only [Function.update_of_ne (Ne.symm hkey)] at hstarted
      exact (h.later hnow).timed started hstarted
    · simp only [Function.update_of_ne (Ne.symm hkey)] at hnot
      exact h.unstarted hnot

/-- A tick adds a token where there is room, at the earliest when it is due. -/
theorem Metered.tick {k : Str} {now started : Nat} (h : s.Metered l₀ t₀ key)
    (hlt : l₀.limit < 2 ^ 64 - 1) (hl : s.limiters.lookup k = some l)
    (hstarted : s.started k = some started)
    (hdue : started + s.ticks k * l.refillInterval ≤ now) (hnow : s.clock ≤ now) :
    Metered l₀ t₀ key { s with
      limiters := s.limiters.insert k l.refill
      ticks := Function.update s.ticks k (s.ticks k + 1)
      clock := now } := by
  by_cases hkey : k = key
  · subst hkey
    obtain ⟨m, hm, hlimit, hinterval, htokens, hlow, hhigh⟩ := h.limiter
    cases hl.symm.trans hm
    have hrefill : l.refill.tokens = min (l.tokens + 1) l.limit := by
      have hdef : l.capacity + l.burstCapacity = l.limit := rfl
      have hsum : usizeAdd l.tokens 1 = l.tokens + 1 := RateLimiter.usizeAdd_of_lt (by omega)
      have hbound : usizeAdd l.capacity l.burstCapacity = l.limit :=
        RateLimiter.usizeAdd_of_lt (by omega)
      simp only [RateLimiter.refill, hsum, hbound]
    refine ⟨⟨l.refill, AList.lookup_insert _, ?_, ?_, ?_⟩, fun started' hstarted' => ?_,
      fun hnot => ?_⟩
    · rw [← hlimit]
      exact RateLimiter.limit_effect l .tick
    · rw [← hinterval]
      exact refillInterval_effect l .tick
    · simp only [hrefill, Function.update_self]
      omega
    · cases hstarted.symm.trans hstarted'
      obtain ⟨hpos, hle, _⟩ := h.timed started hstarted
      refine ⟨hpos, hle, ?_⟩
      simp only [Function.update_self, Nat.add_sub_cancel]
      rw [← hinterval]
      exact hdue
    · simp [hstarted] at hnot
  · refine ⟨?_, fun started' hstarted' => ?_, fun hnot => ?_⟩
    · simp only [AList.lookup_insert_ne (Ne.symm hkey), Function.update_of_ne (Ne.symm hkey)]
      exact h.limiter
    · simp only [Function.update_of_ne (Ne.symm hkey)]
      exact (h.later hnow).timed started' hstarted'
    · simp only [Function.update_of_ne (Ne.symm hkey)]
      exact h.unstarted hnot

theorem Metered.step (h : s.Metered l₀ t₀ key) (hlt : l₀.limit < 2 ^ 64 - 1) (ht₀ : t₀ ≤ s.clock)
    (hok : s.InOrder e) (hs : s.step e = some t) : t.Metered l₀ t₀ key ∧ t₀ ≤ t.clock := by
  obtain ⟨hclock, s', heffect, rfl⟩ := step_eq_some hs
  refine ⟨?_, Nat.le_trans ht₀ hclock⟩
  cases e with
  | request path order now =>
    cases heffect
    exact h.request hok hclock
  | start k now =>
    simp only [effect] at heffect
    split at heffect
    next l hl hnone =>
      obtain ⟨hinterval, heffect⟩ := Option.ite_none_left_eq_some.mp heffect
      cases heffect
      exact h.started hl hnone hinterval hclock ht₀
    next => simp at heffect
  | tick k now =>
    simp only [effect] at heffect
    split at heffect
    next l started hl hstarted =>
      obtain ⟨hdue, heffect⟩ := Option.ite_none_right_eq_some.mp heffect
      cases heffect
      exact h.tick hlt hl hstarted hdue hclock
    next => simp at heffect

theorem metered_run (h : Run LimitedRequests.step InOrder s es t) (hlt : l₀.limit < 2 ^ 64 - 1)
    (hs : s.Metered l₀ t₀ key) (ht₀ : t₀ ≤ s.clock) : t.Metered l₀ t₀ key := by
  have hboth : t.Metered l₀ t₀ key ∧ t₀ ≤ t.clock :=
    h.invariant (P := fun s => s.Metered l₀ t₀ key ∧ t₀ ≤ s.clock)
      (fun hp hok hstep => hp.1.step hlt hp.2 hok hstep) ⟨hs, ht₀⟩
  exact hboth.1

/-- Of each limiter the ticks taken are one for each period since its creation, and one more. -/
theorem Metered.ticks_le (h : s.Metered l₀ t₀ key) :
    s.ticks key ≤ (s.clock - t₀) / l₀.refillInterval + 1 := by
  cases hstarted : s.started key with
  | none =>
    rw [h.unstarted hstarted]
    exact Nat.zero_le _
  | some started =>
    obtain ⟨hpos, hle, hticks⟩ := h.timed started hstarted
    have hdiv : s.ticks key - 1 ≤ (s.clock - t₀) / l₀.refillInterval := by
      rw [Nat.le_div_iff_mul_le hpos]
      omega
    omega

theorem metered_start {limiters : StrMap RateLimiter} (hl : limiters.lookup key = some l)
    (hfull : l.isFull) (now : Nat) : (start limiters now).Metered l now key := by
  have hfull' : l.tokens = l.limit := hfull
  refine ⟨⟨l, hl, rfl, rfl, ?_⟩, fun started hs => by simp [start] at hs, fun _ => rfl⟩
  simp only [start]
  omega

end LimitedRequests

/-- Up to every moment the requests charged to a limiter have got no more tokens than its limit,
one for each refill interval since its creation, and one more, in whatever order requests and late
ticks come; and none of them is refused before the limit has been handed out. -/
theorem granted_over_time {added : List (Str × RateLimiterConfig)}
    {limiters : StrMap RateLimiter} {created : Nat} {es : List LimitedEvent} {s : LimitedRequests}
    {key : Str} {config : RateLimiterConfig} (hsetup : addLimiters added = .ok limiters)
    (hlast : lastAdded added key = some config)
    (hlt : config.capacity + config.burstCapacity < 2 ^ 64 - 1)
    (h : Run LimitedRequests.step LimitedRequests.InOrder (.start limiters created) es s) :
    s.granted key ≤
      config.capacity + config.burstCapacity + (s.clock - created) / config.refillInterval + 1 ∧
    ∀ l, s.limiters.lookup key = some l → l.acquire.1 = false →
      config.capacity + config.burstCapacity ≤ s.granted key := by
  have hlookup := lookup_addLimiters hsetup key
  rw [hlast, Option.map_some] at hlookup
  obtain ⟨l, hl, hnew⟩ := Option.map_eq_some_iff.mp hlookup
  obtain ⟨hlimit, hfull, _⟩ := RateLimiter.new_ok hnew.symm (by omega)
  have hinterval : l.refillInterval = config.refillInterval := by
    have hsettings := RateLimiter.new_settings hnew.symm
    rw [RateLimiter.refillInterval, hsettings.1, hsettings.2]
    rfl
  have hmetered := LimitedRequests.metered_run h (by omega)
    (LimitedRequests.metered_start hl hfull created) (Nat.le_refl created)
  have hticks := hmetered.ticks_le
  obtain ⟨m, hm, _, _, _, hlow, hhigh⟩ := hmetered.limiter
  rw [hinterval] at hticks
  rw [hlimit] at hlow hhigh
  refine ⟨by omega, fun l' hl' hrefused => ?_⟩
  cases hm.symm.trans hl'
  have hempty : m.tokens = 0 := by
    unfold RateLimiter.acquire at hrefused
    split at hrefused
    next => simp at hrefused
    next hzero => omega
  omega

/-- A bucket of one token, which comes back with the first tick. -/
theorem granted_over_time_one_token : ∃ (limiters : StrMap RateLimiter) (s : LimitedRequests),
    addLimiters [("/api".toList, ⟨1, 0, 1, fromSecs 1⟩)] = .ok limiters ∧
    Run LimitedRequests.step LimitedRequests.InOrder (.start limiters 0)
      [.request "/api/users".toList [⟨"/api".toList, ⟨1, 0, 1, fromSecs 1, 1⟩⟩] 0,
        .start "/api".toList 0, .tick "/api".toList 0,
        .request "/api".toList [⟨"/api".toList, ⟨1, 0, 1, fromSecs 1, 1⟩⟩] 1] s ∧
    s.granted "/api".toList = 2 ∧
    s.granted "/api".toList ≤ 1 + 0 + (s.clock - 0) / fromSecs 1 + 1 := by
  have hbound : ∀ {limiters : StrMap RateLimiter} {es : List LimitedEvent} {s : LimitedRequests},
      addLimiters [("/api".toList, ⟨1, 0, 1, fromSecs 1⟩)] = .ok limiters →
      Run LimitedRequests.step LimitedRequests.InOrder (.start limiters 0) es s →
      Run LimitedRequests.step LimitedRequests.InOrder (.start limiters 0) es s ∧
        s.granted "/api".toList ≤ 1 + 0 + (s.clock - 0) / fromSecs 1 + 1 := by
    intro limiters es s hsetup h
    have hlast : lastAdded [("/api".toList, ⟨1, 0, 1, fromSecs 1⟩)] "/api".toList =
        some ⟨1, 0, 1, fromSecs 1⟩ := rfl
    have hinterval : RateLimiterConfig.refillInterval ⟨1, 0, 1, fromSecs 1⟩ = fromSecs 1 := rfl
    have hle := (granted_over_time hsetup hlast (by decide) h).1
    rw [hinterval] at hle
    exact ⟨h, hle⟩
  have hrun : ∃ (limiters : StrMap RateLimiter) (s : LimitedRequests),
      addLimiters [("/api".toList, ⟨1, 0, 1, fromSecs 1⟩)] = .ok limiters ∧
      Run LimitedRequests.step LimitedRequests.InOrder (.start limiters 0)
        [.request "/api/users".toList [⟨"/api".toList, ⟨1, 0, 1, fromSecs 1, 1⟩⟩] 0,
          .start "/api".toList 0, .tick "/api".toList 0,
          .request "/api".toList [⟨"/api".toList, ⟨1, 0, 1, fromSecs 1, 1⟩⟩] 1] s ∧
      s.granted "/api".toList = 2 :=
    ⟨_, _, rfl, .cons (List.Perm.refl _) rfl (.cons trivial rfl (.cons trivial rfl
      (.cons (List.Perm.refl _) rfl (.nil _)))), rfl⟩
  obtain ⟨limiters, s, hsetup, hrun, hgranted⟩ := hrun
  obtain ⟨hrun, hle⟩ := hbound hsetup hrun
  exact ⟨limiters, s, hsetup, hrun, hgranted, hle⟩

end Road7
