import Road7.RateLimiter
import Road7.Runs

namespace Road7

/-- What happens to the tokens under their lock. -/
inductive RateEvent where
  | acquire
  | tick
deriving DecidableEq, Repr

def ticks (es : List RateEvent) : Nat := es.count .tick

namespace RateLimiter

def limit (l : RateLimiter) : Nat := l.capacity + l.burstCapacity

def effect (l : RateLimiter) : RateEvent → RateLimiter
  | .acquire => l.acquire.2
  | .tick => l.refill

def step (l : RateLimiter) (e : RateEvent) : Option RateLimiter := some (l.effect e)

/-- How many tokens an event hands out. -/
def grants (l : RateLimiter) : RateEvent → Nat
  | .acquire => if l.acquire.1 then 1 else 0
  | .tick => 0

/-- The successful acquires among events that find the limiter as it is. -/
def granted (l : RateLimiter) : List RateEvent → Nat
  | [] => 0
  | e :: es => l.grants e + (l.effect e).granted es

def isFull (l : RateLimiter) : Prop := l.tokens = l.limit

/-- The condition that the sum of a tick does not wrap. -/
def NoWrap (l : RateLimiter) (e : RateEvent) : Prop := e = .tick → l.tokens + 1 < 2 ^ 64

/-- A bucket that holds no more than its limit, a `usize`. -/
def Fits (l : RateLimiter) : Prop := l.tokens ≤ l.limit ∧ l.limit < 2 ^ 64

theorem usizeAdd_of_lt {m n : Nat} (h : m + n < 2 ^ 64) : usizeAdd m n = m + n :=
  Nat.mod_eq_of_lt h

@[simp] theorem limit_effect (l : RateLimiter) (e : RateEvent) : (l.effect e).limit = l.limit := by
  cases e with
  | acquire =>
    simp only [effect, acquire]
    split <;> rfl
  | tick => rfl

theorem new_ok {config : RateLimiterConfig} {l : RateLimiter} (h : new config = .ok l)
    (hlt : config.capacity + config.burstCapacity < 2 ^ 64) :
    l.limit = config.capacity + config.burstCapacity ∧ l.isFull ∧ 0 < l.limit := by
  unfold new at h
  split at h
  next => simp at h
  next hzero =>
    split at h
    next => simp at h
    next =>
      cases h
      simp only [isFull, limit, usizeAdd_of_lt hlt, true_and]
      omega

/-- What an event does to the tokens: one goes with each acquire that finds one, one comes with
each tick that finds room. -/
theorem effect_tokens {l : RateLimiter} {e : RateEvent} (hfits : l.Fits) (hok : l.NoWrap e) :
    (l.effect e).Fits ∧ l.grants e + (l.effect e).tokens ≤ l.tokens + ticks [e] ∧
      (¬(l.effect e).isFull → l.grants e + (l.effect e).tokens = l.tokens + ticks [e]) := by
  obtain ⟨hle, hlt⟩ := hfits
  cases e with
  | acquire =>
    have hacquire : l.grants .acquire + (l.effect .acquire).tokens = l.tokens := by
      simp only [grants, effect, acquire]
      split
      next hpos => simp; omega
      next => simp
    have hticks : ticks [.acquire] = 0 := rfl
    refine ⟨⟨?_, ?_⟩, by omega, fun _ => by omega⟩
    · rw [limit_effect]
      omega
    · rwa [limit_effect]
  | tick =>
    have htick : (l.effect .tick).tokens = min (l.tokens + 1) l.limit := by
      have hsum : usizeAdd l.tokens 1 = l.tokens + 1 := usizeAdd_of_lt (hok rfl)
      have hlimit : usizeAdd l.capacity l.burstCapacity = l.limit := usizeAdd_of_lt hlt
      simp only [effect, refill, hsum, hlimit]
    have hticks : ticks [.tick] = 1 := rfl
    have hgrants : l.grants .tick = 0 := rfl
    refine ⟨⟨?_, ?_⟩, by omega, fun hgap => ?_⟩
    · rw [limit_effect, htick]
      omega
    · rwa [limit_effect]
    · have hne : (l.effect .tick).tokens ≠ l.limit := by simpa [isFull] using hgap
      omega

theorem ticks_cons (e : RateEvent) (es : List RateEvent) :
    ticks (e :: es) = ticks [e] + ticks es := by
  simp only [ticks, List.count_cons, List.count_nil]
  omega

variable {l m : RateLimiter} {es : List RateEvent}

/-- Over a run no more tokens are handed out than were there and came. -/
theorem granted_le (h : Run step NoWrap l es m) (hfits : l.Fits) :
    m.Fits ∧ m.limit = l.limit ∧ l.granted es + m.tokens ≤ l.tokens + ticks es := by
  induction h with
  | nil l => exact ⟨hfits, rfl, by simp [granted, ticks]⟩
  | @cons l k m e es hok hstep _ ih =>
    cases hstep
    obtain ⟨hk, hle, _⟩ := effect_tokens hfits hok
    obtain ⟨hm, hlimit, hrest⟩ := ih hk
    have hticks := ticks_cons e es
    simp only [granted]
    exact ⟨hm, by rw [hlimit, limit_effect], by omega⟩

/-- While the bucket is not filled up, no token that comes is lost. -/
theorem granted_eq (h : Run step NoWrap l es m) (hgap : Run step (Run.avoiding step isFull) l es m)
    (hfits : l.Fits) : l.granted es + m.tokens = l.tokens + ticks es := by
  induction h with
  | nil l => simp [granted, ticks]
  | @cons l k m e es hok hstep _ ih =>
    cases hstep
    cases hgap with
    | cons hgap hstep' hgaps =>
      cases hstep'
      obtain ⟨hk, _, heq⟩ := effect_tokens hfits hok
      have hrest := ih hgaps hk
      have hnow := heq (hgap _ rfl)
      have hticks := ticks_cons e es
      simp only [granted]
      omega

theorem granted_le_length (l : RateLimiter) (es : List RateEvent) : l.granted es ≤ es.length := by
  induction es generalizing l with
  | nil => exact Nat.le_refl 0
  | cons e es ih =>
    have hrest := ih (l.effect e)
    have hnow : l.grants e ≤ 1 := by
      cases e with
      | acquire =>
        simp only [grants]
        split <;> omega
      | tick => exact Nat.zero_le 1
    simp only [granted, List.length_cons]
    omega

/-- What a limiter keeps to over a run: it never holds more than its limit; in every window it
hands out no more tokens than were there and came; it refuses only when the limit and all the
ticks since it was last full have been handed out. -/
structure Conserves (l : RateLimiter) (es : List RateEvent) (m : RateLimiter) : Prop where
  bounded : m.tokens ≤ l.limit
  window : ∀ {es₁ win es₂ a}, es = es₁ ++ win ++ es₂ → Run step anyStep l es₁ a →
    a.granted win ≤ a.tokens + ticks win ∧ a.granted win ≤ l.limit + ticks win
  refusal : m.acquire.1 = false → ∃ es₁ es₂ a, es = es₁ ++ es₂ ∧ Run step anyStep l es₁ a ∧
    a.isFull ∧ Run step (Run.avoiding step isFull) a es₂ m ∧ a.granted es₂ = l.limit + ticks es₂

theorem conserves (h : Run step NoWrap l es m) (hfull : l.isFull) (hlt : l.limit < 2 ^ 64) :
    l.Conserves es m := by
  have hfits : l.Fits := ⟨Nat.le_of_eq hfull, hlt⟩
  refine ⟨?_, ?_, ?_⟩
  · obtain ⟨⟨hle, _⟩, hlimit, _⟩ := granted_le h hfits
    omega
  · rintro es₁ win es₂ a rfl ha
    obtain ⟨b, hb, _⟩ := h.split
    obtain ⟨a', ha', hwin⟩ := hb.split
    cases ha.unique ha'
    obtain ⟨hfits', hlimit, _⟩ := granted_le ha' hfits
    obtain ⟨_, _, hle⟩ := granted_le hwin hfits'
    have hbound := hfits'.1
    exact ⟨by omega, by omega⟩
  · intro hrefused
    obtain ⟨es₁, es₂, a, rfl, hes₁, ha, hes₂, havoid⟩ := h.last hfull
    obtain ⟨hfits', hlimit, _⟩ := granted_le hes₁ hfits
    have heq := granted_eq hes₂ havoid hfits'
    have hempty : m.tokens = 0 := by
      unfold acquire at hrefused
      split at hrefused
      next => simp at hrefused
      next hzero => omega
    have hfull' : a.tokens = a.limit := ha
    refine ⟨es₁, es₂, a, rfl, hes₁.mono (fun _ _ _ => trivial), ha, havoid, by omega⟩

/-- Below `usize::MAX` no tick wraps. -/
theorem noWrap_of_lt (h : Run step anyStep l es m) (hle : l.tokens ≤ l.limit)
    (hlt : l.limit < 2 ^ 64 - 1) : Run step NoWrap l es m := by
  refine h.strengthen (P := fun a => a.tokens ≤ a.limit ∧ a.limit < 2 ^ 64 - 1) ?_ ⟨hle, hlt⟩
  rintro a e b ⟨ha, halt⟩ _ hstep
  cases hstep
  have hok : a.NoWrap e := fun _ => by omega
  obtain ⟨hfits, _⟩ := effect_tokens ⟨ha, by omega⟩ hok
  exact ⟨hok, hfits.1, by rwa [limit_effect]⟩

/-- A full bucket of `usize::MAX` tokens is emptied by a tick. -/
theorem not_conserves_of_max (hfull : l.isFull) (hmax : l.limit = 2 ^ 64 - 1) :
    ¬l.Conserves [.tick] l.refill := by
  intro h
  have htokens : l.tokens + 1 = 2 ^ 64 := by
    have htokens : l.tokens = l.limit := hfull
    omega
  have hempty : l.refill.acquire.1 = false := by
    have hwrap : usizeAdd l.tokens 1 = 0 := by
      rw [usizeAdd, htokens]
      exact Nat.mod_self _
    simp [acquire, refill, hwrap]
  obtain ⟨es₁, es₂, a, hes, _, _, _, hgranted⟩ := h.refusal hempty
  have hlen := granted_le_length a es₂
  have hlen' := congrArg List.length hes
  simp only [List.length_append, List.length_singleton] at hlen'
  omega

end RateLimiter

/-- The limiter conserves its tokens in every run exactly when its limit is not `usize::MAX`;
with that limit it does so in the runs without a tick that wraps. -/
theorem rate_limiter_conserves_iff {config : RateLimiterConfig} {l : RateLimiter}
    (hnew : RateLimiter.new config = .ok l)
    (hlt : config.capacity + config.burstCapacity < 2 ^ 64) :
    ((∀ es m, Run RateLimiter.step anyStep l es m → l.Conserves es m) ↔
      config.capacity + config.burstCapacity < 2 ^ 64 - 1) ∧
    ∀ es m, Run RateLimiter.step RateLimiter.NoWrap l es m → l.Conserves es m := by
  obtain ⟨hlimit, hfull, _⟩ := RateLimiter.new_ok hnew hlt
  have hconserves : ∀ es m, Run RateLimiter.step RateLimiter.NoWrap l es m → l.Conserves es m :=
    fun es m h => RateLimiter.conserves h hfull (by omega)
  refine ⟨⟨fun h => ?_, fun hmax es m hrun => ?_⟩, hconserves⟩
  · by_contra hmax
    exact RateLimiter.not_conserves_of_max hfull (by omega)
      (h _ _ (.cons trivial rfl (.nil _)))
  · exact hconserves es m (RateLimiter.noWrap_of_lt hrun (Nat.le_of_eq hfull) (by omega))

theorem rate_limiter_conserves_iff_one_token :
    ∃ l, RateLimiter.new ⟨1, 0, 1, fromSecs 1⟩ = .ok l ∧
      Run RateLimiter.step anyStep l [.acquire, .tick, .acquire, .acquire]
        { l with tokens := 0 } ∧
      l.Conserves [.acquire, .tick, .acquire, .acquire] { l with tokens := 0 } := by
  have hrun : Run RateLimiter.step anyStep ⟨1, 0, 1, fromSecs 1, 1⟩
      [.acquire, .tick, .acquire, .acquire] ⟨1, 0, 1, fromSecs 1, 0⟩ :=
    .cons trivial rfl (.cons trivial rfl (.cons trivial rfl (.cons trivial rfl (.nil _))))
  have hnew : RateLimiter.new ⟨1, 0, 1, fromSecs 1⟩ = .ok ⟨1, 0, 1, fromSecs 1, 1⟩ := rfl
  have hiff := (rate_limiter_conserves_iff hnew (by decide)).1
  exact ⟨_, rfl, hrun, hiff.mpr (by decide) _ _ hrun⟩

/-- The largest bucket refuses after its first tick, with no token handed out. -/
theorem tick_empties_largest_bucket :
    ∃ config l m, RateLimiter.new config = .ok l ∧
      config.capacity + config.burstCapacity < 2 ^ 64 ∧
      Run RateLimiter.step anyStep l [.tick] m ∧ m.acquire.1 = false ∧
      ¬l.Conserves [.tick] m := by
  have hfull : RateLimiter.isFull ⟨2 ^ 64 - 1, 0, 1, fromSecs 1, 2 ^ 64 - 1⟩ := rfl
  exact ⟨⟨2 ^ 64 - 1, 0, 1, fromSecs 1⟩, _, _, rfl, by decide, .cons trivial rfl (.nil _), by decide,
    RateLimiter.not_conserves_of_max hfull rfl⟩

end Road7
