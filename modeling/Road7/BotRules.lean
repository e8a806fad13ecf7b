import Road7.AsciiText
import Road7.BotDetector

namespace Road7

namespace HeaderValue

def Contains (v : HeaderValue) (part : Str) : Prop := utf8 part <:+: v

/-- A pattern that compiles matches the text that the bytes of the value stand for. -/
def Matches (v : HeaderValue) (regex : Str → Option (Str → Bool)) (pattern : Str) : Prop :=
  ∃ text test, utf8 text = v ∧ regex pattern = some test ∧ test text = true

end HeaderValue

namespace BotDetectorConfig

/-- The three lists turn a user agent away. -/
def Denies (config : BotDetectorConfig) (regex : Str → Option (Str → Bool)) (v : HeaderValue) :
    Prop :=
  (∀ s ∈ config.allow, ¬v.Contains s) ∧
    ((∃ s ∈ config.deny, v.Contains s) ∨ ∃ pattern ∈ config.patterns, v.Matches regex pattern)

/-- The request is a bot's: it names no user agent, which is configured to be a bot, or one that
the lists turn away. -/
def TakesForBot (config : BotDetectorConfig) (regex : Str → Option (Str → Bool)) (req : Request) :
    Prop :=
  ((req.headers.get userAgentHeader = none ∨ req.headers.get userAgentHeader = some []) ∧
      config.emptyUserAgentIsBot = true) ∨
    ∃ v, req.headers.get userAgentHeader = some v ∧ config.Denies regex v

/-- What the rules say is what is decided: an allowed user agent passes whatever the other lists
hold, and no list has an order. -/
structure Decides (config : BotDetectorConfig) (regex : Str → Option (Str → Bool))
    (req : Request) : Prop where
  rules : isBotRequest regex req config = true ↔ config.TakesForBot regex req
  overridden : ∀ v s, req.headers.get userAgentHeader = some v → s ∈ config.allow →
    v.Contains s → ∀ deny patterns,
      isBotRequest regex req { config with deny, patterns } = isBotRequest regex req config
  unordered : ∀ allow deny patterns, allow.Perm config.allow → deny.Perm config.deny →
    patterns.Perm config.patterns →
      isBotRequest regex req { config with allow, deny, patterns } = isBotRequest regex req config

/-- An empty user agent is not taken for a bot, or the lists turn it away; one that is not visible
ASCII holds nothing of the deny list and matches no pattern, or holds a part of the allow list. -/
def Covered (config : BotDetectorConfig) (regex : Str → Option (Str → Bool)) (req : Request) :
    Prop :=
  (req.headers.get userAgentHeader = some [] → config.emptyUserAgentIsBot = true →
      config.Denies regex []) ∧
    ∀ v, req.headers.get userAgentHeader = some v → headerToStr v = none →
      ((∃ s ∈ config.deny, v.Contains s) ∨ ∃ pattern ∈ config.patterns, v.Matches regex pattern) →
        ∃ t ∈ config.allow, v.Contains t

end BotDetectorConfig

section Decision

variable {config : BotDetectorConfig} {regex : Str → Option (Str → Bool)} {req : Request}
  {v : HeaderValue} {text : Str}

theorem any_contains_iff (htext : headerToStr v = some text) (parts : List Str) :
    parts.any (containsText text) = true ↔ ∃ s ∈ parts, v.Contains s := by
  simp only [List.any_eq_true, containsText, decide_eq_true_eq, HeaderValue.Contains,
    utf8_infix_iff htext]

theorem any_matches_iff (htext : headerToStr v = some text) (patterns : List Str) :
    patterns.any (fun pattern => (regex pattern).elim false (· text)) = true ↔
      ∃ pattern ∈ patterns, v.Matches regex pattern := by
  rw [List.any_eq_true]
  refine exists_congr (fun pattern => and_congr_right (fun _ => ?_))
  obtain ⟨hbytes, hvisible⟩ := headerToStr_eq_some.mp htext
  have hread : ∀ text', utf8 text' = v → text' = text := fun text' htext' =>
    Option.some.inj ((headerToStr_eq_some.mpr ⟨htext', hvisible⟩).symm.trans htext)
  unfold HeaderValue.Matches
  cases hregex : regex pattern with
  | none => simp
  | some test =>
    constructor
    · exact fun htest => ⟨text, test, hbytes, rfl, htest⟩
    · rintro ⟨text', test', htext', htest', htest⟩
      obtain rfl := Option.some.inj htest'
      rw [hread text' htext'] at htest
      exact htest

theorem isBotRequest_none (hagent : req.headers.get userAgentHeader = none) :
    isBotRequest regex req config = config.emptyUserAgentIsBot := by
  unfold isBotRequest
  rw [hagent]

/-- A user agent that is not visible ASCII is no bot. -/
theorem isBotRequest_unreadable (hagent : req.headers.get userAgentHeader = some v)
    (htext : headerToStr v = none) : isBotRequest regex req config = false := by
  unfold isBotRequest
  simp only [hagent, htext]

theorem isBotRequest_text (hagent : req.headers.get userAgentHeader = some v)
    (htext : headerToStr v = some text) :
    isBotRequest regex req config = true ↔ config.Denies regex v := by
  have hallow := any_contains_iff htext config.allow
  have hdeny := any_contains_iff htext config.deny
  have hpatterns := @any_matches_iff regex v text htext config.patterns
  have hnone : (∀ s ∈ config.allow, ¬v.Contains s) ↔ ¬∃ s ∈ config.allow, v.Contains s := by
    simp
  unfold isBotRequest BotDetectorConfig.Denies
  simp only [hagent, htext]
  rw [hnone, ← hallow, ← hdeny, ← hpatterns]
  split
  next hallowed => simp [hallowed]
  next hallowed =>
    split
    next hdenied => simp [hallowed, hdenied]
    next hdenied => simp [hallowed, hdenied]

/-- An allowed user agent is no bot. -/
theorem isBotRequest_allowed {s : Str} (hagent : req.headers.get userAgentHeader = some v)
    (hs : s ∈ config.allow) (hcontains : v.Contains s) :
    isBotRequest regex req config = false := by
  cases htext : headerToStr v with
  | none => exact isBotRequest_unreadable hagent htext
  | some text =>
    rw [← Bool.not_eq_true, isBotRequest_text hagent htext]
    exact fun h => h.1 s hs hcontains

theorem isBotRequest_perm {allow deny patterns : List Str} (hallow : allow.Perm config.allow)
    (hdeny : deny.Perm config.deny) (hpatterns : patterns.Perm config.patterns) :
    isBotRequest regex req { config with allow, deny, patterns } =
      isBotRequest regex req config := by
  unfold isBotRequest
  simp only [hallow.any_eq, hdeny.any_eq, hpatterns.any_eq]

end Decision

section Rules

variable {config : BotDetectorConfig} {regex : Str → Option (Str → Bool)} {req : Request}
  {v : HeaderValue} {text : Str}

theorem takesForBot_of_agent (hagent : req.headers.get userAgentHeader = some v) :
    config.TakesForBot regex req ↔
      (v = [] ∧ config.emptyUserAgentIsBot = true) ∨ config.Denies regex v := by
  simp [BotDetectorConfig.TakesForBot, hagent]

theorem rules_of_none (hagent : req.headers.get userAgentHeader = none) :
    (isBotRequest regex req config = true ↔ config.TakesForBot regex req) ↔
      config.Covered regex req := by
  refine iff_of_true ?_ ⟨fun h => by simp [hagent] at h, fun v h => by simp [hagent] at h⟩
  rw [isBotRequest_none hagent]
  simp [BotDetectorConfig.TakesForBot, hagent]

theorem rules_of_text (hagent : req.headers.get userAgentHeader = some v)
    (htext : headerToStr v = some text) :
    (isBotRequest regex req config = true ↔ config.TakesForBot regex req) ↔
      config.Covered regex req := by
  rw [isBotRequest_text hagent htext, takesForBot_of_agent hagent, iff_or_self]
  constructor
  · intro h
    refine ⟨fun hempty hflag => ?_, fun w hw hnone => ?_⟩
    · obtain rfl := Option.some.inj (hagent.symm.trans hempty)
      exact h ⟨rfl, hflag⟩
    · obtain rfl := Option.some.inj (hagent.symm.trans hw)
      simp [htext] at hnone
  · rintro ⟨hempty, _⟩ ⟨rfl, hflag⟩
    exact hempty hagent hflag

theorem rules_of_unreadable (hagent : req.headers.get userAgentHeader = some v)
    (htext : headerToStr v = none) :
    (isBotRequest regex req config = true ↔ config.TakesForBot regex req) ↔
      config.Covered regex req := by
  have hne : v ≠ [] := by
    rintro rfl
    simp [headerToStr] at htext
  rw [isBotRequest_unreadable hagent htext, takesForBot_of_agent hagent]
  simp only [Bool.false_eq_true, false_iff, not_or, hne, false_and, not_false_eq_true, true_and]
  constructor
  · intro h
    refine ⟨fun hempty => ?_, fun w hw _ hlisted => ?_⟩
    · exact absurd (Option.some.inj (hagent.symm.trans hempty)) hne
    · obtain rfl := Option.some.inj (hagent.symm.trans hw)
      by_contra hallow
      exact h ⟨fun t ht hcont => hallow ⟨t, ht, hcont⟩, hlisted⟩
  · rintro ⟨_, hcovered⟩ ⟨hallow, hlisted⟩
    obtain ⟨t, ht, hcont⟩ := hcovered v hagent htext hlisted
    exact hallow t ht hcont

end Rules

/-- The rules decide exactly where an empty user agent is not to be taken for a bot or the lists
turn it away, and where one that is not visible ASCII is none that they turn away. -/
theorem bot_rules_iff (config : BotDetectorConfig) (regex : Str → Option (Str → Bool))
    (req : Request) : config.Decides regex req ↔ config.Covered regex req := by
  have hrules : (isBotRequest regex req config = true ↔ config.TakesForBot regex req) ↔
      config.Covered regex req := by
    cases hagent : req.headers.get userAgentHeader with
    | none => exact rules_of_none hagent
    | some v =>
      cases htext : headerToStr v with
      | some text => exact rules_of_text hagent htext
      | none => exact rules_of_unreadable hagent htext
  rw [← hrules]
  refine ⟨BotDetectorConfig.Decides.rules, fun h => ⟨h, ?_, ?_⟩⟩
  · intro v s hagent hs hcontains deny patterns
    rw [isBotRequest_allowed hagent hs hcontains]
    exact isBotRequest_allowed hagent hs hcontains
  · intro _ _ _ hallow hdeny hpatterns
    exact isBotRequest_perm hallow hdeny hpatterns

/-- An empty user agent passes, also where it is configured to be a bot. -/
theorem empty_user_agent_passes : ∃ (config : BotDetectorConfig) (req : Request),
    config.emptyUserAgentIsBot = true ∧ req.headers = [(userAgentHeader, [])] ∧
    isBotRequest (fun _ => none) req config = false ∧ ¬config.Decides (fun _ => none) req := by
  refine ⟨⟨[], [], [], true⟩, ⟨"GET".toList, ⟨none, none, "/".toList, none⟩, "HTTP/1.1".toList,
    [(userAgentHeader, [])], Body.empty⟩, rfl, rfl, rfl, fun h => ?_⟩
  have hbot := h.rules.mpr (.inl ⟨.inr rfl, rfl⟩)
  exact absurd hbot (by decide)

end Road7
