import Road7.BotDetector
import Road7.ProxyRequest

namespace Road7

/-- The header names that have a grammar of their own. -/
def HasGrammar (name : HeaderName) : Prop := name = contentTypeHeader ∨ name = userAgentHeader

/-- The characters that the values of a header may have. -/
def headerGrammar (name : HeaderName) : Char → Bool :=
  if name = contentTypeHeader then contentTypeChar
  else if name = userAgentHeader then userAgentChar
  else defaultHeaderValueChar

/-- The value is text, and matches `^[class]+$`. -/
def ValueMatches (inClass : Char → Bool) (v : HeaderValue) : Prop :=
  ∃ text, headerToStr v = some text ∧ matchesClass inClass text = true

/-- What `validate_headers` is to let through. -/
structure AcceptableHeaders (headers : HeaderMap) : Prop where
  size : totalHeaderSize headers ≤ maxHeaderSize
  names : ∀ e ∈ headers, matchesClass headerNameChar e.1 = true
  values : ∀ e ∈ headers, ValueMatches (headerGrammar e.1) e.2

/-- All that does not concern the headers with a grammar of their own. -/
structure OtherwiseAcceptable (headers : HeaderMap) : Prop where
  size : totalHeaderSize headers ≤ maxHeaderSize
  names : ∀ e ∈ headers, matchesClass headerNameChar e.1 = true
  texts : ∀ e ∈ headers, (headerToStr e.2).isSome
  others : ∀ e ∈ headers, ¬HasGrammar e.1 → ValueMatches defaultHeaderValueChar e.2

def InGrammar (headers : HeaderMap) : Prop :=
  ∀ e ∈ headers, HasGrammar e.1 → ValueMatches (headerGrammar e.1) e.2

def Untabbed (headers : HeaderMap) : Prop :=
  ∀ e ∈ headers, HasGrammar e.1 → e.2 ≠ [] ∧ 9 ∉ e.2

theorem headerGrammar_of_not_hasGrammar {name : HeaderName} (h : ¬HasGrammar name) :
    headerGrammar name = defaultHeaderValueChar := by
  unfold HasGrammar at h
  rw [not_or] at h
  rw [headerGrammar, if_neg h.1, if_neg h.2]

/-- The arms for the two names are never taken. -/
theorem validHeaderValue_of_lower {name : HeaderName} (hlower : toLowerAscii name = name)
    (value : Str) : validHeaderValue name value = matchesClass defaultHeaderValueChar value := by
  unfold validHeaderValue
  split
  next hname =>
    subst hname
    exact absurd hlower (by decide)
  next =>
    split
    next hname =>
      subst hname
      exact absurd hlower (by decide)
    next => rfl

theorem validateHeader_ok {e : HeaderName × HeaderValue} (hlower : toLowerAscii e.1 = e.1) :
    validateHeader e = .ok () ↔
      matchesClass headerNameChar e.1 = true ∧ ValueMatches defaultHeaderValueChar e.2 := by
  unfold validateHeader ValueMatches
  dsimp only
  cases hname : matchesClass headerNameChar e.1 with
  | false => simp
  | true =>
    cases htext : headerToStr e.2 with
    | none => simp
    | some text =>
      simp only [validHeaderValue_of_lower hlower]
      cases hmatches : matchesClass defaultHeaderValueChar text <;> simp [hmatches]

theorem forM_ok {α : Type} {check : α → Except String Unit} {xs : List α} :
    xs.forM check = .ok () ↔ ∀ x ∈ xs, check x = .ok () := by
  induction xs with
  | nil => exact iff_of_true rfl (by simp)
  | cons x xs ih =>
    have hcons : (x :: xs).forM check = (check x).bind (fun _ => xs.forM check) := rfl
    rw [hcons, List.forall_mem_cons, ← ih]
    cases check x <;> simp [Except.bind]

theorem default_of_visible {b : UInt8} (h : isVisibleAscii b = true) :
    defaultHeaderValueChar (Char.ofNat b.toNat) = true ↔ b ≠ 9 := by
  have hall : ∀ n < 256, isVisibleAscii (UInt8.ofNat n) = true →
      (defaultHeaderValueChar (Char.ofNat n) = true ↔ UInt8.ofNat n ≠ 9) := by
    decide +kernel
  have hb := hall b.toNat b.toNat_lt
  rw [UInt8.ofNat_toNat] at hb
  exact hb h

/-- A value of the default grammar is a text without a tab. -/
theorem valueMatches_default {v : HeaderValue} (htext : (headerToStr v).isSome) :
    ValueMatches defaultHeaderValueChar v ↔ v ≠ [] ∧ 9 ∉ v := by
  obtain ⟨text, htext⟩ := Option.isSome_iff_exists.mp htext
  have hmatches : ValueMatches defaultHeaderValueChar v ↔
      matchesClass defaultHeaderValueChar text = true := by
    unfold ValueMatches
    simp [htext]
  rw [hmatches]
  unfold headerToStr at htext
  split at htext
  next hvisible =>
    cases htext
    rw [List.all_eq_true] at hvisible
    unfold matchesClass
    rw [Bool.and_eq_true, List.all_map, List.all_eq_true]
    constructor
    · rintro ⟨hne, hall⟩
      refine ⟨by rintro rfl; simp at hne, ?_⟩
      intro htab
      exact (default_of_visible (hvisible 9 htab)).mp (hall 9 htab) rfl
    · rintro ⟨hne, htab⟩
      refine ⟨by cases v <;> simp_all, ?_⟩
      intro b hb
      exact (default_of_visible (hvisible b hb)).mpr (fun heq => htab (heq ▸ hb))
  next => simp at htext

/-- What `validate_headers` lets through. -/
theorem validateHeaders_ok {headers : HeaderMap}
    (hlower : ∀ e ∈ headers, toLowerAscii e.1 = e.1) :
    validateHeaders headers = .ok () ↔ OtherwiseAcceptable headers ∧ Untabbed headers := by
  have hforM : headers.forM validateHeader = .ok () ↔
      ∀ e ∈ headers, matchesClass headerNameChar e.1 = true ∧
        ValueMatches defaultHeaderValueChar e.2 := by
    rw [forM_ok]
    exact forall₂_congr fun e he => validateHeader_ok (hlower e he)
  unfold validateHeaders
  split
  next hsize =>
    refine iff_of_false (by simp) ?_
    rintro ⟨hother, _⟩
    exact absurd hother.size (Nat.not_le.mpr hsize)
  next hsize =>
    rw [hforM]
    constructor
    · intro h
      have htexts : ∀ e ∈ headers, (headerToStr e.2).isSome := by
        intro e he
        obtain ⟨_, text, htext, _⟩ := h e he
        rw [htext]
        rfl
      exact ⟨⟨Nat.not_lt.mp hsize, fun e he => (h e he).1, htexts, fun e he _ => (h e he).2⟩,
        fun e he _ => (valueMatches_default (htexts e he)).mp (h e he).2⟩
    · rintro ⟨hother, htabs⟩ e he
      refine ⟨hother.names e he, ?_⟩
      by_cases hgrammar : HasGrammar e.1
      · exact (valueMatches_default (hother.texts e he)).mpr (htabs e he hgrammar)
      · exact hother.others e he hgrammar

theorem acceptableHeaders_iff {headers : HeaderMap} :
    AcceptableHeaders headers ↔ OtherwiseAcceptable headers ∧ InGrammar headers := by
  constructor
  · intro h
    refine ⟨⟨h.size, h.names, ?_, ?_⟩, fun e he _ => h.values e he⟩
    · intro e he
      obtain ⟨text, htext, _⟩ := h.values e he
      rw [htext]
      rfl
    · intro e he hgrammar
      have hvalue := h.values e he
      rwa [headerGrammar_of_not_hasGrammar hgrammar] at hvalue
  · rintro ⟨hother, hgrammars⟩
    refine ⟨hother.size, hother.names, ?_⟩
    intro e he
    by_cases hgrammar : HasGrammar e.1
    · exact hgrammars e he hgrammar
    · rw [headerGrammar_of_not_hasGrammar hgrammar]
      exact hother.others e he hgrammar

/-- `validate_headers` lets through what it should exactly when another check fails, or the values
of `Content-Type` and `User-Agent` match their grammars just when they have no tab. -/
theorem headers_validated_iff {headers : HeaderMap}
    (hlower : ∀ e ∈ headers, toLowerAscii e.1 = e.1) :
    (validateHeaders headers = .ok () ↔ AcceptableHeaders headers) ↔
      (OtherwiseAcceptable headers → (InGrammar headers ↔ Untabbed headers)) := by
  rw [validateHeaders_ok hlower, acceptableHeaders_iff]
  constructor
  · intro h hother
    constructor
    · intro hgrammar
      exact (h.mpr ⟨hother, hgrammar⟩).2
    · intro htabs
      exact (h.mp ⟨hother, htabs⟩).2
  · intro h
    exact and_congr_right fun hother => (h hother).symm

theorem headers_validated_iff_json :
    validateHeaders [(contentTypeHeader, utf8 "application/json".toList),
        (userAgentHeader, utf8 "Mozilla/5.0".toList)] = .ok () ↔
      AcceptableHeaders [(contentTypeHeader, utf8 "application/json".toList),
        (userAgentHeader, utf8 "Mozilla/5.0".toList)] := by
  refine (headers_validated_iff (by decide)).mpr fun _ => iff_of_true ?_ (fun e he _ => ?_)
  · intro e he _
    simp only [List.mem_cons, List.not_mem_nil, or_false] at he
    rcases he with rfl | rfl
    · exact ⟨"application/json".toList, rfl, rfl⟩
    · exact ⟨"Mozilla/5.0".toList, rfl, rfl⟩
  · have huntabbed : ∀ e ∈ [(contentTypeHeader, utf8 "application/json".toList),
        (userAgentHeader, utf8 "Mozilla/5.0".toList)], e.2 ≠ [] ∧ 9 ∉ e.2 := by
      decide
    exact huntabbed e he

/-- A `Content-Type` outside its grammar is let through, and one within it, with a tab, is not. -/
theorem markup_content_type_accepted :
    validateHeaders [(contentTypeHeader, utf8 "application/<script>json</script>".toList)] =
      .ok () ∧
    ¬AcceptableHeaders [(contentTypeHeader, utf8 "application/<script>json</script>".toList)] ∧
    validateHeaders [(contentTypeHeader, utf8 "text/html;\tcharset=utf-8".toList)] ≠ .ok () ∧
    AcceptableHeaders [(contentTypeHeader, utf8 "text/html;\tcharset=utf-8".toList)] := by
  refine ⟨rfl, ?_, by decide, ⟨by decide, by decide, ?_⟩⟩
  · intro h
    obtain ⟨text, htext, hmatches⟩ := h.values _ List.mem_cons_self
    have hread : headerToStr (utf8 "application/<script>json</script>".toList) =
        some "application/<script>json</script>".toList := rfl
    obtain rfl := Option.some.inj (hread.symm.trans htext)
    exact absurd hmatches (by decide)
  · intro e he
    rw [List.mem_singleton.mp he]
    exact ⟨"text/html;\tcharset=utf-8".toList, rfl, rfl⟩

end Road7
