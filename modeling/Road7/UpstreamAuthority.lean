import Road7.HttpUri
import Road7.RebuildRequest
import Road7.Validate

namespace Road7

/-- The text behind a configured authority leaves its host and port alone: it ends the
authority at once, or it makes all of it userinfo of the same host and port again. -/
def KeepsHostPort (authority rest : Str) : Prop :=
  authorityPart rest = [] ∨
    ('@' ∈ authorityPart rest ∧ afterLast '@' (authorityPart rest) = hostPort authority)

theorem hostPort_append_iff (authority x : Str) :
    hostPort (authority ++ x) = hostPort authority ↔
      x = [] ∨ ('@' ∈ x ∧ afterLast '@' x = hostPort authority) := by
  unfold hostPort
  by_cases hx : '@' ∈ x
  · have hne : x ≠ [] := List.ne_nil_of_mem hx
    simp [afterLast_append_of_mem authority hx, hx, hne]
  · simp [afterLast_append_of_not_mem authority hx, hx]

theorem authorityPart_append_query (rest query : Str) :
    authorityPart (rest ++ '?' :: query) = authorityPart rest := by
  have hq : endsAuthority '?' = true := by decide
  induction rest with
  | nil => simp [authorityPart, hq]
  | cons c rest ih =>
    unfold authorityPart at ih ⊢
    simp only [List.cons_append, List.takeWhile_cons, ih]

/-- The upstream URI has the authority of the configured URL, with what the path adds to it
when the URL ends in its authority. The query adds nothing. -/
theorem rebuildUri_authority {parser : UriParser} {url scheme authority remainder p rest : Str}
    {original built : Uri} (hurl : splitAbsolute url = some (scheme, authority, remainder))
    (hpath : original.path = p ++ rest)
    (hbuilt : rebuildUri parser original url (byteLen p) = .ok built) :
    built.scheme = some (parser.schemeName scheme) ∧
    built.authority =
      some (if remainder = [] then authority ++ authorityPart rest else authority) := by
  simp only [rebuildUri, hpath, sliceFrom_append] at hbuilt
  split at hbuilt
  next uri hparse =>
    cases hbuilt
    have happend : ∃ suffix, upstreamUriText url rest (original.query.getD []) =
        url ++ (rest ++ suffix) ∧ authorityPart (rest ++ suffix) = authorityPart rest := by
      unfold upstreamUriText
      split
      next => exact ⟨[], by simp, by simp⟩
      next =>
        exact ⟨'?' :: original.query.getD [], by simp, authorityPart_append_query rest _⟩
    obtain ⟨suffix, htext, hsuffix⟩ := happend
    rw [htext] at hparse
    obtain ⟨t, hsplit⟩ := splitAbsolute_append hurl (rest ++ suffix)
    rw [hsuffix] at hsplit
    exact parser.absolute hsplit hparse
  next => simp at hbuilt

/-- The upstream URI has the scheme, the host and the port of the configured URL exactly when
the URL goes on behind its authority or the rest of the path keeps the host and the port. -/
theorem upstream_origin_iff {parser : UriParser} {url scheme authority remainder p rest : Str}
    {original base built : Uri} (hurl : splitAbsolute url = some (scheme, authority, remainder))
    (hbase : parser.parse url = some base) (hpath : original.path = p ++ rest)
    (hbuilt : rebuildUri parser original url (byteLen p) = .ok built) :
    (built.scheme = base.scheme ∧ built.host = base.host ∧ built.port = base.port) ↔
      remainder ≠ [] ∨ KeepsHostPort authority rest := by
  obtain ⟨hscheme, hauthority⟩ := parser.absolute hurl hbase
  obtain ⟨hscheme', hauthority'⟩ := rebuildUri_authority hurl hpath hbuilt
  have hparts : ∀ x : Str, (hostText (hostPort x) = hostText (hostPort authority) ∧
      portText (hostPort x) = portText (hostPort authority)) ↔
      hostPort x = hostPort authority := by
    intro x
    constructor
    · rintro ⟨hh, hp⟩
      exact hostPort_eq_of_parts hh hp
    · intro h
      simp [h]
  simp only [Uri.host, Uri.port, hscheme, hscheme', hauthority, hauthority', Option.map_some,
    Option.bind_some, Option.some.injEq, true_and, hparts]
  by_cases hr : remainder = []
  · simp [hr, hostPort_append_iff, KeepsHostPort]
  · simp [hr]

theorem upstream_origin_iff_segment : ∃ base built,
    httpUri.parse "http://localhost:5001".toList = some base ∧
    rebuildUri httpUri ⟨none, none, "/api/users".toList, none⟩
      "http://localhost:5001".toList (byteLen "/api".toList) = .ok built ∧
    built.scheme = base.scheme ∧ built.host = base.host ∧ built.port = base.port := by
  have hurl : splitAbsolute "http://localhost:5001".toList =
      some ("http".toList, "localhost:5001".toList, []) := by decide
  have hbase : httpUri.parse "http://localhost:5001".toList =
      some ⟨some "http".toList, some "localhost:5001".toList, "/".toList, none⟩ := by decide
  have hpath : (⟨none, none, "/api/users".toList, none⟩ : Uri).path =
      "/api".toList ++ "/users".toList := by decide
  have hbuilt : rebuildUri httpUri ⟨none, none, "/api/users".toList, none⟩
      "http://localhost:5001".toList (byteLen "/api".toList) =
      .ok ⟨some "http".toList, some "localhost:5001".toList, "/users".toList, none⟩ := by decide
  have hsegment : KeepsHostPort "localhost:5001".toList "/users".toList := .inl (by decide)
  exact ⟨_, _, hbase, hbuilt,
    (upstream_origin_iff hurl hbase hpath hbuilt).mpr (.inr hsegment)⟩

/-- A path that goes on with `@` behind the prefix makes the configured host and port userinfo
of a host of the client's choice. -/
theorem path_suffix_names_other_host : ∃ base built,
    validateUri (Uri.toStr ⟨none, none, "/api@evil.com/x".toList, none⟩) = .ok () ∧
    "/api".toList.isPrefixOf "/api@evil.com/x".toList ∧
    httpUri.parse "http://localhost:5001".toList = some base ∧
    rebuildUri httpUri ⟨none, none, "/api@evil.com/x".toList, none⟩
      "http://localhost:5001".toList (byteLen "/api".toList) = .ok built ∧
    base.host = some "localhost".toList ∧ base.port = some "5001".toList ∧
    built.host = some "evil.com".toList ∧ built.port = none :=
  ⟨⟨some "http".toList, some "localhost:5001".toList, "/".toList, none⟩,
    ⟨some "http".toList, some "localhost:5001@evil.com".toList, "/x".toList, none⟩,
    by decide, by decide, by decide, by decide, by decide, by decide, by decide, by decide⟩

end Road7
