import Road7.UpstreamAuthority

namespace Road7

/-- What the authority of a configured URL becomes, and the path behind it: the rest of the path
of a request is written right behind the URL. -/
def joinedAuthority (authority remainder rest : Str) : Str :=
  if remainder = [] then authority ++ authorityPart rest else authority

def joinedPath (remainder rest : Str) : Str :=
  if remainder = [] then afterAuthority rest else remainder ++ rest

theorem joinedPath_pathText {remainder rest : Str} (h : PathText (remainder ++ rest)) :
    PathText (joinedPath remainder rest) := by
  unfold joinedPath
  split
  next =>
    intro ch hch
    have hmem : ch ∈ rest := (List.dropWhile_suffix _).subset hch
    exact h ch (List.mem_append_right _ hmem)
  next => exact h

theorem afterAuthority_append_query {rest : Str} (query : Str) :
    afterAuthority (rest ++ queryText query) = afterAuthority rest ++ queryText query := by
  unfold queryText
  split
  next => rw [List.append_nil, List.append_nil]
  next =>
    have hq : endsAuthority '?' = true := by decide
    unfold afterAuthority
    induction rest with
    | nil => simp [hq]
    | cons c rest ih =>
      rw [List.cons_append, List.dropWhile_cons, List.dropWhile_cons, ih]
      split <;> rfl

/-- The parts of the text that the upstream URI is parsed from. -/
theorem splitAbsolute_upstream {url scheme authority remainder rest query : Str}
    (hurl : splitAbsolute url = some (scheme, authority, remainder)) :
    splitAbsolute (url ++ (rest ++ queryText query)) =
      some (scheme, joinedAuthority authority remainder rest,
        joinedPath remainder rest ++ queryText query) := by
  obtain ⟨hne, hscheme, hauthority, hstarts, rfl⟩ := splitAbsolute_iff.mp hurl
  refine splitAbsolute_iff.mpr ⟨hne, hscheme, ?_⟩
  unfold joinedAuthority joinedPath
  cases remainder with
  | nil =>
    rw [if_pos rfl, if_pos rfl]
    refine ⟨fun c hc => ?_, ?_, ?_⟩
    · rcases List.mem_append.mp hc with hc | hc
      · exact hauthority c hc
      · exact authorityPart_inside hc
    · rw [← afterAuthority_append_query]
      exact afterAuthority_starts _
    · have hback := authorityPart_append_afterAuthority rest
      simp only [List.append_nil, List.append_assoc, List.cons_append]
      rw [← List.append_assoc (authorityPart rest), hback]
  | cons c remainder =>
    rw [if_neg (List.cons_ne_nil _ _), if_neg (List.cons_ne_nil _ _)]
    refine ⟨hauthority, fun d hd => hstarts d (by simpa using hd), by simp⟩

/-- The upstream URI that a configured URL, the rest of a path and a query come to. -/
def upstreamUri (parser : UriParser) (scheme authority remainder rest query : Str) : Uri where
  scheme := some (parser.schemeName scheme)
  authority := some (joinedAuthority authority remainder rest)
  path := shownPath (joinedPath remainder rest)
  query := optionalQuery query

theorem upstreamUriText_eq (url rest query : Str) :
    upstreamUriText url rest query = url ++ (rest ++ queryText query) := by
  unfold upstreamUriText queryText
  split <;> simp

/-- The upstream URI can be built exactly when its text is not too long, the authority that the rest
of the path has been joined to is valid, and the characters of the path and of the query are. -/
theorem rebuildUri_ok_iff {parser : UriParser} {grammar : UriGrammar}
    {url scheme authority remainder p rest : Str} {original built : Uri}
    (hparser : parser.Follows grammar)
    (hurl : splitAbsolute url = some (scheme, authority, remainder))
    (hpath : original.path = p ++ rest) (hclean : PathText (remainder ++ rest))
    (hquery : '#' ∉ original.query.getD []) :
    rebuildUri parser original url (byteLen p) = .ok built ↔
      (byteLen (upstreamUriText url rest (original.query.getD [])) ≤ grammar.limit ∧
        grammar.scheme scheme = true ∧
        grammar.authority (joinedAuthority authority remainder rest) = true ∧
        (joinedPath remainder rest).all grammar.pathChar = true ∧
        (original.query.getD []).all grammar.queryChar = true) ∧
      built = upstreamUri parser scheme authority remainder rest (original.query.getD []) := by
  have hsplit : splitAbsolute (upstreamUriText url rest (original.query.getD [])) =
      some (scheme, joinedAuthority authority remainder rest,
        joinedPath remainder rest ++ queryText (original.query.getD [])) := by
    rw [upstreamUriText_eq]
    exact splitAbsolute_upstream hurl
  rw [upstreamUri, ← hparser.reads hsplit (joinedPath_pathText hclean) hquery]
  simp only [rebuildUri, hpath, sliceFrom_append]
  cases parser.parse (upstreamUriText url rest (original.query.getD [])) <;> simp

/-- The rest of a path with the root that an upstream URI shows for an empty path. -/
def rooted (remainder rest : Str) : Str :=
  if joinedPath remainder rest = [] then rest ++ ['/'] else rest

theorem rooted_eq (remainder rest : Str) (hnone : remainder = []) :
    rooted remainder rest = authorityPart rest ++ shownPath (joinedPath remainder rest) := by
  have hback := authorityPart_append_afterAuthority rest
  have hjoined : joinedPath remainder rest = afterAuthority rest := if_pos hnone
  unfold rooted shownPath
  rw [hjoined]
  split
  next hempty =>
    rw [hempty, List.append_nil] at hback
    rw [hback]
  next => exact hback.symm

theorem shownPath_starts {remainder : Str} (rest : Str) (hnone : remainder = []) :
    StartsAfterAuthority (shownPath (joinedPath remainder rest)) := by
  have hjoined : joinedPath remainder rest = afterAuthority rest := if_pos hnone
  unfold shownPath
  rw [hjoined]
  split
  next =>
    intro c hc
    cases hc
    decide
  next => exact afterAuthority_starts rest

/-- What the rest of a path adds to a URL, in the authority and behind it, is that text with its
root. -/
theorem joined_eq_iff {authority remainder rest rest' : Str} :
    (joinedAuthority authority remainder rest = joinedAuthority authority remainder rest' ∧
      shownPath (joinedPath remainder rest) = shownPath (joinedPath remainder rest')) ↔
      rooted remainder rest = rooted remainder rest' := by
  by_cases hnone : remainder = []
  · have hjoined : ∀ x, joinedAuthority authority remainder x = authority ++ authorityPart x :=
      fun _ => if_pos hnone
    rw [rooted_eq remainder rest hnone, rooted_eq remainder rest' hnone, hjoined, hjoined,
      List.append_cancel_left_eq]
    constructor
    · rintro ⟨hauthority, hshown⟩
      rw [hauthority, hshown]
    · intro heq
      obtain ⟨hauthority, hshown⟩ := authorityPart_append
        (fun c hc => authorityPart_inside (s := rest) hc) (shownPath_starts rest hnone)
      obtain ⟨hauthority', hshown'⟩ := authorityPart_append
        (fun c hc => authorityPart_inside (s := rest') hc) (shownPath_starts rest' hnone)
      rw [heq] at hauthority hshown
      exact ⟨hauthority.symm.trans hauthority', hshown.symm.trans hshown'⟩
  · have hjoined : ∀ x, joinedPath remainder x = remainder ++ x := fun _ => if_neg hnone
    have hne : ∀ x, remainder ++ x ≠ [] := fun x h => hnone (List.append_eq_nil_iff.mp h).1
    have hauthority : ∀ x, joinedAuthority authority remainder x = authority := fun _ => if_neg hnone
    rw [rooted, rooted, shownPath, shownPath, hjoined, hjoined, if_neg (hne _), if_neg (hne _),
      if_neg (hne _), if_neg (hne _), hauthority, hauthority, List.append_cancel_left_eq]
    exact and_iff_right rfl

theorem upstreamUri_eq_iff {parser : UriParser}
    {scheme authority remainder rest rest' query query' : Str} :
    upstreamUri parser scheme authority remainder rest query =
        upstreamUri parser scheme authority remainder rest' query' ↔
      rooted remainder rest = rooted remainder rest' ∧ query = query' := by
  have hqueries : optionalQuery query = optionalQuery query' ↔ query = query' := by
    unfold optionalQuery
    by_cases hq : query = [] <;> by_cases hq' : query' = [] <;> simp [hq, hq', eq_comm]
  have hparts := @joined_eq_iff authority remainder rest rest'
  simp only [upstreamUri, Uri.mk.injEq, Option.some.injEq, true_and, hqueries]
  rw [← and_assoc, hparts]

section Below

variable {parser : UriParser} {grammar : UriGrammar}
  {url scheme authority remainder p rest rest' s s' : Str}
  {base original original' built built' : Uri}

theorem pathText_of_pathChars (hparser : parser.Follows grammar)
    (h : s.all grammar.pathChar = true) : PathText s := by
  obtain ⟨hquestion, hfragment, _⟩ := hparser.marks
  intro ch hch
  have hchar := List.all_eq_true.mp h ch hch
  constructor
  · rintro rfl
    rw [hquestion] at hchar
    cases hchar
  · rintro rfl
    rw [hfragment] at hchar
    cases hchar

theorem fragment_not_mem (hparser : parser.Follows grammar)
    (h : s.all grammar.queryChar = true) : '#' ∉ s := by
  intro hmem
  have hchar := List.all_eq_true.mp h '#' hmem
  rw [hparser.marks.2.2] at hchar
  cases hchar

/-- Of a URL that has been parsed, the scheme, the authority and what stands behind it are valid. -/
theorem valid_of_parse_url (hparser : parser.Follows grammar)
    (hurl : splitAbsolute url = some (scheme, authority, remainder))
    (hbase : parser.parse url = some base) (hclean : PathText remainder) :
    grammar.scheme scheme = true ∧ grammar.authority authority = true ∧
      remainder.all grammar.pathChar = true := by
  have hnone : remainder ++ queryText [] = remainder := List.append_nil remainder
  rw [← hnone] at hurl
  obtain ⟨⟨_, hscheme, hauthority, hchars, _⟩, _⟩ :=
    (hparser.reads hurl hclean List.not_mem_nil).mp hbase
  exact ⟨hscheme, hauthority, hchars⟩

theorem clean_of_parse (hparser : parser.Follows grammar) (hclean : PathText remainder)
    (h : parser.parse s = some original) (hpath : original.path = p ++ rest) :
    rest.all grammar.pathChar = true ∧ PathText (remainder ++ rest) ∧
      '#' ∉ original.query.getD [] := by
  obtain ⟨hchars, hquery⟩ := hparser.chars h
  rw [hpath, List.all_append, Bool.and_eq_true] at hchars
  refine ⟨hchars.2, fun ch hch => ?_, fragment_not_mem hparser hquery⟩
  rcases List.mem_append.mp hch with hch | hch
  · exact hclean ch hch
  · exact pathText_of_pathChars hparser hchars.2 ch hch

/-- Whatever the rest of a path is joined to, its characters stay valid. -/
theorem joinedPath_chars {pathChar : Char → Bool} (hremainder : remainder.all pathChar = true)
    (hrest : rest.all pathChar = true) : (joinedPath remainder rest).all pathChar = true := by
  unfold joinedPath
  split
  next =>
    exact List.all_eq_true.mpr fun ch hch =>
      List.all_eq_true.mp hrest ch ((List.dropWhile_suffix _).subset hch)
  next => rw [List.all_append, hremainder, hrest, Bool.and_self]

theorem rebuildUri_error_iff (hpath : original.path = p ++ rest) :
    rebuildUri parser original url (byteLen p) = .error .invalidUri ↔
      ∀ built, rebuildUri parser original url (byteLen p) ≠ .ok built := by
  unfold rebuildUri
  rw [hpath, sliceFrom_append]
  dsimp only
  split <;> simp

/-- The upstream URI of a request is invalid exactly when its text is too long, or the configured
URL ends in its authority and the rest of the path makes that one invalid. -/
theorem rebuildUri_panics_iff (hparser : parser.Follows grammar)
    (hurl : splitAbsolute url = some (scheme, authority, remainder))
    (hbase : parser.parse url = some base) (hclean : PathText remainder)
    (horiginal : parser.parse s = some original) (hpath : original.path = p ++ rest) :
    rebuildUri parser original url (byteLen p) = .error .invalidUri ↔
      grammar.limit < byteLen (upstreamUriText url rest (original.query.getD [])) ∨
        (remainder = [] ∧ grammar.authority (authority ++ authorityPart rest) = false) := by
  obtain ⟨hscheme, hauthority, hremainder⟩ := valid_of_parse_url hparser hurl hbase hclean
  obtain ⟨hrest, hboth, hfragment⟩ := clean_of_parse hparser hclean horiginal hpath
  have hquery := (hparser.chars horiginal).2
  have hjoined := joinedPath_chars hremainder hrest
  have hok := fun built => @rebuildUri_ok_iff parser grammar url scheme authority remainder p rest
    original built hparser hurl hpath hboth hfragment
  rw [rebuildUri_error_iff hpath]
  constructor
  · intro hnone
    by_contra hvalid
    push Not at hvalid
    have hjoins : grammar.authority (joinedAuthority authority remainder rest) = true := by
      unfold joinedAuthority
      split
      next hr => exact (Bool.not_eq_false _).mp (hvalid.2 hr)
      next => exact hauthority
    exact hnone _ ((hok _).mpr ⟨⟨hvalid.1, hscheme, hjoins, hjoined, hquery⟩, rfl⟩)
  · intro hinvalid built hbuilt
    obtain ⟨⟨hlimit, _, hvalid, _, _⟩, _⟩ := (hok built).mp hbuilt
    rcases hinvalid with hlong | ⟨hr, hinvalid⟩
    · exact absurd hlimit (Nat.not_le.mpr hlong)
    · rw [joinedAuthority, if_pos hr, hinvalid] at hvalid
      cases hvalid

/-- Two requests below a prefix come to one upstream URI exactly when the rests of their paths are
the same, but for the root that stands for an empty path, and their queries are; an empty query
is none. -/
theorem upstream_uris_eq_iff (hparser : parser.Follows grammar)
    (hurl : splitAbsolute url = some (scheme, authority, remainder))
    (hclean : PathText remainder) (horiginal : parser.parse s = some original)
    (horiginal' : parser.parse s' = some original') (hpath : original.path = p ++ rest)
    (hpath' : original'.path = p ++ rest')
    (hbuilt : rebuildUri parser original url (byteLen p) = .ok built)
    (hbuilt' : rebuildUri parser original' url (byteLen p) = .ok built') :
    built = built' ↔ rooted remainder rest = rooted remainder rest' ∧
      original.query.getD [] = original'.query.getD [] := by
  obtain ⟨_, hboth, hquery⟩ := clean_of_parse hparser hclean horiginal hpath
  obtain ⟨_, hboth', hquery'⟩ := clean_of_parse hparser hclean horiginal' hpath'
  obtain ⟨_, rfl⟩ := (rebuildUri_ok_iff hparser hurl hpath hboth hquery).mp hbuilt
  obtain ⟨_, rfl⟩ := (rebuildUri_ok_iff hparser hurl hpath' hboth' hquery').mp hbuilt'
  exact upstreamUri_eq_iff

end Below

theorem rebuildUri_panics_iff_port : ∃ original,
    httpUri.parse "/api:81/users".toList = some original ∧
    rebuildUri httpUri original "http://localhost:5001".toList (byteLen "/api".toList) =
      .error .invalidUri := by
  have hurl : splitAbsolute "http://localhost:5001".toList =
      some ("http".toList, "localhost:5001".toList, []) := by decide
  have hbase : httpUri.parse "http://localhost:5001".toList =
      some ⟨some "http".toList, some "localhost:5001".toList, "/".toList, none⟩ := by decide
  have horiginal : httpUri.parse "/api:81/users".toList =
      some ⟨none, none, "/api:81/users".toList, none⟩ := by decide
  have hpath : (⟨none, none, "/api:81/users".toList, none⟩ : Uri).path =
      "/api".toList ++ ":81/users".toList := by decide
  have hinvalid : httpGrammar.authority
      ("localhost:5001".toList ++ authorityPart ":81/users".toList) = false := by decide
  exact ⟨_, horiginal, (rebuildUri_panics_iff httpUri_follows hurl hbase (List.forall_mem_nil _)
    horiginal hpath).mpr (.inr ⟨rfl, hinvalid⟩)⟩

theorem upstream_uris_eq_iff_root : ∃ original original' built,
    httpUri.parse "/api".toList = some original ∧ httpUri.parse "/api/?".toList = some original' ∧
    rebuildUri httpUri original "http://localhost:5001".toList (byteLen "/api".toList) =
      .ok built ∧
    rebuildUri httpUri original' "http://localhost:5001".toList (byteLen "/api".toList) =
      .ok built := by
  have hurl : splitAbsolute "http://localhost:5001".toList =
      some ("http".toList, "localhost:5001".toList, []) := by decide
  have horiginal : httpUri.parse "/api".toList = some ⟨none, none, "/api".toList, none⟩ := by decide
  have horiginal' : httpUri.parse "/api/?".toList =
      some ⟨none, none, "/api/".toList, some []⟩ := by decide
  have hbuilds : ∃ built built',
      rebuildUri httpUri ⟨none, none, "/api".toList, none⟩ "http://localhost:5001".toList
        (byteLen "/api".toList) = .ok built ∧
      rebuildUri httpUri ⟨none, none, "/api/".toList, some []⟩ "http://localhost:5001".toList
        (byteLen "/api".toList) = .ok built' :=
    ⟨⟨some "http".toList, some "localhost:5001".toList, "/".toList, none⟩,
      ⟨some "http".toList, some "localhost:5001".toList, "/".toList, none⟩, by decide, by decide⟩
  obtain ⟨built, built', hbuilt, hbuilt'⟩ := hbuilds
  have hpath : (⟨none, none, "/api".toList, none⟩ : Uri).path = "/api".toList ++ [] := rfl
  have hpath' : (⟨none, none, "/api/".toList, some []⟩ : Uri).path =
      "/api".toList ++ "/".toList := rfl
  have hsame : built = built' := (upstream_uris_eq_iff httpUri_follows hurl (List.forall_mem_nil _)
    horiginal horiginal' hpath hpath' hbuilt hbuilt').mpr ⟨by decide, rfl⟩
  exact ⟨_, _, built, horiginal, horiginal', hbuilt, hsame ▸ hbuilt'⟩

end Road7
