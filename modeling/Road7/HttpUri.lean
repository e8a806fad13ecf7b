import Mathlib.Data.List.TakeWhile
import Road7.Http

namespace Road7

/-- What the scan of an authority keeps of the characters it has passed. -/
structure AuthorityScan where
  colons : Nat
  opened : Bool
  closed : Bool
  percent : Bool
  atEnd : Bool
deriving DecidableEq, Repr

def isUriChar (c : Char) : Bool := c.isAlphanum || c ∈ "!#$&'()*+,-./:;=?@[]_~".toList

def AuthorityScan.next (st : AuthorityScan) (c : Char) : Option AuthorityScan :=
  let st := { st with atEnd := c = '@' }
  if c = ':' then if st.colons < 8 then some { st with colons := st.colons + 1 } else none
  else if c = '[' then if st.percent || st.opened then none else some { st with opened := true }
  else if c = ']' then
    if !st.opened || st.closed then none
    else some { st with closed := true, colons := 0, percent := false }
  else if c = '@' then some { st with colons := 0, percent := false }
  else if c = '%' then some { st with percent := true }
  else if isUriChar c then some st else none

/-- One port at most, matched brackets, nothing escaped and something behind the userinfo. -/
def validAuthority (authority : Str) : Bool :=
  match authority.foldlM AuthorityScan.next ⟨0, false, false, false, false⟩ with
  | some st => st.opened = st.closed && st.colons ≤ 1 && !st.percent && !st.atEnd
  | none => false

def isPathChar (c : Char) : Bool :=
  let n := c.toNat
  n = 0x21 || (0x24 ≤ n && n ≤ 0x3B) || n = 0x3D || (0x40 ≤ n && n ≤ 0x5F) ||
    (0x61 ≤ n && n ≤ 0x7A) || n = 0x7C || n = 0x7E || c ∈ ['"', '\x7b', '\x7d']

def isQueryChar (c : Char) : Bool :=
  let n := c.toNat
  n = 0x21 || (0x24 ≤ n && n ≤ 0x3B) || n = 0x3D || (0x3F ≤ n && n ≤ 0x7E)

/-- Path and query; a fragment is dropped, and an empty path is the root. -/
def parsePathAndQuery (t : Str) : Option (Str × Option Str) :=
  let t := t.takeWhile (· ≠ '#')
  let path := t.takeWhile (· ≠ '?')
  let shown := if path = [] then ['/'] else path
  if path.all isPathChar then
    match t.dropWhile (· ≠ '?') with
    | [] => some (shown, none)
    | _ :: query => if query.all isQueryChar then some (shown, some query) else none
  else none

/-- `http` and `https` are recognised in any case. -/
def httpSchemeName (scheme : Str) : Str :=
  if toLowerAscii scheme ∈ ["http".toList, "https".toList] then toLowerAscii scheme else scheme

def maxUriLen : Nat := 65534

def maxSchemeLen : Nat := 64

def parseHttpUri (s : Str) : Option Uri :=
  if maxUriLen < byteLen s then none
  else match splitAbsolute s with
  | some (scheme, a, t) =>
    if scheme.length ≤ maxSchemeLen ∧ a ≠ [] ∧ validAuthority a then
      (parsePathAndQuery t).map (fun pq => ⟨some (httpSchemeName scheme), some a, pq.1, pq.2⟩)
    else none
  | none =>
    if s = "*".toList then some ⟨none, none, s, none⟩
    else if s.head? = some '/' then
      (parsePathAndQuery s).map (fun pq => ⟨none, none, pq.1, pq.2⟩)
    else if s ≠ [] ∧ s.all (!endsAuthority ·) ∧ validAuthority s then
      some ⟨none, some s, [], none⟩
    else none

/-- A parser with the rules of `http::Uri`. -/
def httpUri : UriParser where
  parse := parseHttpUri
  schemeName := httpSchemeName
  absolute := by
    intro s scheme a t u hsplit hparse
    unfold parseHttpUri at hparse
    split at hparse
    next => simp at hparse
    next =>
      rw [hsplit] at hparse
      dsimp only at hparse
      split at hparse
      next =>
        obtain ⟨pq, _, rfl⟩ := Option.map_eq_some_iff.mp hparse
        exact ⟨rfl, rfl⟩
      next => simp at hparse

def httpGrammar : UriGrammar where
  limit := maxUriLen
  scheme scheme := scheme.length ≤ maxSchemeLen
  authority a := a ≠ [] && validAuthority a
  pathChar := isPathChar
  queryChar := isQueryChar

theorem cut_append {p : Char → Bool} {s rest : Str} {c : Char} (hs : ∀ ch ∈ s, p ch = true)
    (hc : p c = false) :
    (s ++ c :: rest).takeWhile p = s ∧ (s ++ c :: rest).dropWhile p = c :: rest := by
  induction s with
  | nil => simp [hc]
  | cons a s ih =>
    obtain ⟨ha, hs⟩ := List.forall_mem_cons.mp hs
    obtain ⟨htake, hdrop⟩ := ih hs
    simp [ha, htake, hdrop]

/-- Path and query are read back as they have been written, where their characters are valid. -/
theorem parsePathAndQuery_append {path query : Str} (hpath : PathText path) (hquery : '#' ∉ query) :
    parsePathAndQuery (path ++ queryText query) =
      if path.all isPathChar = true ∧ query.all isQueryChar = true then
        some (shownPath path, optionalQuery query)
      else none := by
  have hfragment : ∀ ch ∈ path ++ queryText query, decide (ch ≠ '#') = true := by
    intro ch hch
    rcases List.mem_append.mp hch with hch | hch
    · simpa using (hpath ch hch).2
    · unfold queryText at hch
      split at hch
      next => cases hch
      next =>
        rcases List.mem_cons.mp hch with rfl | hch
        · decide
        · simpa using fun heq : ch = '#' => hquery (heq ▸ hch)
  have hmark : ∀ ch ∈ path, decide (ch ≠ '?') = true :=
    fun ch hch => by simpa using (hpath ch hch).1
  unfold parsePathAndQuery
  rw [List.takeWhile_eq_self_iff.mpr hfragment]
  unfold queryText optionalQuery
  by_cases hnone : query = []
  · rw [if_pos hnone, if_pos hnone, List.append_nil]
    dsimp only
    rw [List.takeWhile_eq_self_iff.mpr hmark, List.dropWhile_eq_nil_iff.mpr hmark, hnone]
    by_cases hall : path.all isPathChar = true <;> simp [hall, shownPath]
  · have hq : decide ('?' ≠ '?') = false := by decide
    obtain ⟨htake, hdrop⟩ := @cut_append _ path query '?' hmark hq
    rw [if_neg hnone, if_neg hnone]
    dsimp only
    rw [htake, hdrop]
    by_cases hall : path.all isPathChar = true <;> simp [hall, shownPath]

theorem parsePathAndQuery_valid {t : Str} {pq : Str × Option Str}
    (h : parsePathAndQuery t = some pq) :
    pq.1.all isPathChar = true ∧ (pq.2.getD []).all isQueryChar = true := by
  have hroot : ['/'].all isPathChar = true := by decide
  have hshown : ∀ path : Str, path.all isPathChar = true →
      (if path = [] then ['/'] else path).all isPathChar = true := by
    intro path hpath
    split
    next => exact hroot
    next => exact hpath
  unfold parsePathAndQuery at h
  dsimp only at h
  split at h
  next hpath =>
    split at h
    next =>
      cases h
      exact ⟨hshown _ hpath, rfl⟩
    next =>
      split at h
      next hquery =>
        cases h
        exact ⟨hshown _ hpath, hquery⟩
      next => cases h
  next => cases h

theorem httpUri_chars {s : Str} {u : Uri} (h : httpUri.parse s = some u) :
    u.path.all isPathChar = true ∧ (u.query.getD []).all isQueryChar = true := by
  have hparse : parseHttpUri s = some u := h
  unfold parseHttpUri at hparse
  split at hparse
  next => cases hparse
  next =>
    split at hparse
    next =>
      split at hparse
      next =>
        obtain ⟨pq, hpq, rfl⟩ := Option.map_eq_some_iff.mp hparse
        exact parsePathAndQuery_valid hpq
      next => cases hparse
    next =>
      split at hparse
      next hstar =>
        cases hparse
        rw [hstar]
        exact ⟨by decide, rfl⟩
      next =>
        split at hparse
        next =>
          obtain ⟨pq, hpq, rfl⟩ := Option.map_eq_some_iff.mp hparse
          exact parsePathAndQuery_valid hpq
        next =>
          split at hparse
          next =>
            cases hparse
            exact ⟨rfl, rfl⟩
          next => cases hparse

theorem httpUri_follows : httpUri.Follows httpGrammar := by
  refine ⟨by decide, httpUri_chars, ?_⟩
  intro s scheme a path query u hsplit hpath hquery
  have hparse : httpUri.parse s =
      if byteLen s ≤ maxUriLen ∧ scheme.length ≤ maxSchemeLen ∧ a ≠ [] ∧
          validAuthority a = true then
        (parsePathAndQuery (path ++ queryText query)).map
          (fun pq => ⟨some (httpSchemeName scheme), some a, pq.1, pq.2⟩)
      else none := by
    show parseHttpUri s = _
    unfold parseHttpUri
    rw [hsplit]
    by_cases hlen : byteLen s ≤ maxUriLen
    · simp only [if_neg (Nat.not_lt.mpr hlen), hlen, true_and]
    · simp only [if_pos (Nat.not_le.mp hlen), hlen, false_and, if_false]
  rw [hparse, parsePathAndQuery_append hpath hquery]
  simp only [httpGrammar, decide_eq_true_eq, Bool.and_eq_true]
  by_cases hparts : byteLen s ≤ maxUriLen ∧ scheme.length ≤ maxSchemeLen ∧ a ≠ [] ∧
      validAuthority a = true
  · rw [if_pos hparts]
    by_cases hchars : path.all isPathChar = true ∧ query.all isQueryChar = true
    · rw [if_pos hchars, Option.map_some, Option.some.injEq, eq_comm]
      exact (and_iff_right ⟨hparts.1, hparts.2.1, hparts.2.2, hchars⟩).symm
    · rw [if_neg hchars]
      simp only [Option.map_none, reduceCtorEq, false_iff]
      exact fun h => hchars h.1.2.2.2
  · rw [if_neg hparts]
    simp only [reduceCtorEq, false_iff]
    exact fun h => hparts ⟨h.1.1, h.1.2.1, h.1.2.2.1⟩

end Road7
