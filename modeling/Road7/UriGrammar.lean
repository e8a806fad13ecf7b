import Road7.Text

namespace Road7

/-- A parsed URI. The path is the one `path()` shows. -/
structure Uri where
  scheme : Option Str
  authority : Option Str
  path : Str
  query : Option Str
deriving DecidableEq, Repr

def Uri.toStr (u : Uri) : Str :=
  (u.scheme.elim [] (· ++ "://".toList)) ++ u.authority.getD [] ++ u.path ++
    u.query.elim [] ('?' :: ·)

def isSchemeChar (c : Char) : Bool := c.isAlphanum || c = '+' || c = '-' || c = '.'

def endsAuthority (c : Char) : Bool := c = '/' || c = '?' || c = '#'

def authorityPart (s : Str) : Str := s.takeWhile (fun c => !endsAuthority c)

def afterAuthority (s : Str) : Str := s.dropWhile (fun c => !endsAuthority c)

/-- Scheme, authority and remainder of a text that has the form of an absolute URI. -/
def splitAbsolute (s : Str) : Option (Str × Str × Str) :=
  match s.takeWhile isSchemeChar, s.dropWhile isSchemeChar with
  | c :: scheme, ':' :: '/' :: '/' :: rest =>
    some (c :: scheme, authorityPart rest, afterAuthority rest)
  | _, _ => none

/-- The authority without its userinfo, which ends at the last `@`. -/
def hostPort (authority : Str) : Str := afterLast '@' authority

/-- A `:` inside the brackets of an address literal does not start a port. -/
def hasPort (hp : Str) : Bool := ':' ∈ hp && ']' ∉ afterLast ':' hp

def hostText (hp : Str) : Str := if hasPort hp then beforeLast ':' hp else hp

def portText (hp : Str) : Option Str := if hasPort hp then some (afterLast ':' hp) else none

def Uri.host (u : Uri) : Option Str := u.authority.map (fun a => hostText (hostPort a))

def Uri.port (u : Uri) : Option Str := u.authority.bind (fun a => portText (hostPort a))

theorem hostPort_eq_of_parts {hp hp' : Str} (hh : hostText hp = hostText hp')
    (hport : portText hp = portText hp') : hp = hp' := by
  unfold hostText at hh
  unfold portText at hport
  have cut : ∀ {s : Str}, hasPort s = true → beforeLast ':' s ++ ':' :: afterLast ':' s = s := by
    intro s hs
    simp only [hasPort, Bool.and_eq_true, decide_eq_true_eq] at hs
    exact beforeLast_append_afterLast hs.1
  cases h : hasPort hp <;> cases h' : hasPort hp' <;> simp only [h, h', if_true, if_false,
    Bool.false_eq_true, reduceCtorEq, Option.some.injEq] at hh hport
  · exact hh
  · rw [← cut h, ← cut h', hh, hport]

theorem authorityPart_append_afterAuthority (s : Str) :
    authorityPart s ++ afterAuthority s = s := List.takeWhile_append_dropWhile

/-- A remainder of an absolute URI is empty or starts where an authority has to end. -/
def StartsAfterAuthority (t : Str) : Prop := ∀ c, t.head? = some c → endsAuthority c = true

theorem authorityPart_inside {s : Str} {c : Char} (h : c ∈ authorityPart s) :
    endsAuthority c = false := by
  induction s with
  | nil => simp [authorityPart] at h
  | cons d s ih =>
    simp only [authorityPart, List.takeWhile_cons] at h
    split at h
    next hd =>
      rcases List.mem_cons.mp h with rfl | h
      · simpa using hd
      · exact ih h
    next => simp at h

theorem afterAuthority_starts (s : Str) : StartsAfterAuthority (afterAuthority s) := by
  intro c hc
  have hn := List.head?_dropWhile_not (fun c => !endsAuthority c) s
  rw [show s.dropWhile (fun c => !endsAuthority c) = afterAuthority s from rfl, hc] at hn
  simpa using hn

theorem authorityPart_append {a t : Str} (ha : ∀ c ∈ a, endsAuthority c = false)
    (ht : StartsAfterAuthority t) :
    authorityPart (a ++ t) = a ∧ afterAuthority (a ++ t) = t := by
  induction a with
  | nil =>
    cases t with
    | nil => simp [authorityPart, afterAuthority]
    | cons c t => simp [authorityPart, afterAuthority, ht c rfl]
  | cons c a ih =>
    have hc := ha c (by simp)
    have htail := ih (fun d hd => ha d (by simp [hd]))
    simpa [authorityPart, afterAuthority, hc] using htail

theorem schemeSplit_append {s : Str} (hs : ∀ c ∈ s, isSchemeChar c = true) (rest : Str) :
    (s ++ ':' :: rest).takeWhile isSchemeChar = s ∧
      (s ++ ':' :: rest).dropWhile isSchemeChar = ':' :: rest := by
  have hcolon : isSchemeChar ':' = false := by decide
  induction s with
  | nil => simp [hcolon]
  | cons c s ih =>
    have hc := hs c (by simp)
    have htail := ih (fun d hd => hs d (by simp [hd]))
    simpa [hc] using htail

/-- Reading off the parts is the inverse of writing `scheme://authority` and the remainder. -/
theorem splitAbsolute_iff {s scheme a t : Str} :
    splitAbsolute s = some (scheme, a, t) ↔
      scheme ≠ [] ∧ (∀ c ∈ scheme, isSchemeChar c = true) ∧
      (∀ c ∈ a, endsAuthority c = false) ∧ StartsAfterAuthority t ∧
      s = scheme ++ ':' :: '/' :: '/' :: (a ++ t) := by
  constructor
  · intro h
    unfold splitAbsolute at h
    split at h
    next c sch rest htake hdrop =>
      obtain ⟨rfl, rfl, rfl⟩ : c :: sch = scheme ∧ authorityPart rest = a ∧
        afterAuthority rest = t := by simpa using h
      refine ⟨by simp, ?_, fun d hd => authorityPart_inside hd, afterAuthority_starts rest, ?_⟩
      · intro d hd
        rw [← htake] at hd
        have hall := List.all_takeWhile (p := isSchemeChar) (l := s)
        exact List.all_eq_true.mp hall d hd
      · rw [authorityPart_append_afterAuthority, ← htake, ← hdrop,
          List.takeWhile_append_dropWhile]
    next => simp at h
  · rintro ⟨hne, hsch, ha, ht, rfl⟩
    obtain ⟨htake, hdrop⟩ := schemeSplit_append hsch ('/' :: '/' :: (a ++ t))
    obtain ⟨hauth, hafter⟩ := authorityPart_append ha ht
    cases scheme with
    | nil => simp at hne
    | cons c scheme => simp only [splitAbsolute, htake, hdrop, hauth, hafter]

/-- Text written behind an absolute URI joins its authority exactly when the URI ends with it. -/
theorem splitAbsolute_append {s scheme a t : Str} (h : splitAbsolute s = some (scheme, a, t))
    (rest : Str) : ∃ t', splitAbsolute (s ++ rest) =
      some (scheme, if t = [] then a ++ authorityPart rest else a, t') := by
  obtain ⟨hne, hsch, ha, ht, rfl⟩ := splitAbsolute_iff.mp h
  cases t with
  | nil =>
    refine ⟨afterAuthority rest,
      splitAbsolute_iff.mpr ⟨hne, hsch, ?_, afterAuthority_starts rest, ?_⟩⟩
    · intro c hc
      rcases List.mem_append.mp hc with hc | hc
      · exact ha c hc
      · exact authorityPart_inside hc
    · simp [authorityPart_append_afterAuthority]
  | cons c t =>
    refine ⟨c :: (t ++ rest), splitAbsolute_iff.mpr ⟨hne, hsch, by simpa using ha, ?_, by simp⟩⟩
    intro d hd
    exact ht d (by simpa using hd)

/-- A URI parser: whatever it accepts of an absolute form has the authority that the text
writes, and a scheme that depends on the written scheme alone (`HTTP` and `http` are one). -/
structure UriParser where
  parse : Str → Option Uri
  schemeName : Str → Str
  absolute : ∀ {s scheme a t : Str} {u : Uri}, splitAbsolute s = some (scheme, a, t) →
    parse s = some u → u.scheme = some (schemeName scheme) ∧ u.authority = some a

/-- No character of the text ends a path. -/
def PathText (s : Str) : Prop := ∀ ch ∈ s, ch ≠ '?' ∧ ch ≠ '#'

/-- The path as `path()` shows it: an empty one is the root. -/
def shownPath (path : Str) : Str := if path = [] then ['/'] else path

def optionalQuery (query : Str) : Option Str := if query = [] then none else some query

def queryText (query : Str) : Str := if query = [] then [] else '?' :: query

/-- How long a URI may be, in bytes, and what its parts may be made of. -/
structure UriGrammar where
  limit : Nat
  scheme : Str → Bool
  authority : Str → Bool
  pathChar : Char → Bool
  queryChar : Char → Bool

/-- A parser reads what the grammar admits: an absolute URI without a fragment exactly when it is
not too long and each part is valid, and then part by part; and nothing else in a path or query. -/
structure UriParser.Follows (parser : UriParser) (grammar : UriGrammar) : Prop where
  marks : grammar.pathChar '?' = false ∧ grammar.pathChar '#' = false ∧
    grammar.queryChar '#' = false
  chars : ∀ {s : Str} {u : Uri}, parser.parse s = some u →
    u.path.all grammar.pathChar = true ∧ (u.query.getD []).all grammar.queryChar = true
  reads : ∀ {s scheme a path query : Str} {u : Uri},
    splitAbsolute s = some (scheme, a, path ++ queryText query) → PathText path → '#' ∉ query →
      (parser.parse s = some u ↔
        (byteLen s ≤ grammar.limit ∧ grammar.scheme scheme = true ∧ grammar.authority a = true ∧
          path.all grammar.pathChar = true ∧ query.all grammar.queryChar = true) ∧
        u = ⟨some (parser.schemeName scheme), some a, shownPath path, optionalQuery query⟩)

end Road7
