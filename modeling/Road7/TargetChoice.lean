import Road7.FirstMatch
import Road7.TargetRouting

namespace Road7

/-- An entry without a routing header takes every request under its path; one with it takes those
whose value of the header, as text, is a key of its routing values. -/
def TargetEntry.Takes (e : TargetEntry) (headers : HeaderMap) : Prop :=
  ∀ headerName, e.routingHeader = some headerName →
    ∃ value values, headers.get (toLowerAscii headerName) = some value ∧
      e.routingValues = some values ∧ (headerToStr value).getD [] ∈ values

def Qualifies (path : Str) (headers : HeaderMap) (e : Sigma (fun _ : Str => TargetEntry)) :
    Prop :=
  e.1 <+: path ∧ e.2.Takes headers

/-- Entry `e` qualifies, and no entry that does has a longer path. -/
def LongestQualifying (m : StrMap TargetEntry) (path : Str) (headers : HeaderMap)
    (e : Sigma (fun _ : Str => TargetEntry)) : Prop :=
  e ∈ m.entries ∧ Qualifies path headers e ∧
    ∀ e' ∈ m.entries, Qualifies path headers e' → e'.1.length ≤ e.1.length

/-- These are the settings that an entry gives a request. -/
def GivesSettings (defaults : TargetDefaults) (headers : HeaderMap)
    (e : Sigma (fun _ : Str => TargetEntry)) (selected : Selected) : Prop :=
  ∃ urls, e.2.provided headers = some urls ∧ e.2.select defaults e.1 urls = .ok selected

/-- In this order of the map nothing is found exactly when no entry qualifies, and otherwise the
settings of the longest one that does. -/
def FindsLongest (defaults : TargetDefaults) (m : StrMap TargetEntry) (path : Str)
    (headers : HeaderMap) (order : List (Sigma (fun _ : Str => TargetEntry))) : Prop :=
  (findTarget defaults path headers order = .ok none ↔
    ∀ e ∈ m.entries, ¬Qualifies path headers e) ∧
  ∀ e, LongestQualifying m path headers e →
    ∃ selected, findTarget defaults path headers order = .ok (some selected) ∧
      GivesSettings defaults headers e selected

def qualifying (path : Str) (headers : HeaderMap) (e : Sigma (fun _ : Str => TargetEntry)) :
    Bool :=
  e.1.isPrefixOf path && (e.2.provided headers).isSome

theorem provided_isSome_iff (e : TargetEntry) (headers : HeaderMap) :
    (e.provided headers).isSome = true ↔ e.Takes headers := by
  unfold TargetEntry.provided TargetEntry.Takes
  cases hname : e.routingHeader with
  | none => simp
  | some headerName =>
    dsimp only
    cases hvalue : headers.get (toLowerAscii headerName) with
    | none => simp [hvalue]
    | some value =>
      cases hvalues : e.routingValues with
      | none => simp
      | some values => simp [hvalue, AList.lookup_isSome]

theorem qualifying_iff {path : Str} {headers : HeaderMap}
    {e : Sigma (fun _ : Str => TargetEntry)} :
    qualifying path headers e = true ↔ Qualifies path headers e := by
  unfold qualifying Qualifies
  rw [Bool.and_eq_true, provided_isSome_iff, List.isPrefixOf_iff_prefix]

theorem longestQualifying_iff {m : StrMap TargetEntry} {path : Str} {headers : HeaderMap}
    {e : Sigma (fun _ : Str => TargetEntry)} :
    LongestQualifying m path headers e ↔
      IsLargest (qualifying path headers) (fun e => e.1.length) m.entries e := by
  unfold LongestQualifying IsLargest
  simp only [qualifying_iff]

/-- Two prefixes of one path with as many bytes are the same. -/
theorem prefix_eq_of_byteLen {p q path : Str} (hp : p <+: path) (hq : q <+: path)
    (h : byteLen p = byteLen q) : p = q := by
  have happend : ∀ s t : Str, byteLen s = byteLen (s ++ t) → t = [] := by
    intro s t hst
    cases t with
    | nil => rfl
    | cons c t =>
      have hpos := Char.utf8Size_pos c
      simp only [byteLen, List.map_append, List.sum_append, List.map_cons, List.sum_cons] at hst
      omega
  rcases List.prefix_or_prefix_of_prefix hp hq with ⟨t, rfl⟩ | ⟨t, rfl⟩
  · rw [happend p t h, List.append_nil]
  · rw [happend q t h.symm, List.append_nil]

/-- At most one entry qualifies. -/
def OneQualifies (m : StrMap TargetEntry) (path : Str) (headers : HeaderMap) : Prop :=
  ∀ e ∈ m.entries, ∀ e' ∈ m.entries, Qualifies path headers e → Qualifies path headers e' → e = e'

theorem oneQualifies_iff {m : StrMap TargetEntry} {path : Str} {headers : HeaderMap} :
    OneQualifies m path headers ↔ OneMatch (qualifying path headers) m.entries := by
  unfold OneQualifies OneMatch
  simp only [qualifying_iff]

theorem findTarget_eq_none_iff {defaults : TargetDefaults} {path : Str} {headers : HeaderMap}
    {order : List (Sigma (fun _ : Str => TargetEntry))} :
    findTarget defaults path headers order = .ok none ↔
      ∀ e ∈ order, ¬Qualifies path headers e := by
  rw [findTarget_eq]
  cases hchosen : chosenEntry path headers order with
  | none =>
    have hnone := List.find?_eq_none.mp hchosen
    refine iff_of_true rfl fun e he hq => ?_
    exact hnone e he (qualifying_iff.mpr hq)
  | some e =>
    have hmem := List.mem_of_find?_eq_some hchosen
    have hq : Qualifies path headers e := qualifying_iff.mp (List.find?_some hchosen)
    refine iff_of_false (fun h => ?_) fun h => h e hmem hq
    obtain ⟨selected, _, hsome⟩ := map_eq_ok.mp h
    simp at hsome

/-- What is found comes from the entry that is chosen, with the length of its path. -/
theorem givesSettings_of_findTarget {defaults : TargetDefaults} {path : Str} {headers : HeaderMap}
    {order : List (Sigma (fun _ : Str => TargetEntry))} {e : Sigma (fun _ : Str => TargetEntry)}
    {selected : Selected} (hchosen : order.find? (qualifying path headers) = some e) :
    findTarget defaults path headers order = .ok (some selected) ↔
      GivesSettings defaults headers e selected := by
  have hchosen' : chosenEntry path headers order = some e := hchosen
  have hprovided : (e.2.provided headers).isSome = true := by
    have hq := List.find?_some hchosen
    unfold qualifying at hq
    exact (Bool.and_eq_true _ _ ▸ hq).2
  obtain ⟨urls, hurls⟩ := Option.isSome_iff_exists.mp hprovided
  rw [findTarget_eq, hchosen']
  simp only [GivesSettings, hurls, Option.getD_some, map_eq_ok, Option.some.injEq,
    exists_eq_right, exists_eq_left']

theorem targetUrlLen_of_select {e : TargetEntry} {defaults : TargetDefaults} {p : Str}
    {urls : List Str} {selected : Selected} (h : e.select defaults p urls = .ok selected) :
    selected.targetUrlLen = byteLen p := by
  obtain ⟨strategy, _, h⟩ := bind_eq_ok.mp h
  cases h
  rfl

theorem select_ok_iff {e : TargetEntry} {defaults : TargetDefaults} {p : Str} {urls : List Str} :
    (∃ selected, e.select defaults p urls = .ok selected) ↔
      ∃ strategy, (e.retries.getD defaults.retryConfig).toStrategy = .ok strategy := by
  constructor
  · intro h
    obtain ⟨selected, h⟩ := h
    obtain ⟨strategy, hstrategy, _⟩ := bind_eq_ok.mp h
    exact ⟨strategy, hstrategy⟩
  · intro h
    obtain ⟨strategy, hstrategy⟩ := h
    exact ⟨_, bind_eq_ok.mpr ⟨strategy, hstrategy, rfl⟩⟩

theorem givesSettings_ok_iff {defaults : TargetDefaults} {path : Str} {headers : HeaderMap}
    {e : Sigma (fun _ : Str => TargetEntry)} (hq : Qualifies path headers e) :
    (∃ selected, GivesSettings defaults headers e selected) ↔
      ∃ strategy, (e.2.retries.getD defaults.retryConfig).toStrategy = .ok strategy := by
  obtain ⟨urls, hurls⟩ := Option.isSome_iff_exists.mp ((provided_isSome_iff e.2 headers).mpr hq.2)
  have hselect : (∃ selected, e.2.select defaults e.1 urls = .ok selected) ↔ _ := select_ok_iff
  simp only [GivesSettings, hurls, Option.some.injEq, exists_eq_left', hselect]

/-- In every order of the map `find_target` finds the longest qualifying entry exactly when no
second one qualifies, and the retry strategy of the one that does can be built. -/
theorem find_target_longest_iff (targets : List Target) (defaults : TargetDefaults) (path : Str)
    (headers : HeaderMap) :
    (∀ order, IterationOf (buildTargetMap targets) order →
      FindsLongest defaults (buildTargetMap targets) path headers order) ↔
    OneQualifies (buildTargetMap targets) path headers ∧
      ∀ e ∈ (buildTargetMap targets).entries, Qualifies path headers e →
        ∃ strategy, (e.2.retries.getD defaults.retryConfig).toStrategy = .ok strategy := by
  generalize buildTargetMap targets = m
  constructor
  · intro h
    have heq : ∀ {e z}, e ∈ m.entries → Qualifies path headers e →
        LongestQualifying m path headers z → e = z := by
      intro e z he hq hz
      obtain ⟨order, horder, hfirst⟩ := exists_order_find? he (qualifying_iff.mpr hq)
      obtain ⟨selected, hfound, urls, _, hselect⟩ := (h order horder).2 z hz
      obtain ⟨urls', _, hselect'⟩ := (givesSettings_of_findTarget hfirst).mp hfound
      have hlen : byteLen e.1 = byteLen z.1 :=
        (targetUrlLen_of_select hselect').symm.trans (targetUrlLen_of_select hselect)
      exact m.nodupKeys.eq_of_fst_eq he hz.1 (prefix_eq_of_byteLen hq.1 hz.2.1.1 hlen)
    constructor
    · intro e he e' he' hq hq'
      obtain ⟨z, hz⟩ := exists_isLargest (fun e => e.1.length) he (qualifying_iff.mpr hq)
      have hz := longestQualifying_iff.mpr hz
      rw [heq he hq hz, heq he' hq' hz]
    · intro e he hq
      obtain ⟨z, hz⟩ := exists_isLargest (fun e => e.1.length) he (qualifying_iff.mpr hq)
      have hz := longestQualifying_iff.mpr hz
      obtain ⟨selected, _, hgives⟩ := (h m.entries (List.Perm.refl _)).2 z hz
      rw [heq he hq hz]
      exact (givesSettings_ok_iff hz.2.1).mp ⟨selected, hgives⟩
  · intro h order horder
    obtain ⟨hone, hstrategy⟩ := h
    constructor
    · rw [findTarget_eq_none_iff]
      exact forall_congr' fun e => imp_congr_left horder.mem_iff
    · intro e he
      obtain ⟨selected, hgives⟩ := (givesSettings_ok_iff he.2.1).mpr (hstrategy e he.1 he.2.1)
      have hfirst : order.find? (qualifying path headers) = some e :=
        find?_of_oneMatch ((oneQualifies_iff.mp hone).perm horder) (horder.mem_iff.mpr he.1)
          (qualifying_iff.mpr he.2.1)
      exact ⟨selected, (givesSettings_of_findTarget hfirst).mpr hgives, hgives⟩

def adminTarget : Target :=
  { plainTarget "/api/admin".toList ["http://localhost:5002".toList] with
    authentication := some ⟨.jwt, some "k".toList, none⟩ }

def nestedTargets : List Target :=
  [plainTarget "/api".toList ["http://localhost:5001".toList], adminTarget]

/-- When the map yields the enclosing target first, a request for the guarded one gets its
settings, which ask for no authentication. -/
theorem nested_target_shadowed : ∃ order selected,
    IterationOf (buildTargetMap nestedTargets) order ∧
    findTarget ⟨(plainConfig []).retries, 30, fun _ => ⟨0, 0, 0⟩⟩ "/api/admin/users".toList []
      order = .ok (some selected) ∧
    selected.authConfig = none ∧ selected.targetUrls = ["http://localhost:5001".toList] ∧
    LongestQualifying (buildTargetMap nestedTargets) "/api/admin/users".toList []
      ⟨"/api/admin".toList, adminTarget.entry⟩ ∧
    adminTarget.entry.authConfig = some ⟨.jwt, some "k".toList, none⟩ := by
  have hentries : (buildTargetMap nestedTargets).entries =
      [⟨"/api/admin".toList, adminTarget.entry⟩,
        ⟨"/api".toList, (plainTarget "/api".toList ["http://localhost:5001".toList]).entry⟩] := rfl
  refine ⟨(buildTargetMap nestedTargets).entries.reverse, _, List.reverse_perm _, rfl, rfl, rfl,
    ?_, rfl⟩
  have htakes : ∀ t : Target, t.routingHeader = none → t.entry.Takes [] := by
    intro t ht headerName hname
    have hnone : t.entry.routingHeader = none := ht
    simp [hnone] at hname
  refine ⟨by simp [hentries], ⟨by decide, htakes _ rfl⟩, ?_⟩
  intro e he _
  rw [hentries] at he
  rcases List.mem_cons.mp he with rfl | he
  · exact Nat.le_refl _
  · rw [List.mem_singleton.mp he]
    decide

end Road7
