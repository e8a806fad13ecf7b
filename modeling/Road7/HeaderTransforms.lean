import Road7.KeyedUpdates
import Road7.Transform

namespace Road7

namespace Transform

/-- The header that a transform is for; there is none where its name is no header name. -/
def headerName (t : Transform) : Option HeaderName := parseHeaderName t.name

def operations : List Str := ["Set".toList, "Remove".toList, "Append".toList]

def Effective (t : Transform) : Bool :=
  t.headerName.isSome && operations.any (t.operation = ·)

/-- What a transform makes of the values of its header. -/
def onValues (t : Transform) (values : List HeaderValue) : List HeaderValue :=
  let value := t.value.getD []
  if t.operation = "Set".toList then [headerValueOrEmpty value]
  else if t.operation = "Remove".toList then []
  else if t.operation = "Append".toList then
    [headerValueOrEmpty (((values.head?.bind headerToStr).getD []) ++ value)]
  else values

variable {t : Transform} {headers : HeaderMap}

theorem getAll_apply (headers : HeaderMap) (t : Transform) (h : HeaderName) :
    (applyHeaderTransform headers t).getAll h =
      if t.headerName = some h then t.onValues (headers.getAll h) else headers.getAll h := by
  unfold applyHeaderTransform headerName onValues
  cases hname : parseHeaderName t.name with
  | none => simp
  | some name =>
    simp only [Option.some.injEq, eq_comm (a := name)]
    split
    next => exact headers.getAll_insert name h _
    next =>
      split
      next => exact headers.getAll_remove name h
      next =>
        split
        next =>
          rw [HeaderMap.getAll_insert, HeaderMap.get_eq_head?]
          split
          next hh =>
            subst hh
            cases (headers.getAll h).head?.bind headerToStr <;> rfl
          next => rfl
        next => simp

/-- The loop of `apply_header_transforms` as updates of the values of the headers. -/
def updates : KeyedUpdates HeaderMap Transform HeaderName (List HeaderValue) where
  read := HeaderMap.getAll
  step := applyHeaderTransform
  key := headerName
  act := onValues
  read_step := getAll_apply

theorem apply_of_not_effective (h : t.Effective = false) :
    applyHeaderTransform headers t = headers := by
  unfold applyHeaderTransform
  cases hname : parseHeaderName t.name with
  | none => rfl
  | some name =>
    have hop : ∀ operation ∈ operations, t.operation ≠ operation := by
      simpa [Effective, headerName, hname] using h
    simp only [operations, List.forall_mem_cons] at hop
    simp only [hop, if_false]

theorem apply_filter_effective (headers : HeaderMap) (ts : List Transform) :
    applyHeaderTransforms headers (ts.filter Effective) = applyHeaderTransforms headers ts := by
  unfold applyHeaderTransforms
  induction ts generalizing headers with
  | nil => rfl
  | cons t ts ih =>
    cases heff : t.Effective with
    | true => rw [List.filter_cons_of_pos heff, List.foldl_cons, List.foldl_cons, ih]
    | false =>
      rw [List.filter_cons_of_neg (by simp [heff]), List.foldl_cons, apply_of_not_effective heff, ih]

end Transform

theorem isTokenChar_toLower (c : Char) : isTokenChar c.toLower = isTokenChar c := by
  by_cases hascii : c.toNat < 128
  · have hall : ∀ n < 128, isTokenChar (Char.ofNat n).toLower = isTokenChar (Char.ofNat n) := by
      decide +kernel
    simpa using hall c.toNat hascii
  · have hlower : c.toLower = c := by
      unfold Char.toLower
      split
      next h =>
        have hz : c.toNat ≤ 90 := h.2
        omega
      next => rfl
    rw [hlower]

/-- Names that differ in case alone are the same header. -/
theorem parseHeaderName_congr {s s' : Str} (h : toLowerAscii s = toLowerAscii s') :
    parseHeaderName s = parseHeaderName s' := by
  have hlen : s.length = s'.length := by simpa [toLowerAscii] using congrArg List.length h
  have hnil : s ≠ [] ↔ s' ≠ [] := by rw [← List.length_pos_iff, ← List.length_pos_iff, hlen]
  have hall : ∀ s : Str, s.all isTokenChar = (toLowerAscii s).all isTokenChar := by
    intro s
    simp [toLowerAscii, Function.comp_def, isTokenChar_toLower]
  unfold parseHeaderName
  rw [hall s, hall s', h, hlen]
  simp only [hnil]

theorem toLowerAscii_of_parse {s : Str} {name : HeaderName} (h : parseHeaderName s = some name) :
    toLowerAscii s = name := by
  unfold parseHeaderName at h
  split at h
  next => exact Option.some.inj h
  next => simp at h

/-- The values of a header after a list of transforms come from its values before and from the
transforms for it, in their order. A header that no transform is for keeps its values, a transform
without a header name or with an unknown operation does nothing, neighbours for different headers
can change places, and the case of a name does not matter. -/
theorem transforms_local :
    (∀ (headers headers' : HeaderMap) (ts ts' : List Transform) (h : HeaderName),
      headers.getAll h = headers'.getAll h →
      ts.filter (fun t => t.headerName = some h) = ts'.filter (fun t => t.headerName = some h) →
      (applyHeaderTransforms headers ts).getAll h =
        (applyHeaderTransforms headers' ts').getAll h) ∧
    (∀ (headers : HeaderMap) (ts : List Transform) (h : HeaderName),
      (∀ t ∈ ts, t.headerName ≠ some h) →
      (applyHeaderTransforms headers ts).getAll h = headers.getAll h) ∧
    (∀ (headers : HeaderMap) (ts : List Transform),
      applyHeaderTransforms headers (ts.filter Transform.Effective) =
        applyHeaderTransforms headers ts) ∧
    (∀ (headers : HeaderMap) (before after : List Transform) (a b : Transform),
      toLowerAscii a.name ≠ toLowerAscii b.name → ∀ h : HeaderName,
      (applyHeaderTransforms headers (before ++ a :: b :: after)).getAll h =
        (applyHeaderTransforms headers (before ++ b :: a :: after)).getAll h) ∧
    ∀ (t : Transform) (name : Str), toLowerAscii name = toLowerAscii t.name →
      { t with name }.headerName = t.headerName :=
  ⟨fun _ _ _ _ _ hread hown => Transform.updates.read_foldl_congr hread hown,
    fun _ _ _ h => Transform.updates.read_foldl_of_unnamed h,
    Transform.apply_filter_effective,
    fun headers before after _ _ hne h => Transform.updates.read_foldl_swap
      (fun _ ha hb => hne ((toLowerAscii_of_parse ha).trans (toLowerAscii_of_parse hb).symm))
      headers before after h,
    fun _ _ hname => parseHeaderName_congr hname⟩

end Road7
