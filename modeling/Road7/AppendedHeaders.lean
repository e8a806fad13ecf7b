import Road7.HeaderTransforms

namespace Road7

/-- Nothing that stood in the header is lost: one of its values has become longer, or the new one
is its first. The other headers are as they were. -/
structure HeaderMap.ExtendedBy (headers after : HeaderMap) (name : HeaderName)
    (value : HeaderValue) : Prop where
  own : (headers.getAll name = [] ∧ after.getAll name = [value]) ∨
    ∃ before v rest, headers.getAll name = before ++ v :: rest ∧
      after.getAll name = before ++ (v ++ value) :: rest
  others : ∀ n, n ≠ name → after.getAll n = headers.getAll n

namespace Transform

variable {t : Transform} {value : HeaderValue}

theorem onValues_append (hop : t.operation = "Append".toList) (values : List HeaderValue) :
    t.onValues values =
      [headerValueOrEmpty (((values.head?.bind headerToStr).getD []) ++ t.value.getD [])] := by
  have hset : ¬"Append".toList = "Set".toList := by decide
  have hremove : ¬"Append".toList = "Remove".toList := by decide
  simp only [onValues, hop, hset, hremove, if_false, if_true]

theorem onValues_append_text (hop : t.operation = "Append".toList)
    (hvalue : headerFromStr (t.value.getD []) = some value) {v : HeaderValue} {s : Str}
    (hv : headerToStr v = some s) (rest : List HeaderValue) :
    t.onValues (v :: rest) = [v ++ value] := by
  rw [onValues_append hop, List.head?_cons, Option.bind_some, hv, Option.getD_some,
    headerValueOrEmpty, headerFromStr_append (headerFromStr_of_headerToStr hv) hvalue,
    Option.getD_some]

/-- Where there is no value that is text, the value of the transform stands alone. -/
theorem onValues_append_other (hop : t.operation = "Append".toList)
    (hvalue : headerFromStr (t.value.getD []) = some value) {values : List HeaderValue}
    (hnone : values.head?.bind headerToStr = none) : t.onValues values = [value] := by
  rw [onValues_append hop, hnone, Option.getD_none, List.nil_append, headerValueOrEmpty, hvalue,
    Option.getD_some]

end Transform

/-- `Append` keeps what is there exactly where the header is absent or has one value alone, which
is visible ASCII. -/
theorem append_extends_iff {headers : HeaderMap} {t : Transform} {name : HeaderName}
    {value : HeaderValue} (hop : t.operation = "Append".toList) (hname : t.headerName = some name)
    (hvalue : headerFromStr (t.value.getD []) = some value) :
    headers.ExtendedBy (applyHeaderTransforms headers [t]) name value ↔
      headers.getAll name = [] ∨ ∃ v s, headers.getAll name = [v] ∧ headerToStr v = some s := by
  have hown : (applyHeaderTransforms headers [t]).getAll name =
      t.onValues (headers.getAll name) := by
    rw [show applyHeaderTransforms headers [t] = applyHeaderTransform headers t from rfl,
      Transform.getAll_apply, if_pos hname]
  have hothers : ∀ n, n ≠ name → (applyHeaderTransforms headers [t]).getAll n =
      headers.getAll n := by
    intro n hn
    refine Transform.updates.read_foldl_of_unnamed (fun t' ht' heq => hn ?_)
    rw [List.mem_singleton.mp ht'] at heq
    exact Option.some.inj (heq.symm.trans hname)
  constructor
  · rintro ⟨⟨hnil, _⟩ | ⟨before, v, rest, hbefore, hafter⟩, _⟩
    · exact .inl hnil
    · rw [hown] at hafter
      have hlen : (t.onValues (headers.getAll name)).length = 1 := by
        rw [Transform.onValues_append hop, List.length_singleton]
      rw [hafter, List.length_append, List.length_cons] at hlen
      obtain rfl : before = [] := List.length_eq_zero_iff.mp (by omega)
      obtain rfl : rest = [] := List.length_eq_zero_iff.mp (by omega)
      rw [List.nil_append] at hbefore hafter
      cases hv : headerToStr v with
      | some s => exact .inr ⟨v, s, hbefore, hv⟩
      | none =>
        have hother : t.onValues [v] = [value] :=
          Transform.onValues_append_other hop hvalue hv
        rw [hbefore, hother] at hafter
        have hempty : v = [] := List.self_eq_append_left.mp (List.cons.inj hafter).1
        rw [hempty] at hv
        simp [headerToStr] at hv
  · intro h
    refine ⟨?_, hothers⟩
    rw [hown]
    rcases h with hnil | ⟨v, s, hone, hv⟩
    · rw [hnil]
      exact .inl ⟨rfl, Transform.onValues_append_other hop hvalue rfl⟩
    · rw [hone]
      exact .inr ⟨[], v, [], rfl, Transform.onValues_append_text hop hvalue hv []⟩

theorem append_extends_iff_value :
    HeaderMap.ExtendedBy [("x-custom-header".toList, utf8 "Value".toList)]
      (applyHeaderTransforms [("x-custom-header".toList, utf8 "Value".toList)]
        [⟨"X-Custom-Header".toList, some "Appended".toList, "Append".toList⟩])
      "x-custom-header".toList (utf8 "Appended".toList) :=
  (append_extends_iff rfl rfl rfl).mpr (.inr ⟨_, "Value".toList, rfl, rfl⟩)

/-- The second cookie of a response is lost. -/
theorem append_loses_cookie :
    ¬HeaderMap.ExtendedBy
      [("set-cookie".toList, utf8 "a=1".toList), ("set-cookie".toList, utf8 "b=2".toList)]
      (applyHeaderTransforms
        [("set-cookie".toList, utf8 "a=1".toList), ("set-cookie".toList, utf8 "b=2".toList)]
        [⟨"Set-Cookie".toList, some "; Secure".toList, "Append".toList⟩])
      "set-cookie".toList (utf8 "; Secure".toList) := by
  rintro ⟨⟨hnil, _⟩ | ⟨before, v, rest, hbefore, hafter⟩, _⟩
  · exact absurd hnil (by decide)
  · have htwo := congrArg List.length hbefore
    have hone := congrArg List.length hafter
    rw [List.length_append, List.length_cons] at htwo hone
    have hlens : (HeaderMap.getAll [("set-cookie".toList, utf8 "a=1".toList),
        ("set-cookie".toList, utf8 "b=2".toList)] "set-cookie".toList).length = 2 := by decide
    have hlens' : ((applyHeaderTransforms
        [("set-cookie".toList, utf8 "a=1".toList), ("set-cookie".toList, utf8 "b=2".toList)]
        [⟨"Set-Cookie".toList, some "; Secure".toList, "Append".toList⟩]).getAll
          "set-cookie".toList).length = 1 := by decide
    omega

end Road7
