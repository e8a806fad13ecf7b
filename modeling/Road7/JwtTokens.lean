import Road7.Auth

namespace Road7

/-- A text that stands `n` times in a row. -/
def copies (n : Nat) (p : Str) : Str := (List.replicate n p).flatten

theorem copies_succ (n : Nat) (p : Str) : copies (n + 1) p = p ++ copies n p := by
  rw [copies, List.replicate_succ, List.flatten_cons, copies]

/-- Stripping takes away all the copies that a text starts with. -/
theorem trimStartMatches_copies {p : Str} (hp : p ≠ []) {token : Str} (h : ¬p <+: token) :
    ∀ (n fuel : Nat), n ≤ fuel → trimStartMatches p fuel (copies n p ++ token) = token := by
  have hstop : ∀ fuel, trimStartMatches p fuel token = token := by
    intro fuel
    cases fuel with
    | zero => rfl
    | succ fuel =>
      rw [trimStartMatches, if_neg]
      rintro ⟨_, hprefix⟩
      exact h (List.isPrefixOf_iff_prefix.mp hprefix)
  intro n
  induction n with
  | zero => exact fun fuel _ => hstop fuel
  | succ n ih =>
    intro fuel hfuel
    obtain ⟨fuel, rfl⟩ : ∃ f, fuel = f + 1 := ⟨fuel - 1, by omega⟩
    have hprefix : p.isPrefixOf (copies (n + 1) p ++ token) = true := by
      rw [List.isPrefixOf_iff_prefix, copies_succ, List.append_assoc]
      exact List.prefix_append _ _
    rw [trimStartMatches, if_pos ⟨hp, hprefix⟩, copies_succ, List.append_assoc, List.drop_left]
    exact ih fuel (by omega)

/-- Every text is some copies of another one and a rest that does not start with it. -/
theorem exists_copies {p : Str} (hp : p ≠ []) (s : Str) :
    ∃ n token, s = copies n p ++ token ∧ ¬p <+: token := by
  induction hlen : s.length using Nat.strongRecOn generalizing s with
  | ind len ih =>
    by_cases hprefix : p <+: s
    · obtain ⟨rest, rfl⟩ := hprefix
      have hpos := List.length_pos_iff.mpr hp
      rw [List.length_append] at hlen
      obtain ⟨n, token, hrest, hno⟩ := ih rest.length (by omega) rest rfl
      refine ⟨n + 1, token, ?_, hno⟩
      rw [copies_succ, List.append_assoc, ← hrest]
    · exact ⟨0, s, rfl, hprefix⟩

theorem le_length_copies {p : Str} (hp : p ≠ []) (n : Nat) (token : Str) :
    n ≤ (copies n p ++ token).length := by
  have hpos := List.length_pos_iff.mpr hp
  induction n with
  | zero => exact Nat.zero_le _
  | succ n ih =>
    rw [copies_succ, List.append_assoc, List.length_append]
    omega

/-- What is left of a text is the rest behind its copies. -/
theorem trimStartMatches_eq_iff {p : Str} (hp : p ≠ []) {s token : Str} :
    trimStartMatches p s.length s = token ↔ ∃ n, s = copies n p ++ token ∧ ¬p <+: token := by
  constructor
  · rintro rfl
    obtain ⟨n, token, hs, hno⟩ := exists_copies hp s
    have hle := le_length_copies hp n token
    rw [← hs] at hle
    have htrim := trimStartMatches_copies hp hno n s.length hle
    rw [← hs] at htrim
    rw [htrim]
    exact ⟨n, hs, hno⟩
  · rintro ⟨n, rfl, hno⟩
    exact trimStartMatches_copies hp hno n _ (le_length_copies hp n token)

def bearerScheme : Str := "Bearer ".toList

/-- `validate_jwt` accepts a request exactly when its first Authorization value is text that comes
to a valid token behind any number of `Bearer `, none included. -/
theorem validateJwt_ok_iff {decode : Str → Str → Except String Claims} {req : Request}
    {secret : Str} {claims : Claims} : validateJwt decode req secret = .ok claims ↔
      ∃ n token, (req.headers.get authorizationHeader).bind headerToStr =
          some (copies n bearerScheme ++ token) ∧
        ¬bearerScheme <+: token ∧ decode token secret = .ok claims := by
  have hbearer : bearerScheme ≠ [] := by decide
  cases hvalue : req.headers.get authorizationHeader with
  | none =>
    rw [Option.bind_none]
    simp [validateJwt, hvalue, bind, Except.bind]
  | some v =>
    rw [Option.bind_some]
    cases htext : headerToStr v with
    | none => simp [validateJwt, hvalue, htext, bind, Except.bind]
    | some s =>
      have heq : validateJwt decode req secret =
          decode (trimStartMatches bearerScheme s.length s) secret := by
        simp only [validateJwt, hvalue, htext]
        rfl
      rw [heq]
      constructor
      · intro hdecode
        obtain ⟨n, hs, hno⟩ := (trimStartMatches_eq_iff hbearer (s := s)).mp rfl
        exact ⟨n, _, congrArg some hs, hno, hdecode⟩
      · rintro ⟨n, token, hs, hno, hdecode⟩
        rw [(trimStartMatches_eq_iff hbearer).mpr ⟨n, Option.some.inj hs, hno⟩]
        exact hdecode

end Road7
