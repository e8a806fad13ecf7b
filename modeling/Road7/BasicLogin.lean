import Mathlib.Data.List.TakeWhile
import Road7.AsciiText
import Road7.Auth
import Road7.Base64

namespace Road7

/-- The bytes that `u` and `p` are put into for a login. -/
def credentials (u p : Str) : Bytes := utf8 (u ++ ':' :: p)

def basicHeader (text : Str) : HeaderValue := utf8 ("Basic ".toList ++ text)

/-- `String::from_utf8` reads the bytes of a text, and nothing else. -/
theorem fromUtf8_eq_some {b : Bytes} {s : Str} : fromUtf8 b = some s ↔ utf8 s = b := by
  have hbytes : (⟨b.toArray⟩ : ByteArray) = b.toByteArray := by
    rw [ByteArray.ext_iff, List.data_toByteArray]
  have hencode : ∀ s : Str, s.utf8Encode = (utf8 s).toByteArray := fun _ => rfl
  unfold fromUtf8 String.fromUTF8?
  rw [hbytes]
  split
  next hvalid =>
    rw [Option.map_some, Option.some.injEq]
    have hback : (String.fromUTF8 b.toByteArray hvalid).toList.utf8Encode = b.toByteArray :=
      String.utf8Encode_toList
    constructor
    · rintro rfl
      exact List.toByteArray_inj.mp hback
    · rintro rfl
      have hsame : String.fromUTF8 (utf8 s).toByteArray hvalid = String.ofList s := by
        rw [← String.toByteArray_inj, String.toByteArray_ofList]
        rfl
      rw [hsame, String.toList_ofList]
  next hinvalid =>
    refine iff_of_false (by simp) ?_
    rintro rfl
    exact hinvalid (hencode s ▸ ByteArray.isValidUTF8_utf8Encode)

/-- `splitn(2, c)` has a second part exactly where there is a `c`, and cuts at the first one. -/
theorem splitFirst_eq {c : Char} {s u p : Str} :
    splitFirst c s = (u, some p) ↔ s = u ++ c :: p ∧ c ∉ u := by
  have hcut := List.takeWhile_append_dropWhile (p := (· ≠ c)) (l := s)
  have hbefore : ∀ x ∈ s.takeWhile (· ≠ c), x ≠ c := fun x hx => by
    simpa using List.mem_takeWhile_imp hx
  constructor
  · intro h
    unfold splitFirst at h
    split at h
    next => simp at h
    next x rest hdrop =>
      obtain ⟨rfl, hrest⟩ := Prod.mk.inj h
      obtain rfl := Option.some.inj hrest
      have hx : x = c := by
        have hhead := List.head?_dropWhile_not (· ≠ c) s
        rw [hdrop] at hhead
        simpa using hhead
      rw [hdrop, hx] at hcut
      exact ⟨hcut.symm, fun hc => hbefore c hc rfl⟩
  · rintro ⟨rfl, hu⟩
    have hpos : ∀ a ∈ u, decide (a ≠ c) = true := by
      intro a ha
      have hne : a ≠ c := fun heq => hu (heq ▸ ha)
      simpa using hne
    unfold splitFirst
    rw [List.dropWhile_append_of_pos hpos, List.takeWhile_append_of_pos hpos]
    simp

theorem elim_eq_ok {ε α : Type} {o : Option α} {e : ε} {a : α} :
    (o.elim (.error e) .ok : Except ε α) = .ok a ↔ o = some a := by
  cases o <;> simp

section Login

variable {decode : Str → Option Bytes} {req : Request} {users : StrMap Str}

/-- The stages that a request passes until its password is compared. -/
theorem validateBasic_stages : validateBasic decode req users = .ok () ↔
    ∃ value text bytes cred u p, req.headers.get authorizationHeader = some value ∧
      headerToStr value = some ("Basic ".toList ++ text) ∧ decode text = some bytes ∧
      fromUtf8 bytes = some cred ∧ splitFirst ':' cred = (u, some p) ∧
      users.lookup u = some p := by
  constructor
  · intro h
    unfold validateBasic at h
    cases hvalue : req.headers.get authorizationHeader with
    | none => simp [hvalue, bind, Except.bind] at h
    | some value =>
      simp only [hvalue] at h
      obtain ⟨header, hheader, h⟩ := bind_eq_ok.mp h
      have htext := elim_eq_ok.mp hheader
      cases hscheme : "Basic ".toList.isPrefixOf header with
      | false =>
        simp only [hscheme, Bool.not_false, if_true] at h
        cases h
      | true =>
        simp only [hscheme, Bool.not_true, Bool.false_eq_true, if_false] at h
        obtain ⟨text, rfl⟩ := List.isPrefixOf_iff_prefix.mp hscheme
        obtain ⟨bytes, hbytes, h⟩ := bind_eq_ok.mp h
        obtain ⟨cred, hcred, h⟩ := bind_eq_ok.mp h
        obtain ⟨p, hp, h⟩ := bind_eq_ok.mp h
        have hsplit : splitFirst ':' cred = ((splitFirst ':' cred).1, some p) :=
          Prod.ext rfl (elim_eq_ok.mp hp)
        refine ⟨value, text, bytes, cred, _, p, rfl, htext, elim_eq_ok.mp hbytes,
          elim_eq_ok.mp hcred, hsplit, ?_⟩
        split at h
        next valid hvalid =>
          split at h
          next hsame => rw [hvalid, hsame]
          next => simp at h
        next => simp at h
  · rintro ⟨value, text, bytes, cred, u, p, hvalue, htext, hbytes, hcred, hsplit, hp⟩
    have hscheme : "Basic ".toList.isPrefixOf ("Basic ".toList ++ text) = true :=
      List.isPrefixOf_iff_prefix.mpr ⟨text, rfl⟩
    have hrest : ("Basic ".toList ++ text).drop 6 = text := rfl
    unfold validateBasic
    simp only [hvalue, htext, Option.elim_some, hscheme, hrest, hbytes, hcred, bind, Except.bind,
      Bool.not_true, Bool.false_eq_true, if_false]
    rw [hsplit]
    simp only [Option.elim_some, hp, if_true]

theorem isHeaderChar_of_base64 {c : Char} (h : isBase64Char c = true) :
    isHeaderChar c = true := by
  have hall : ('=' :: base64Alphabet).all isHeaderChar = true := by decide
  refine List.all_eq_true.mp hall c ?_
  simp only [isBase64Char, Bool.or_eq_true, decide_eq_true_eq] at h
  rcases h with hmem | rfl
  · exact List.mem_cons_of_mem _ hmem
  · exact List.mem_cons_self

theorem headerToStr_basicHeader {text : Str} (h : ∀ c ∈ text, isBase64Char c = true) :
    headerToStr (basicHeader text) = some ("Basic ".toList ++ text) := by
  refine headerToStr_utf8 (fun c hc => ?_)
  have hscheme : "Basic ".toList.all isHeaderChar = true := by decide
  exact (List.mem_append.mp hc).elim (List.all_eq_true.mp hscheme c)
    (fun hc => isHeaderChar_of_base64 (h c hc))

theorem validateBasic_of_login {text u p : Str}
    (halphabet : ∀ c ∈ text, isBase64Char c = true)
    (hheader : req.headers.get authorizationHeader = some (basicHeader text))
    (hdecode : decode text = some (credentials u p)) (hu : ':' ∉ u)
    (hp : users.lookup u = some p) : validateBasic decode req users = .ok () :=
  validateBasic_stages.mpr ⟨_, text, _, _, u, p, hheader, headerToStr_basicHeader halphabet, hdecode,
    fromUtf8_eq_some.mpr rfl, splitFirst_eq.mpr ⟨rfl, hu⟩, hp⟩

end Login

/-- A request is let in exactly when its first `Authorization` value is the scheme and a base64
text of a user without a colon and of the password that the table has for that user. So every
user without a colon can log in. -/
theorem validateBasic_ok_iff {decode : Str → Option Bytes} {encode : Bytes → Str}
    (hinverse : ∀ bytes, decode (encode bytes) = some bytes)
    (halphabet : ∀ text bytes, decode text = some bytes → ∀ c ∈ text, isBase64Char c = true)
    (req : Request) (users : StrMap Str) :
    (validateBasic decode req users = .ok () ↔ ∃ text u p,
      req.headers.get authorizationHeader = some (basicHeader text) ∧
        decode text = some (credentials u p) ∧ ':' ∉ u ∧ users.lookup u = some p) ∧
    ∀ u p, users.lookup u = some p → ':' ∉ u → ∀ login : Request,
      login.headers.get authorizationHeader = some (basicHeader (encode (credentials u p))) →
      validateBasic decode login users = .ok () := by
  refine ⟨⟨fun h => ?_, ?_⟩, fun u p hp hu login hheader => ?_⟩
  · obtain ⟨value, text, bytes, cred, u, p, hvalue, htext, hbytes, hcred, hsplit, hp⟩ :=
      validateBasic_stages.mp h
    obtain ⟨rfl, hu⟩ := splitFirst_eq.mp hsplit
    refine ⟨text, u, p, ?_, ?_, hu, hp⟩
    · rw [hvalue, ← utf8_of_headerToStr htext]
      rfl
    · rw [hbytes, ← fromUtf8_eq_some.mp hcred]
      rfl
  · rintro ⟨text, u, p, hheader, hdecode, hu, hp⟩
    exact validateBasic_of_login (halphabet text _ hdecode) hheader hdecode hu hp
  · exact validateBasic_of_login (halphabet _ _ (hinverse _)) hheader (hinverse _) hu hp

def loginRequest (value : HeaderValue) : Request :=
  ⟨"GET".toList, ⟨none, none, "/".toList, none⟩, "HTTP/1.1".toList,
    [(authorizationHeader, value)], Body.empty⟩

/-- With the standard alphabet, on a password that has a colon in it. -/
theorem validateBasic_ok_iff_colon :
    validateBasic base64Decode (loginRequest (utf8 "Basic YWw6YTpi".toList))
      (AList.singleton "al".toList "a:b".toList) = .ok () :=
  (validateBasic_ok_iff base64Decode_encode (fun _ _ => isBase64Char_of_decode)
    (loginRequest []) _).2 "al".toList "a:b".toList (by decide) (by decide) (loginRequest _)
    (by decide)

end Road7
