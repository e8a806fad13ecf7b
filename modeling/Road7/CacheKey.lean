import Road7.CacheStore
import Mathlib.Data.Set.Function

namespace Road7

/-- The first byte of a character says how long its encoding is, so that no encoding is the
start of another one. -/
theorem utf8EncodeChar_append_inj {c d : Char} {x y : Bytes}
    (h : String.utf8EncodeChar c ++ x = String.utf8EncodeChar d ++ y) : c = d ∧ x = y := by
  have hc := ByteArray.utf8DecodeChar?_utf8EncodeChar_append (b := x.toByteArray) (c := c)
  have hd := ByteArray.utf8DecodeChar?_utf8EncodeChar_append (b := y.toByteArray) (c := d)
  rw [← List.toByteArray_append] at hc hd
  rw [h] at hc
  have hcd : c = d := Option.some.inj (hc.symm.trans hd)
  subst hcd
  exact ⟨rfl, List.append_cancel_left h⟩

theorem masked_ne_ff (a : UInt8) {mask pattern : UInt8} {i : Nat}
    (hmask : mask.toBitVec.getLsbD i = false) (hpattern : pattern.toBitVec.getLsbD i = false)
    (hi : i < 8) : a &&& mask ||| pattern ≠ 0xFF := by
  intro h
  have hbit : (a &&& mask ||| pattern).toBitVec.getLsbD i = (0xFF : UInt8).toBitVec.getLsbD i := by
    rw [h]
  have hones : (0xFF : UInt8).toBitVec.getLsbD i = true := by
    have hall : ∀ i < 8, (0xFF : UInt8).toBitVec.getLsbD i = true := by decide
    exact hall i hi
  rw [hones] at hbit
  simp [hmask, hpattern] at hbit

theorem utf8EncodeChar_ne_ff (c : Char) (x y : Bytes) :
    String.utf8EncodeChar c ++ x ≠ 0xFF :: y := by
  have hpos := c.utf8Size_pos
  have hle := c.utf8Size_le_four
  have hsize : c.utf8Size = 1 ∨ c.utf8Size = 2 ∨ c.utf8Size = 3 ∨ c.utf8Size = 4 := by omega
  intro h
  rcases hsize with h1 | h2 | h3 | h4
  · rw [String.utf8EncodeChar_eq_singleton h1] at h
    have hbyte : c.val.toUInt8 = 0xFF := (List.cons.inj h).1
    have hval : c.val.toNat ≤ 127 := Char.utf8Size_eq_one_iff.mp h1
    have hmod : c.val.toNat % 256 = 255 := congrArg UInt8.toNat hbyte
    omega
  · rw [String.utf8EncodeChar_eq_cons_cons h2] at h
    have hne : ∀ a : UInt8, a &&& 0x1f ||| 0xc0 ≠ 0xFF := fun a =>
      masked_ne_ff a (i := 5) (by decide) (by decide) (by decide)
    exact hne _ (List.cons.inj h).1
  · rw [String.utf8EncodeChar_eq_cons_cons_cons h3] at h
    have hne : ∀ a : UInt8, a &&& 0x0f ||| 0xe0 ≠ 0xFF := fun a =>
      masked_ne_ff a (i := 4) (by decide) (by decide) (by decide)
    exact hne _ (List.cons.inj h).1
  · rw [String.utf8EncodeChar_eq_cons_cons_cons_cons h4] at h
    have hne : ∀ a : UInt8, a &&& 0x07 ||| 0xf0 ≠ 0xFF := fun a =>
      masked_ne_ff a (i := 3) (by decide) (by decide) (by decide)
    exact hne _ (List.cons.inj h).1

/-- The closing byte of `str::hash` occurs in no encoding, so the end of the string shows. -/
theorem hashStr_append_inj {s t : Str} {x y : Bytes}
    (h : hashStr s ++ x = hashStr t ++ y) : s = t ∧ x = y := by
  induction s generalizing t with
  | nil =>
    cases t with
    | nil => exact ⟨rfl, by simpa [hashStr, utf8] using h⟩
    | cons d t =>
      simp only [hashStr, utf8, List.flatMap_nil, List.nil_append, List.flatMap_cons,
        List.append_assoc, List.singleton_append] at h
      exact absurd h.symm (utf8EncodeChar_ne_ff d _ _)
  | cons c s ih =>
    cases t with
    | nil =>
      simp only [hashStr, utf8, List.flatMap_nil, List.nil_append, List.flatMap_cons,
        List.append_assoc, List.singleton_append] at h
      exact absurd h (utf8EncodeChar_ne_ff c _ _)
    | cons d t =>
      simp only [hashStr, utf8, List.flatMap_cons, List.append_assoc] at h ih
      obtain ⟨rfl, hrest⟩ := utf8EncodeChar_append_inj h
      obtain ⟨rfl, hxy⟩ := ih hrest
      exact ⟨rfl, hxy⟩

theorem digitChar_inj {m n : Nat} (hm : m < 16) (hn : n < 16)
    (h : m.digitChar = n.digitChar) : m = n := by
  have hall : ∀ m < 16, ∀ n < 16, m.digitChar = n.digitChar → m = n := by decide
  exact hall m hm n hn h

theorem toDigits_inj {m n : Nat} (h : Nat.toDigits 16 m = Nat.toDigits 16 n) : m = n := by
  induction m using Nat.strongRecOn generalizing n with
  | ind m ih =>
    rw [Nat.toDigits_eq_if (by decide), Nat.toDigits_eq_if (n := n) (by decide)] at h
    split at h
    next hm =>
      split at h
      next hn => exact digitChar_inj hm hn (List.cons.inj h).1
      next hn =>
        have hlen := congrArg List.length h
        have hpos : 0 < (Nat.toDigits 16 (n / 16)).length := Nat.length_toDigits_pos
        simp only [List.length_append, List.length_singleton] at hlen
        omega
    next hm =>
      split at h
      next hn =>
        have hlen := congrArg List.length h
        have hpos : 0 < (Nat.toDigits 16 (m / 16)).length := Nat.length_toDigits_pos
        simp only [List.length_append, List.length_singleton] at hlen
        omega
      next hn =>
        obtain ⟨hhigh, hlow⟩ := List.append_inj' h rfl
        have hdiv := ih (m / 16) (by omega) hhigh
        have hmod := digitChar_inj (Nat.mod_lt m (by decide)) (Nat.mod_lt n (by decide))
          (List.cons.inj hlow).1
        omega

/-- A request carries none of the headers that a `Vary` list names. -/
def Request.CarriesNone (req : Request) (varyHeaders : Option (List Str)) : Prop :=
  ∀ name ∈ varyHeaders.getD [], req.headers.get (toLowerAscii name) = none

theorem hashStr_ne_nil (s : Str) : hashStr s ≠ [] := by
  simp [hashStr]

theorem cacheKeyStream_none (url : Str) (req : Request) :
    cacheKeyStream url req none = hashStr url ++ hashStr req.uri.toStr := by
  simp [cacheKeyStream]

/-- What is hashed for a name of `Vary`: nothing exactly when the request does not carry it. -/
theorem exists_varyPart (req : Request) : ∃ part : Str → Bytes,
    (∀ url varyHeaders, cacheKeyStream url req varyHeaders =
      hashStr url ++ hashStr req.uri.toStr ++ (varyHeaders.getD []).flatMap part) ∧
    ∀ name, part name = [] ↔ req.headers.get (toLowerAscii name) = none := by
  refine ⟨_, fun _ _ => rfl, fun name => ?_⟩
  cases req.headers.get (toLowerAscii name) with
  | some value => simp [hashStr_ne_nil]
  | none => simp

/-- What is hashed for a request is what is hashed for another one without `Vary` exactly when
url and URI are the same and the request carries none of the headers. -/
theorem cacheKeyStream_eq_none_iff {url url' : Str} {req req' : Request}
    {varyHeaders : Option (List Str)} :
    cacheKeyStream url req varyHeaders = cacheKeyStream url' req' none ↔
      url = url' ∧ req.uri.toStr = req'.uri.toStr ∧ req.CarriesNone varyHeaders := by
  obtain ⟨part, hpart, hempty⟩ := exists_varyPart req
  have hnone : (varyHeaders.getD []).flatMap part = [] ↔ req.CarriesNone varyHeaders := by
    rw [List.flatMap_eq_nil_iff]
    exact forall₂_congr (fun name _ => hempty name)
  rw [cacheKeyStream_none, hpart]
  constructor
  · intro h
    rw [List.append_assoc] at h
    obtain ⟨hurl, h⟩ := hashStr_append_inj h
    rw [← List.append_nil (hashStr req'.uri.toStr)] at h
    obtain ⟨huri, h⟩ := hashStr_append_inj h
    exact ⟨hurl, huri, hnone.mp h⟩
  · rintro ⟨rfl, huri, hcarries⟩
    rw [huri, hnone.mpr hcarries, List.append_nil]

/-- Without collisions equal keys come from equal inputs of the hash. -/
theorem createCacheKey_inj {hash : Bytes → Nat} {inputs : Set Bytes} {url url' : Str}
    {req req' : Request} {vary vary' : Option (List Str)} (hinj : Set.InjOn hash inputs)
    (hmem : cacheKeyStream url req vary ∈ inputs) (hmem' : cacheKeyStream url' req' vary' ∈ inputs) :
    createCacheKey hash url req vary = createCacheKey hash url' req' vary' ↔
      cacheKeyStream url req vary = cacheKeyStream url' req' vary' := by
  constructor
  · intro h
    exact hinj hmem hmem' (toDigits_inj h)
  · intro h
    rw [createCacheKey, h, createCacheKey]

end Road7
