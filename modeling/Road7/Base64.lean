import Road7.Text

namespace Road7

/-- The alphabet of base64, each character at its value. -/
def base64Alphabet : Str :=
  "ABCDEFGHIJKLMNOPQRSTUVWXYZabcdefghijklmnopqrstuvwxyz0123456789+/".toList

def isBase64Char (c : Char) : Bool := c ∈ base64Alphabet || c = '='

def base64Digit (n : Nat) : Char := base64Alphabet.getD n 'A'

def base64Value (c : Char) : Option Nat := base64Alphabet.idxOf? c

section Groups

/-- Three bytes as four numbers of six bits. -/
def sextet1 (a : UInt8) : Nat := a.toNat / 4

def sextet2 (a b : UInt8) : Nat := a.toNat % 4 * 16 + b.toNat / 16

def sextet3 (b c : UInt8) : Nat := b.toNat % 16 * 4 + c.toNat / 64

def sextet4 (c : UInt8) : Nat := c.toNat % 64

/-- The bytes of four such numbers. -/
def octet1 (w x : Nat) : UInt8 := UInt8.ofNat (w * 4 + x / 16)

def octet2 (x y : Nat) : UInt8 := UInt8.ofNat (x % 16 * 16 + y / 4)

def octet3 (y z : Nat) : UInt8 := UInt8.ofNat (y % 4 * 64 + z)

variable (a b c : UInt8)

theorem ofNat_of_eq {a : UInt8} {n : Nat} (h : n = a.toNat) : UInt8.ofNat n = a := by
  rw [h, UInt8.ofNat_toNat]

@[simp] theorem octet1_sextets : octet1 (sextet1 a) (sextet2 a b) = a := by
  have hb := b.toNat_lt
  unfold octet1 sextet1 sextet2
  exact ofNat_of_eq (by omega)

@[simp] theorem octet2_sextets : octet2 (sextet2 a b) (sextet3 b c) = b := by
  have hb := b.toNat_lt
  have hc := c.toNat_lt
  unfold octet2 sextet2 sextet3
  exact ofNat_of_eq (by omega)

@[simp] theorem octet3_sextets : octet3 (sextet3 b c) (sextet4 c) = c := by
  have hc := c.toNat_lt
  unfold octet3 sextet3 sextet4
  exact ofNat_of_eq (by omega)

@[simp] theorem sextet2_zero : sextet2 a 0 % 16 = 0 := by
  simp [sextet2]

@[simp] theorem sextet3_zero : sextet3 b 0 % 4 = 0 := by
  simp [sextet3]

theorem base64Value_digit {n : Nat} (h : n < 64) : base64Value (base64Digit n) = some n := by
  have hall : ∀ n < 64, base64Value (base64Digit n) = some n := by decide
  exact hall n h

@[simp] theorem base64Value_sextet1 : base64Value (base64Digit (sextet1 a)) = some (sextet1 a) := by
  have ha := a.toNat_lt
  exact base64Value_digit (by unfold sextet1; omega)

@[simp] theorem base64Value_sextet2 :
    base64Value (base64Digit (sextet2 a b)) = some (sextet2 a b) := by
  have hb := b.toNat_lt
  exact base64Value_digit (by unfold sextet2; omega)

@[simp] theorem base64Value_sextet3 :
    base64Value (base64Digit (sextet3 b c)) = some (sextet3 b c) := by
  have hc := c.toNat_lt
  exact base64Value_digit (by unfold sextet3; omega)

@[simp] theorem base64Value_sextet4 : base64Value (base64Digit (sextet4 c)) = some (sextet4 c) :=
  base64Value_digit (Nat.mod_lt _ (by decide))

@[simp] theorem base64Value_fill : base64Value '=' = none := by decide

end Groups

/-- Three bytes make four characters; what is missing at the end is filled up. -/
def base64Encode : Bytes → Str
  | [] => []
  | [a] => [base64Digit (sextet1 a), base64Digit (sextet2 a 0), '=', '=']
  | [a, b] => [base64Digit (sextet1 a), base64Digit (sextet2 a b), base64Digit (sextet3 b 0), '=']
  | a :: b :: c :: rest =>
    base64Digit (sextet1 a) :: base64Digit (sextet2 a b) :: base64Digit (sextet3 b c) ::
      base64Digit (sextet4 c) :: base64Encode rest

/-- The bits that are filled up have to be zero. -/
def base64Decode : Str → Option Bytes
  | [] => some []
  | w :: x :: y :: z :: rest =>
    match base64Value w, base64Value x, base64Value y, base64Value z with
    | some w, some x, some y, some z =>
      (base64Decode rest).map ([octet1 w x, octet2 x y, octet3 y z] ++ ·)
    | some w, some x, some y, none =>
      if z = '=' ∧ rest = [] ∧ y % 4 = 0 then some [octet1 w x, octet2 x y] else none
    | some w, some x, none, none =>
      if y = '=' ∧ z = '=' ∧ rest = [] ∧ x % 16 = 0 then some [octet1 w x] else none
    | _, _, _, _ => none
  | _ => none

theorem base64Decode_encode (bytes : Bytes) : base64Decode (base64Encode bytes) = some bytes := by
  induction bytes using base64Encode.induct with
  | case1 => rfl
  | case2 a => simp [base64Encode, base64Decode]
  | case3 a b => simp [base64Encode, base64Decode]
  | case4 a b c rest ih => simp [base64Encode, base64Decode, ih]

theorem isBase64Char_of_value {c : Char} {n : Nat} (h : base64Value c = some n) :
    isBase64Char c = true := by
  have hmem : c ∈ base64Alphabet := by
    by_contra hnot
    rw [base64Value, List.idxOf?_eq_none_iff.mpr hnot] at h
    cases h
  simp [isBase64Char, hmem]

theorem isBase64Char_fill : isBase64Char '=' = true := by decide

/-- Nothing but base64 text is decoded. -/
theorem isBase64Char_of_decode {text : Str} {bytes : Bytes} (h : base64Decode text = some bytes) :
    ∀ c ∈ text, isBase64Char c = true := by
  induction text using base64Decode.induct generalizing bytes with
  | case1 => simp
  | case2 w x y z rest w' x' y' z' hz hy hx hw ih =>
    simp only [base64Decode, hw, hx, hy, hz] at h
    obtain ⟨tail, htail, _⟩ := Option.map_eq_some_iff.mp h
    have hrest := ih htail
    simpa [isBase64Char_of_value hw, isBase64Char_of_value hx, isBase64Char_of_value hy,
      isBase64Char_of_value hz] using hrest
  | case3 w x y z rest w' x' y' hz hy hx hw hfill =>
    obtain ⟨rfl, rfl, _⟩ := hfill
    simp [isBase64Char_of_value hw, isBase64Char_of_value hx, isBase64Char_of_value hy,
      isBase64Char_fill]
  | case5 w x y z rest w' x' hz hy hx hw hfill =>
    obtain ⟨rfl, rfl, rfl, _⟩ := hfill
    simp [isBase64Char_of_value hw, isBase64Char_of_value hx, isBase64Char_fill]
  | case4 w x y z rest w' x' y' hz hy hx hw hfill =>
    simp only [base64Decode, hw, hx, hy, hz, hfill, if_false] at h
    cases h
  | case6 w x y z rest w' x' hz hy hx hw hfill =>
    simp only [base64Decode, hw, hx, hy, hz, hfill, if_false] at h
    cases h
  | case7 w x y z rest hfour hthree htwo =>
    unfold base64Decode at h
    split at h
    next hw hx hy hz => exact (hfour _ _ _ _ hw hx hy hz).elim
    next hw hx hy hz => exact (hthree _ _ _ hw hx hy hz).elim
    next hw hx hy hz => exact (htwo _ _ hw hx hy hz).elim
    next => cases h
  | case8 text hnil hfour =>
    unfold base64Decode at h
    split at h
    next => exact (hnil rfl).elim
    next => exact (hfour _ _ _ _ _ rfl).elim
    next => cases h

end Road7
