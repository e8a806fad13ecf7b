import Road7.Http

namespace Road7

theorem utf8_ascii {s : Str} (h : ∀ c ∈ s, c.toNat < 128) :
    utf8 s = s.map (fun c => UInt8.ofNat c.toNat) := by
  rw [utf8, List.flatMap_congr (fun c hc => utf8EncodeChar_ascii (h c hc)), List.map_eq_flatMap]

/-- The characters of an ASCII text are read back from its bytes. -/
theorem map_utf8_ascii {s : Str} (h : ∀ c ∈ s, c.toNat < 128) :
    (utf8 s).map (fun b => Char.ofNat b.toNat) = s := by
  rw [utf8_ascii h, List.map_map]
  refine (List.map_congr_left (fun c hc => ?_)).trans (List.map_id s)
  have hlt := h c hc
  have hnat : (UInt8.ofNat c.toNat).toNat = c.toNat := by
    rw [UInt8.toNat_ofNat']
    exact Nat.mod_eq_of_lt (by omega)
  simp [hnat]

/-- The encoding of a character that is not ASCII begins with a byte that is not. -/
theorem ascii_of_utf8EncodeChar {c : Char}
    (h : ∀ b ∈ String.utf8EncodeChar c, b.toNat < 128) : c.toNat < 128 := by
  by_contra hlarge
  have hpos := c.utf8Size_pos
  have hle := c.utf8Size_le_four
  have hone : c.utf8Size ≠ 1 := fun h1 => by
    have hval : c.toNat ≤ 127 := Char.utf8Size_eq_one_iff.mp h1
    omega
  have hbyte : ∀ a p : UInt8, 128 ≤ p.toNat → 128 ≤ (a ||| p).toNat := fun a p hp => by
    rw [UInt8.toNat_or]
    exact Nat.le_trans hp Nat.right_le_or
  have hsize : c.utf8Size = 2 ∨ c.utf8Size = 3 ∨ c.utf8Size = 4 := by omega
  rcases hsize with h2 | h3 | h4
  · rw [String.utf8EncodeChar_eq_cons_cons h2] at h
    exact absurd (h _ List.mem_cons_self) (Nat.not_lt.mpr (hbyte _ 0xc0 (by decide)))
  · rw [String.utf8EncodeChar_eq_cons_cons_cons h3] at h
    exact absurd (h _ List.mem_cons_self) (Nat.not_lt.mpr (hbyte _ 0xe0 (by decide)))
  · rw [String.utf8EncodeChar_eq_cons_cons_cons_cons h4] at h
    exact absurd (h _ List.mem_cons_self) (Nat.not_lt.mpr (hbyte _ 0xf0 (by decide)))

/-- The characters of the texts that a header value can be read as. -/
def isHeaderChar (c : Char) : Bool := c.toNat < 128 && isVisibleAscii (UInt8.ofNat c.toNat)

theorem isHeaderChar_iff {c : Char} : isHeaderChar c = true ↔
    c.toNat < 128 ∧ isVisibleAscii (UInt8.ofNat c.toNat) = true := by
  simp [isHeaderChar]

theorem headerToStr_utf8 {s : Str} (h : ∀ c ∈ s, isHeaderChar c = true) :
    headerToStr (utf8 s) = some s := by
  have hascii : ∀ c ∈ s, c.toNat < 128 := fun c hc => (isHeaderChar_iff.mp (h c hc)).1
  have hvisible : (utf8 s).all isVisibleAscii = true := by
    rw [utf8_ascii hascii, List.all_map, List.all_eq_true]
    exact fun c hc => (isHeaderChar_iff.mp (h c hc)).2
  rw [headerToStr, if_pos hvisible, map_utf8_ascii hascii]

/-- A text that a value can be read as is the one whose bytes it is. -/
theorem headerToStr_eq_some {v : HeaderValue} {s : Str} :
    headerToStr v = some s ↔ utf8 s = v ∧ ∀ b ∈ v, isVisibleAscii b = true := by
  constructor
  · intro h
    exact ⟨utf8_of_headerToStr h, visible_of_headerToStr h⟩
  · rintro ⟨rfl, hvisible⟩
    refine headerToStr_utf8 (fun c hc => ?_)
    have hbytes : ∀ b ∈ String.utf8EncodeChar c, isVisibleAscii b = true := fun b hb =>
      hvisible b (List.mem_flatMap.mpr ⟨c, hc, hb⟩)
    have hascii := ascii_of_utf8EncodeChar (fun b hb => toNat_lt_of_visible (hbytes b hb))
    refine isHeaderChar_iff.mpr ⟨hascii, hbytes _ ?_⟩
    rw [utf8EncodeChar_ascii hascii]
    exact List.mem_singleton_self _

/-- A text contains another one exactly where its bytes contain the other one's bytes. -/
theorem utf8_infix_iff {v : HeaderValue} {s part : Str} (h : headerToStr v = some s) :
    utf8 part <:+: v ↔ part <:+: s := by
  obtain ⟨rfl, hvisible⟩ := headerToStr_eq_some.mp h
  constructor
  · rintro ⟨before, after, hsplit⟩
    have hpart : ∀ c ∈ part, c.toNat < 128 := by
      intro c hc
      refine ascii_of_utf8EncodeChar (fun b hb => toNat_lt_of_visible (hvisible b ?_))
      rw [← hsplit]
      exact List.mem_append_left _ (List.mem_append_right _ (List.mem_flatMap.mpr ⟨c, hc, hb⟩))
    have hs : s = (utf8 s).map (fun b => Char.ofNat b.toNat) := by
      rw [headerToStr, if_pos (List.all_eq_true.mpr hvisible)] at h
      exact (Option.some.inj h).symm
    rw [hs, ← hsplit, List.map_append, List.map_append, map_utf8_ascii hpart]
    exact List.infix_append _ _ _
  · rintro ⟨before, after, rfl⟩
    exact ⟨utf8 before, utf8 after, by rw [utf8_append, utf8_append]⟩

end Road7
