/-
# EmWinDemo.Lib.Utf8 -- the byte sequences of UTF-8

The encoding of a character is that of the core library, `String.utf8EncodeChar`.  A text is UTF-8
if it is the encoding of some characters (`IsUtf8`).  The four lemmas `encodes_one` to
`encodes_four` say in ranges of bytes which sequences encode a character: without overlong forms,
without surrogates, and up to the last plane.  `not_starts` says from the ranges that nothing at
the beginning of a text encodes a character.
-/
import Mathlib.Data.List.Infix
import EmWinDemo.Lib.CMemory

namespace EmWinDemo.Lib.Utf8

open Lib.CMemory

/-- The encoding of a list of characters. -/
def utf8 (cs : List Char) : Bytes := cs.flatMap String.utf8EncodeChar

def IsUtf8 (s : Bytes) : Prop := ∃ cs, s = utf8 cs

/-- A character begins the text. -/
def Starts (s : Bytes) : Prop := ∃ c, String.utf8EncodeChar c <+: s

/-! ## Characters by their number -/

theorem toNat_bounds (c : Char) : c.toNat < 0xD800 ∨ 0xDFFF < c.toNat ∧ c.toNat < 0x110000 :=
  c.valid

theorem exists_char {n : Nat} (h : n < 0xD800 ∨ 0xDFFF < n ∧ n < 0x110000) :
    ∃ c : Char, c.toNat = n := ⟨Char.ofNatAux n h, rfl⟩

/-- A byte of an encoding. -/
theorem eq_ofNat {b : UInt8} {n : Nat} (hn : n < 256) : b = UInt8.ofNat n ↔ b.toNat = n := by
  rw [← UInt8.toNat_inj, UInt8.toNat_ofNat', Nat.mod_eq_of_lt hn]

/-- The encoding of a character in four cases. -/
theorem encode_cases (c : Char) :
    (c.toNat ≤ 0x7f ∧ String.utf8EncodeChar c = [UInt8.ofNat c.toNat]) ∨
    (0x7f < c.toNat ∧ c.toNat ≤ 0x7ff ∧ String.utf8EncodeChar c =
      [UInt8.ofNat (c.toNat / 64 % 0x20 + 0xc0), UInt8.ofNat (c.toNat % 0x40 + 0x80)]) ∨
    (0x7ff < c.toNat ∧ c.toNat ≤ 0xffff ∧ String.utf8EncodeChar c =
      [UInt8.ofNat (c.toNat / 4096 % 0x10 + 0xe0), UInt8.ofNat (c.toNat / 64 % 0x40 + 0x80),
        UInt8.ofNat (c.toNat % 0x40 + 0x80)]) ∨
    (0xffff < c.toNat ∧ String.utf8EncodeChar c =
      [UInt8.ofNat (c.toNat / 262144 % 0x08 + 0xf0), UInt8.ofNat (c.toNat / 4096 % 0x40 + 0x80),
        UInt8.ofNat (c.toNat / 64 % 0x40 + 0x80), UInt8.ofNat (c.toNat % 0x40 + 0x80)]) := by
  unfold String.utf8EncodeChar
  rw [show c.val.toNat = c.toNat from rfl]
  generalize c.toNat = v
  by_cases hone : v ≤ 0x7f
  · exact Or.inl ⟨hone, if_pos hone⟩
  by_cases htwo : v ≤ 0x7ff
  · exact Or.inr (Or.inl ⟨by omega, htwo, by simp only [if_neg hone, if_pos htwo]⟩)
  by_cases hthree : v ≤ 0xffff
  · exact Or.inr (Or.inr (Or.inl ⟨by omega, hthree, by
      simp only [if_neg hone, if_neg htwo, if_pos hthree]⟩))
  · exact Or.inr (Or.inr (Or.inr ⟨by omega, by
      simp only [if_neg hone, if_neg htwo, if_neg hthree]⟩))

/-! ## The sequences of one character -/

variable {a b c d : UInt8}

theorem encodes_one : (∃ ch, String.utf8EncodeChar ch = [a]) ↔ a.toNat ≤ 0x7f := by
  constructor
  · rintro ⟨ch, h⟩
    rcases encode_cases ch with ⟨hv, hch⟩ | ⟨-, -, hch⟩ | ⟨-, -, hch⟩ | ⟨-, hch⟩
    · rw [hch, List.cons.injEq, eq_comm, eq_ofNat (by omega)] at h
      omega
    · simp [hch] at h
    · simp [hch] at h
    · simp [hch] at h
  · intro ha
    obtain ⟨ch, hv⟩ := exists_char (n := a.toNat) (Or.inl (by omega))
    refine ⟨ch, ?_⟩
    rcases encode_cases ch with ⟨-, hch⟩ | ⟨hlow, -⟩ | ⟨hlow, -⟩ | ⟨hlow, -⟩
    · rw [hch, hv, UInt8.ofNat_toNat]
    · omega
    · omega
    · omega

theorem encodes_two : (∃ ch, String.utf8EncodeChar ch = [a, b]) ↔
    (0xc2 ≤ a.toNat ∧ a.toNat ≤ 0xdf) ∧ 0x80 ≤ b.toNat ∧ b.toNat ≤ 0xbf := by
  constructor
  · rintro ⟨ch, h⟩
    rcases encode_cases ch with ⟨-, hch⟩ | ⟨hlow, hhigh, hch⟩ | ⟨-, -, hch⟩ | ⟨-, hch⟩
    · simp [hch] at h
    · rw [hch, List.cons.injEq, List.cons.injEq, eq_comm, eq_ofNat (by omega),
        eq_comm (b := b), eq_ofNat (by omega)] at h
      omega
    · simp [hch] at h
    · simp [hch] at h
  · rintro ⟨ha, hb⟩
    obtain ⟨ch, hv⟩ := exists_char (n := (a.toNat - 0xc0) * 64 + (b.toNat - 0x80)) (Or.inl (by omega))
    refine ⟨ch, ?_⟩
    rcases encode_cases ch with ⟨hhigh, -⟩ | ⟨-, -, hch⟩ | ⟨hlow, -⟩ | ⟨hlow, -⟩
    · omega
    · simp only [hch, List.cons.injEq, and_true, eq_comm (b := a), eq_comm (b := b)]
      rw [eq_ofNat (by omega), eq_ofNat (by omega)]
      omega
    · omega
    · omega

theorem encodes_three : (∃ ch, String.utf8EncodeChar ch = [a, b, c]) ↔
    (0xe0 ≤ a.toNat ∧ a.toNat ≤ 0xef) ∧ (0x80 ≤ b.toNat ∧ b.toNat ≤ 0xbf) ∧
      (0x80 ≤ c.toNat ∧ c.toNat ≤ 0xbf) ∧ (a.toNat = 0xe0 → 0xa0 ≤ b.toNat) ∧
      (a.toNat = 0xed → b.toNat ≤ 0x9f) := by
  constructor
  · rintro ⟨ch, h⟩
    have hchar := toNat_bounds ch
    rcases encode_cases ch with ⟨-, hch⟩ | ⟨-, -, hch⟩ | ⟨hlow, hhigh, hch⟩ | ⟨-, hch⟩
    · simp [hch] at h
    · simp [hch] at h
    · simp only [hch, List.cons.injEq, and_true, eq_comm (b := a), eq_comm (b := b),
        eq_comm (b := c)] at h
      rw [eq_ofNat (by omega), eq_ofNat (by omega), eq_ofNat (by omega)] at h
      omega
    · simp [hch] at h
  · rintro ⟨ha, hb, hc, hshort, hsurrogate⟩
    obtain ⟨ch, hv⟩ := exists_char
      (n := (a.toNat - 0xe0) * 4096 + (b.toNat - 0x80) * 64 + (c.toNat - 0x80)) (by omega)
    refine ⟨ch, ?_⟩
    rcases encode_cases ch with ⟨hhigh, -⟩ | ⟨-, hhigh, -⟩ | ⟨-, -, hch⟩ | ⟨hlow, -⟩
    · omega
    · omega
    · simp only [hch, List.cons.injEq, and_true, eq_comm (b := a), eq_comm (b := b),
        eq_comm (b := c)]
      rw [eq_ofNat (by omega), eq_ofNat (by omega), eq_ofNat (by omega)]
      omega
    · omega

theorem encodes_four : (∃ ch, String.utf8EncodeChar ch = [a, b, c, d]) ↔
    (0xf0 ≤ a.toNat ∧ a.toNat ≤ 0xf4) ∧ (0x80 ≤ b.toNat ∧ b.toNat ≤ 0xbf) ∧
      (0x80 ≤ c.toNat ∧ c.toNat ≤ 0xbf) ∧ (0x80 ≤ d.toNat ∧ d.toNat ≤ 0xbf) ∧
      (a.toNat = 0xf0 → 0x90 ≤ b.toNat) ∧ (a.toNat = 0xf4 → b.toNat ≤ 0x8f) := by
  constructor
  · rintro ⟨ch, h⟩
    have hchar := toNat_bounds ch
    rcases encode_cases ch with ⟨-, hch⟩ | ⟨-, -, hch⟩ | ⟨-, -, hch⟩ | ⟨hlow, hch⟩
    · simp [hch] at h
    · simp [hch] at h
    · simp [hch] at h
    · simp only [hch, List.cons.injEq, and_true, eq_comm (b := a), eq_comm (b := b),
        eq_comm (b := c), eq_comm (b := d)] at h
      rw [eq_ofNat (by omega), eq_ofNat (by omega), eq_ofNat (by omega), eq_ofNat (by omega)] at h
      omega
  · rintro ⟨ha, hb, hc, hd, hshort, hplane⟩
    obtain ⟨ch, hv⟩ := exists_char (n := (a.toNat - 0xf0) * 262144 + (b.toNat - 0x80) * 4096 +
      (c.toNat - 0x80) * 64 + (d.toNat - 0x80)) (by omega)
    refine ⟨ch, ?_⟩
    rcases encode_cases ch with ⟨hhigh, -⟩ | ⟨-, hhigh, -⟩ | ⟨-, hhigh, -⟩ | ⟨-, hch⟩
    · omega
    · omega
    · omega
    · simp only [hch, List.cons.injEq, and_true, eq_comm (b := a), eq_comm (b := b),
        eq_comm (b := c), eq_comm (b := d)]
      rw [eq_ofNat (by omega), eq_ofNat (by omega), eq_ofNat (by omega), eq_ofNat (by omega)]
      omega

/-! ## Texts -/

theorem length_encode (ch : Char) :
    0 < (String.utf8EncodeChar ch).length ∧ (String.utf8EncodeChar ch).length ≤ 4 := by
  rcases encode_cases ch with ⟨-, h⟩ | ⟨-, -, h⟩ | ⟨-, -, h⟩ | ⟨-, h⟩ <;> simp [h]

/-- The first `k` bytes are there and encode a character. -/
def CharOf (k : Nat) (s : Bytes) : Prop := k ≤ s.length ∧ ∃ ch, String.utf8EncodeChar ch = s.take k

/-- What begins a text is its first one, two, three or four bytes. -/
theorem starts_iff {s : Bytes} :
    Starts s ↔ CharOf 1 s ∨ CharOf 2 s ∨ CharOf 3 s ∨ CharOf 4 s := by
  constructor
  · rintro ⟨ch, hprefix⟩
    obtain ⟨hpos, hle⟩ := length_encode ch
    have hchar : CharOf (String.utf8EncodeChar ch).length s :=
      ⟨List.IsPrefix.length_le hprefix, ch, List.prefix_iff_eq_take.mp hprefix⟩
    generalize (String.utf8EncodeChar ch).length = k at hpos hle hchar
    obtain rfl | rfl | rfl | rfl : k = 1 ∨ k = 2 ∨ k = 3 ∨ k = 4 := by omega
    · exact Or.inl hchar
    · exact Or.inr (Or.inl hchar)
    · exact Or.inr (Or.inr (Or.inl hchar))
    · exact Or.inr (Or.inr (Or.inr hchar))
  · rintro (⟨-, ch, h⟩ | ⟨-, ch, h⟩ | ⟨-, ch, h⟩ | ⟨-, ch, h⟩) <;>
      exact ⟨ch, h ▸ List.take_prefix _ _⟩

theorem utf8_cons (ch : Char) (cs : List Char) :
    utf8 (ch :: cs) = String.utf8EncodeChar ch ++ utf8 cs := List.flatMap_cons

/-- The first character of a text is determined. -/
theorem encode_append_inj {ch d : Char} {s t : Bytes}
    (h : String.utf8EncodeChar ch ++ s = String.utf8EncodeChar d ++ t) : ch = d ∧ s = t := by
  have hdecode := congrArg (fun l => l.toByteArray.utf8DecodeChar? 0) h
  simp only [List.toByteArray_append, ByteArray.utf8DecodeChar?_utf8EncodeChar_append] at hdecode
  obtain rfl : ch = d := Option.some.inj hdecode
  exact ⟨rfl, List.append_cancel_left h⟩

/-- **A text that goes on where no character begins is not UTF-8.** -/
theorem not_isUtf8_append (cs : List Char) {rest : Bytes} (hne : rest ≠ []) (hrest : ¬Starts rest) :
    ¬IsUtf8 (utf8 cs ++ rest) := by
  rintro ⟨ds, h⟩
  induction cs generalizing ds with
  | nil =>
    cases ds with
    | nil => exact hne h
    | cons d ds => exact hrest ⟨d, utf8 ds, h.symm⟩
  | cons ch cs ih =>
    rw [utf8_cons, List.append_assoc] at h
    cases ds with
    | nil => exact String.utf8EncodeChar_ne_nil (List.append_eq_nil_iff.mp h).1
    | cons d ds =>
      rw [utf8_cons] at h
      exact ih ds (encode_append_inj h).2

end EmWinDemo.Lib.Utf8
