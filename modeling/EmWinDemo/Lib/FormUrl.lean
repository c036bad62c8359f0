/-
# EmWinDemo.Lib.FormUrl -- percent encoding and the form encoding of a text

`decode` is the left-to-right reference decoder: a percent sign followed by two hexadecimal digits
stands for a byte, everything else for itself, and no decoded byte is looked at again.  `encode` is
the encoding of a form value: a space becomes a plus sign and every other byte outside the
unreserved set a percent escape.

`decode_encode` says what decoding alone gives back: the text with its spaces still written as
plus signs.
-/
import EmWinDemo.Lib.CText

namespace EmWinDemo.Lib.FormUrl

open EmWinDemo.Lib.CMemory EmWinDemo.Lib.CText

/-- The byte written as two hexadecimal digits. -/
def escaped (a b : UInt8) : UInt8 := UInt8.ofNat (16 * xdigitValue a + xdigitValue b)

/-- The reference decoder. -/
def decode : Bytes → Bytes
  | [] => []
  | [c] => [c]
  | [c, a] => [c, a]
  | c :: a :: b :: s =>
    if c = 37 ∧ isXDigit a = true ∧ isXDigit b = true then escaped a b :: decode s
    else c :: decode (a :: b :: s)

theorem decode_escape {a b : UInt8} (ha : isXDigit a = true) (hb : isXDigit b = true) (s : Bytes) :
    decode (37 :: a :: b :: s) = escaped a b :: decode s := by
  rw [decode, if_pos ⟨rfl, ha, hb⟩]

/-- No escape starts with the byte `c` in front of `s`. -/
def Plain (c : UInt8) (s : Bytes) : Prop :=
  ∀ a b rest, s = a :: b :: rest → ¬(c = 37 ∧ isXDigit a = true ∧ isXDigit b = true)

theorem escape_or_plain (c : UInt8) (s : Bytes) :
    (∃ a b rest, s = a :: b :: rest ∧ c = 37 ∧ isXDigit a = true ∧ isXDigit b = true) ∨
      Plain c s := by
  by_cases h : ∃ a b rest, s = a :: b :: rest ∧ c = 37 ∧ isXDigit a = true ∧ isXDigit b = true
  · exact Or.inl h
  · right
    intro a b rest hs hesc
    exact h ⟨a, b, rest, hs, hesc⟩

/-- A byte that starts no escape stands for itself. -/
theorem decode_cons {c : UInt8} {s : Bytes} (h : Plain c s) : decode (c :: s) = c :: decode s := by
  match s with
  | [] => rfl
  | [_] => rfl
  | a :: b :: rest => rw [decode, if_neg (h a b rest rfl)]

/-- Letters, digits and the four marks. -/
def unreserved (b : UInt8) : Bool :=
  isAlpha b || isDigit b || b == 45 || b == 46 || b == 95 || b == 126

/-- The form encoding of one byte. -/
def encodeByte (b : UInt8) : Bytes :=
  if b = 32 then [43]
  else if unreserved b then [b]
  else [37, xdigit (b.toNat / 16), xdigit (b.toNat % 16)]

/-- The form encoding of a text. -/
def encode (t : Bytes) : Bytes := t.flatMap encodeByte

/-- A space written as a plus sign. -/
def spaceToPlus (b : UInt8) : UInt8 := if b = 32 then 43 else b

theorem spaceToPlus_eq_zero (b : UInt8) (h : spaceToPlus b = 0) : b = 0 := by
  unfold spaceToPlus at h
  split at h
  · exact absurd h (by decide)
  · exact h

theorem encode_cons (b : UInt8) (t : Bytes) : encode (b :: t) = encodeByte b ++ encode t := by
  rw [encode, List.flatMap_cons, encode]

theorem escaped_xdigit (b : UInt8) :
    escaped (xdigit (b.toNat / 16)) (xdigit (b.toNat % 16)) = b := by
  have hb : b.toNat < 256 := b.toNat_lt
  have hhi := (xdigit_spec (show b.toNat / 16 < 16 by omega)).2.1
  have hlo := (xdigit_spec (show b.toNat % 16 < 16 by omega)).2.1
  rw [escaped, hhi, hlo, Nat.div_add_mod]
  exact UInt8.ofNat_toNat

theorem unreserved_ne {b : UInt8} (h : unreserved b = true) :
    b ≠ 37 ∧ b ≠ 38 ∧ b ≠ 0 := by
  refine ⟨?_, ?_, ?_⟩ <;> · rintro rfl; revert h; decide

/-- **Decoding an encoded text.** Everything comes back except that spaces are plus signs. -/
theorem decode_encode (t : Bytes) : decode (encode t) = t.map spaceToPlus := by
  induction t with
  | nil => rfl
  | cons b t ih =>
    rw [encode_cons, List.map_cons, ← ih]
    unfold encodeByte spaceToPlus
    have hplain : ∀ c : UInt8, c ≠ 37 → decode ([c] ++ encode t) = c :: decode (encode t) := by
      intro c hc
      apply decode_cons
      rintro a d rest - ⟨h37, -⟩
      exact hc h37
    by_cases hspace : b = 32
    · rw [if_pos hspace, if_pos hspace]
      exact hplain 43 (by decide)
    · rw [if_neg hspace, if_neg hspace]
      by_cases hkeep : unreserved b = true
      · rw [if_pos hkeep]
        exact hplain b (unreserved_ne hkeep).1
      · have hb : b.toNat < 256 := b.toNat_lt
        rw [if_neg hkeep]
        show decode (37 :: _ :: _ :: encode t) = _
        rw [decode_escape (xdigit_spec (by omega)).1 (xdigit_spec (by omega)).1, escaped_xdigit]

/-- An encoded text holds neither a separator nor a NUL. -/
theorem not_mem_encode (t : Bytes) : (38 : UInt8) ∉ encode t ∧ (0 : UInt8) ∉ encode t := by
  have hbyte : ∀ b c : UInt8, c ∈ encodeByte b → c ≠ 38 ∧ c ≠ 0 := by
    intro b c hc
    unfold encodeByte at hc
    split at hc
    · obtain rfl : c = 43 := by simpa using hc
      decide
    · split at hc
      · next hkeep =>
        obtain rfl : c = b := by simpa using hc
        exact (unreserved_ne hkeep).2
      · have hb : b.toNat < 256 := b.toNat_lt
        have hdigit : ∀ n < 16, xdigit n ≠ 38 ∧ xdigit n ≠ 0 := by decide
        rcases List.mem_cons.mp hc with rfl | hc
        · decide
        · rcases List.mem_cons.mp hc with rfl | hc
          · exact hdigit _ (by omega)
          · obtain rfl := List.mem_singleton.mp hc
            exact hdigit _ (by omega)
  unfold encode
  refine ⟨fun h => ?_, fun h => ?_⟩
  · obtain ⟨b, -, hb⟩ := List.mem_flatMap.mp h
    exact (hbyte b 38 hb).1 rfl
  · obtain ⟨b, -, hb⟩ := List.mem_flatMap.mp h
    exact (hbyte b 0 hb).2 rfl

end EmWinDemo.Lib.FormUrl
