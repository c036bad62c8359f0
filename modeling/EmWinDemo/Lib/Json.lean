/-
# EmWinDemo.Lib.Json -- JSON values and the texts that stand for them

A `Value` is what a JSON text means, and `Derives v t` says that the text `t` is derived from the
grammar of JSON and stands for `v`.  The text of a value is anything but unique: white space goes
between all tokens, and a character of a string may stand for itself or be escaped, beyond the
basic plane as a surrogate pair.

Strings are held as UTF-8 without a NUL, so `\u0000` is the one escape the grammar leaves out.  What
becomes of a number is left open: a numeral denotes a `Decimal`, exactly, and `Derives num v t` has
`num d` in the tree where the text has a numeral for `d`.
-/
import EmWinDemo.Lib.CText

namespace EmWinDemo.Lib.Json

open EmWinDemo.Lib.CMemory EmWinDemo.Lib.CText

/-! ## Values -/

/-- The number `±digits * 10 ^ (exponent - places)`; so many of its digits stand behind the point. -/
structure Decimal where
  negative : Bool
  digits : Nat
  places : Nat
  exponent : Int
  deriving Repr, DecidableEq

/-- A value with numbers of some type.  Members of an object keep their order, and names may be
repeated. -/
inductive Value (ν : Type) where
  | null
  | false
  | true
  | number (x : ν)
  | string (s : Bytes)
  | array (items : List (Value ν))
  | object (members : List (Bytes × Value ν))

/-! ## Strings -/

/-- The characters after a backslash that are not `u`, and what they stand for. -/
def escapes : List (UInt8 × UInt8) :=
  [(34, 34), (92, 92), (47, 47), (98, 8), (102, 12), (110, 10), (114, 13), (116, 9)]

/-- Four hexadecimal digits and their value. -/
structure Hex4 (n : Nat) (t : Bytes) : Prop where
  length_eq : t.length = 4
  digits : ∀ b ∈ t, isXDigit b = true
  value : strtol16 0 t = n

/-- One character of a string: its UTF-8 and a way to write it. -/
inductive Piece : Bytes → Bytes → Prop where
  | plain {b : UInt8} (hlow : 32 ≤ b) (hquote : b ≠ 34) (hslash : b ≠ 92) : Piece [b] [b]
  | escape {c b : UInt8} (h : (c, b) ∈ escapes) : Piece [b] [92, c]
  | unicode {c : Char} {t : Bytes} (hzero : c.toNat ≠ 0) (ht : Hex4 c.toNat t) :
      Piece (String.utf8EncodeChar c) (92 :: 117 :: t)
  | surrogates {c : Char} {high low : Bytes} (hc : 0x10000 ≤ c.toNat)
      (hhigh : Hex4 (0xD800 + (c.toNat - 0x10000) / 0x400) high)
      (hlow : Hex4 (0xDC00 + (c.toNat - 0x10000) % 0x400) low) :
      Piece (String.utf8EncodeChar c) (92 :: 117 :: (high ++ 92 :: 117 :: low))

/-- What stands between the quotes. -/
inductive Body : Bytes → Bytes → Prop where
  | nil : Body [] []
  | cons {s t s' t' : Bytes} (h : Piece s t) (hs : Body s' t') : Body (s ++ s') (t ++ t')

/-! ## Numbers -/

def Digits (t : Bytes) : Prop := ∀ b ∈ t, isDigit b = true

/-- A single zero, or digits of which the first is not zero. -/
inductive Whole : Bytes → Prop where
  | zero : Whole [48]
  | digits {b : UInt8} {t : Bytes} (hlow : 49 ≤ b) (hhigh : b ≤ 57) (ht : Digits t) :
      Whole (b :: t)

/-- The digits after the point, with the point when there are any. -/
def fraction (t : Bytes) : Bytes := if t = [] then [] else 46 :: t

/-- The exponent part. -/
inductive Exponent : Int → Bytes → Prop where
  | none : Exponent 0 []
  | plain {e : UInt8} {t : Bytes} (he : e = 101 ∨ e = 69) (ht : Digits t) (hne : t ≠ []) :
      Exponent (digitsValue 0 t) (e :: t)
  | plus {e : UInt8} {t : Bytes} (he : e = 101 ∨ e = 69) (ht : Digits t) (hne : t ≠ []) :
      Exponent (digitsValue 0 t) (e :: 43 :: t)
  | minus {e : UInt8} {t : Bytes} (he : e = 101 ∨ e = 69) (ht : Digits t) (hne : t ≠ []) :
      Exponent (-(digitsValue 0 t : Int)) (e :: 45 :: t)

def sign (negative : Bool) : Bytes := if negative then [45] else []

inductive Numeral : Decimal → Bytes → Prop where
  | mk {negative : Bool} {whole frac exp : Bytes} {e : Int} (hw : Whole whole) (hf : Digits frac)
      (he : Exponent e exp) :
      Numeral ⟨negative, digitsValue (digitsValue 0 whole) frac, frac.length, e⟩
        (sign negative ++ (whole ++ (fraction frac ++ exp)))

/-! ## Values and their texts -/

/-- White space between tokens. -/
def Blank (w : Bytes) : Prop := ∀ b ∈ w, b = 32 ∨ b = 9 ∨ b = 10 ∨ b = 13

variable {ν : Type}

mutual

/-- The text of a value, without white space around it. -/
inductive Derives (num : Decimal → ν) : Value ν → Bytes → Prop where
  | literalNull : Derives num .null [110, 117, 108, 108]
  | literalFalse : Derives num .false [102, 97, 108, 115, 101]
  | literalTrue : Derives num .true [116, 114, 117, 101]
  | number {d : Decimal} {t : Bytes} (h : Numeral d t) : Derives num (.number (num d)) t
  | string {s t : Bytes} (h : Body s t) : Derives num (.string s) (34 :: (t ++ [34]))
  | emptyArray {w : Bytes} (hw : Blank w) : Derives num (.array []) (91 :: (w ++ [93]))
  | array {vs : List (Value ν)} {t : Bytes} (h : Items num vs t) :
      Derives num (.array vs) (91 :: (t ++ [93]))
  | emptyObject {w : Bytes} (hw : Blank w) : Derives num (.object []) (123 :: (w ++ [125]))
  | object {ms : List (Bytes × Value ν)} {t : Bytes} (h : Members num ms t) :
      Derives num (.object ms) (123 :: (t ++ [125]))

/-- The items of an array, at least one. -/
inductive Items (num : Decimal → ν) : List (Value ν) → Bytes → Prop where
  | one {v : Value ν} {w t w' : Bytes} (hw : Blank w) (h : Derives num v t) (hw' : Blank w') :
      Items num [v] (w ++ (t ++ w'))
  | cons {v : Value ν} {vs : List (Value ν)} {w t w' ts : Bytes} (hw : Blank w)
      (h : Derives num v t) (hw' : Blank w') (hs : Items num vs ts) :
      Items num (v :: vs) (w ++ (t ++ (w' ++ 44 :: ts)))

/-- The members of an object, at least one. -/
inductive Members (num : Decimal → ν) : List (Bytes × Value ν) → Bytes → Prop where
  | one {m : Bytes × Value ν} {t : Bytes} (h : Member num m t) : Members num [m] t
  | cons {m : Bytes × Value ν} {ms : List (Bytes × Value ν)} {t ts : Bytes}
      (h : Member num m t) (hs : Members num ms ts) : Members num (m :: ms) (t ++ 44 :: ts)

/-- One member, with the white space around its parts. -/
inductive Member (num : Decimal → ν) : Bytes × Value ν → Bytes → Prop where
  | mk {s : Bytes} {v : Value ν} {w k w₁ w₂ t w₃ : Bytes} (hw : Blank w) (hk : Body s k)
      (hw₁ : Blank w₁) (hw₂ : Blank w₂) (h : Derives num v t) (hw₃ : Blank w₃) :
      Member num (s, v) (w ++ 34 :: (k ++ 34 :: (w₁ ++ 58 :: (w₂ ++ (t ++ w₃)))))

end

/-! ## How texts begin and end -/

/-- The bytes a number may go on with. -/
def Continues (b : UInt8) : Prop := isDigit b = true ∨ b = 46 ∨ b = 101 ∨ b = 69

/-- A byte stands behind a number and does not belong to it. -/
def Stops (rest : Bytes) : Prop := ∃ b s, rest = b :: s ∧ ¬Continues b

theorem blank_nil : Blank [] := by
  intro b hb
  cases hb

theorem Digits.tail {b : UInt8} {t : Bytes} (h : Digits (b :: t)) : Digits t :=
  fun c hc => h c (List.mem_cons_of_mem b hc)

theorem Whole.head {t : Bytes} (h : Whole t) : ∃ b s, t = b :: s ∧ isDigit b = true := by
  cases h with
  | zero => exact ⟨48, [], rfl, by decide⟩
  | @digits b s hlow hhigh ht =>
    refine ⟨b, s, rfl, ?_⟩
    have hdigit : 48 ≤ b := by
      simp only [UInt8.le_iff_toNat_le, UInt8.reduceToNat] at hlow ⊢
      omega
    simp [isDigit, hdigit, hhigh]

theorem Numeral.head {d : Decimal} {t : Bytes} (h : Numeral d t) :
    ∃ b s, t = b :: s ∧ (b = 45 ∨ isDigit b = true) := by
  obtain ⟨hw, hf, he⟩ := h
  rename_i negative whole frac exp e
  obtain ⟨b, s, rfl, hb⟩ := hw.head
  cases negative with
  | true => exact ⟨45, _, rfl, Or.inl rfl⟩
  | false => exact ⟨b, _, rfl, Or.inr hb⟩

theorem isDigit_bounds {b : UInt8} (h : isDigit b = true) : 48 ≤ b ∧ b ≤ 57 := by
  simpa [isDigit] using h

/-- No text of a value begins with white space, a control character or a closing bracket. -/
theorem Derives.head {num : Decimal → ν} {v : Value ν} {t : Bytes} (h : Derives num v t) :
    ∃ b s, t = b :: s ∧ 32 < b ∧ b ≠ 93 := by
  cases h with
  | number h =>
    obtain ⟨b, s, rfl, rfl | hb⟩ := h.head
    · exact ⟨45, s, rfl, by decide, by decide⟩
    · obtain ⟨hlow, hhigh⟩ := isDigit_bounds hb
      refine ⟨b, s, rfl, UInt8.lt_of_lt_of_le (by decide) hlow, ?_⟩
      rintro rfl
      exact absurd hhigh (by decide)
  | literalNull => exact ⟨_, _, rfl, by decide, by decide⟩
  | literalFalse => exact ⟨_, _, rfl, by decide, by decide⟩
  | literalTrue => exact ⟨_, _, rfl, by decide, by decide⟩
  | string _ => exact ⟨_, _, rfl, by decide, by decide⟩
  | emptyArray _ => exact ⟨_, _, rfl, by decide, by decide⟩
  | array _ => exact ⟨_, _, rfl, by decide, by decide⟩
  | emptyObject _ => exact ⟨_, _, rfl, by decide, by decide⟩
  | object _ => exact ⟨_, _, rfl, by decide, by decide⟩

end EmWinDemo.Lib.Json
