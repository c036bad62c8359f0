/-
# EmWinDemo.Json.Print -- `cJSON_Print` and what parses its output

The unbuffered printers of cJSON.  Each of them works out how many bytes it needs before it writes
any, and a text that does not fit is an `overwrite` here as in the parser.  `fmt` puts a space
behind the commas of an array and white space into an empty object; in other objects the printer's
white space is commented out.

Numbers are printed with `%d` if their two fields hold the same integer.  The formats of other
doubles stay a parameter, `real`.

`parse_print` is the round trip: a tree of printable numbers and proper strings is printed without
a fault, and the text is parsed to the same tree.
-/
import Mathlib.Algebra.BigOperators.Group.List.Basic
import Mathlib.Algebra.Order.Ring.Nat
import EmWinDemo.Json.Accepts
import EmWinDemo.Lib.Numerals

namespace EmWinDemo.Json

open EmWinDemo.Lib.CMemory EmWinDemo.Lib.CText EmWinDemo.Lib.Doubles EmWinDemo.Lib.Json
  EmWinDemo.Lib.Numerals

/-! ## Leaves -/

/-- A text composed in a buffer of `size` bytes, with its terminator. -/
def boxed (size : Nat) (out : Bytes) : Except Fault Bytes :=
  if out.length + 1 ≤ size then .ok out else .error .overwrite

/-- `DBL_EPSILON`. -/
def dblEpsilon : Float := 2.2204460492503131e-16

/-- `%d`. -/
def intText (z : Int) : Bytes := sign (z < 0) ++ decimalText z.natAbs

/-- `print_number`. -/
def printNumber (real : Float → Bytes) (item : Number) : Except Fault Bytes :=
  let d := item.valuedouble
  if d == 0 then boxed 2 [48]
  else if (Float.ofInt item.valueint.toInt - d).abs ≤ dblEpsilon ∧ d ≤ Float.ofInt 2147483647 ∧
      Float.ofInt (-2147483648) ≤ d then
    boxed 21 (intText item.valueint.toInt)
  else boxed 64 (real d)

/-- The bytes that set `flag`. -/
def needsEscape (b : UInt8) : Bool := (0 < b && b < 32) || b == 34 || b == 92

/-- What the measuring loop of `print_string_ptr` adds for one byte. -/
def measure (b : UInt8) : Nat :=
  if b ∈ [34, 92, 8, 12, 10, 13, 9] then 2 else if b < 32 then 6 else 1

/-- What the loop of `print_string_ptr` writes for one byte. -/
def escapeByte (b : UInt8) : Bytes :=
  if 31 < b ∧ b ≠ 34 ∧ b ≠ 92 then [b]
  else if b = 92 then [92, 92]
  else if b = 34 then [92, 34]
  else if b = 8 then [92, 98]
  else if b = 12 then [92, 102]
  else if b = 10 then [92, 110]
  else if b = 13 then [92, 114]
  else if b = 9 then [92, 116]
  else [92, 117, 48, 48, digitByte (b.toNat / 16), digitByte (b.toNat % 16)]

/-- `print_string_ptr`, for a pointer that is not null. -/
def printString (str : Bytes) : Except Fault Bytes :=
  let s := cstr str
  if s.any needsEscape then boxed ((s.map measure).sum + 3) (34 :: (s.flatMap escapeByte ++ [34]))
  else boxed (s.length + 3) (34 :: (s ++ [34]))

/-! ## Arrays and objects -/

/-- The entries one after the other, `sep` between them. -/
def joined (sep : Bytes) : List Bytes → Bytes
  | [] => []
  | [entry] => entry
  | entry :: entries => entry ++ (sep ++ joined sep entries)

/-- `print_array`, once its entries are printed. -/
def printArray (fmt : Bool) (entries : List Bytes) : Except Fault Bytes :=
  if entries = [] then boxed 3 [91, 93]
  else boxed (5 + (entries.map fun e => e.length + 2 + (if fmt then 1 else 0)).sum)
    (91 :: (joined (if fmt then [44, 32] else [44]) entries ++ [93]))

/-- `print_object`, once its names and entries are printed. -/
def printObject (fmt : Bool) (depth : Nat) (entries : List (Bytes × Bytes)) :
    Except Fault Bytes :=
  if entries = [] then
    boxed (if fmt then depth + 4 else 3)
      (123 :: ((if fmt then 10 :: List.replicate depth 9 else []) ++ [125]))
  else
    let depth := depth + 1
    boxed (7 + (if fmt then depth else 0) +
        (entries.map fun e => e.2.length + e.1.length + 2 + (if fmt then 2 + depth else 0)).sum)
      (123 :: (joined [44] (entries.map fun e => e.1 ++ 58 :: e.2) ++ [125]))

mutual

/-- `print_value`. -/
def printValue (real : Float → Bytes) (fmt : Bool) (depth : Nat) : Tree → Except Fault Bytes
  | .null => .ok [110, 117, 108, 108]
  | .false => .ok [102, 97, 108, 115, 101]
  | .true => .ok [116, 114, 117, 101]
  | .number x => printNumber real x
  | .string s => printString s
  | .array items => do
    let entries ← printItems real fmt (depth + 1) items
    printArray fmt entries
  | .object members => do
    let entries ← printMembers real fmt (depth + 1) members
    printObject fmt depth entries

/-- The loop that prints the items of an array. -/
def printItems (real : Float → Bytes) (fmt : Bool) (depth : Nat) :
    List Tree → Except Fault (List Bytes)
  | [] => .ok []
  | item :: items => do
    let entry ← printValue real fmt depth item
    let entries ← printItems real fmt depth items
    .ok (entry :: entries)

/-- The loop that prints the members of an object. -/
def printMembers (real : Float → Bytes) (fmt : Bool) (depth : Nat) :
    List (Bytes × Tree) → Except Fault (List (Bytes × Bytes))
  | [] => .ok []
  | m :: ms => do
    let entry ← printMember real fmt depth m
    let entries ← printMembers real fmt depth ms
    .ok (entry :: entries)

/-- A name and its value. -/
def printMember (real : Float → Bytes) (fmt : Bool) (depth : Nat) :
    Bytes × Tree → Except Fault (Bytes × Bytes)
  | (name, v) => do
    let str ← printString name
    let ret ← printValue real fmt depth v
    .ok (str, ret)

end

/-! ## Printable values -/

/-- An integer of type `int`, in both fields. -/
def integer (z : Int32) : Number := ⟨Float.ofInt z.toInt, z⟩

mutual

/-- All numbers are integers, and no string or name holds a NUL. -/
def Printable : Tree → Prop
  | .null => True
  | .false => True
  | .true => True
  | .number x => ∃ z, x = integer z
  | .string s => (0 : UInt8) ∉ s
  | .array items => PrintableItems items
  | .object members => PrintableMembers members

def PrintableItems : List Tree → Prop
  | [] => True
  | v :: vs => Printable v ∧ PrintableItems vs

def PrintableMembers : List (Bytes × Tree) → Prop
  | [] => True
  | m :: ms => PrintableMember m ∧ PrintableMembers ms

def PrintableMember : Bytes × Tree → Prop
  | (name, v) => (0 : UInt8) ∉ name ∧ Printable v

end

/-! ## The text of a leaf -/

theorem boxed_ok {size : Nat} {out : Bytes} (h : out.length + 1 ≤ size) :
    boxed size out = .ok out := if_pos h

theorem toInt_bounds (z : Int32) : -2 ^ 31 ≤ z.toInt ∧ z.toInt < 2 ^ 31 :=
  ⟨z.le_toInt, z.toInt_lt⟩

theorem exact_toInt (z : Int32) : Exact z.toInt := by
  have := toInt_bounds z
  unfold Exact
  omega

/-- `%d` writes a numeral. -/
theorem intText_numeral (z : Int) : Numeral ⟨z < 0, z.natAbs, 0, 0⟩ (intText z) := by
  have hall := isDigit_decimalText z.natAbs
  have hwhole : Whole (decimalText z.natAbs) := by
    by_cases hzero : z.natAbs = 0
    · rw [hzero]
      exact Whole.zero
    · obtain ⟨b, s, hbs, hlow, hhigh⟩ := decimalText_head (Nat.pos_of_ne_zero hzero)
      rw [hbs] at hall ⊢
      exact Whole.digits hlow hhigh fun c hc => hall c (List.mem_cons_of_mem b hc)
  have hnumeral := @Numeral.mk (z < 0) _ [] _ _ hwhole nofun Exponent.none
  rw [digitsValue_decimalText] at hnumeral
  simpa [fraction, digitsValue, intText] using hnumeral

/-- The numeral is read as the integer. -/
theorem number_integer {pow : Float → Float → Float} (hpow : ∀ x, pow x 0 = 1) (z : Int32) :
    number pow ⟨z.toInt < 0, z.toInt.natAbs, 0, 0⟩ = integer z := by
  obtain ⟨hlow, hhigh⟩ := toInt_bounds z
  obtain ⟨hdouble, hint⟩ := @number_integral pow hpow ⟨z.toInt < 0, z.toInt.natAbs, 0, 0⟩
    ⟨exact_toInt z, Nat.two_pow_pos 31, rfl⟩
  have hsign : (if decide (z.toInt < 0) = true then -(z.toInt.natAbs : Int) else z.toInt.natAbs) =
      z.toInt := by
    by_cases hneg : z.toInt < 0
    · rw [if_pos (decide_eq_true hneg)]
      omega
    · rw [if_neg (by simpa using hneg)]
      omega
  refine Number.ext ?_ ?_
  · rw [hdouble, signed_ofInt, hsign]
    · rfl
    · intro hzero
      have hnonneg : ¬z.toInt < 0 := by rw [Int.natAbs_eq_zero.mp hzero]; decide
      exact decide_eq_false hnonneg
  · rw [hint z.toInt hsign.symm hlow hhigh, Int32.ofInt_toInt]
    rfl

theorem length_intText (z : Int32) : (intText z.toInt).length ≤ 11 := by
  obtain ⟨hlow, hhigh⟩ := toInt_bounds z
  have hdigits : (decimalText z.toInt.natAbs).length ≤ 10 := by
    rw [length_decimalText_le_iff (by decide)]
    omega
  have hsign : (sign (z.toInt < 0)).length ≤ 1 := by
    unfold sign
    split <;> simp
  rw [intText, List.length_append]
  omega

theorem printNumber_integer (real : Float → Bytes) (z : Int32) :
    printNumber real (integer z) = .ok (intText z.toInt) := by
  obtain ⟨hlow, hhigh⟩ := toInt_bounds z
  have hexact := exact_toInt z
  have hlen := length_intText z
  have hbeq := beq_zero_ofInt hexact
  unfold printNumber integer
  dsimp only
  by_cases hzero : z.toInt = 0
  · rw [hbeq, if_pos (decide_eq_true hzero), hzero]
    rfl
  · -- the two fields do not differ at all, and the range is that of the type
    have hdiff : (Float.ofInt z.toInt - Float.ofInt z.toInt).abs ≤ dblEpsilon := by
      rw [ofInt_sub hexact hexact (by rw [Int.sub_self]; exact Nat.two_pow_pos 53), Int.sub_self]
      decide +kernel
    have hmax : Float.ofInt z.toInt ≤ Float.ofInt 2147483647 :=
      ofInt_le hexact (by unfold Exact; decide) (by omega)
    have hmin : Float.ofInt (-2147483648) ≤ Float.ofInt z.toInt :=
      ofInt_le (by unfold Exact; decide) hexact (by omega)
    rw [hbeq, decide_eq_false hzero, if_neg Bool.false_ne_true, if_pos ⟨hdiff, hmax, hmin⟩,
      boxed_ok (by omega)]

/-- A control character as four hexadecimal digits. -/
theorem control_unicode {n : Nat} (hn : n < 32) (hpos : n ≠ 0) :
    Piece [UInt8.ofNat n] [92, 117, 48, 48, digitByte (n / 16), digitByte (n % 16)] := by
  have hvalid : n.isValidChar := Or.inl (by omega)
  have hchar : (Char.ofNat n).toNat = n := by rw [Char.toNat_ofNat, if_pos hvalid]
  have hutf8 : String.utf8EncodeChar (Char.ofNat n) = [UInt8.ofNat n] := by
    rw [String.utf8EncodeChar, show (Char.ofNat n).val.toNat = n from hchar]
    exact if_pos (by omega)
  obtain ⟨hhigh, hhighValue⟩ := digitByte_hex (d := n / 16) (by omega)
  obtain ⟨hlow, hlowValue⟩ := digitByte_hex (d := n % 16) (by omega)
  have hdigits : ∀ b ∈ [48, 48, digitByte (n / 16), digitByte (n % 16)], isXDigit b = true := by
    simp only [List.forall_mem_cons, hhigh, hlow, true_and]
    exact ⟨rfl, rfl, nofun⟩
  have hzero : isXDigit 48 = true ∧ xdigitValue 48 = 0 := ⟨rfl, rfl⟩
  have hvalue : strtol16 0 [48, 48, digitByte (n / 16), digitByte (n % 16)] = n := by
    simp only [strtol16, hzero, hhigh, hlow, hhighValue, hlowValue, if_true]
    omega
  rw [← hutf8]
  exact Piece.unicode (by rwa [hchar]) ⟨rfl, hdigits, by rw [hchar, hvalue]⟩

theorem escapeByte_piece {b : UInt8} (hb : b ≠ 0) : Piece [b] (escapeByte b) := by
  unfold escapeByte
  split
  · next h =>
    obtain ⟨hlow, hquote, hslash⟩ := h
    refine Piece.plain ?_ hquote hslash
    simp only [UInt8.lt_iff_toNat_lt, UInt8.le_iff_toNat_le, UInt8.reduceToNat] at hlow ⊢
    omega
  next hplain =>
  split
  · next h =>
    subst h
    exact Piece.escape (by decide)
  split
  · next h =>
    subst h
    exact Piece.escape (by decide)
  split
  · next h =>
    subst h
    exact Piece.escape (by decide)
  split
  · next h =>
    subst h
    exact Piece.escape (by decide)
  split
  · next h =>
    subst h
    exact Piece.escape (by decide)
  split
  · next h =>
    subst h
    exact Piece.escape (by decide)
  split
  · next h =>
    subst h
    exact Piece.escape (by decide)
  next hslash hquote _ _ _ _ _ =>
  have hlow : ¬31 < b := fun h => hplain ⟨h, hquote, hslash⟩
  have hn : b.toNat < 32 := by
    simp only [UInt8.lt_iff_toNat_lt, UInt8.reduceToNat] at hlow
    omega
  have hpos : b.toNat ≠ 0 := fun h => hb (UInt8.toNat_inj.mp h)
  have hpiece := control_unicode hn hpos
  rwa [UInt8.ofNat_toNat] at hpiece

/-- The measuring loop counts what the other loop writes. -/
theorem length_escapeByte (b : UInt8) : (escapeByte b).length = measure b := by
  have hall : ∀ n : Fin 256, (escapeByte (UInt8.ofNat n)).length = measure (UInt8.ofNat n) := by
    decide +kernel
  have hb := hall ⟨b.toNat, b.toNat_lt⟩
  rwa [UInt8.ofNat_toNat] at hb

theorem length_flatMap_escapeByte (s : Bytes) :
    (s.flatMap escapeByte).length = (s.map measure).sum := by
  rw [List.length_flatMap]
  congr 1
  exact List.map_congr_left fun b _ => length_escapeByte b

theorem flatMap_body {s : Bytes} (hs : (0 : UInt8) ∉ s) : Body s (s.flatMap escapeByte) := by
  induction s with
  | nil => exact Body.nil
  | cons b s ih =>
    have hb : b ≠ 0 := fun hb => hs (hb ▸ List.mem_cons_self)
    exact Body.cons (escapeByte_piece hb) (ih fun h => hs (List.mem_cons_of_mem b h))

/-- A string without a character to escape is its own text. -/
theorem plain_body {s : Bytes} (hs : (0 : UInt8) ∉ s) (hplain : ∀ b ∈ s, needsEscape b = false) :
    Body s s := by
  induction s with
  | nil => exact Body.nil
  | cons b s ih =>
    have hb : b ≠ 0 := fun hb => hs (hb ▸ List.mem_cons_self)
    have hflag := hplain b List.mem_cons_self
    simp only [needsEscape, Bool.or_eq_false_iff, Bool.and_eq_false_imp, decide_eq_true_eq,
      decide_eq_false_iff_not, beq_eq_false_iff_ne] at hflag
    obtain ⟨⟨hlow, hquote⟩, hslash⟩ := hflag
    have hpos : 0 < b := UInt8.pos_iff_ne_zero.mpr hb
    have hpiece := Piece.plain (UInt8.not_lt.mp (hlow hpos)) hquote hslash
    exact Body.cons hpiece (ih (fun h => hs (List.mem_cons_of_mem b h))
      fun c hc => hplain c (List.mem_cons_of_mem b hc))

/-- A string is printed as a text that stands for it, in the buffer that was measured. -/
theorem printString_body {s : Bytes} (hs : (0 : UInt8) ∉ s) :
    ∃ k, printString s = .ok (34 :: (k ++ [34])) ∧ Body s k := by
  have hcstr : cstr s = s := cstr_of_zero_not_mem hs
  unfold printString
  rw [hcstr]
  dsimp only
  split
  · refine ⟨s.flatMap escapeByte, boxed_ok ?_, flatMap_body hs⟩
    have := length_flatMap_escapeByte s
    simp only [List.length_cons, List.length_append, List.length_nil]
    omega
  · next hflag =>
    refine ⟨s, boxed_ok (by simp), plain_body hs fun b hb => ?_⟩
    cases hescape : needsEscape b with
    | false => rfl
    | true => exact absurd (List.any_eq_true.mpr ⟨b, hb, hescape⟩) hflag

/-! ## Arrays and objects -/

variable {α : Type} {pow : Float → Float → Float}

/-- The entries and what stands between them take no more room than each entry's share. -/
theorem length_joined_le (sep : Bytes) (f : α → Bytes) (cost : α → Nat)
    (h : ∀ e, (f e).length + sep.length ≤ cost e) (entries : List α) :
    (joined sep (entries.map f)).length ≤ (entries.map cost).sum := by
  induction entries with
  | nil => exact le_refl 0
  | cons e entries ih =>
    have he := h e
    cases entries with
    | nil =>
      show (f e).length ≤ _
      simp only [List.map_cons, List.map_nil, List.sum_cons, List.sum_nil]
      omega
    | cons e' entries =>
      show (f e ++ (sep ++ joined sep ((e' :: entries).map f))).length ≤ _
      rw [List.length_append, List.length_append, List.map_cons (f := cost), List.sum_cons]
      omega

/-- White space in front of the items belongs to the first of them. -/
theorem items_blank {w : Bytes} (hw : Blank w) {vs : List Tree} {t : Bytes}
    (h : Items (number pow) vs t) : Items (number pow) vs (w ++ t) := by
  have happend : ∀ {w' : Bytes}, Blank w' → Blank (w ++ w') := by
    intro w' hw' b hb
    rcases List.mem_append.mp hb with hb | hb
    · exact hw b hb
    · exact hw' b hb
  cases h with
  | one hw₁ hv hw₂ =>
    rw [← List.append_assoc]
    exact Items.one (happend hw₁) hv hw₂
  | cons hw₁ hv hw₂ hs =>
    rw [← List.append_assoc]
    exact Items.cons (happend hw₁) hv hw₂ hs

theorem joined_items {w : Bytes} (hw : Blank w) {vs : List Tree} {entries : List Bytes}
    (h : List.Forall₂ (Derives (number pow)) vs entries) (hne : entries ≠ []) :
    Items (number pow) vs (joined (44 :: w) entries) := by
  induction h with
  | nil => exact absurd rfl hne
  | @cons v t vs entries hv hs ih =>
    cases hs with
    | nil =>
      have hone := Items.one blank_nil hv blank_nil
      rwa [List.nil_append, List.append_nil] at hone
    | cons hv' hs' =>
      have hmore := items_blank hw (ih (by simp))
      exact Items.cons blank_nil hv blank_nil hmore

/-- A name and an entry that stand for a member. -/
def MemberTexts (pow : Float → Float → Float) (m : Bytes × Tree) (e : Bytes × Bytes) : Prop :=
  ∃ k, e.1 = 34 :: (k ++ [34]) ∧ Body m.1 k ∧ Derives (number pow) m.2 e.2

theorem MemberTexts.member {m : Bytes × Tree} {e : Bytes × Bytes} (h : MemberTexts pow m e) :
    Member (number pow) m (e.1 ++ 58 :: e.2) := by
  obtain ⟨name, v⟩ := m
  obtain ⟨k, hname, hk, hv⟩ := h
  have hmember := Member.mk blank_nil hk blank_nil blank_nil hv blank_nil
  rw [hname]
  simpa using hmember

theorem joined_members {ms : List (Bytes × Tree)} {entries : List (Bytes × Bytes)}
    (h : List.Forall₂ (MemberTexts pow) ms entries) (hne : entries ≠ []) :
    Members (number pow) ms (joined [44] (entries.map fun e => e.1 ++ 58 :: e.2)) := by
  induction h with
  | nil => exact absurd rfl hne
  | @cons m e ms entries hm hs ih =>
    cases hs with
    | nil => exact Members.one hm.member
    | cons hm' hs' => exact Members.cons hm.member (ih (by simp))

theorem printArray_derives (fmt : Bool) {vs : List Tree} {entries : List Bytes}
    (h : List.Forall₂ (Derives (number pow)) vs entries) :
    ∃ t, printArray fmt entries = .ok t ∧ Derives (number pow) (.array vs) t := by
  unfold printArray
  split
  · next hnil =>
    subst hnil
    cases h
    exact ⟨_, boxed_ok (by decide), Derives.emptyArray blank_nil⟩
  · next hne =>
    have hblank : Blank [32] := by simp [Blank]
    have hlen := length_joined_le (if fmt then [44, 32] else [44]) id
      (fun e : Bytes => e.length + 2 + (if fmt then 1 else 0))
      (by intro e; cases fmt <;> simp) entries
    rw [List.map_id] at hlen
    refine ⟨_, boxed_ok ?_, ?_⟩
    · simp only [List.length_cons, List.length_append, List.length_nil]
      omega
    · cases fmt with
      | true => exact Derives.array (joined_items hblank h hne)
      | false => exact Derives.array (joined_items blank_nil h hne)

theorem printObject_derives (fmt : Bool) (depth : Nat) {ms : List (Bytes × Tree)}
    {entries : List (Bytes × Bytes)} (h : List.Forall₂ (MemberTexts pow) ms entries) :
    ∃ t, printObject fmt depth entries = .ok t ∧ Derives (number pow) (.object ms) t := by
  unfold printObject
  split
  · next hnil =>
    subst hnil
    cases h
    have hblank : Blank (if fmt then 10 :: List.replicate depth 9 else []) := by
      intro b hb
      cases fmt with
      | false => cases hb
      | true =>
        rcases List.mem_cons.mp hb with rfl | hb
        · exact Or.inr (Or.inr (Or.inl rfl))
        · exact Or.inr (Or.inl (List.eq_of_mem_replicate hb))
    refine ⟨_, boxed_ok ?_, Derives.emptyObject hblank⟩
    cases fmt <;> simp
  · next hne =>
    have hlen := length_joined_le [44] (fun e : Bytes × Bytes => e.1 ++ 58 :: e.2)
      (fun e => e.2.length + e.1.length + 2 + (if fmt then 2 + (depth + 1) else 0))
      (by intro e; simp only [List.length_append, List.length_cons, List.length_nil]; omega) entries
    refine ⟨_, boxed_ok ?_, Derives.object (joined_members h hne)⟩
    simp only [List.length_cons, List.length_append, List.length_nil]
    omega

/-! ## Trees -/

variable (real : Float → Bytes) (fmt : Bool)

mutual

/-- A printable tree is printed as a text that stands for it. -/
theorem printValue_derives (hpow : ∀ x, pow x 0 = 1) (v : Tree) (h : Printable v) (depth : Nat) :
    ∃ t, printValue real fmt depth v = .ok t ∧ Derives (number pow) v t := by
  match v with
  | .null => exact ⟨_, rfl, Derives.literalNull⟩
  | .false => exact ⟨_, rfl, Derives.literalFalse⟩
  | .true => exact ⟨_, rfl, Derives.literalTrue⟩
  | .number x =>
    obtain ⟨z, rfl⟩ := h
    rw [← number_integer hpow z]
    refine ⟨_, ?_, Derives.number (intText_numeral z.toInt)⟩
    rw [number_integer hpow z]
    exact printNumber_integer real z
  | .string s =>
    obtain ⟨k, hk, hbody⟩ := printString_body h
    exact ⟨_, hk, Derives.string hbody⟩
  | .array items =>
    obtain ⟨entries, hentries, htexts⟩ := printItems_derives hpow items h (depth + 1)
    obtain ⟨t, ht, hv⟩ := printArray_derives fmt htexts
    refine ⟨t, ?_, hv⟩
    rw [printValue, hentries]
    exact ht
  | .object members =>
    obtain ⟨entries, hentries, htexts⟩ := printMembers_derives hpow members h (depth + 1)
    obtain ⟨t, ht, hv⟩ := printObject_derives fmt depth htexts
    refine ⟨t, ?_, hv⟩
    rw [printValue, hentries]
    exact ht

theorem printItems_derives (hpow : ∀ x, pow x 0 = 1) (vs : List Tree) (h : PrintableItems vs)
    (depth : Nat) : ∃ entries, printItems real fmt depth vs = .ok entries ∧
      List.Forall₂ (Derives (number pow)) vs entries := by
  match vs with
  | [] => exact ⟨[], rfl, List.Forall₂.nil⟩
  | v :: vs =>
    obtain ⟨t, ht, hv⟩ := printValue_derives hpow v h.1 depth
    obtain ⟨entries, hentries, hvs⟩ := printItems_derives hpow vs h.2 depth
    refine ⟨t :: entries, ?_, List.Forall₂.cons hv hvs⟩
    rw [printItems, ht, hentries]
    rfl

theorem printMembers_derives (hpow : ∀ x, pow x 0 = 1) (ms : List (Bytes × Tree))
    (h : PrintableMembers ms) (depth : Nat) :
    ∃ entries, printMembers real fmt depth ms = .ok entries ∧
      List.Forall₂ (MemberTexts pow) ms entries := by
  match ms with
  | [] => exact ⟨[], rfl, List.Forall₂.nil⟩
  | m :: ms =>
    obtain ⟨e, he, hm⟩ := printMember_derives hpow m h.1 depth
    obtain ⟨entries, hentries, hms⟩ := printMembers_derives hpow ms h.2 depth
    refine ⟨e :: entries, ?_, List.Forall₂.cons hm hms⟩
    rw [printMembers, he, hentries]
    rfl

theorem printMember_derives (hpow : ∀ x, pow x 0 = 1) (m : Bytes × Tree) (h : PrintableMember m)
    (depth : Nat) :
    ∃ e, printMember real fmt depth m = .ok e ∧ MemberTexts pow m e := by
  match m with
  | (name, v) =>
    obtain ⟨k, hk, hbody⟩ := printString_body h.1
    obtain ⟨t, ht, hv⟩ := printValue_derives hpow v h.2 depth
    refine ⟨(34 :: (k ++ [34]), t), ?_, k, rfl, hbody, hv⟩
    rw [printMember, hk, ht]
    rfl

end

/-- **The round trip.** A printable tree is printed, formatted or not, within the buffers that are
allocated for it, and `cJSON_ParseWithOpts` makes the same tree of the text. -/
theorem parse_print (hpow : ∀ x, pow x 0 = 1) (v : Tree) (h : Printable v) (tail : Bytes) :
    ∃ t, printValue real fmt 0 v = .ok t ∧
      parseWithOpts pow (t ++ 0 :: tail) true = .ok (v, 0 :: tail) := by
  obtain ⟨t, ht, hv⟩ := printValue_derives real fmt hpow v h 0
  have hparse := parseWithOpts_text blank_nil hv blank_nil tail true
  exact ⟨t, ht, hparse⟩

theorem parse_print_list :
    ∃ t, printValue (fun _ => []) true 0
        (.object [([97], .array [.number (integer (-40)), .string [10, 195, 169]])]) = .ok t ∧
      parseWithOpts firstPowers (t ++ 0 :: [1]) true =
        .ok (.object [([97], .array [.number (integer (-40)), .string [10, 195, 169]])],
          0 :: [1]) := by
  apply parse_print
  · exact firstPowers_zero
  · simp only [Printable, PrintableItems, PrintableMembers, PrintableMember, and_true]
    exact ⟨by decide, ⟨-40, rfl⟩, by decide⟩

end EmWinDemo.Json
