/-
# EmWinDemo.Lib.CText -- the character and number functions of the C library

A C string is given by the bytes before its terminator.  Classification and case mapping are those
of the "C" locale: only ASCII letters and digits count.  `atoi` works on unbounded integers, so a
text with too many digits has its mathematical value.
-/
import EmWinDemo.Lib.CMemory

namespace EmWinDemo.Lib.CText

open EmWinDemo.Lib.CMemory

/-- The bytes of an ASCII literal. -/
def ascii (cs : List Char) : Bytes := cs.map fun c => UInt8.ofNat c.toNat

/-! ## Classification -/

/-- Space, tab, line feed, vertical tab, form feed, carriage return. -/
def isSpace (b : UInt8) : Bool := b == 32 || (9 ≤ b && b ≤ 13)

def isDigit (b : UInt8) : Bool := 48 ≤ b && b ≤ 57

def isAlpha (b : UInt8) : Bool := (65 ≤ b && b ≤ 90) || (97 ≤ b && b ≤ 122)

def isXDigit (b : UInt8) : Bool := isDigit b || (65 ≤ b && b ≤ 70) || (97 ≤ b && b ≤ 102)

def toLower (b : UInt8) : UInt8 := if 65 ≤ b && b ≤ 90 then b + 32 else b

/-! ## `atoi` -/

/-- The value of the leading digits, `acc` being the value of those already read. -/
def digitsValue (acc : Nat) : Bytes → Nat
  | [] => acc
  | b :: s => if isDigit b then digitsValue (10 * acc + (b.toNat - 48)) s else acc

/-- An optional sign and the digits after it. -/
def signedValue : Bytes → Int
  | 45 :: s => -(digitsValue 0 s : Int)
  | 43 :: s => digitsValue 0 s
  | s => digitsValue 0 s

/-- White space is skipped; a text that does not go on with a number has the value zero. -/
def atoi (s : Bytes) : Int := signedValue (s.dropWhile isSpace)

example : atoi (ascii [' ', '-', '4', '2', 'x']) = -42 := by decide

/-! ## Hexadecimal digits -/

/-- The value of a hexadecimal digit. -/
def xdigitValue (b : UInt8) : Nat :=
  if isDigit b then b.toNat - 48 else if 97 ≤ b then b.toNat - 87 else b.toNat - 55

/-- The digit of a value below 16. -/
def xdigit (n : Nat) : UInt8 := if n < 10 then UInt8.ofNat (48 + n) else UInt8.ofNat (55 + n)

/-- `strtol` with base 16, for a text that starts with a digit: the value of the leading digits. -/
def strtol16 (acc : Nat) : Bytes → Nat
  | [] => acc
  | b :: s => if isXDigit b then strtol16 (16 * acc + xdigitValue b) s else acc

theorem xdigit_spec {n : Nat} (h : n < 16) :
    isXDigit (xdigit n) = true ∧ xdigitValue (xdigit n) = n ∧ xdigit n ≠ 0 := by
  have hall : ∀ n < 16, isXDigit (xdigit n) = true ∧ xdigitValue (xdigit n) = n ∧
      xdigit n ≠ 0 := by decide
  exact hall n h

theorem strtol16_pair {a b : UInt8} (ha : isXDigit a = true) (hb : isXDigit b = true) :
    strtol16 0 [a, b] = 16 * xdigitValue a + xdigitValue b := by
  rw [strtol16, if_pos ha, strtol16, if_pos hb, strtol16]
  omega

/-! ## Searching -/

/-- `strchr`: the text from the first occurrence of `b` on. -/
def strchr (s : Bytes) (b : UInt8) : Option Bytes :=
  match s with
  | [] => none
  | c :: rest => if c = b then some (c :: rest) else strchr rest b

theorem strchr_eq_none {s : Bytes} {b : UInt8} : strchr s b = none ↔ b ∉ s := by
  induction s with
  | nil => simp [strchr]
  | cons c s ih =>
    rw [strchr]
    split
    · next h => simp [h]
    · next h => rw [ih, List.mem_cons, not_or, and_iff_right fun hb : b = c => h hb.symm]

theorem strchr_eq_some {s c : Bytes} {b : UInt8} (h : strchr s b = some c) :
    ∃ p q, s = p ++ b :: q ∧ c = b :: q := by
  induction s with
  | nil => cases h
  | cons d s ih =>
    rw [strchr] at h
    split at h
    · next hd =>
      obtain rfl := Option.some.inj h
      exact ⟨[], s, by rw [hd]; rfl, by rw [hd]⟩
    · obtain ⟨p, q, rfl, hc⟩ := ih h
      exact ⟨d :: p, q, rfl, hc⟩

/-- `strstr`: the text from the first occurrence of `needle` on. -/
def strstr (s needle : Bytes) : Option Bytes :=
  if needle.isPrefixOf s then some s
  else match s with
    | [] => none
    | _ :: rest => strstr rest needle

/-- `strcspn` with a single stop byte: how many bytes stand before its first occurrence. -/
def strcspn (s : Bytes) (stop : UInt8) : Nat := (s.takeWhile (· != stop)).length

theorem strstr_append (needle s : Bytes) : strstr (needle ++ s) needle = some (needle ++ s) := by
  have hfront : needle.isPrefixOf (needle ++ s) = true :=
    List.isPrefixOf_iff_prefix.mpr (List.prefix_append needle s)
  unfold strstr
  rw [if_pos hfront]

theorem isPrefixOf_append_sep {needle : Bytes} {sep : UInt8} (h : sep ∉ needle) (p rest : Bytes) :
    needle.isPrefixOf (p ++ sep :: rest) = needle.isPrefixOf p := by
  induction needle generalizing p with
  | nil => cases p <;> rfl
  | cons a needle ih =>
    have hrest : sep ∉ needle := fun hm => h (List.mem_cons_of_mem _ hm)
    cases p with
    | nil =>
      have ha : (a == sep) = false := beq_eq_false_iff_ne.mpr fun hm => h (hm ▸ List.mem_cons_self)
      simp [List.isPrefixOf, ha]
    | cons c p => simp only [List.cons_append, List.isPrefixOf, ih hrest p]

theorem strstr_nil {needle : Bytes} (h : needle ≠ []) : strstr [] needle = none := by
  cases needle with
  | nil => exact absurd rfl h
  | cons a needle => rfl

/-- A text without the separator is found on one side of it. -/
theorem strstr_append_sep {needle : Bytes} {sep : UInt8} (hne : needle ≠ []) (h : sep ∉ needle)
    (p rest : Bytes) : strstr (p ++ sep :: rest) needle =
      ((strstr p needle).map fun t => t ++ sep :: rest).or (strstr rest needle) := by
  induction p with
  | nil =>
    have hfront := isPrefixOf_append_sep h [] rest
    have hnil : needle.isPrefixOf [] = false := by
      cases needle with
      | nil => exact absurd rfl hne
      | cons a needle => rfl
    rw [strstr_nil hne, List.nil_append, strstr, ← List.nil_append (sep :: rest), hfront, hnil]
    rfl
  | cons c p ih =>
    have hfront := isPrefixOf_append_sep h (c :: p) rest
    rw [List.cons_append] at hfront ⊢
    rw [strstr, strstr, hfront]
    split
    · rfl
    · exact ih

theorem eq_append_of_isPrefixOf {s needle : Bytes} (h : needle.isPrefixOf s = true) :
    ∃ u, s = needle ++ u := by
  obtain ⟨u, hu⟩ := List.isPrefixOf_iff_prefix.mp h
  exact ⟨u, hu.symm⟩

/-- What is found starts with the text and is the end of what was searched. -/
theorem strstr_eq_some {s needle t : Bytes} (h : strstr s needle = some t) :
    ∃ p u, s = p ++ t ∧ t = needle ++ u := by
  induction s with
  | nil =>
    rw [strstr] at h
    split at h
    · next hfront =>
      obtain rfl := Option.some.inj h
      obtain ⟨u, hu⟩ := eq_append_of_isPrefixOf hfront
      exact ⟨[], u, rfl, hu⟩
    · cases h
  | cons c s ih =>
    rw [strstr] at h
    split at h
    · next hfront =>
      obtain rfl := Option.some.inj h
      obtain ⟨u, hu⟩ := eq_append_of_isPrefixOf hfront
      exact ⟨[], u, rfl, hu⟩
    · obtain ⟨p, u, rfl, ht⟩ := ih h
      exact ⟨c :: p, u, rfl, ht⟩

theorem strchr_append {s : Bytes} {b : UInt8} (h : b ∉ s) (rest : Bytes) :
    strchr (s ++ b :: rest) b = some (b :: rest) := by
  induction s with
  | nil => simp [strchr]
  | cons c s ih =>
    have hc : c ≠ b := fun hc => h (hc ▸ List.mem_cons_self)
    rw [List.cons_append, strchr, if_neg hc, ih fun hm => h (List.mem_cons_of_mem _ hm)]

theorem strcspn_append {s : Bytes} {stop : UInt8} (h : stop ∉ s) (rest : Bytes) :
    strcspn (s ++ stop :: rest) stop = s.length := by
  induction s with
  | nil => simp [strcspn]
  | cons c s ih =>
    have hc : c ≠ stop := fun hc => h (hc ▸ List.mem_cons_self)
    have ih' := ih fun hm => h (List.mem_cons_of_mem _ hm)
    unfold strcspn at ih' ⊢
    rw [List.cons_append, List.takeWhile_cons_of_pos (by simpa using hc), List.length_cons, ih']
    rfl

theorem strcspn_of_not_mem {s : Bytes} {stop : UInt8} (h : stop ∉ s) :
    strcspn s stop = s.length := by
  have hall : s.takeWhile (· != stop) = s := by
    rw [List.takeWhile_eq_self_iff]
    intro b hb
    simpa using fun heq : b = stop => h (heq ▸ hb)
  rw [strcspn, hall]

end EmWinDemo.Lib.CText
