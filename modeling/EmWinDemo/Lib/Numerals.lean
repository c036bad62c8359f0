/-
# EmWinDemo.Lib.Numerals -- numbers written out and read back

The decimal and the hexadecimal digits of a number, as `printf` writes them with `%d` and `%x`, and
the two loops of `CText` that read digits.  Reading what was written gives the number back.
-/
import Mathlib.Algebra.Order.Ring.Nat
import EmWinDemo.Lib.CText

namespace EmWinDemo.Lib.Numerals

open EmWinDemo.Lib.CMemory EmWinDemo.Lib.CText

/-- `%d` of a number that is not negative. -/
def decimalText (n : Nat) : Bytes := ascii (Nat.toDigits 10 n)

/-- `%x`. -/
def hexText (n : Nat) : Bytes := ascii (Nat.toDigits 16 n)

theorem ascii_append (s t : List Char) : ascii (s ++ t) = ascii s ++ ascii t :=
  List.map_append

/-! ## Single digits -/

/-- The character of a digit, as a byte. -/
def digitByte (d : Nat) : UInt8 := UInt8.ofNat (Nat.digitChar d).toNat

theorem digitByte_decimal {d : Nat} (hd : d < 10) :
    isDigit (digitByte d) = true ∧ (digitByte d).toNat - 48 = d ∧ (d ≠ 0 → 49 ≤ digitByte d) := by
  have hall : ∀ d < 10, isDigit (digitByte d) = true ∧ (digitByte d).toNat - 48 = d ∧
      (d ≠ 0 → 49 ≤ digitByte d) := by decide
  exact hall d hd

theorem digitByte_hex {d : Nat} (hd : d < 16) :
    isXDigit (digitByte d) = true ∧ xdigitValue (digitByte d) = d := by
  have hall : ∀ d < 16, isXDigit (digitByte d) = true ∧ xdigitValue (digitByte d) = d := by decide
  exact hall d hd

/-- The last digit, and the number in front of it. -/
theorem ascii_toDigits {b : Nat} (hb : 1 < b) (n : Nat) :
    ascii (Nat.toDigits b n) =
      if n < b then [digitByte n] else ascii (Nat.toDigits b (n / b)) ++ [digitByte (n % b)] := by
  rw [Nat.toDigits_eq_if hb]
  split
  · rfl
  · rw [ascii_append]
    rfl

theorem decimalText_eq (n : Nat) : decimalText n =
    if n < 10 then [digitByte n] else decimalText (n / 10) ++ [digitByte (n % 10)] :=
  ascii_toDigits (by decide) n

theorem hexText_eq (n : Nat) : hexText n =
    if n < 16 then [digitByte n] else hexText (n / 16) ++ [digitByte (n % 16)] :=
  ascii_toDigits (by decide) n

/-! ## Reading -/

/-- All bytes are digits. -/
theorem digitsValue_append {s : Bytes} (hs : ∀ b ∈ s, isDigit b = true) (acc : Nat) (t : Bytes) :
    digitsValue acc (s ++ t) = digitsValue (digitsValue acc s) t := by
  induction s generalizing acc with
  | nil => rfl
  | cons b s ih =>
    have hb := hs b List.mem_cons_self
    rw [List.cons_append, digitsValue, if_pos hb, ih fun c hc => hs c (List.mem_cons_of_mem b hc),
      digitsValue, if_pos hb]

theorem strtol16_append {s : Bytes} (hs : ∀ b ∈ s, isXDigit b = true) (acc : Nat) (t : Bytes) :
    strtol16 acc (s ++ t) = strtol16 (strtol16 acc s) t := by
  induction s generalizing acc with
  | nil => rfl
  | cons b s ih =>
    have hb := hs b List.mem_cons_self
    rw [List.cons_append, strtol16, if_pos hb, ih fun c hc => hs c (List.mem_cons_of_mem b hc),
      strtol16, if_pos hb]

theorem isDigit_decimalText (n : Nat) : ∀ b ∈ decimalText n, isDigit b = true := by
  induction n using Nat.strongRecOn with
  | ind n ih =>
    intro b hb
    rw [decimalText_eq] at hb
    split at hb
    · next hn =>
      rw [List.mem_singleton.mp hb]
      exact (digitByte_decimal hn).1
    · next hn =>
      rcases List.mem_append.mp hb with hb | hb
      · exact ih (n / 10) (by omega) b hb
      · rw [List.mem_singleton.mp hb]
        exact (digitByte_decimal (Nat.mod_lt n (by decide))).1

theorem isXDigit_hexText (n : Nat) : ∀ b ∈ hexText n, isXDigit b = true := by
  induction n using Nat.strongRecOn with
  | ind n ih =>
    intro b hb
    rw [hexText_eq] at hb
    split at hb
    · next hn =>
      rw [List.mem_singleton.mp hb]
      exact (digitByte_hex hn).1
    · next hn =>
      rcases List.mem_append.mp hb with hb | hb
      · exact ih (n / 16) (by omega) b hb
      · rw [List.mem_singleton.mp hb]
        exact (digitByte_hex (Nat.mod_lt n (by decide))).1

/-- **Decimal digits are read back.** -/
theorem digitsValue_decimalText (n : Nat) : digitsValue 0 (decimalText n) = n := by
  induction n using Nat.strongRecOn with
  | ind n ih =>
    have hone : ∀ acc d, d < 10 → digitsValue acc [digitByte d] = 10 * acc + d := by
      intro acc d hd
      obtain ⟨hdigit, hvalue, -⟩ := digitByte_decimal hd
      rw [digitsValue, if_pos hdigit, hvalue]
      rfl
    rw [decimalText_eq]
    split
    · next hn => rw [hone 0 n hn, Nat.mul_zero, Nat.zero_add]
    · next hn =>
      rw [digitsValue_append (isDigit_decimalText (n / 10)), ih (n / 10) (by omega),
        hone _ _ (Nat.mod_lt n (by decide)), Nat.div_add_mod]

/-- **Hexadecimal digits are read back.** -/
theorem strtol16_hexText (n : Nat) : strtol16 0 (hexText n) = n := by
  induction n using Nat.strongRecOn with
  | ind n ih =>
    have hone : ∀ acc d, d < 16 → strtol16 acc [digitByte d] = 16 * acc + d := by
      intro acc d hd
      obtain ⟨hdigit, hvalue⟩ := digitByte_hex hd
      rw [strtol16, if_pos hdigit, hvalue]
      rfl
    rw [hexText_eq]
    split
    · next hn => rw [hone 0 n hn, Nat.mul_zero, Nat.zero_add]
    · next hn =>
      rw [strtol16_append (isXDigit_hexText (n / 16)), ih (n / 16) (by omega),
        hone _ _ (Nat.mod_lt n (by decide)), Nat.div_add_mod]

/-- The first digit of a positive number is not zero. -/
theorem decimalText_head {n : Nat} (hn : 0 < n) :
    ∃ b s, decimalText n = b :: s ∧ 49 ≤ b ∧ b ≤ 57 := by
  induction n using Nat.strongRecOn with
  | ind n ih =>
    rw [decimalText_eq]
    split
    · next hlt =>
      obtain ⟨hdigit, -, hlow⟩ := digitByte_decimal hlt
      have hbounds : 48 ≤ digitByte n ∧ digitByte n ≤ 57 := by simpa [isDigit] using hdigit
      exact ⟨digitByte n, [], rfl, hlow (Nat.ne_of_gt hn), hbounds.2⟩
    · next hge =>
      obtain ⟨b, s, hbs, hb⟩ := ih (n / 10) (by omega) (by omega)
      exact ⟨b, s ++ [digitByte (n % 10)], by rw [hbs]; rfl, hb⟩

theorem hexText_ne_nil (n : Nat) : hexText n ≠ [] := by
  rw [hexText_eq]
  split <;> simp

theorem length_decimalText_le_iff {n k : Nat} (hk : 0 < k) :
    (decimalText n).length ≤ k ↔ n < 10 ^ k := by
  rw [decimalText, ascii, List.length_map]
  exact Nat.length_toDigits_le_iff (by decide) hk

end EmWinDemo.Lib.Numerals
