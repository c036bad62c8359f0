/-
# EmWinDemo.WebSocket.Utf8 -- the check of text messages

`utf8IsValid` is `utf8_is_valid`: it goes through a text character by character and, where none
begins, reports the place and how many bytes a longer text might bring (`missing`).  Each check
reads its bytes from the text and is `none` if they are not there.

`utf8IsValid_spec` is the account of it: the text is accepted exactly if it is UTF-8, nothing is
read outside it, and otherwise what lies in front of the place that is reported is the longest
part of the text that is UTF-8.
-/
import EmWinDemo.Lib.Utf8

namespace EmWinDemo.WebSocket.Utf8

open Lib.CMemory Lib.Utf8

/-! ## The check -/

/-- Between `UTF8_TAIL_MIN` and `UTF8_TAIL_MAX`. -/
def IsTail (b : UInt8) : Prop := 0x80 ≤ b ∧ b ≤ 0xBF

instance (b : UInt8) : Decidable (IsTail b) := inferInstanceAs (Decidable (_ ∧ _))

def utf8Check1 (data : Bytes) : Option Bool := do
  let a ← data[0]?
  return a = 0x09 ∨ a = 0x0A ∨ a = 0x0D ∨ a ≤ 0x7F

def utf8Check2 (data : Bytes) : Option Bool := do
  let a ← data[0]?
  let b ← data[1]?
  return (0xC2 ≤ a ∧ a ≤ 0xDF) ∧ IsTail b

def utf8Check3 (data : Bytes) : Option Bool := do
  let a ← data[0]?
  let b ← data[1]?
  let c ← data[2]?
  return (a = 0xE0 ∧ (0xA0 ≤ b ∧ b ≤ 0xBF) ∧ IsTail c) ∨
    (((0xE1 ≤ a ∧ a ≤ 0xEC) ∨ a = 0xEE ∨ a = 0xEF) ∧ IsTail b ∧ IsTail c) ∨
    (a = 0xED ∧ (0x80 ≤ b ∧ b ≤ 0x9F) ∧ IsTail c)

def utf8Check4 (data : Bytes) : Option Bool := do
  let a ← data[0]?
  let b ← data[1]?
  let c ← data[2]?
  let d ← data[3]?
  return (a = 0xF0 ∧ (0x90 ≤ b ∧ b ≤ 0xBF) ∧ IsTail c ∧ IsTail d) ∨
    ((0xF1 ≤ a ∧ a ≤ 0xF3) ∧ IsTail b ∧ IsTail c ∧ IsTail d) ∨
    (a = 0xF4 ∧ (0x80 ≤ b ∧ b ≤ 0x8F) ∧ IsTail c ∧ IsTail d)

/-- The result of `utf8_is_valid`, with what it stores through its pointers. -/
structure Validity where
  isValid : Bool
  bad : Option Nat
  missing : Nat
  deriving Repr, DecidableEq

/-- The loop of `utf8_is_valid`, with the text from `position` on. -/
def utf8Loop : Nat → Bytes → Nat → Option Validity
  | 0, _, _ => none
  | rounds + 1, text, position =>
    if text.length = 0 then some ⟨true, none, 0⟩
    else do
      if ← utf8Check1 text then utf8Loop rounds (text.drop 1) (position + 1)
      else if 1 ≥ text.length then some ⟨false, some position, 4 - 1⟩
      else if ← utf8Check2 text then utf8Loop rounds (text.drop 2) (position + 2)
      else if 2 ≥ text.length then some ⟨false, some position, 4 - 2⟩
      else if ← utf8Check3 text then utf8Loop rounds (text.drop 3) (position + 3)
      else if 3 ≥ text.length then some ⟨false, some position, 4 - 3⟩
      else if ← utf8Check4 text then utf8Loop rounds (text.drop 4) (position + 4)
      else some ⟨false, some position, 0⟩

/-- `utf8_is_valid`. -/
def utf8IsValid (input : Bytes) : Option Validity := utf8Loop (input.length + 1) input 0

/-! ## One character -/

/-- A check that reads `k` bytes that are there says whether they are a character. -/
def Checks (k : Nat) (check : Bytes → Option Bool) : Prop :=
  ∀ text, k ≤ text.length → ∃ b, check text = some b ∧ (b = true ↔ CharOf k text)

theorem Checks.cases {k : Nat} {check : Bytes → Option Bool} (h : Checks k check) (text : Bytes)
    (hlen : k ≤ text.length) :
    check text = some true ∧ CharOf k text ∨ check text = some false ∧ ¬CharOf k text := by
  obtain ⟨b, hb, hchar⟩ := h text hlen
  by_cases hk : CharOf k text
  · exact Or.inl ⟨by rw [hb, hchar.mpr hk], hk⟩
  · exact Or.inr ⟨by rw [hb, Bool.eq_false_iff.mpr fun h => hk (hchar.mp h)], hk⟩

theorem checks_one : Checks 1 utf8Check1 := by
  intro text hlen
  obtain ⟨a, rest, rfl⟩ := List.exists_cons_of_length_pos hlen
  refine ⟨_, rfl, ?_⟩
  rw [CharOf, List.take_succ_cons, List.take_zero, encodes_one, and_iff_right hlen]
  simp only [decide_eq_true_eq, ← UInt8.toNat_inj, UInt8.le_iff_toNat_le, UInt8.reduceToNat]
  omega

theorem checks_two : Checks 2 utf8Check2 := by
  intro text hlen
  obtain ⟨a, b, rest, rfl⟩ : ∃ a b rest, text = a :: b :: rest := by
    match text, hlen with
    | a :: b :: rest, _ => exact ⟨a, b, rest, rfl⟩
  refine ⟨_, rfl, ?_⟩
  rw [CharOf, List.take_succ_cons, List.take_succ_cons, List.take_zero, encodes_two,
    and_iff_right hlen]
  simp only [decide_eq_true_eq, IsTail, UInt8.le_iff_toNat_le, UInt8.reduceToNat]

theorem checks_three : Checks 3 utf8Check3 := by
  intro text hlen
  obtain ⟨a, b, c, rest, rfl⟩ : ∃ a b c rest, text = a :: b :: c :: rest := by
    match text, hlen with
    | a :: b :: c :: rest, _ => exact ⟨a, b, c, rest, rfl⟩
  refine ⟨_, rfl, ?_⟩
  rw [CharOf, List.take_succ_cons, List.take_succ_cons, List.take_succ_cons, List.take_zero,
    encodes_three, and_iff_right hlen]
  simp only [decide_eq_true_eq, IsTail, ← UInt8.toNat_inj, UInt8.le_iff_toNat_le,
    UInt8.reduceToNat]
  omega

theorem checks_four : Checks 4 utf8Check4 := by
  intro text hlen
  obtain ⟨a, b, c, d, rest, rfl⟩ : ∃ a b c d rest, text = a :: b :: c :: d :: rest := by
    match text, hlen with
    | a :: b :: c :: d :: rest, _ => exact ⟨a, b, c, d, rest, rfl⟩
  refine ⟨_, rfl, ?_⟩
  rw [CharOf, List.take_succ_cons, List.take_succ_cons, List.take_succ_cons, List.take_succ_cons,
    List.take_zero, encodes_four, and_iff_right hlen]
  simp only [decide_eq_true_eq, IsTail, ← UInt8.toNat_inj, UInt8.le_iff_toNat_le,
    UInt8.reduceToNat]
  omega

/-! ## The loop -/

/-- The answer for a text from `position` on: all of it is UTF-8, or so much that behind it no
character begins. -/
def Answers (text : Bytes) (position : Nat) (r : Validity) : Prop :=
  (IsUtf8 text ∧ r = ⟨true, none, 0⟩) ∨
    ∃ cs rest, text = utf8 cs ++ rest ∧ rest ≠ [] ∧ ¬Starts rest ∧
      r = ⟨false, some (position + (utf8 cs).length), 4 - min rest.length 4⟩

/-- A character in front of the text. -/
theorem Answers.cons {text : Bytes} {position k : Nat} {r : Validity} (hchar : CharOf k text)
    (h : Answers (text.drop k) (position + k) r) : Answers text position r := by
  obtain ⟨hlen, ch, hch⟩ := hchar
  have htext : text = String.utf8EncodeChar ch ++ text.drop k := by
    rw [hch, List.take_append_drop]
  have hk : (String.utf8EncodeChar ch).length = k := by
    rw [hch, List.length_take, Nat.min_eq_left hlen]
  rcases h with ⟨⟨cs, hcs⟩, rfl⟩ | ⟨cs, rest, hcs, hne, hstarts, rfl⟩
  · left
    refine ⟨⟨ch :: cs, ?_⟩, rfl⟩
    rw [utf8_cons, ← hcs]
    exact htext
  · right
    refine ⟨ch :: cs, rest, ?_, hne, hstarts, ?_⟩
    · rw [utf8_cons, List.append_assoc, ← hcs]
      exact htext
    · rw [utf8_cons, List.length_append, hk, Nat.add_assoc]

/-- No character begins here. -/
theorem answers_here {text : Bytes} (position : Nat) (hne : text ≠ []) (h : ¬Starts text)
    {missing : Nat} (hmissing : missing = 4 - min text.length 4) :
    Answers text position ⟨false, some position, missing⟩ :=
  Or.inr ⟨[], text, rfl, hne, h, by rw [hmissing]; rfl⟩

theorem utf8Loop_answers {rounds : Nat} {text : Bytes} (position : Nat)
    (hrounds : text.length < rounds) : ∃ r, utf8Loop rounds text position = some r ∧
      Answers text position r := by
  induction rounds generalizing text position with
  | zero => omega
  | succ rounds ih =>
    -- a character that is there is passed, and the rest is shorter
    have hpass : ∀ k, 0 < k → CharOf k text → ∃ r, utf8Loop rounds (text.drop k) (position + k) =
        some r ∧ Answers text position r := by
      intro k hk hchar
      have hlen := hchar.1
      have hless : (text.drop k).length < rounds := by rw [List.length_drop]; omega
      obtain ⟨r, hr, hanswers⟩ := ih (position + k) hless
      exact ⟨r, hr, hanswers.cons hchar⟩
    have hshort : ∀ k, text.length < k → ¬CharOf k text := fun k hk hchar =>
      absurd hchar.1 (by omega)
    rw [utf8Loop]
    by_cases hnil : text.length = 0
    · rw [if_pos hnil]
      exact ⟨_, rfl, Or.inl ⟨⟨[], List.eq_nil_of_length_eq_zero hnil⟩, rfl⟩⟩
    have hne : text ≠ [] := fun h => hnil (by rw [h]; rfl)
    have hnowhere : ∀ missing, missing = 4 - min text.length 4 → ¬CharOf 1 text → ¬CharOf 2 text →
        ¬CharOf 3 text → ¬CharOf 4 text → ∃ r, some (⟨false, some position, missing⟩ : Validity) =
          some r ∧ Answers text position r := by
      intro missing hmissing hone htwo hthree hfour
      refine ⟨_, rfl, answers_here position hne ?_ hmissing⟩
      rw [starts_iff]
      rintro (h | h | h | h)
      · exact hone h
      · exact htwo h
      · exact hthree h
      · exact hfour h
    rw [if_neg hnil]
    rcases checks_one.cases text (by omega) with ⟨hcheck, hone⟩ | ⟨hcheck, hone⟩ <;> rw [hcheck]
    · exact hpass 1 Nat.one_pos hone
    show ∃ r, (if 1 ≥ text.length then _ else _) = some r ∧ _
    by_cases hend : 1 ≥ text.length
    · rw [if_pos hend]
      exact hnowhere _ (by omega) hone (hshort 2 (by omega)) (hshort 3 (by omega))
        (hshort 4 (by omega))
    rw [if_neg hend]
    rcases checks_two.cases text (by omega) with ⟨hcheck, htwo⟩ | ⟨hcheck, htwo⟩ <;> rw [hcheck]
    · exact hpass 2 Nat.two_pos htwo
    show ∃ r, (if 2 ≥ text.length then _ else _) = some r ∧ _
    by_cases hend : 2 ≥ text.length
    · rw [if_pos hend]
      exact hnowhere _ (by omega) hone htwo (hshort 3 (by omega)) (hshort 4 (by omega))
    rw [if_neg hend]
    rcases checks_three.cases text (by omega) with ⟨hcheck, hthree⟩ | ⟨hcheck, hthree⟩ <;> rw [hcheck]
    · exact hpass 3 (by omega) hthree
    show ∃ r, (if 3 ≥ text.length then _ else _) = some r ∧ _
    by_cases hend : 3 ≥ text.length
    · rw [if_pos hend]
      exact hnowhere _ (by omega) hone htwo hthree (hshort 4 (by omega))
    rw [if_neg hend]
    rcases checks_four.cases text (by omega) with ⟨hcheck, hfour⟩ | ⟨hcheck, hfour⟩ <;> rw [hcheck]
    · exact hpass 4 (by omega) hfour
    · exact hnowhere _ (by omega) hone htwo hthree hfour

/-- **What `utf8_is_valid` answers.**  It reads nothing outside the text, and the text is accepted
exactly if it is UTF-8.  Otherwise the text is UTF-8 up to the place that is reported, no character
begins there, and what is called missing is what there is not of four bytes. -/
theorem utf8IsValid_spec (input : Bytes) : ∃ r, utf8IsValid input = some r ∧
    (r.isValid = true ↔ IsUtf8 input) ∧
    (r.isValid = false → ∃ cs rest, input = utf8 cs ++ rest ∧ ¬Starts rest ∧
      r.bad = some (utf8 cs).length ∧ r.missing = 4 - min rest.length 4) := by
  obtain ⟨r, hr, hanswers⟩ := utf8Loop_answers 0 (Nat.lt_succ_self input.length)
  refine ⟨r, hr, ?_⟩
  rcases hanswers with ⟨hutf8, rfl⟩ | ⟨cs, rest, rfl, hne, hstarts, rfl⟩
  · exact ⟨⟨fun _ => hutf8, fun _ => rfl⟩, fun h => by cases h⟩
  · refine ⟨⟨fun h => (by cases h), fun h => ?_⟩, fun _ => ?_⟩
    · exact absurd h (not_isUtf8_append cs hne hstarts)
    · exact ⟨cs, rest, rfl, hstarts, by rw [Nat.zero_add], rfl⟩

example : utf8IsValid [0x41, 0xE4, 0xBD] = some ⟨false, some 1, 2⟩ := by decide

end EmWinDemo.WebSocket.Utf8
