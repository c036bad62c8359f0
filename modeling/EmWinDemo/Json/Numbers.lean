/-
# EmWinDemo.Json.Numbers -- `parse_number`

A number is computed in a `double` while it is read: `n` gathers the digits one by one, `scale`
counts down behind the point, and in the end `n` is multiplied with a power of ten.  The exponent
is gathered in an `int`, which wraps as on the processor, and so is the cast to `valueint` that of
the processor.  `pow` is the one of the C library and stays a parameter.

`number pow d` is what comes of a numeral that denotes `d`, and `parseNumber_numeral` that it does.
For most numerals it is only near to `d`; `number_integral` says that an integer of less than 53
bits is met exactly, if `pow x 0` is 1 as the library promises.
-/
import EmWinDemo.Json.Strings
import EmWinDemo.Lib.Doubles

namespace EmWinDemo.Json

open EmWinDemo.Lib.CMemory EmWinDemo.Lib.CText EmWinDemo.Lib.Json EmWinDemo.Lib.Doubles

/-- The two fields of an item that hold a number. -/
@[ext]
structure Number where
  valuedouble : Float
  valueint : Int32
  deriving DecidableEq

/-! ## `parse_number` -/

/-- A loop over digits: what each digit does to `x`, and `num` behind the last one. -/
def digitLoop {α : Type} (turn : α → Nat → α) (x : α) : Bytes → Except Fault (α × Bytes)
  | [] => .error .overread
  | b :: num =>
    if isDigit b then digitLoop turn (turn x (b.toNat - 48)) num else .ok (x, b :: num)

/-- `n=(n*10.0)+(*num++ -'0')`. -/
def nextDigit (n : Float) (d : Nat) : Float := n * 10.0 + Float.ofNat d

/-- The same behind the point, with `scale--`. -/
def nextPlace (x : Float × Float) (d : Nat) : Float × Float := (nextDigit x.1 d, x.2 - 1.0)

/-- `subscale=(subscale*10)+(*num++ - '0')`. -/
def nextSubscale (subscale : Int32) (d : Nat) : Int32 := subscale * 10 + Int32.ofNat d

/-- Has sign? -/
def parseSign (num : Bytes) : Except Fault (Float × Bytes) := do
  let c ← deref num
  if c = 45 then .ok (-1.0, num.tail) else .ok (1.0, num)

/-- A zero, and the loop if a digit from 1 to 9 comes next. -/
def parseWhole (num : Bytes) : Except Fault (Float × Bytes) := do
  let c ← deref num
  let num := if c = 48 then num.tail else num
  let c ← deref num
  if 49 ≤ c ∧ c ≤ 57 then digitLoop nextDigit 0.0 num else .ok (0.0, num)

/-- Fractional part? -/
def parseFraction (n : Float) (num : Bytes) : Except Fault ((Float × Float) × Bytes) := do
  let c ← deref num
  if c = 46 then do
    let d ← deref num.tail
    if isDigit d then digitLoop nextPlace (n, 0.0) num.tail else .ok ((n, 0.0), num)
  else .ok ((n, 0.0), num)

/-- Exponent? With sign?  Both `subscale` and `signsubscale`. -/
def parseExponent (num : Bytes) : Except Fault ((Int32 × Int32) × Bytes) := do
  let c ← deref num
  if c = 101 ∨ c = 69 then do
    let c ← deref num.tail
    if c = 43 then do
      let (subscale, num) ← digitLoop nextSubscale 0 num.tail.tail
      .ok ((subscale, 1), num)
    else if c = 45 then do
      let (subscale, num) ← digitLoop nextSubscale 0 num.tail.tail
      .ok ((subscale, -1), num)
    else do
      let (subscale, num) ← digitLoop nextSubscale 0 num.tail
      .ok ((subscale, 1), num)
  else .ok ((0, 1), num)

/-- `pow` of the C library is a parameter. -/
def parseNumber (pow : Float → Float → Float) (num : Bytes) : Except Fault (Number × Bytes) := do
  let (sign, num) ← parseSign num
  let (n, num) ← parseWhole num
  let ((n, scale), num) ← parseFraction n num
  let ((subscale, signsubscale), num) ← parseExponent num
  let n := sign * n * pow 10.0 (scale + Float.ofInt (subscale * signsubscale).toInt)
  .ok (⟨n, toInt32 n⟩, num)

/-! ## What comes of a numeral -/

/-- The digits of `n`, gathered from the first one on. -/
def gathered (n : Nat) : Float :=
  if n < 10 then Float.ofNat n else nextDigit (gathered (n / 10)) (n % 10)

/-- A count down from zero. -/
def countedDown : Nat → Float
  | 0 => 0.0
  | k + 1 => countedDown k - 1.0

/-- The number that is made of `d`. -/
def number (pow : Float → Float → Float) (d : Decimal) : Number :=
  let n := (if d.negative then -1.0 else 1.0) * gathered d.digits *
    pow 10.0 (countedDown d.places + Float.ofInt (Int32.ofInt d.exponent).toInt)
  ⟨n, toInt32 n⟩

/-! ## The loops -/

/-- A byte that is no digit comes next. -/
def NoDigit (p : Bytes) : Prop := ∃ b s, p = b :: s ∧ isDigit b = false

/-- A loop computes `f` if each turn does. -/
theorem digitLoop_digits {α : Type} {turn : α → Nat → α} {f : Nat → Nat → α}
    (hturn : ∀ n k, ∀ d < 10, turn (f n k) d = f (10 * n + d) (k + 1)) {t p : Bytes}
    (ht : Digits t) (hp : NoDigit p) (n k : Nat) :
    digitLoop turn (f n k) (t ++ p) = .ok (f (digitsValue n t) (k + t.length), p) := by
  induction t generalizing n k with
  | nil =>
    obtain ⟨b, s, rfl, hb⟩ := hp
    rw [List.nil_append, digitLoop, if_neg (by simp [hb])]
    rfl
  | cons b t ih =>
    have hb := ht b List.mem_cons_self
    have hdigit : b.toNat - 48 < 10 := by
      obtain ⟨-, hhigh⟩ := isDigit_bounds hb
      simp only [UInt8.le_iff_toNat_le, UInt8.reduceToNat] at hhigh
      omega
    rw [List.cons_append, digitLoop, if_pos hb, hturn _ _ _ hdigit, ih ht.tail, digitsValue,
      if_pos hb, List.length_cons]
    congr 3
    omega

theorem nextDigit_gathered (n d : Nat) (hd : d < 10) :
    nextDigit (gathered n) d = gathered (10 * n + d) := by
  by_cases hzero : n = 0
  · subst hzero
    have hall : ∀ d < 10, nextDigit (Float.ofNat 0) d = Float.ofNat d := by decide +kernel
    rw [gathered, if_pos (by decide), gathered, if_pos (by omega), hall d hd, Nat.mul_zero,
      Nat.zero_add]
  · have hdiv : (10 * n + d) / 10 = n := by omega
    have hmod : (10 * n + d) % 10 = d := by omega
    rw [gathered.eq_def (10 * n + d), if_neg (by omega), hdiv, hmod]

theorem nextPlace_gathered (n k d : Nat) (hd : d < 10) :
    nextPlace (gathered n, countedDown k) d = (gathered (10 * n + d), countedDown (k + 1)) := by
  rw [nextPlace, nextDigit_gathered n d hd]
  rfl

theorem nextSubscale_ofNat (n d : Nat) :
    nextSubscale (Int32.ofNat n) d = Int32.ofNat (10 * n + d) := by
  rw [nextSubscale, Int32.ofNat_add, Int32.ofNat_mul, Int32.mul_comm]
  rfl

/-! ## The parts of a numeral -/

variable {rest : Bytes}

theorem digit_ne {b : UInt8} (hb : isDigit b = true) :
    b ≠ 34 ∧ b ≠ 43 ∧ b ≠ 45 ∧ b ≠ 110 ∧ b ≠ 102 ∧ b ≠ 116 := by
  refine ⟨?_, ?_, ?_, ?_, ?_, ?_⟩ <;> · rintro rfl; revert hb; decide

theorem stops_noDigit (h : Stops rest) : NoDigit rest := by
  obtain ⟨b, s, rfl, hb⟩ := h
  refine ⟨b, s, rfl, ?_⟩
  cases hdigit : isDigit b with
  | false => rfl
  | true => exact absurd (Or.inl hdigit) hb

theorem exponent_noDigit {e : Int} {t : Bytes} (h : Exponent e t) (hrest : Stops rest) :
    NoDigit (t ++ rest) := by
  have hletter : ∀ {c : UInt8}, c = 101 ∨ c = 69 → isDigit c = false := by
    rintro c (rfl | rfl) <;> decide
  cases h with
  | none => exact stops_noDigit hrest
  | plain he _ _ => exact ⟨_, _, rfl, hletter he⟩
  | plus he _ _ => exact ⟨_, _, rfl, hletter he⟩
  | minus he _ _ => exact ⟨_, _, rfl, hletter he⟩

theorem parseSign_sign (negative : Bool) {p : Bytes} {b : UInt8} {s : Bytes} (hp : p = b :: s)
    (hb : isDigit b = true) :
    parseSign (sign negative ++ p) = .ok (if negative then -1.0 else 1.0, p) := by
  subst hp
  cases negative with
  | true => rfl
  | false =>
    show (if b = 45 then _ else _) = _
    rw [if_neg (digit_ne hb).2.2.1]
    rfl

theorem parseWhole_whole {t p : Bytes} (h : Whole t) (hp : NoDigit p) :
    parseWhole (t ++ p) = .ok (gathered (digitsValue 0 t), p) := by
  have hnone : gathered 0 = 0.0 := by
    rw [gathered, if_pos (by decide)]
    decide +kernel
  cases h with
  | zero =>
    obtain ⟨b, s, rfl, hb⟩ := hp
    have hrange : ¬(49 ≤ b ∧ b ≤ 57) := by
      rintro ⟨hlow, hhigh⟩
      have : isDigit b = true := by
        have : 48 ≤ b := UInt8.le_trans (by decide) hlow
        simp [isDigit, this, hhigh]
      rw [hb] at this
      cases this
    show (if 49 ≤ b ∧ b ≤ 57 then _ else _) = _
    rw [if_neg hrange, ← hnone]
    rfl
  | @digits b t hlow hhigh ht =>
    have hdigit : isDigit b = true := by
      have : 48 ≤ b := UInt8.le_trans (by decide) hlow
      simp [isDigit, this, hhigh]
    have hdigits : Digits (b :: t) := by
      intro c hc
      rcases List.mem_cons.mp hc with rfl | hc
      · exact hdigit
      · exact ht c hc
    have hzero : b ≠ 48 := by
      rintro rfl
      exact absurd hlow (by decide)
    have hloop := @digitLoop_digits _ nextDigit (fun n _ => gathered n)
      (fun n _ d hd => nextDigit_gathered n d hd) _ _ hdigits hp 0 0
    rw [← hloop]
    show (deref (if b = 48 then t ++ p else b :: t ++ p) >>= _) = _
    rw [if_neg hzero]
    show (if 49 ≤ b ∧ b ≤ 57 then
      digitLoop nextDigit 0.0 (if b = 48 then t ++ p else b :: t ++ p) else _) = _
    rw [if_pos ⟨hlow, hhigh⟩, if_neg hzero, ← hnone]

theorem parseFraction_fraction {e : Int} {t exp : Bytes} (ht : Digits t) (he : Exponent e exp)
    (hrest : Stops rest) (n : Nat) :
    parseFraction (gathered n) (fraction t ++ (exp ++ rest)) =
      .ok ((gathered (digitsValue n t), countedDown t.length), exp ++ rest) := by
  cases t with
  | nil =>
    have hpoint : ∃ b s, exp ++ rest = b :: s ∧ b ≠ 46 := by
      have hletter : ∀ {c : UInt8}, c = 101 ∨ c = 69 → c ≠ 46 := by
        rintro c (rfl | rfl) <;> decide
      cases he with
      | none =>
        obtain ⟨b, s, rfl, hb⟩ := hrest
        exact ⟨b, s, rfl, fun hb' => hb (Or.inr (Or.inl hb'))⟩
      | plain he _ _ => exact ⟨_, _, rfl, hletter he⟩
      | plus he _ _ => exact ⟨_, _, rfl, hletter he⟩
      | minus he _ _ => exact ⟨_, _, rfl, hletter he⟩
    obtain ⟨b, s, hbs, hb⟩ := hpoint
    rw [fraction, if_pos rfl, List.nil_append, hbs]
    show (if b = 46 then _ else _) = _
    rw [if_neg hb]
    rfl
  | cons d t =>
    have hd := ht d List.mem_cons_self
    have hloop := @digitLoop_digits _ nextPlace (fun n k => (gathered n, countedDown k))
      nextPlace_gathered _ _ ht (exponent_noDigit he hrest) n 0
    rw [Nat.zero_add] at hloop
    rw [← hloop, fraction, if_neg (by simp)]
    show (if isDigit d = true then _ else _) = _
    rw [if_pos hd]
    rfl

/-- The exponent as the two factors that `parse_number` multiplies. -/
theorem parseExponent_exponent {e : Int} {t : Bytes} (he : Exponent e t) (hrest : Stops rest) :
    ∃ subscale signsubscale, parseExponent (t ++ rest) = .ok ((subscale, signsubscale), rest) ∧
      subscale * signsubscale = Int32.ofInt e := by
  have hnd := stops_noDigit hrest
  have hgather : ∀ {t : Bytes}, Digits t → digitLoop nextSubscale 0 (t ++ rest) =
      .ok (Int32.ofNat (digitsValue 0 t), rest) := fun ht =>
    @digitLoop_digits _ nextSubscale (fun n _ => Int32.ofNat n)
      (fun n _ d _ => nextSubscale_ofNat n d) _ _ ht hnd 0 0
  cases he with
  | none =>
    obtain ⟨b, s, rfl, hb⟩ := hrest
    have hletter : ¬(b = 101 ∨ b = 69) := fun h => hb (Or.inr (Or.inr h))
    refine ⟨0, 1, ?_, rfl⟩
    show (if b = 101 ∨ b = 69 then _ else _) = _
    rw [if_neg hletter]
    rfl
  | @plain c t hc ht hne =>
    obtain ⟨d, t, rfl⟩ := List.exists_cons_of_ne_nil hne
    obtain ⟨-, hplus, hminus, -⟩ := digit_ne (ht d List.mem_cons_self)
    refine ⟨Int32.ofNat (digitsValue 0 (d :: t)), 1, ?_, Int32.mul_one _⟩
    show (if c = 101 ∨ c = 69 then _ else _) = _
    rw [if_pos hc]
    show (if d = 43 then _ else if d = 45 then _ else
      digitLoop nextSubscale 0 (d :: t ++ rest) >>= _) = _
    rw [if_neg hplus, if_neg hminus, hgather ht]
    rfl
  | @plus c t hc ht hne =>
    refine ⟨Int32.ofNat (digitsValue 0 t), 1, ?_, Int32.mul_one _⟩
    show (if c = 101 ∨ c = 69 then digitLoop nextSubscale 0 (t ++ rest) >>= _ else _) = _
    rw [if_pos hc, hgather ht]
    rfl
  | @minus c t hc ht hne =>
    refine ⟨Int32.ofNat (digitsValue 0 t), -1, ?_, ?_⟩
    · show (if c = 101 ∨ c = 69 then digitLoop nextSubscale 0 (t ++ rest) >>= _ else _) = _
      rw [if_pos hc, hgather ht]
      rfl
    · rw [Int32.ofInt_neg, Int32.mul_neg, Int32.mul_one]
      rfl

/-- **A numeral becomes its number,** and a byte that does not belong to it stays. -/
theorem parseNumber_numeral (pow : Float → Float → Float) {d : Decimal} {t : Bytes}
    (h : Numeral d t) (hrest : Stops rest) :
    parseNumber pow (t ++ rest) = .ok (number pow d, rest) := by
  obtain ⟨hw, hf, he⟩ := h
  rename_i negative whole frac exp e
  obtain ⟨b, s, hbs, hb⟩ := hw.head
  have hfollow : NoDigit (fraction frac ++ (exp ++ rest)) := by
    cases frac with
    | nil =>
      rw [fraction, if_pos rfl, List.nil_append]
      exact exponent_noDigit he hrest
    | cons d frac => exact ⟨46, _, rfl, by decide⟩
  have hsign := parseSign_sign negative (p := whole ++ (fraction frac ++ (exp ++ rest)))
    (by rw [hbs]; rfl) hb
  obtain ⟨subscale, signsubscale, hexponent, hproduct⟩ := parseExponent_exponent he hrest
  have happ : sign negative ++ (whole ++ (fraction frac ++ exp)) ++ rest =
      sign negative ++ (whole ++ (fraction frac ++ (exp ++ rest))) := by simp
  rw [happ, parseNumber]
  simp only [hsign, parseWhole_whole hw hfollow, parseFraction_fraction hf he hrest, hexponent,
    hproduct, bind, Except.bind]
  rfl

/-! ## Integers -/

/-- The digits are few enough, and the exponent moves the point behind the last of them. -/
structure Integral (d : Decimal) : Prop where
  digits : d.digits < 2 ^ 53
  places : d.places < 2 ^ 31
  exponent : d.exponent = d.places

theorem gathered_eq {n : Nat} (hn : n < 2 ^ 53) : gathered n = Float.ofNat n := by
  induction n using Nat.strongRecOn with
  | ind n ih =>
    rw [gathered]
    split
    · rfl
    · have hten : (10.0 : Float) = Float.ofNat 10 := by decide +kernel
      have hsplit : ((n / 10 * 10 : Nat) : Int) + ((n % 10 : Nat) : Int) = (n : Int) := by omega
      have hsum := @ofInt_add ((n / 10 * 10 : Nat) : Int) ((n % 10 : Nat) : Int)
        (by unfold Exact; omega) (by unfold Exact; omega) (by unfold Exact; omega)
      rw [hsplit] at hsum
      rw [nextDigit, ih (n / 10) (by omega) (by omega), hten,
        ofNat_mul (by omega) (by decide) (by omega)]
      exact hsum

theorem countedDown_eq {k : Nat} (hk : k < 2 ^ 53) : countedDown k = Float.ofInt (-k) := by
  induction k with
  | zero => decide +kernel
  | succ k ih =>
    have hone : (1.0 : Float) = Float.ofInt 1 := by decide +kernel
    have hdiff : -(k : Int) - 1 = -((k + 1 : Nat) : Int) := by omega
    rw [countedDown, ih (by omega), hone, ofInt_sub (by unfold Exact; omega)
      (by unfold Exact; decide) (by unfold Exact; omega), hdiff]

/-- **An integer is met exactly.**  `valueint` is the same integer if it is one of type `int`. -/
theorem number_integral {pow : Float → Float → Float} (hpow : ∀ x, pow x 0 = 1) {d : Decimal}
    (hd : Integral d) :
    (number pow d).valuedouble = signed d.negative d.digits ∧
      ∀ z : Int, z = (if d.negative then -(d.digits : Int) else d.digits) → -2 ^ 31 ≤ z →
        z < 2 ^ 31 → (number pow d).valueint = Int32.ofInt z := by
  obtain ⟨hdigits, hplaces, hexponent⟩ := hd
  have hscale : countedDown d.places + Float.ofInt (Int32.ofInt d.exponent).toInt = 0 := by
    have hwrap : (Int32.ofInt d.exponent).toInt = d.places := by
      rw [Int32.toInt_ofInt_of_le (by omega) (by omega), hexponent]
    have hsum : -(d.places : Int) + d.places = 0 := by omega
    rw [hwrap, countedDown_eq (by omega), ofInt_add (by unfold Exact; omega)
      (by unfold Exact; omega) (by rw [hsum]; exact Nat.two_pow_pos 53), hsum]
    rfl
  have hone : (1 : Float) = 1.0 := by decide +kernel
  have hvalue : (number pow d).valuedouble = signed d.negative d.digits := by
    show (if d.negative then -1.0 else 1.0) * gathered d.digits * pow 10.0 _ = _
    rw [hscale, hpow, gathered_eq hdigits, hone, signed_mul hdigits]
  refine ⟨hvalue, ?_⟩
  rintro z hz hlow hhigh
  show toInt32 (number pow d).valuedouble = _
  rw [hvalue]
  by_cases hminus : d.digits = 0 ∧ d.negative = true
  · -- the cast forgets the sign of a zero
    obtain ⟨hzero, hnegative⟩ := hminus
    rw [hzero, hnegative] at hz ⊢
    subst hz
    decide +kernel
  · have hplain : d.digits = 0 → d.negative = false := by
      intro hzero
      rw [← Bool.not_eq_true]
      exact fun hnegative => hminus ⟨hzero, hnegative⟩
    rw [signed_ofInt hplain, ← hz, toInt32_ofInt hlow hhigh]

/-- Powers with the exponents zero and one, enough for a numeral without an exponent. -/
def firstPowers (x y : Float) : Float := if y == 0 then 1 else x

theorem firstPowers_zero (x : Float) : firstPowers x 0 = 1 := by
  have hzero : ((0 : Float) == 0) = true := by decide +kernel
  rw [firstPowers, hzero, if_pos rfl]

end EmWinDemo.Json
