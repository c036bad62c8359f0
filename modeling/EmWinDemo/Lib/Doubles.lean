/-
# EmWinDemo.Lib.Doubles -- integers as doubles

`Float` has the operations of IEEE 754 on 64 bits, bit by bit, which are those of `double` in C.
Each operation rounds, but an integer of less than 53 bits is held exactly, and sums, differences
and products of integers are exact as long as the result is such an integer too.  A loop that
gathers digits in a `double` can then be read as one that gathers them in a natural number.

An operation unpacks its arguments, computes and packs the result.  `unpacked s n` is what the
number `n` with the sign `s` looks like in between: 53 bits that begin with a one, and the exponent
of the last of them.
-/
import Mathlib

namespace EmWinDemo.Lib.Doubles

open Float.Model Float.Model.UnpackedFloat

/-! ## Numbers of 53 bits -/

/-- How far a number is moved to the left until it has 53 bits. -/
def shift (n : Nat) : Nat := 52 - n.log2

theorem log2_le {n : Nat} (hn : n < 2 ^ 53) : n.log2 ≤ 52 := by
  by_cases hzero : n = 0
  · subst hzero
    decide
  · exact Nat.le_of_lt_succ ((Nat.log2_lt hzero).mpr hn)

theorem log2_mul_pow {n : Nat} (hpos : 0 < n) (k : Nat) : (n * 2 ^ k).log2 = n.log2 + k := by
  have hne : n ≠ 0 := Nat.ne_of_gt hpos
  rw [Nat.log2_eq_iff (Nat.mul_ne_zero hne (Nat.ne_of_gt (Nat.two_pow_pos k)))]
  constructor
  · rw [Nat.pow_add]
    exact Nat.mul_le_mul_right _ (Nat.log2_self_le hne)
  · rw [show n.log2 + k + 1 = n.log2 + 1 + k by omega, Nat.pow_add]
    exact Nat.mul_lt_mul_of_pos_right Nat.lt_log2_self (Nat.two_pow_pos k)

theorem shift_bounds {n : Nat} (hpos : 0 < n) (hn : n < 2 ^ 53) :
    2 ^ 52 ≤ n * 2 ^ shift n ∧ n * 2 ^ shift n < 2 ^ 53 := by
  have hle := log2_le hn
  have hlog : (n * 2 ^ shift n).log2 = 52 := by
    rw [log2_mul_pow hpos, shift]
    omega
  have hne : n * 2 ^ shift n ≠ 0 :=
    Nat.mul_ne_zero (Nat.ne_of_gt hpos) (Nat.ne_of_gt (Nat.two_pow_pos _))
  exact (Nat.log2_eq_iff hne).mp hlog

/-- A greater number is moved less. -/
theorem shift_anti {m n : Nat} (hpos : 0 < m) (hmn : m ≤ n) : shift n ≤ shift m := by
  have hlog : m.log2 ≤ n.log2 := by
    rw [Nat.le_log2 (by omega)]
    exact (Nat.log2_self_le (by omega)).trans hmn
  unfold shift
  omega

/-- The number `n` between unpacking and packing. -/
def unpacked (s : Sign) (n : Nat) : UnpackedFloat :=
  if h : 0 < n then
    .finite s (n * 2 ^ shift n) (-(shift n : Int)) (Nat.mul_pos h (Nat.two_pow_pos _))
  else .zero s

theorem unpacked_pos {n : Nat} (hpos : 0 < n) (s : Sign) : unpacked s n =
    .finite s (n * 2 ^ shift n) (-(shift n : Int)) (Nat.mul_pos hpos (Nat.two_pow_pos _)) :=
  dif_pos hpos

theorem finite_congr {s : Sign} {m m' : Nat} {e e' : Int} (hm : m = m') (he : e = e')
    (hpos : 0 < m) : UnpackedFloat.finite s m e hpos = .finite s m' e' (hm ▸ hpos) := by
  subst hm he
  rfl

/-! ## Rounding -/

/-- No bit is lost when zeros are dropped. -/
theorem shiftRight_exact (m k : Nat) :
    (⟨m * 2 ^ k, false, false⟩ : ExtendedMantissa) >>> k = ⟨m, false, false⟩ := by
  induction k generalizing m with
  | zero => simp [HShiftRight.hShiftRight, Nat.repeat]
  | succ k ih =>
    have hmore : m * 2 ^ (k + 1) = (m * 2) * 2 ^ k := by rw [Nat.pow_succ', Nat.mul_assoc]
    have hrest : Nat.repeat ExtendedMantissa.shiftRightOne k ⟨m * 2 ^ (k + 1), false, false⟩ =
        ⟨m * 2, false, false⟩ := by
      rw [hmore]
      exact ih (m * 2)
    show ExtendedMantissa.shiftRightOne (Nat.repeat ExtendedMantissa.shiftRightOne k _) = _
    rw [hrest]
    simp [ExtendedMantissa.shiftRightOne]

theorem targetExponent_eq {n : Nat} (hpos : 0 < n) (hn : n < 2 ^ 53) (k : Nat) :
    Format.binary64.targetExponent (totalExponent (n * 2 ^ k) (-(k : Int))) = -(shift n : Int) := by
  have hle := log2_le hn
  simp only [Format.targetExponent, totalExponent, Format.mantissaBits, Format.minExponent,
    log2_mul_pow hpos, shift]
  push_cast
  omega

/-- The bits behind the 53 that are kept are zeros. -/
theorem shiftToTargetExponent_eq {n k : Nat} (hpos : 0 < n) (hn : n < 2 ^ 53) (hk : shift n ≤ k) :
    shiftToTargetExponent Format.binary64 (n * 2 ^ k) (-(k : Int)) .exact =
      (⟨n * 2 ^ shift n, false, false⟩, -(shift n : Int)) := by
  have hamount : (-(shift n : Int) - -(k : Int)).toNat = k - shift n := by omega
  have hsplit : n * 2 ^ k = n * 2 ^ shift n * 2 ^ (k - shift n) := by
    rw [Nat.mul_assoc, ← Nat.pow_add]
    congr 2
    omega
  simp only [shiftToTargetExponent, shiftToExponent, targetExponent_eq hpos hn, hamount,
    ExtendedMantissa.ofMantissaAndAccuracy]
  rw [hsplit, shiftRight_exact]
  congr 1
  omega

theorem roundWithAccuracy_eq {n k : Nat} (hpos : 0 < n) (hn : n < 2 ^ 53) (hk : shift n ≤ k)
    (s : Sign) :
    roundWithAccuracy Format.binary64 s (n * 2 ^ k) (-(k : Int)) .exact = unpacked s n := by
  have hmantissa : n * 2 ^ shift n ≠ 0 := by
    have := (shift_bounds hpos hn).1
    omega
  -- the first shift leaves nothing to round, and the second one nothing to shift
  have hround : (⟨n * 2 ^ shift n, false, false⟩ : ExtendedMantissa).roundedMantissa =
      n * 2 ^ shift n := rfl
  simp only [roundWithAccuracy, shiftToTargetExponent_eq hpos hn hk, hround,
    shiftToTargetExponent_eq hpos hn (le_refl _), dif_neg hmantissa]
  rw [unpacked_pos hpos]

/-- **An integer is its own rounding**, wherever its point stands. -/
theorem round_eq {n : Nat} (hpos : 0 < n) (hn : n < 2 ^ 53) (k : Nat) (s : Sign) :
    UnpackedFloat.round Format.binary64 s (n * 2 ^ k) (-(k : Int)) = unpacked s n := by
  have hamount : (-(k : Int) - -(shift n : Int)).toNat = shift n - k := by omega
  have hmantissa : n * 2 ^ k * 2 ^ (shift n - k) = n * 2 ^ (max k (shift n)) := by
    rw [Nat.mul_assoc, ← Nat.pow_add]
    congr 2
    omega
  have hexponent : -(k : Int) - ((shift n - k : Nat) : Int) = -((max k (shift n) : Nat) : Int) := by
    omega
  simp only [UnpackedFloat.round, targetExponent_eq hpos hn, decreaseExponent, hamount,
    Nat.shiftLeft_eq, hmantissa, hexponent]
  exact roundWithAccuracy_eq hpos hn (by omega) s

/-! ## Integers -/

def signOf (z : Int) : Sign := if z < 0 then .negative else .positive

/-- The integer `z` between unpacking and packing. -/
def exactly (z : Int) : UnpackedFloat := unpacked (signOf z) z.natAbs

theorem exactly_natCast (n : Nat) : exactly n = unpacked .positive n := by
  have hsign : signOf (n : Int) = .positive := if_neg (by omega)
  rw [exactly, hsign, Int.natAbs_natCast]

theorem exactly_neg_natCast {n : Nat} (hpos : 0 < n) : exactly (-n) = unpacked .negative n := by
  have hsign : signOf (-(n : Int)) = .negative := if_pos (by omega)
  rw [exactly, hsign, Int.natAbs_neg, Int.natAbs_natCast]

theorem normalize_eq {z : Int} (hz : z.natAbs < 2 ^ 53) (k : Nat) :
    UnpackedFloat.normalize Format.binary64 (z * 2 ^ k) (-(k : Int)) .positive = exactly z := by
  have hpow : (0 : Int) < 2 ^ k := by positivity
  rcases lt_trichotomy z 0 with hneg | rfl | hpos
  · have hcompare : compare (z * 2 ^ k) 0 = .lt :=
      compare_lt_iff_lt.mpr (Int.mul_neg_of_neg_of_pos hneg hpow)
    have hmantissa : (-(z * 2 ^ k)).toNat = z.natAbs * 2 ^ k := by
      have : -(z * 2 ^ k) = ((z.natAbs * 2 ^ k : Nat) : Int) := by
        push_cast
        rw [abs_of_neg hneg]
        ring
      omega
    simp only [UnpackedFloat.normalize, hcompare, hmantissa]
    rw [round_eq (by omega) hz, exactly, signOf, if_pos hneg]
  · rw [Int.zero_mul]
    rfl
  · have hcompare : compare (z * 2 ^ k) 0 = .gt := compare_gt_iff_gt.mpr (Int.mul_pos hpos hpow)
    have hmantissa : (z * 2 ^ k).toNat = z.natAbs * 2 ^ k := by
      have : z * 2 ^ k = ((z.natAbs * 2 ^ k : Nat) : Int) := by
        push_cast
        rw [abs_of_pos hpos]
      omega
    simp only [UnpackedFloat.normalize, hcompare, hmantissa]
    rw [round_eq (by omega) hz, exactly, signOf, if_neg (by omega)]

/-! ## Packing -/

theorem unpackSign_packComponents (s : Sign) (e : BitVec 11) (m : BitVec 52) :
    unpackSign (packComponents Format.binary64 s e m) = s.toBitVec := by
  have hbit : (s.toBitVec ++ e ++ m).getLsbD 63 = s.toBitVec.getLsbD 0 := by
    rw [BitVec.getLsbD_append, if_neg (by omega), BitVec.getLsbD_append, if_neg (by omega)]
  ext i hi
  obtain rfl : i = 0 := by omega
  have hlast : s.toBitVec[0] = s.toBitVec.getLsbD 0 := rfl
  rw [hlast, ← hbit]
  simp only [unpackSign, packComponents, BitVec.getElem_cast]
  exact BitVec.getElem_extractLsb' (by omega)

theorem ofBitVec_toBitVec (s : Sign) : Sign.ofBitVec s.toBitVec = s := by
  cases s <;> rfl

/-- What stands in the bits of a number. -/
theorem pack_eq {n : Nat} (hpos : 0 < n) (hn : n < 2 ^ 53) (s : Sign) :
    UnpackedFloat.pack Format.binary64 (unpacked s n) =
      packComponents Format.binary64 s (BitVec.ofNat 11 (1075 - shift n))
        (BitVec.ofNat 52 (n * 2 ^ shift n)) := by
  obtain ⟨hlow, hhigh⟩ := shift_bounds hpos hn
  have hle : shift n ≤ 52 := Nat.sub_le _ _
  have hlog : (n * 2 ^ shift n).log2 = 52 := (Nat.log2_eq_iff (by omega)).mpr ⟨hlow, hhigh⟩
  have hbiased : (-(shift n : Int) + (1023 : Nat) + (52 : Nat)).toNat = 1075 - shift n := by omega
  have hbias : Format.binary64.exponentBias = 1023 := rfl
  rw [unpacked_pos hpos]
  simp only [UnpackedFloat.pack, hlog, hbias, hbiased]
  have hbits : 52 + 1 = Format.binary64.mantissaBits := rfl
  rw [if_neg (by omega), if_pos hbits]

/-- **An integer is unpacked as it was packed.** -/
theorem unpack_pack {n : Nat} (hn : n < 2 ^ 53) (s : Sign) :
    (Float.Model.pack (unpacked s n)).unpack = unpacked s n := by
  by_cases hpos : 0 < n
  · obtain ⟨hlow, hhigh⟩ := shift_bounds hpos hn
    have hle : shift n ≤ 52 := Nat.sub_le _ _
    have hexp : (BitVec.ofNat 11 (1075 - shift n)).toNat = 1075 - shift n := by
      rw [BitVec.toNat_ofNat, Nat.mod_eq_of_lt (by omega)]
    have hmax : BitVec.ofNat 11 (1075 - shift n) ≠ -1#11 := by
      intro h
      have := congrArg BitVec.toNat h
      rw [hexp] at this
      simp at this
      omega
    have hzero : BitVec.ofNat 11 (1075 - shift n) ≠ 0#11 := by
      intro h
      have := congrArg BitVec.toNat h
      rw [hexp] at this
      simp at this
      omega
    -- the leading one is not packed, and is put back
    have hmantissa : (1#1 ++ BitVec.ofNat 52 (n * 2 ^ shift n)).toNat = n * 2 ^ shift n := by
      have hrest : (BitVec.ofNat 52 (n * 2 ^ shift n)).toNat = n * 2 ^ shift n - 2 ^ 52 := by
        rw [BitVec.toNat_ofNat]
        omega
      have hone : (1#1).toNat <<< 52 = 2 ^ 52 := rfl
      rw [BitVec.toNat_append, ← Nat.shiftLeft_add_eq_or_of_lt (by omega), hrest, hone]
      omega
    have hbias : Format.binary64.exponentBias = 1023 := rfl
    have hbits : (Float.Model.pack (unpacked s n)).toBits.toBitVec =
        UnpackedFloat.pack Format.binary64 (unpacked s n) := rfl
    rw [Float.Model.unpack, hbits, pack_eq hpos hn, unpacked_pos hpos]
    simp only [UnpackedFloat.unpack, unpackMantissa_packComponents, unpackExponent_packComponents,
      unpackSign_packComponents, ofBitVec_toBitVec, hbias, hexp]
    rw [if_neg hmax, if_neg hzero]
    exact finite_congr hmantissa (by omega) _
  · obtain rfl : n = 0 := by omega
    cases s <;> rfl

/-! ## Operations -/

/-- Below the bound at which the exactness ends. -/
def Exact (z : Int) : Prop := z.natAbs < 2 ^ 53

theorem apply_signOf (z : Int) (k : Nat) :
    (signOf z).apply ((z.natAbs * 2 ^ k : Nat) : Int) = z * 2 ^ k := by
  unfold signOf
  split
  · next hneg =>
    simp only [Sign.apply]
    push_cast
    rw [abs_of_neg hneg]
    ring
  · next hnonneg =>
    simp only [Sign.apply]
    push_cast
    rw [abs_of_nonneg (by omega)]

theorem decreaseExponent_eq (m j k : Nat) (hjk : j ≤ k) :
    decreaseExponent (m * 2 ^ j) (-(j : Int)) (-(k : Int)) = (m * 2 ^ k, -(k : Int)) := by
  have hamount : (-(j : Int) - -(k : Int)).toNat = k - j := by omega
  have hmantissa : m * 2 ^ j * 2 ^ (k - j) = m * 2 ^ k := by
    rw [Nat.mul_assoc, ← Nat.pow_add]
    congr 2
    omega
  simp only [decreaseExponent, hamount, Nat.shiftLeft_eq, hmantissa]
  congr 1
  omega

theorem exactly_ne_zero {z : Int} (hz : z ≠ 0) : exactly z =
    .finite (signOf z) (z.natAbs * 2 ^ shift z.natAbs) (-(shift z.natAbs : Int))
      (Nat.mul_pos (Int.natAbs_pos.mpr hz) (Nat.two_pow_pos _)) :=
  unpacked_pos (Int.natAbs_pos.mpr hz) _

/-- **A sum of integers is exact.** -/
theorem add_exactly {a b : Int} (hsum : Exact (a + b)) :
    UnpackedFloat.add Format.binary64 (exactly a) (exactly b) = exactly (a + b) := by
  by_cases hazero : a = 0
  · subst hazero
    rw [Int.zero_add]
    by_cases hbzero : b = 0
    · subst hbzero
      rfl
    · rw [exactly_ne_zero hbzero]
      rfl
  by_cases hbzero : b = 0
  · subst hbzero
    rw [Int.add_zero, exactly_ne_zero hazero]
    rfl
  have hmin : min (-(shift a.natAbs : Int)) (-(shift b.natAbs : Int)) =
      -((max (shift a.natAbs) (shift b.natAbs) : Nat) : Int) := by omega
  generalize hk : max (shift a.natAbs) (shift b.natAbs) = k at hmin
  have hmantissa : a * 2 ^ k + b * 2 ^ k = (a + b) * 2 ^ k := by ring
  -- both are written with the smaller of their exponents
  rw [exactly_ne_zero hazero, exactly_ne_zero hbzero]
  simp only [UnpackedFloat.add, hmin, decreaseExponent_eq _ _ k (show shift a.natAbs ≤ k by omega),
    decreaseExponent_eq _ _ k (show shift b.natAbs ≤ k by omega), apply_signOf, hmantissa]
  exact normalize_eq hsum k

/-- **A difference of integers is exact.** -/
theorem sub_exactly {a b : Int} (hdiff : Exact (a - b)) :
    UnpackedFloat.sub Format.binary64 (exactly a) (exactly b) = exactly (a - b) := by
  by_cases hbzero : b = 0
  · subst hbzero
    rw [Int.sub_zero]
    by_cases hazero : a = 0
    · subst hazero
      rfl
    · rw [exactly_ne_zero hazero]
      rfl
  by_cases hazero : a = 0
  · subst hazero
    have hneg : -b ≠ 0 := by omega
    have hsign : -signOf b = signOf (-b) := by
      unfold signOf
      split <;> split <;> first | rfl | omega
    rw [Int.zero_sub, exactly_ne_zero hbzero, exactly_ne_zero hneg]
    show UnpackedFloat.finite (-signOf b) _ _ _ = _
    simp only [hsign, Int.natAbs_neg]
  have hmin : min (-(shift a.natAbs : Int)) (-(shift b.natAbs : Int)) =
      -((max (shift a.natAbs) (shift b.natAbs) : Nat) : Int) := by omega
  generalize hk : max (shift a.natAbs) (shift b.natAbs) = k at hmin
  have hmantissa : a * 2 ^ k - b * 2 ^ k = (a - b) * 2 ^ k := by ring
  rw [exactly_ne_zero hazero, exactly_ne_zero hbzero]
  simp only [UnpackedFloat.sub, hmin, decreaseExponent_eq _ _ k (show shift a.natAbs ≤ k by omega),
    decreaseExponent_eq _ _ k (show shift b.natAbs ≤ k by omega), apply_signOf, hmantissa]
  exact normalize_eq hdiff k

/-- **A product of integers is exact,** and has the sign of the rule of signs also when it is
zero. -/
theorem mul_unpacked {a b : Nat} (hprod : a * b < 2 ^ 53) (s t : Sign) :
    UnpackedFloat.mul Format.binary64 (unpacked s a) (unpacked t b) = unpacked (s * t) (a * b) := by
  by_cases hazero : a = 0
  · subst hazero
    rw [Nat.zero_mul]
    by_cases hbzero : b = 0
    · subst hbzero
      rfl
    · rw [unpacked_pos (Nat.pos_of_ne_zero hbzero)]
      rfl
  by_cases hbzero : b = 0
  · subst hbzero
    rw [Nat.mul_zero, unpacked_pos (Nat.pos_of_ne_zero hazero)]
    rfl
  have hapos := Nat.pos_of_ne_zero hazero
  have hbpos := Nat.pos_of_ne_zero hbzero
  have hpos : 0 < a * b := Nat.mul_pos hapos hbpos
  have hmantissa : a * 2 ^ shift a * (b * 2 ^ shift b) = a * b * 2 ^ (shift a + shift b) := by
    rw [Nat.pow_add]
    ring
  have hexponent : -(shift a : Int) + -(shift b : Int) = -((shift a + shift b : Nat) : Int) := by
    omega
  -- the product has bits enough
  have hshift : shift (a * b) ≤ shift a + shift b :=
    (shift_anti hapos (Nat.le_mul_of_pos_right a hbpos)).trans (Nat.le_add_right _ _)
  rw [unpacked_pos hapos, unpacked_pos hbpos]
  simp only [UnpackedFloat.mul, hmantissa, hexponent]
  exact roundWithAccuracy_eq hpos hprod hshift _

theorem neg_unpacked (s : Sign) (n : Nat) : (unpacked s n).neg = unpacked (-s) n := by
  unfold unpacked
  split <;> rfl

/-! ## Doubles -/

/-- The double with that sign and number. -/
def packed (s : Sign) (n : Nat) : Float := .ofModel (.pack (unpacked s n))

theorem packed_mul {a b : Nat} (ha : a < 2 ^ 53) (hb : b < 2 ^ 53) (hprod : a * b < 2 ^ 53)
    (s t : Sign) : packed s a * packed t b = packed (s * t) (a * b) := by
  show Float.ofModel (.pack (UnpackedFloat.mul Format.binary64 (Float.Model.pack _).unpack
    (Float.Model.pack _).unpack)) = _
  rw [unpack_pack ha, unpack_pack hb, mul_unpacked hprod]
  rfl

theorem packed_neg {n : Nat} (hn : n < 2 ^ 53) (s : Sign) : -(packed s n) = packed (-s) n := by
  show Float.ofModel (.pack (Float.Model.pack _).unpack.neg) = _
  rw [unpack_pack hn, neg_unpacked]
  rfl

theorem ofNat_eq {n : Nat} (hn : n < 2 ^ 53) : Float.ofNat n = packed .positive n := by
  have hscientific : Float.ofNat n =
      n.toUInt64.toFloat * Float.ofBits 0x3FF0000000000000 := dif_pos ⟨hn, by decide⟩
  have hone : Float.ofBits 0x3FF0000000000000 = packed .positive 1 := by decide +kernel
  have hword : n.toUInt64.toNat = n := by
    rw [Nat.toUInt64_eq, UInt64.toNat_ofNat']
    omega
  have hfloat : n.toUInt64.toFloat = packed .positive n := by
    show Float.ofModel (.pack (UnpackedFloat.ofNat Format.binary64 n.toUInt64.toNat)) = _
    have hnormal := @normalize_eq n hn 0
    rw [Int.pow_zero, Int.mul_one, exactly_natCast] at hnormal
    rw [hword]
    exact congrArg (fun u => Float.ofModel (.pack u)) hnormal
  rw [hscientific, hone, hfloat, packed_mul hn (by decide) (by omega), Nat.mul_one]
  rfl

theorem ofInt_eq {z : Int} (hz : Exact z) : Float.ofInt z = .ofModel (.pack (exactly z)) := by
  cases z with
  | ofNat n =>
    show Float.ofNat n = .ofModel (.pack (exactly (n : Int)))
    rw [exactly_natCast]
    exact ofNat_eq hz
  | negSucc n =>
    have hn : n + 1 < 2 ^ 53 := hz
    have hneg := @exactly_neg_natCast (n + 1) (Nat.succ_pos n)
    push_cast at hneg
    show -(Float.ofNat (n + 1)) = _
    rw [ofNat_eq hn, packed_neg hn, Int.negSucc_eq, hneg]
    rfl

theorem unpack_exactly {z : Int} (hz : Exact z) :
    (Float.Model.pack (exactly z)).unpack = exactly z :=
  unpack_pack hz _

/-- **Sums.** -/
theorem ofInt_add {a b : Int} (ha : Exact a) (hb : Exact b) (hsum : Exact (a + b)) :
    Float.ofInt a + Float.ofInt b = Float.ofInt (a + b) := by
  rw [ofInt_eq ha, ofInt_eq hb, ofInt_eq hsum]
  show Float.ofModel (.pack (UnpackedFloat.add Format.binary64 (Float.Model.pack _).unpack
    (Float.Model.pack _).unpack)) = _
  rw [unpack_exactly ha, unpack_exactly hb, add_exactly hsum]

/-- **Differences.** -/
theorem ofInt_sub {a b : Int} (ha : Exact a) (hb : Exact b) (hdiff : Exact (a - b)) :
    Float.ofInt a - Float.ofInt b = Float.ofInt (a - b) := by
  rw [ofInt_eq ha, ofInt_eq hb, ofInt_eq hdiff]
  show Float.ofModel (.pack (UnpackedFloat.sub Format.binary64 (Float.Model.pack _).unpack
    (Float.Model.pack _).unpack)) = _
  rw [unpack_exactly ha, unpack_exactly hb, sub_exactly hdiff]

/-- **Products.** -/
theorem ofNat_mul {a b : Nat} (ha : a < 2 ^ 53) (hb : b < 2 ^ 53) (hprod : a * b < 2 ^ 53) :
    Float.ofNat a * Float.ofNat b = Float.ofNat (a * b) := by
  rw [ofNat_eq ha, ofNat_eq hb, ofNat_eq hprod]
  exact packed_mul ha hb hprod _ _

/-- The number `±n`; there is a zero with either sign. -/
def signed (negative : Bool) (n : Nat) : Float :=
  if negative then -(Float.ofNat n) else Float.ofNat n

theorem signed_eq {n : Nat} (hn : n < 2 ^ 53) (negative : Bool) :
    signed negative n = packed (if negative then .negative else .positive) n := by
  cases negative with
  | false => exact ofNat_eq hn
  | true =>
    show -(Float.ofNat n) = _
    rw [ofNat_eq hn, packed_neg hn]
    rfl

/-- The sign as a factor, and a one as another. -/
theorem signed_mul {n : Nat} (hn : n < 2 ^ 53) (negative : Bool) :
    (if negative then -1.0 else 1.0) * Float.ofNat n * 1.0 = signed negative n := by
  have hone : (1.0 : Float) = packed .positive 1 := by decide +kernel
  have hminus : -(1.0 : Float) = packed .negative 1 := by decide +kernel
  have hproduct : ∀ s, packed s 1 * Float.ofNat n * 1.0 = packed s n := by
    intro s
    rw [ofNat_eq hn, hone, packed_mul (by decide) hn (by omega), Nat.one_mul,
      packed_mul hn (by decide) (by omega), Nat.mul_one]
    cases s <;> rfl
  rw [signed_eq hn]
  cases negative with
  | false =>
    show 1.0 * Float.ofNat n * 1.0 = packed .positive n
    rw [← hproduct, ← hone]
  | true =>
    show -1.0 * Float.ofNat n * 1.0 = packed .negative n
    rw [← hproduct, ← hminus]

/-- All but the negative zero are integers. -/
theorem signed_ofInt {negative : Bool} {n : Nat} (hn : n = 0 → negative = false) :
    signed negative n = Float.ofInt (if negative then -(n : Int) else n) := by
  cases negative with
  | false => rfl
  | true =>
    have hne : n ≠ 0 := by
      intro hzero
      cases hn hzero
    obtain ⟨m, rfl⟩ := Nat.exists_eq_succ_of_ne_zero hne
    rfl

/-! ## Comparing, and the way back to `int` -/

/-- `(int) x`: towards zero, and values out of range become the next one in range. -/
def toInt32 (x : Float) : Int32 := x.toModel.toInt32

theorem toInt_exactly (z low high : Int) : (exactly z).toInt low high = z := by
  by_cases hzero : z = 0
  · subst hzero
    rfl
  · have hsame : (-(shift z.natAbs : Int)).toNat = 0 := by omega
    have hamount : (0 - (-(shift z.natAbs : Int) - ((0 : Nat) : Int))).toNat = shift z.natAbs := by
      omega
    have happly := apply_signOf z 0
    rw [Nat.pow_zero, Nat.mul_one, Int.pow_zero, Int.mul_one] at happly
    rw [exactly_ne_zero hzero]
    simp only [UnpackedFloat.toInt, roundToInt, decreaseExponent, shiftToExponent, Int.sub_zero,
      hsame, Nat.shiftLeft_zero, hamount, ExtendedMantissa.ofMantissaAndAccuracy, shiftRight_exact]
    exact happly

theorem toInt32_ofInt {z : Int} (hlow : -2 ^ 31 ≤ z) (hhigh : z < 2 ^ 31) :
    toInt32 (Float.ofInt z) = Int32.ofInt z := by
  have hz : Exact z := by
    unfold Exact
    omega
  have hmin : Int32.minValue.toInt ≤ z := hlow
  have hmax : z ≤ Int32.maxValue.toInt := Int.le_of_lt_add_one hhigh
  rw [ofInt_eq hz]
  show Int32.ofIntClamp ((Float.Model.pack _).unpack.toInt _ _) = _
  rw [unpack_exactly hz, toInt_exactly, Int32.ofIntClamp, dif_pos hmin, dif_pos hmax,
    Int32.ofIntLE_eq_ofInt]

theorem beq_zero_ofInt {z : Int} (hz : Exact z) : (Float.ofInt z == 0) = decide (z = 0) := by
  have hnone : Exact 0 := Nat.two_pow_pos 53
  have hzero : (0 : Float) = .ofModel (.pack (exactly 0)) := by decide +kernel
  rw [ofInt_eq hz, hzero]
  show ((Float.Model.pack _).unpack.compare (Float.Model.pack _).unpack == some .eq) = _
  rw [unpack_exactly hz, unpack_exactly hnone]
  by_cases h : z = 0
  · subst h
    rfl
  · rw [exactly_ne_zero h, decide_eq_false h]
    cases signOf z <;> rfl

/-- Exponents are compared first, and then the numbers of 53 bits. -/
theorem compare_shifted {m n : Nat} (hpos : 0 < m) (hmn : m < n) :
    (compare (-(shift m : Int)) (-(shift n : Int))).then
        (compare (m * 2 ^ shift m) (n * 2 ^ shift n)) = .lt ∧
      (compare (-(shift n : Int)) (-(shift m : Int))).then
        (compare (n * 2 ^ shift n) (m * 2 ^ shift m)) = .gt := by
  have hanti := shift_anti hpos (Nat.le_of_lt hmn)
  rcases Nat.lt_or_eq_of_le hanti with hshift | hshift
  · have hlt : -(shift m : Int) < -(shift n : Int) := by omega
    rw [compare_lt_iff_lt.mpr hlt, compare_gt_iff_gt.mpr hlt]
    exact ⟨rfl, rfl⟩
  · have hlt : m * 2 ^ shift m < n * 2 ^ shift m :=
      Nat.mul_lt_mul_of_pos_right hmn (Nat.two_pow_pos _)
    rw [hshift, compare_eq_iff_eq.mpr rfl, compare_lt_iff_lt.mpr hlt, compare_gt_iff_gt.mpr hlt]
    exact ⟨rfl, rfl⟩

theorem compare_exactly {a b : Int} (hab : a < b) :
    (exactly a).compare (exactly b) = some .lt := by
  have hneg : ∀ z : Int, z < 0 → signOf z = .negative := fun z hz => if_pos hz
  have hpos : ∀ z : Int, 0 < z → signOf z = .positive := fun z hz => if_neg (by omega)
  rcases lt_trichotomy a 0 with ha | rfl | ha
  · rw [exactly_ne_zero (by omega), hneg a ha]
    rcases lt_trichotomy b 0 with hb | rfl | hb
    · rw [exactly_ne_zero (by omega), hneg b hb]
      simp only [UnpackedFloat.compare]
      rw [(compare_shifted (m := b.natAbs) (n := a.natAbs) (by omega) (by omega)).2]
      rfl
    · rfl
    · rw [exactly_ne_zero (by omega), hpos b hb]
      rfl
  · rw [exactly_ne_zero (z := b) (by omega), hpos b hab]
    rfl
  · rw [exactly_ne_zero (by omega), hpos a ha, exactly_ne_zero (by omega), hpos b (by omega)]
    simp only [UnpackedFloat.compare]
    rw [(compare_shifted (m := a.natAbs) (n := b.natAbs) (by omega) (by omega)).1]

theorem compare_exactly_self (a : Int) : (exactly a).compare (exactly a) = some .eq := by
  by_cases hzero : a = 0
  · subst hzero
    rfl
  · rw [exactly_ne_zero hzero]
    cases signOf a with
    | negative => simp [UnpackedFloat.compare]
    | positive => simp [UnpackedFloat.compare]

theorem ofInt_le {a b : Int} (ha : Exact a) (hb : Exact b) (hab : a ≤ b) :
    Float.ofInt a ≤ Float.ofInt b := by
  have hle : ((Float.Model.pack (exactly a)).unpack.compare
      (Float.Model.pack (exactly b)).unpack).any (·.isLE) = true := by
    rw [unpack_exactly ha, unpack_exactly hb]
    rcases Int.lt_or_eq_of_le hab with hlt | rfl
    · rw [compare_exactly hlt]
      rfl
    · rw [compare_exactly_self]
      rfl
  rw [ofInt_eq ha, ofInt_eq hb]
  exact decide_eq_true hle

end EmWinDemo.Lib.Doubles
