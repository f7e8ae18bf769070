/-
Counting is exact.

The numbers of the language are kept in fifty-three bits, so whole numbers below `2 ^ 53` have
a form of their own: they are shifted until the first of the fifty-three bits is set, and the
exponent says by how much. From such a form the number can be read back, the sum of two is
found by bringing them to one exponent and adding, and the order of two is that of their
exponents or else of their bits. None of this rounds. So a program that counts, by ones or by
sums, counts as with natural numbers, as long as it stays below the bound.
-/
import ContractScript.Number.Notation
import Mathlib

set_option autoImplicit false

namespace ContractScript.Number

open Float.Model
open Float.Model.UnpackedFloat

/-! ## The form of a whole number -/

/-- The form in which a whole number is kept: fifty-three bits, the first of them set. -/
def wholeForm (n : Nat) : UnpackedFloat :=
  if h : n = 0 then .zero .positive
  else .finite .positive (n * 2 ^ (52 - n.log2)) (n.log2 - 52)
    (Nat.mul_pos (Nat.pos_of_ne_zero h) (Nat.pow_pos Nat.two_pos))

theorem wholeForm_of_ne_zero {n : Nat} (pos : n ≠ 0) :
    wholeForm n = .finite .positive (n * 2 ^ (52 - n.log2)) (n.log2 - 52)
      (Nat.mul_pos (Nat.pos_of_ne_zero pos) (Nat.pow_pos Nat.two_pos)) :=
  dif_neg pos

theorem wholeForm_one : wholeForm 1 = .finite .positive (2 ^ 52) (-52) (by decide) := rfl

theorem log2_mul_pow {n : Nat} (pos : n ≠ 0) (s : Nat) : (n * 2 ^ s).log2 = n.log2 + s := by
  induction s with
  | zero => simp
  | succ s ih =>
    have more : n * 2 ^ (s + 1) = 2 * (n * 2 ^ s) := by rw [Nat.pow_succ]; ac_rfl
    have some : n * 2 ^ s ≠ 0 := Nat.mul_ne_zero pos (by simp)
    rw [more, Nat.log2_two_mul some, ih]
    rfl

theorem log2_lt {n : Nat} (pos : n ≠ 0) (small : n < 2 ^ 53) : n.log2 < 53 :=
  (Nat.log2_lt pos).mpr small

/-! ## Rounding what needs no rounding -/

theorem targetExponent_eq {n m : Nat} {e : Int}
    (total : totalExponent m e = n.log2 + 1) :
    Format.binary64.targetExponent (totalExponent m e) = n.log2 - 52 := by
  rw [total]
  unfold Format.targetExponent Format.minExponent Format.mantissaBits
  simp only
  omega

theorem totalExponent_mul_pow {n : Nat} (pos : n ≠ 0) (s : Nat) (e : Int) (he : e = -(s : Int)) :
    totalExponent (n * 2 ^ s) e = n.log2 + 1 := by
  unfold totalExponent
  rw [log2_mul_pow pos, he]
  omega

/-- Shifting out zeros loses nothing. -/
theorem shiftRight_mul_pow (a j : Nat) :
    (⟨a * 2 ^ j, false, false⟩ : ExtendedMantissa) >>> j = ⟨a, false, false⟩ := by
  induction j generalizing a with
  | zero => simp [HShiftRight.hShiftRight, Nat.repeat]
  | succ j ih =>
    have halved := ih (a * 2)
    change ExtendedMantissa.shiftRightOne ((⟨a * 2 ^ (j + 1), false, false⟩ : ExtendedMantissa) >>> j) = _
    rw [show a * 2 ^ (j + 1) = a * 2 * 2 ^ j by rw [Nat.pow_succ]; ac_rfl, halved]
    simp [ExtendedMantissa.shiftRightOne]

/-- A number that has been shifted too far is brought back to its form. -/
theorem shiftToTargetExponent_eq {n : Nat} (pos : n ≠ 0) (small : n < 2 ^ 53) (s : Nat)
    (deep : 52 - n.log2 ≤ s) :
    shiftToTargetExponent .binary64 (n * 2 ^ s) (-(s : Int)) .exact
      = (⟨n * 2 ^ (52 - n.log2), false, false⟩, (n.log2 : Int) - 52) := by
  have total := totalExponent_mul_pow pos s _ rfl
  have low := log2_lt pos small
  unfold shiftToTargetExponent shiftToExponent
  rw [targetExponent_eq total]
  have amount : ((n.log2 : Int) - 52 - -(s : Int)).toNat = s - (52 - n.log2) := by omega
  have split : n * 2 ^ s = n * 2 ^ (52 - n.log2) * 2 ^ (s - (52 - n.log2)) := by
    rw [Nat.mul_assoc, ← Nat.pow_add]
    congr 2
    omega
  simp only [amount, ExtendedMantissa.ofMantissaAndAccuracy]
  rw [split, shiftRight_mul_pow]
  congr 1
  omega

theorem roundWithAccuracy_eq {n : Nat} (pos : n ≠ 0) (small : n < 2 ^ 53) (s : Nat)
    (deep : 52 - n.log2 ≤ s) :
    roundWithAccuracy .binary64 .positive (n * 2 ^ s) (-(s : Int)) .exact = wholeForm n := by
  have low := log2_lt pos small
  have first := shiftToTargetExponent_eq pos small s deep
  have second := shiftToTargetExponent_eq pos small (52 - n.log2) (Nat.le_refl _)
  have same : -((52 - n.log2 : Nat) : Int) = (n.log2 : Int) - 52 := by omega
  rw [same] at second
  have some : n * 2 ^ (52 - n.log2) ≠ 0 := Nat.mul_ne_zero pos (by simp)
  unfold roundWithAccuracy wholeForm
  simp only [first, ExtendedMantissa.roundedMantissa, ExtendedMantissa.accuracy,
    Accuracy.roundToNearestEven, second, dif_neg some, dif_neg pos]

/-- However far a number below the bound has been shifted, rounding finds its form. -/
theorem round_eq {n : Nat} (pos : n ≠ 0) (small : n < 2 ^ 53) (s : Nat) :
    UnpackedFloat.round .binary64 .positive (n * 2 ^ s) (-(s : Int)) = wholeForm n := by
  have total := totalExponent_mul_pow pos s _ rfl
  have low := log2_lt pos small
  unfold UnpackedFloat.round decreaseExponent
  rw [targetExponent_eq total]
  simp only
  have widened : (n * 2 ^ s) <<< (-(s : Int) - ((n.log2 : Int) - 52)).toNat
      = n * 2 ^ (max s (52 - n.log2)) := by
    rw [Nat.shiftLeft_eq, Nat.mul_assoc, ← Nat.pow_add]
    congr 2
    omega
  have lowered : -(s : Int) - ((-(s : Int) - ((n.log2 : Int) - 52)).toNat : Int)
      = -((max s (52 - n.log2) : Nat) : Int) := by omega
  rw [widened, lowered]
  exact roundWithAccuracy_eq pos small _ (Nat.le_max_right _ _)

theorem normalize_eq {n : Nat} (small : n < 2 ^ 53) (s : Nat) :
    UnpackedFloat.normalize .binary64 ((n * 2 ^ s : Nat) : Int) (-(s : Int)) .positive = wholeForm n := by
  unfold UnpackedFloat.normalize
  by_cases pos : n = 0
  · subst pos
    simp [wholeForm]
  · have some : 0 < n * 2 ^ s := Nat.mul_pos (Nat.pos_of_ne_zero pos) (Nat.pow_pos Nat.two_pos)
    have greater : compare ((n * 2 ^ s : Nat) : Int) 0 = .gt := by
      rw [Int.compare_eq_gt]
      omega
    rw [greater]
    exact round_eq pos small s

/-! ## Packing -/

theorem finite_congr {sign : Sign} {m m' : Nat} {e e' : Int} {h : 0 < m} {h' : 0 < m'} (hm : m = m')
    (he : e = e') : UnpackedFloat.finite sign m e h = .finite sign m' e' h' := by
  subst hm he
  rfl

theorem unpackSign_packComponents {spec : Format} {sign : Sign} {exponent mantissa} :
    unpackSign (packComponents spec sign exponent mantissa) = sign.toBitVec := by
  ext i hi
  have only : i = 0 := by omega
  subst only
  simp [unpackSign, packComponents, BitVec.getLsbD_eq_getElem, BitVec.getLsbD_append,
    BitVec.getElem_append]

theorem biased_eq (n : Nat) :
    ((n.log2 : Int) - 52 + Format.binary64.exponentBias + ((52 : Nat) : Int)).toNat = n.log2 + 1023 := by
  unfold Format.exponentBias
  simp only
  omega

theorem wide_mul_pow {n : Nat} (pos : n ≠ 0) (small : n < 2 ^ 53) :
    (n * 2 ^ (52 - n.log2)).log2 = 52 := by
  have low := log2_lt pos small
  rw [log2_mul_pow pos]
  omega

theorem bounds_mul_pow {n : Nat} (pos : n ≠ 0) (small : n < 2 ^ 53) :
    2 ^ 52 ≤ n * 2 ^ (52 - n.log2) ∧ n * 2 ^ (52 - n.log2) < 2 ^ 53 := by
  have wide := wide_mul_pow pos small
  have some : n * 2 ^ (52 - n.log2) ≠ 0 := Nat.mul_ne_zero pos (by simp)
  refine ⟨?_, (Nat.log2_lt some).mp (by omega)⟩
  have least := Nat.log2_self_le some
  rwa [wide] at least

theorem pack_wholeForm {n : Nat} (pos : n ≠ 0) (small : n < 2 ^ 53) :
    UnpackedFloat.pack .binary64 (wholeForm n)
      = packComponents .binary64 .positive (BitVec.ofNat 11 (n.log2 + 1023))
          (BitVec.ofNat 52 (n * 2 ^ (52 - n.log2))) := by
  have low := log2_lt pos small
  unfold wholeForm
  rw [dif_neg pos]
  unfold UnpackedFloat.pack
  simp only [wide_mul_pow pos small, biased_eq]
  rw [if_neg (by omega), if_pos (show 52 + 1 = Format.binary64.mantissaBits from rfl)]

/-- The form of a number below the bound comes back from the bits. -/
theorem unpack_pack_wholeForm {n : Nat} (small : n < 2 ^ 53) :
    (Float.Model.pack (wholeForm n)).unpack = wholeForm n := by
  by_cases pos : n = 0
  · subst pos
    rfl
  have low := log2_lt pos small
  obtain ⟨least, most⟩ := bounds_mul_pow pos small
  -- the leading one of the mantissa is not stored, and is put back in front
  have hidden : (1#1 ++ BitVec.ofNat 52 (n * 2 ^ (52 - n.log2))).toNat = n * 2 ^ (52 - n.log2) := by
    rw [BitVec.toNat_append, BitVec.toNat_ofNat, BitVec.toNat_ofNat,
      ← Nat.shiftLeft_add_eq_or_of_lt (Nat.mod_lt _ (by decide)), Nat.shiftLeft_eq]
    omega
  have exponent : (BitVec.ofNat 11 (n.log2 + 1023)).toNat = n.log2 + 1023 := by
    rw [BitVec.toNat_ofNat]
    omega
  -- the biased exponent is neither that of infinity nor that of the smallest numbers
  have finite : BitVec.ofNat 11 (n.log2 + 1023) ≠ -1#11 := by
    intro same
    have := congrArg BitVec.toNat same
    rw [exponent] at this
    simp at this
    omega
  have normal : BitVec.ofNat 11 (n.log2 + 1023) ≠ 0#11 := by
    intro same
    have := congrArg BitVec.toNat same
    rw [exponent] at this
    simp at this
  show UnpackedFloat.unpack .binary64 (UnpackedFloat.pack .binary64 (wholeForm n)) = wholeForm n
  rw [pack_wholeForm pos small]
  unfold UnpackedFloat.unpack
  simp only [unpackExponent_packComponents, unpackMantissa_packComponents, unpackSign_packComponents]
  rw [if_neg finite, if_neg normal]
  unfold wholeForm
  rw [dif_neg pos]
  refine finite_congr hidden ?_
  rw [exponent]
  unfold Format.exponentBias
  simp only
  omega

/-! ## Whole numbers -/

theorem mul_finite {m m' : Nat} {e e' : Int} (h : 0 < m) (h' : 0 < m') :
    UnpackedFloat.mul .binary64 (.finite .positive m e h) (.finite .positive m' e' h')
      = roundWithAccuracy .binary64 .positive (m * m') (e + e') .exact := rfl

theorem unpack_one : (Float.ofBits 0x3FF0000000000000).toModel.unpack = wholeForm 1 := by
  rfl

theorem toModel_toFloat {n : Nat} (small : n < 2 ^ 53) :
    n.toUInt64.toFloat.toModel = Float.Model.pack (wholeForm n) := by
  have exact : n.toUInt64.toNat = n := by
    rw [UInt64.toNat_ofNat']
    omega
  have normal := normalize_eq small 0
  rw [Nat.pow_zero, Nat.mul_one] at normal
  show Float.Model.pack (UnpackedFloat.normalize .binary64 (n.toUInt64.toNat : Int) 0 .positive) = _
  rw [exact]
  exact congrArg _ normal

/-- The number nearest to a natural number below the bound is that number. -/
theorem toModel_ofInt {n : Nat} (small : n < 2 ^ 53) :
    (ofInt n).toModel = Float.Model.pack (wholeForm n) := by
  have value : ofInt n = n.toUInt64.toFloat * Float.ofBits 0x3FF0000000000000 := by
    unfold ofInt
    rw [if_neg (by omega), Int.natAbs_natCast]
    unfold Float.ofScientific
    rw [dif_pos ⟨small, Nat.zero_le _⟩]
    rfl
  have product : (n.toUInt64.toFloat * Float.ofBits 0x3FF0000000000000).toModel
      = Float.Model.pack (UnpackedFloat.mul .binary64 n.toUInt64.toFloat.toModel.unpack
          (Float.ofBits 0x3FF0000000000000).toModel.unpack) := rfl
  rw [value, product, toModel_toFloat small, unpack_pack_wholeForm small, unpack_one]
  by_cases pos : n = 0
  · subst pos
    rfl
  have low := log2_lt pos small
  have mantissa : n * 2 ^ (52 - n.log2) * 2 ^ 52 = n * 2 ^ (52 - n.log2 + 52) := by
    rw [Nat.pow_add, Nat.mul_assoc]
  have exponent : (n.log2 : Int) - 52 + -52 = -((52 - n.log2 + 52 : Nat) : Int) := by omega
  rw [wholeForm_of_ne_zero pos, wholeForm_one, mul_finite, mantissa, exponent,
    roundWithAccuracy_eq pos small _ (by omega), wholeForm_of_ne_zero pos]

/-! ## Addition -/

theorem decreaseExponent_eq {n : Nat} (pos : n ≠ 0) (small : n < 2 ^ 53) {e : Int}
    (lower : e ≤ (n.log2 : Int) - 52) :
    (decreaseExponent (n * 2 ^ (52 - n.log2)) ((n.log2 : Int) - 52) e).1 = n * 2 ^ (-e).toNat := by
  have low := log2_lt pos small
  unfold decreaseExponent
  simp only
  rw [Nat.shiftLeft_eq, Nat.mul_assoc, ← Nat.pow_add]
  congr 2
  omega

theorem add_wholeForm {a b : Nat} (small : a + b < 2 ^ 53) :
    UnpackedFloat.add .binary64 (wholeForm a) (wholeForm b) = wholeForm (a + b) := by
  by_cases ha : a = 0
  · subst ha
    rw [Nat.zero_add]
    by_cases hb : b = 0
    · subst hb
      rfl
    · rw [wholeForm_of_ne_zero hb]
      rfl
  by_cases hb : b = 0
  · subst hb
    rw [Nat.add_zero, wholeForm_of_ne_zero ha]
    rfl
  have lowA := log2_lt ha (by omega)
  have lowB := log2_lt hb (by omega)
  rw [wholeForm_of_ne_zero ha, wholeForm_of_ne_zero hb]
  unfold UnpackedFloat.add
  simp only [Sign.apply]
  rw [decreaseExponent_eq ha (by omega) (min_le_left _ _),
    decreaseExponent_eq hb (by omega) (min_le_right _ _)]
  -- both are shifted to the smaller of the exponents, and the sum of the mantissas is exact
  have sum := normalize_eq small (-(min ((a.log2 : Int) - 52) ((b.log2 : Int) - 52))).toNat
  have exponent : -((-(min ((a.log2 : Int) - 52) ((b.log2 : Int) - 52))).toNat : Int)
      = min ((a.log2 : Int) - 52) ((b.log2 : Int) - 52) := by omega
  rw [exponent, Nat.add_mul, Int.natCast_add] at sum
  exact sum

/-- Sums below the bound are exact. -/
theorem ofInt_add {a b : Nat} (small : a + b < 2 ^ 53) : ofInt a + ofInt b = ofInt (a + b : Nat) := by
  have sum : (ofInt a + ofInt b).toModel
      = Float.Model.pack (UnpackedFloat.add .binary64 (ofInt a).toModel.unpack (ofInt b).toModel.unpack) := rfl
  have same : (ofInt a + ofInt b).toModel = (ofInt (a + b : Nat)).toModel := by
    rw [sum, toModel_ofInt (by omega), toModel_ofInt (by omega), toModel_ofInt small,
      unpack_pack_wholeForm (by omega), unpack_pack_wholeForm (by omega), add_wholeForm small]
  exact congrArg Float.ofModel same

/-! ## Subtraction -/

theorem sub_wholeForm {a b : Nat} (le : b ≤ a) (small : a < 2 ^ 53) :
    UnpackedFloat.sub .binary64 (wholeForm a) (wholeForm b) = wholeForm (a - b) := by
  by_cases hb : b = 0
  · subst hb
    by_cases ha : a = 0
    · subst ha
      rfl
    · rw [Nat.sub_zero, wholeForm_of_ne_zero ha]
      rfl
  have ha : a ≠ 0 := by omega
  have lowA := log2_lt ha small
  have lowB := log2_lt hb (by omega)
  rw [wholeForm_of_ne_zero ha, wholeForm_of_ne_zero hb]
  unfold UnpackedFloat.sub
  simp only [Sign.apply]
  rw [decreaseExponent_eq ha small (min_le_left _ _),
    decreaseExponent_eq hb (by omega) (min_le_right _ _)]
  have difference := normalize_eq (n := a - b) (by omega)
    (-(min ((a.log2 : Int) - 52) ((b.log2 : Int) - 52))).toNat
  have exponent : -((-(min ((a.log2 : Int) - 52) ((b.log2 : Int) - 52))).toNat : Int)
      = min ((a.log2 : Int) - 52) ((b.log2 : Int) - 52) := by omega
  rw [exponent, Nat.sub_mul, Int.natCast_sub (Nat.mul_le_mul_right _ le)] at difference
  exact difference

/-- Differences of numbers below the bound are exact, as long as they are not negative. -/
theorem ofInt_sub {a b : Nat} (le : b ≤ a) (small : a < 2 ^ 53) :
    ofInt a - ofInt b = ofInt (a - b : Nat) := by
  have difference : (ofInt a - ofInt b).toModel
      = Float.Model.pack (UnpackedFloat.sub .binary64 (ofInt a).toModel.unpack (ofInt b).toModel.unpack) := rfl
  have same : (ofInt a - ofInt b).toModel = (ofInt (a - b : Nat)).toModel := by
    rw [difference, toModel_ofInt small, toModel_ofInt (by omega), toModel_ofInt (by omega),
      unpack_pack_wholeForm small, unpack_pack_wholeForm (by omega), sub_wholeForm le small]
  exact congrArg Float.ofModel same

/-! ## Comparison -/

theorem lt_of_log2_lt {a b : Nat} (ha : a ≠ 0) (hb : b ≠ 0) (shorter : a.log2 < b.log2) : a < b := by
  have above : a < 2 ^ (a.log2 + 1) := (Nat.log2_lt ha).mp (Nat.lt_succ_self _)
  have below : 2 ^ b.log2 ≤ b := Nat.log2_self_le hb
  have between : 2 ^ (a.log2 + 1) ≤ 2 ^ b.log2 := Nat.pow_le_pow_right Nat.two_pos shorter
  omega

/-- The forms of whole numbers compare as the numbers do: the longer one is greater, and of the same
length they have been shifted by as much. -/
theorem compare_wholeForm (a b : Nat) :
    (wholeForm a).compare (wholeForm b) = some (compare a b) := by
  by_cases ha : a = 0
  · subst ha
    by_cases hb : b = 0
    · subst hb
      rfl
    · rw [wholeForm_of_ne_zero hb, Nat.compare_eq_lt.mpr (Nat.pos_of_ne_zero hb)]
      rfl
  by_cases hb : b = 0
  · subst hb
    rw [wholeForm_of_ne_zero ha, Nat.compare_eq_gt.mpr (Nat.pos_of_ne_zero ha)]
    rfl
  rw [wholeForm_of_ne_zero ha, wholeForm_of_ne_zero hb]
  unfold UnpackedFloat.compare
  simp only [Option.some.injEq]
  rcases Nat.lt_trichotomy a.log2 b.log2 with shorter | same | longer
  · rw [Int.compare_eq_lt.mpr (by omega), Nat.compare_eq_lt.mpr (lt_of_log2_lt ha hb shorter)]
    rfl
  · have scaled : compare (a * 2 ^ (52 - b.log2)) (b * 2 ^ (52 - b.log2)) = compare a b := by
      rw [Nat.compare_eq_ite_lt, Nat.compare_eq_ite_lt]
      simp only [Nat.mul_lt_mul_right (Nat.pow_pos Nat.two_pos)]
    rw [same, Int.compare_eq_eq.mpr rfl]
    exact scaled
  · rw [Int.compare_eq_gt.mpr (by omega), Nat.compare_eq_gt.mpr (lt_of_log2_lt hb ha longer)]
    rfl

theorem lt_iff {x y : Float} : x < y ↔ x.toModel.unpack.compare y.toModel.unpack = some .lt := by
  show decide _ = true ↔ _
  rw [decide_eq_true_iff, ← beq_iff_eq]
  rfl

theorem le_iff {x y : Float} :
    x ≤ y ↔ (x.toModel.unpack.compare y.toModel.unpack).any (·.isLE) = true := by
  show decide _ = true ↔ _
  rw [decide_eq_true_iff]
  rfl

theorem unpack_ofInt {n : Nat} (small : n < 2 ^ 53) : (ofInt n).toModel.unpack = wholeForm n := by
  rw [toModel_ofInt small, unpack_pack_wholeForm small]

/-- Numbers below the bound compare as natural numbers do. -/
theorem ofInt_lt {a b : Nat} (smallA : a < 2 ^ 53) (smallB : b < 2 ^ 53) :
    ofInt a < ofInt b ↔ a < b := by
  rw [lt_iff, unpack_ofInt smallA, unpack_ofInt smallB, compare_wholeForm, Option.some.injEq,
    Nat.compare_eq_lt]

theorem ofInt_le {a b : Nat} (smallA : a < 2 ^ 53) (smallB : b < 2 ^ 53) :
    ofInt a ≤ ofInt b ↔ a ≤ b := by
  rw [le_iff, unpack_ofInt smallA, unpack_ofInt smallB, compare_wholeForm, Option.any_some,
    Nat.isLE_compare]

/-- Counting down from zero leaves the numbers that are at least zero. -/
theorem not_le_zero_sub_one : ¬ofInt 0 ≤ ofInt 0 - ofInt 1 := by
  decide +kernel

/-- A negative number is not at least zero. -/
theorem not_le_of_lt_zero {x : Float} (negative : x < ofInt 0) : ¬ofInt 0 ≤ x := by
  have zero : (ofInt 0).toModel.unpack = .zero .positive := unpack_ofInt (n := 0) (by decide)
  rw [lt_iff, zero] at negative
  rw [le_iff, zero]
  cases form : x.toModel.unpack with
  | infinity s => cases s <;> rw [form] at negative <;> simp [UnpackedFloat.compare] at negative ⊢
  | notANumber =>
    rw [form] at negative
    cases negative
  | zero s =>
    rw [form] at negative
    cases negative
  | finite s m e pos => cases s <;> rw [form] at negative <;> simp [UnpackedFloat.compare] at negative ⊢

/-! ## Reading the bits -/

theorem toNat_toBits_ofInt {n : Nat} (pos : n ≠ 0) (small : n < 2 ^ 53) :
    (ofInt n).toBits.toNat = (n.log2 + 1023) * 2 ^ 52 + n * 2 ^ (52 - n.log2) % 2 ^ 52 := by
  have low := log2_lt pos small
  have bits : (ofInt n).toBits.toNat = (UnpackedFloat.pack .binary64 (wholeForm n)).toNat := by
    show (ofInt n).toModel.toBits.toNat = _
    rw [toModel_ofInt small]
    rfl
  rw [bits, pack_wholeForm pos small]
  unfold packComponents
  rw [BitVec.toNat_append, BitVec.toNat_append]
  simp only [Sign.toBitVec, BitVec.toNat_ofNat, Nat.zero_mod, Nat.zero_shiftLeft, Nat.zero_or]
  rw [← Nat.shiftLeft_add_eq_or_of_lt (Nat.mod_lt _ (by decide)), Nat.shiftLeft_eq,
    Nat.mod_eq_of_lt (show n.log2 + 1023 < 2 ^ 11 by omega)]

theorem fields_ofInt {n : Nat} (pos : n ≠ 0) (small : n < 2 ^ 53) :
    isNegative (ofInt n) = false ∧ exponentField (ofInt n) = n.log2 + 1023 ∧
      fractionField (ofInt n) = n * 2 ^ (52 - n.log2) - 2 ^ 52 := by
  have low := log2_lt pos small
  have bits := toNat_toBits_ofInt pos small
  obtain ⟨least, most⟩ := bounds_mul_pow pos small
  unfold isNegative exponentField fractionField
  rw [bits]
  simp only [powTwo, Nat.pow_eq]
  refine ⟨?_, ?_, ?_⟩
  · rw [beq_eq_false_iff_ne]
    omega
  · omega
  · omega

theorem magnitude_ofInt {n : Nat} (pos : n ≠ 0) (small : n < 2 ^ 53) :
    magnitude (ofInt n) = ⟨n * 2 ^ (52 - n.log2), (n.log2 : Int) - 52⟩ := by
  obtain ⟨-, exponent, fraction⟩ := fields_ofInt pos small
  obtain ⟨least, -⟩ := bounds_mul_pow pos small
  unfold magnitude
  rw [exponent, fraction, if_neg (by simp)]
  simp only [powTwo, Nat.pow_eq, Magnitude.mk.injEq]
  omega

/-- A natural number below the bound is read back as an integer. -/
theorem whole?_ofInt {n : Nat} (small : n < 2 ^ 53) : whole? (ofInt n) = some (n : Int) := by
  by_cases pos : n = 0
  · subst pos
    decide +kernel
  have low := log2_lt pos small
  obtain ⟨sign, exponent, -⟩ := fields_ofInt pos small
  have back : n * 2 ^ (52 - n.log2) / 2 ^ (52 - n.log2) = n :=
    Nat.mul_div_cancel _ (Nat.pow_pos Nat.two_pos)
  have shift : (-((n.log2 : Int) - 52)).toNat = 52 - n.log2 := by omega
  have whole : isWhole (ofInt n) = true := by
    unfold isWhole isFinite
    rw [magnitude_ofInt pos small, exponent]
    simp only [powTwo, Nat.pow_eq, shift, Nat.mul_mod_left, beq_self_eq_true, Bool.or_true, Bool.and_true]
    rw [bne_iff_ne]
    omega
  have size : truncate (ofInt n) = n := by
    unfold truncate
    rw [magnitude_ofInt pos small, sign]
    simp only [powTwo, Nat.pow_eq, shift, back, Bool.false_eq_true, if_false]
    split
    · have full : n.log2 = 52 := by omega
      simp [full]
    · rfl
  unfold whole?
  rw [if_pos whole, size]

/-! ## Numbers that equal a whole number -/

theorem eq_of_toBits {x y : Float} (same : x.toBits = y.toBits) : x = y := by
  obtain ⟨⟨b, valid⟩⟩ := x
  obtain ⟨⟨b', valid'⟩⟩ := y
  cases (show b = b' from same)
  rfl

theorem isZero_iff {x : Float} : isZero x = true ↔ x = ofInt 0 ∨ x = -ofInt 0 := by
  constructor
  · intro zero
    unfold isZero exponentField fractionField at zero
    simp only [powTwo, Nat.pow_eq, Bool.and_eq_true, beq_iff_eq] at zero
    have bound := x.toBits.toNat_lt
    have bits : x.toBits.toNat = 0 ∨ x.toBits.toNat = 2 ^ 63 := by omega
    rcases bits with none | sign
    · refine .inl (eq_of_toBits (UInt64.toNat_inj.mp (none.trans ?_)))
      decide +kernel
    · refine .inr (eq_of_toBits (UInt64.toNat_inj.mp (sign.trans ?_)))
      decide +kernel
  · rintro (rfl | rfl) <;> decide +kernel

/-- A number that equals a natural number below the bound is it, or is minus zero. -/
theorem same_ofInt {x : Float} {n : Nat} (small : n < 2 ^ 53) (equal : same x (ofInt n) = true) :
    x = ofInt n ∨ (n = 0 ∧ x = -ofInt 0) := by
  unfold same at equal
  simp only [Bool.and_eq_true, Bool.or_eq_true, beq_iff_eq] at equal
  rcases equal.2 with bits | ⟨here, there⟩
  · exact .inl (eq_of_toBits bits)
  · have none : n = 0 := by
      by_contra pos
      obtain ⟨-, exponent, -⟩ := fields_ofInt pos small
      unfold isZero at there
      rw [exponent] at there
      simp at there
    subst none
    exact (isZero_iff.mp here).imp_right fun minus => ⟨rfl, minus⟩

/-- A number that equals a natural number below the bound bounds a count from zero as it does. -/
theorem counts_to {x : Float} {n : Nat} (small : n < 2 ^ 53) (equal : same x (ofInt n) = true) :
    ofInt 0 ≤ x ∧ ∀ j : Nat, j < 2 ^ 53 → (ofInt j < x ↔ j < n) := by
  rcases same_ofInt small equal with rfl | ⟨rfl, rfl⟩
  · refine ⟨?_, fun j below => ofInt_lt below small⟩
    exact (ofInt_le (a := 0) (by decide) small).mpr (Nat.zero_le n)
  · have bits : -ofInt 0 = Float.ofBits 0x8000000000000000 := by
      refine congrArg Float.ofModel (?_ : (-ofInt 0).toModel = (Float.ofBits 0x8000000000000000).toModel)
      decide +kernel
    have zero : (-ofInt 0).toModel.unpack = .zero .negative := by
      rw [bits]
      rfl
    refine ⟨by decide +kernel, fun j below => ⟨fun less => ?_, fun less => absurd less (Nat.not_lt_zero j)⟩⟩
    rw [lt_iff, unpack_ofInt below, zero] at less
    by_cases none : j = 0
    · subst none
      cases less
    · rw [wholeForm_of_ne_zero none] at less
      cases less

end ContractScript.Number
