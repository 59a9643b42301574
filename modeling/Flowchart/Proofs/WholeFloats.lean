import Flowchart.Condition.Evaluation
import Mathlib

/-!
# Whole numbers as floats

Conditions compare numbers as floats.  A whole number below `2 ^ 53` is a float without being rounded, so that
comparing two such numbers as floats is comparing them.

A float stands for a whole number by its mantissa, which has 53 bits, and an exponent.  The functions of the float
model keep to this form: rounding does nothing to it, packing and unpacking give it back, and it is ordered by the
exponent first.

* `WholeFloat.mantissa`, `WholeFloat.exponent` — a whole number in this form.
* `WholeFloat.round_mul_pow` — rounding only takes off the zeros that a mantissa has too many.
* `WholeFloat.unpack_pack` — packing loses nothing.
* `WholeFloat.unpack_ofInt` — the float of a whole number has this form.
* `WholeFloat.compare_value` — numbers in this form are compared as whole numbers.
* **`Comparator.ofFloats_ofInt`** — a comparison of whole numbers as floats.
-/

namespace Flowchart

namespace WholeFloat

open Float.Model Float.Model.UnpackedFloat

/-! ### Mantissa and exponent -/

/-- The number with zeros behind it, as many as make 53 bits. -/
def mantissa (n : Nat) : Nat := n * 2 ^ (52 - n.log2)

/-- The exponent that takes the zeros away again. -/
def exponent (n : Nat) : Int := n.log2 - 52

variable {n : Nat}

theorem log2_le (h : n < 2 ^ 53) : n.log2 ≤ 52 := by
  by_cases hn : n = 0
  · rw [hn]
    decide
  · have := (Nat.log2_lt hn).mpr h
    omega

/-- The mantissa has 53 bits. -/
theorem mantissa_bounds (hn : n ≠ 0) (h : n < 2 ^ 53) : 2 ^ 52 ≤ mantissa n ∧ mantissa n < 2 ^ 53 := by
  have hlog := log2_le h
  have hlow : 2 ^ n.log2 ≤ n := Nat.log2_self_le hn
  have hhigh : n < 2 ^ (n.log2 + 1) := Nat.lt_log2_self
  have hpos : 0 < 2 ^ (52 - n.log2) := Nat.two_pow_pos _
  unfold mantissa
  constructor
  · calc 2 ^ 52 = 2 ^ n.log2 * 2 ^ (52 - n.log2) := by rw [← pow_add]; congr 1; omega
      _ ≤ n * 2 ^ (52 - n.log2) := Nat.mul_le_mul_right _ hlow
  · calc n * 2 ^ (52 - n.log2) < 2 ^ (n.log2 + 1) * 2 ^ (52 - n.log2) := Nat.mul_lt_mul_of_pos_right hhigh hpos
      _ = 2 ^ 53 := by rw [← pow_add]; congr 1; omega

theorem mantissa_pos (hn : n ≠ 0) : 0 < mantissa n := Nat.mul_pos (by omega) (Nat.two_pow_pos _)

/-! ### Rounding -/

/-- Taking off the zeros at the end of a mantissa leaves nothing behind to be rounded. -/
theorem repeat_shiftRightOne (m k : Nat) :
    k.repeat ExtendedMantissa.shiftRightOne ⟨m * 2 ^ k, false, false⟩ = ⟨m, false, false⟩ := by
  induction k generalizing m with
  | zero => simp [Nat.repeat]
  | succ k ih =>
    have hmul : m * 2 ^ (k + 1) = m * 2 * 2 ^ k := by ring
    rw [Nat.repeat, hmul, ih]
    simp [ExtendedMantissa.shiftRightOne]

/-- A mantissa of 53 bits with zeros behind it is shifted until it has 53 bits. -/
theorem shift_mul_pow {m : Nat} {e : Int} (hlow : 2 ^ 52 ≤ m) (hhigh : m < 2 ^ 53) (he : -1074 ≤ e) (k : Nat) :
    shiftToTargetExponent Format.binary64 (m * 2 ^ k) (e - k) .exact = (⟨m, false, false⟩, e) := by
  have hpow : 0 < 2 ^ k := Nat.two_pow_pos k
  have hlog : (m * 2 ^ k).log2 = 52 + k := by
    refine (Nat.log2_eq_iff (Nat.mul_ne_zero (by omega) (by omega))).mpr ⟨?_, ?_⟩
    · rw [pow_add]
      exact Nat.mul_le_mul_right _ hlow
    · rw [show 52 + k + 1 = 53 + k by omega, pow_add]
      exact Nat.mul_lt_mul_of_pos_right hhigh hpow
  have htarget : Format.binary64.targetExponent (totalExponent (m * 2 ^ k) (e - k)) = e := by
    unfold Format.targetExponent totalExponent
    rw [hlog]
    simp [Format.mantissaBits, Format.minExponent]
    omega
  unfold shiftToTargetExponent shiftToExponent
  rw [htarget]
  have hamount : (e - (e - k)).toNat = k := by omega
  dsimp only
  rw [hamount]
  refine Prod.ext ?_ ?_
  · exact repeat_shiftRightOne m k
  · show e - k + k = e
    omega

/-- **Rounding only takes off zeros.** -/
theorem round_mul_pow (s : Sign) {m : Nat} {e : Int} (hlow : 2 ^ 52 ≤ m) (hhigh : m < 2 ^ 53) (he : -1074 ≤ e)
    (k : Nat) : roundWithAccuracy Format.binary64 s (m * 2 ^ k) (e - k) .exact = .finite s m e (by omega) := by
  have hagain := shift_mul_pow hlow hhigh he 0
  rw [pow_zero, Nat.mul_one, Nat.cast_zero, Int.sub_zero] at hagain
  have hrounded : ExtendedMantissa.roundedMantissa ⟨m, false, false⟩ = m := rfl
  have hne : m ≠ 0 := by omega
  unfold roundWithAccuracy
  rw [shift_mul_pow hlow hhigh he k]
  simp only [hrounded, hagain, hne, dite_false]

/-! ### Packing -/

/-- The form in which the float of a whole number is unpacked: a sign, the mantissa and the exponent. -/
def form (s : Sign) (n : Nat) : UnpackedFloat :=
  if h : n = 0 then .zero s else .finite s (mantissa n) (exponent n) (mantissa_pos h)

theorem form_of_ne (s : Sign) (hn : n ≠ 0) : form s n = .finite s (mantissa n) (exponent n) (mantissa_pos hn) :=
  dif_neg hn

/-- Floats with the same sign, mantissa and exponent are the same. -/
theorem finite_congr {s : Sign} {m m' : Nat} {e e' : Int} {h : 0 < m} {h' : 0 < m'} (hm : m = m') (he : e = e') :
    UnpackedFloat.finite s m e h = UnpackedFloat.finite s m' e' h' := by
  subst hm he
  rfl

theorem unpackSign_packComponents (spec : Format) (s : Sign) (e : BitVec spec.exponentBits)
    (m : BitVec spec.mantissaBitsWithoutImplicit) : unpackSign (packComponents spec s e m) = s.toBitVec := by
  refine BitVec.eq_of_getLsbD_eq fun i hi => ?_
  obtain rfl : i = 0 := by omega
  simp [unpackSign, packComponents, BitVec.getLsbD_append, BitVec.getElem_append]

theorem ofBitVec_toBitVec (s : Sign) : Sign.ofBitVec s.toBitVec = s := by
  cases s <;> rfl

/-- Packing loses nothing of a mantissa of 53 bits, if the exponent is in range. -/
theorem unpack_pack_finite (s : Sign) {m : Nat} {e : Int} (hlow : 2 ^ 52 ≤ m) (hhigh : m < 2 ^ 53)
    (he : -1074 < e) (he' : e ≤ 971) (hm : 0 < m) :
    UnpackedFloat.unpack Format.binary64 (UnpackedFloat.pack Format.binary64 (.finite s m e hm)) =
      .finite s m e hm := by
  have hlogm : m.log2 = 52 := (Nat.log2_eq_iff (by omega)).mpr ⟨hlow, hhigh⟩
  have hbias : Format.binary64.exponentBias = 1023 := rfl
  obtain ⟨k, hk⟩ : ∃ k : Nat, e + 1075 = k := ⟨(e + 1075).toNat, by omega⟩
  have hpack : UnpackedFloat.pack Format.binary64 (.finite s m e hm) =
      packComponents Format.binary64 s (BitVec.ofNat 11 k) (BitVec.ofNat 52 m) := by
    have hbiased : (e + Format.binary64.exponentBias + Format.binary64.mantissaBitsWithoutImplicit).toNat = k := by
      rw [hbias]
      dsimp only
      omega
    unfold UnpackedFloat.pack
    dsimp only
    rw [hbiased, if_neg (by omega), if_pos (by rw [hlogm]; rfl)]
  have hexponent : (BitVec.ofNat 11 k).toNat = k := by
    rw [BitVec.toNat_ofNat, Nat.mod_eq_of_lt (by omega)]
  have hmantissa : (1#1 ++ BitVec.ofNat 52 m).toNat = m := by
    rw [BitVec.toNat_append, ← Nat.shiftLeft_add_eq_or_of_lt (BitVec.isLt _), BitVec.toNat_ofNat, Nat.shiftLeft_eq]
    simp only [BitVec.toNat_ofNat]
    omega
  have hfinite : BitVec.ofNat 11 k ≠ -1#11 := by
    intro heq
    have hvalue := congrArg BitVec.toNat heq
    rw [hexponent, show (-1#11 : BitVec 11).toNat = 2047 from rfl] at hvalue
    omega
  have hnormal : BitVec.ofNat 11 k ≠ 0#11 := by
    intro heq
    have hvalue := congrArg BitVec.toNat heq
    rw [hexponent, show (0#11 : BitVec 11).toNat = 0 from rfl] at hvalue
    omega
  rw [hpack]
  unfold UnpackedFloat.unpack
  simp only [unpackMantissa_packComponents, unpackExponent_packComponents, unpackSign_packComponents,
    ofBitVec_toBitVec]
  rw [if_neg hfinite, if_neg hnormal]
  refine finite_congr hmantissa ?_
  rw [hexponent, hbias]
  omega

/-- **Packing loses nothing.** -/
theorem unpack_pack (s : Sign) (h : n < 2 ^ 53) :
    UnpackedFloat.unpack Format.binary64 (UnpackedFloat.pack Format.binary64 (form s n)) = form s n := by
  by_cases hn : n = 0
  · subst hn
    cases s <;> rfl
  · obtain ⟨hlow, hhigh⟩ := mantissa_bounds hn h
    have hlog := log2_le h
    rw [form_of_ne s hn]
    exact unpack_pack_finite s hlow hhigh (by unfold exponent; omega) (by unfold exponent; omega) _

/-! ### Floats of whole numbers -/

/-- The sign of a whole number; nought is positive. -/
def signOf (n : Int) : Sign := if n < 0 then .negative else .positive

/-- The form of a whole number. -/
def value (n : Int) : UnpackedFloat := form (signOf n) n.natAbs

/-- A natural number is brought into its form. -/
theorem ofNat_eq (h : n < 2 ^ 53) : UnpackedFloat.ofNat Format.binary64 n = form .positive n := by
  by_cases hn : n = 0
  · subst hn
    rfl
  · obtain ⟨hlow, hhigh⟩ := mantissa_bounds hn h
    have hlog := log2_le h
    have hcompare : compare (n : Int) 0 = .gt := Int.compare_eq_gt.mpr (by omega)
    have htarget : Format.binary64.targetExponent (totalExponent n 0) = exponent n := by
      simp [Format.targetExponent, totalExponent, Format.mantissaBits, Format.minExponent, exponent]
      omega
    have hshift : decreaseExponent n 0 (exponent n) = (mantissa n, exponent n) := by
      have hamount : (0 - exponent n).toNat = 52 - n.log2 := by
        unfold exponent
        omega
      unfold decreaseExponent
      rw [hamount]
      refine Prod.ext (Nat.shiftLeft_eq n _) ?_
      show (0 : Int) - ((52 - n.log2 : Nat) : Int) = n.log2 - 52
      omega
    have hround := round_mul_pow .positive hlow hhigh (e := exponent n) (by unfold exponent; omega) 0
    rw [pow_zero, Nat.mul_one, Nat.cast_zero, Int.sub_zero] at hround
    unfold UnpackedFloat.ofNat UnpackedFloat.ofInt UnpackedFloat.normalize
    rw [hcompare]
    dsimp only
    unfold UnpackedFloat.round
    rw [Int.toNat_natCast, htarget]
    dsimp only
    rw [hshift, form_of_ne _ hn]
    exact hround

/-- Multiplying by one changes nothing. -/
theorem mul_one (s : Sign) (h : n < 2 ^ 53) :
    UnpackedFloat.mul Format.binary64 (form s n) (.finite .positive (2 ^ 52) (-52) (by decide)) = form s n := by
  have hs : s * .positive = s := by cases s <;> rfl
  by_cases hn : n = 0
  · subst hn
    cases s <;> rfl
  · obtain ⟨hlow, hhigh⟩ := mantissa_bounds hn h
    have hround := round_mul_pow s hlow hhigh (e := exponent n) (by unfold exponent; omega) 52
    rw [form_of_ne s hn]
    unfold UnpackedFloat.mul
    dsimp only
    rw [hs]
    exact hround

/-- The float of a natural number is unpacked to its form. -/
theorem unpack_ofNat (h : n < 2 ^ 53) : (Float.ofNat n).toModel.unpack = form .positive n := by
  have hfast : Float.ofNat n = n.toUInt64.toFloat * Float.ofBits 0x3FF0000000000000 := by
    show Float.ofScientific n false 0 = _
    unfold Float.ofScientific
    rw [dif_pos ⟨h, by decide⟩]
    rfl
  have hconvert : n.toUInt64.toFloat.toModel.unpack = form .positive n := by
    have hvalue : n.toUInt64.toNat = n := Nat.mod_eq_of_lt (by omega)
    show UnpackedFloat.unpack Format.binary64 (UnpackedFloat.pack Format.binary64
      (UnpackedFloat.ofNat Format.binary64 n.toUInt64.toNat)) = _
    rw [hvalue, ofNat_eq h, unpack_pack _ h]
  have hone : (Float.ofBits 0x3FF0000000000000).toModel.unpack = .finite .positive (2 ^ 52) (-52) (by decide) := by
    rfl
  rw [hfast]
  show UnpackedFloat.unpack Format.binary64 (UnpackedFloat.pack Format.binary64
    (UnpackedFloat.mul Format.binary64 n.toUInt64.toFloat.toModel.unpack
      (Float.ofBits 0x3FF0000000000000).toModel.unpack)) = _
  rw [hconvert, hone, mul_one _ h, unpack_pack _ h]

/-- **The float of a whole number** is unpacked to its form. -/
theorem unpack_ofInt {n : Int} (h : n.natAbs < 2 ^ 53) : (Float.ofInt n).toModel.unpack = value n := by
  cases n with
  | ofNat n =>
    have hsign : signOf (Int.ofNat n) = .positive := if_neg (Int.not_lt.mpr (Int.natCast_nonneg n))
    show (Float.ofNat n).toModel.unpack = form (signOf (Int.ofNat n)) n
    rw [hsign]
    exact unpack_ofNat h
  | negSucc n =>
    have hsign : signOf (Int.negSucc n) = .negative := if_pos (Int.negSucc_lt_zero n)
    have hneg : (form .positive n.succ).neg = form .negative n.succ := by
      rw [form_of_ne _ (Nat.succ_ne_zero n), form_of_ne _ (Nat.succ_ne_zero n)]
      rfl
    show UnpackedFloat.unpack Format.binary64 (UnpackedFloat.pack Format.binary64
      (Float.ofNat n.succ).toModel.unpack.neg) = form (signOf (Int.negSucc n)) n.succ
    have hunpack : (Float.ofNat n.succ).toModel.unpack = form .positive n.succ := unpack_ofNat h
    rw [hsign, hunpack, hneg]
    exact unpack_pack _ h

/-! ### Comparing -/

/-- Numbers are ordered by their exponents first. -/
theorem compare_form {a b : Nat} (ha : a ≠ 0) (hb : b ≠ 0) :
    (compare (exponent a) (exponent b)).then (compare (mantissa a) (mantissa b)) = compare a b := by
  have hlta : a < 2 ^ (a.log2 + 1) := Nat.lt_log2_self
  have hltb : b < 2 ^ (b.log2 + 1) := Nat.lt_log2_self
  rcases Nat.lt_trichotomy a.log2 b.log2 with hlog | hlog | hlog
  · have hpow : 2 ^ (a.log2 + 1) ≤ 2 ^ b.log2 := Nat.pow_le_pow_right (by decide) hlog
    have hle := Nat.log2_self_le hb
    have hlt : a < b := by omega
    rw [Int.compare_eq_lt.mpr (show exponent a < exponent b by unfold exponent; omega), Nat.compare_eq_lt.mpr hlt]
    rfl
  · have hpow : 0 < 2 ^ (52 - b.log2) := Nat.two_pow_pos _
    have hexponent : exponent a = exponent b := by
      unfold exponent
      rw [hlog]
    rw [hexponent, Int.compare_eq_eq.mpr rfl]
    unfold mantissa
    rw [hlog]
    show compare _ _ = _
    rw [Nat.compare_eq_ite_lt, Nat.compare_eq_ite_lt]
    simp only [Nat.mul_lt_mul_right hpow]
  · have hpow : 2 ^ (b.log2 + 1) ≤ 2 ^ a.log2 := Nat.pow_le_pow_right (by decide) hlog
    have hle := Nat.log2_self_le ha
    have hlt : b < a := by omega
    rw [Int.compare_eq_gt.mpr (show exponent b < exponent a by unfold exponent; omega), Nat.compare_eq_gt.mpr hlt]
    rfl

theorem value_of_neg {a : Int} (ha : a < 0) :
    value a = .finite .negative (mantissa a.natAbs) (exponent a.natAbs) (mantissa_pos (by omega)) := by
  unfold value signOf
  rw [if_pos ha, form_of_ne _ (by omega)]

theorem value_of_pos {a : Int} (ha : 0 < a) :
    value a = .finite .positive (mantissa a.natAbs) (exponent a.natAbs) (mantissa_pos (by omega)) := by
  unfold value signOf
  rw [if_neg (by omega), form_of_ne _ (by omega)]

theorem value_zero : value 0 = .zero .positive := rfl

/-- Numbers are compared as their absolute values, if they are in their order. -/
theorem compare_natAbs {a b : Int} (hlt : a < b → a.natAbs < b.natAbs) (hgt : b < a → b.natAbs < a.natAbs) :
    compare a.natAbs b.natAbs = compare a b := by
  rcases Int.lt_trichotomy a b with h | rfl | h
  · rw [Nat.compare_eq_lt.mpr (hlt h), Int.compare_eq_lt.mpr h]
  · rw [Nat.compare_eq_eq.mpr rfl, Int.compare_eq_eq.mpr rfl]
  · rw [Nat.compare_eq_gt.mpr (hgt h), Int.compare_eq_gt.mpr h]

/-- **Numbers in this form are compared as whole numbers.** -/
theorem compare_value (a b : Int) : (value a).compare (value b) = some (compare a b) := by
  rcases Int.lt_trichotomy a 0 with ha | rfl | ha <;> rcases Int.lt_trichotomy b 0 with hb | rfl | hb
  · -- Of two negative numbers the one with the larger absolute value is the smaller one.
    rw [value_of_neg ha, value_of_neg hb]
    show some ((compare _ _).then (compare _ _)).swap = _
    have hneg := compare_natAbs (a := -b) (b := -a) (by omega) (by omega)
    rw [compare_form (by omega) (by omega), Nat.compare_swap, ← Int.natAbs_neg a, ← Int.natAbs_neg b, hneg]
    rcases Int.lt_trichotomy a b with h | rfl | h
    · rw [Int.compare_eq_lt.mpr (show -b < -a by omega), Int.compare_eq_lt.mpr h]
    · rw [Int.compare_eq_eq.mpr rfl, Int.compare_eq_eq.mpr rfl]
    · rw [Int.compare_eq_gt.mpr (show -a < -b by omega), Int.compare_eq_gt.mpr h]
  · rw [value_of_neg ha, value_zero, Int.compare_eq_lt.mpr ha]
    rfl
  · rw [value_of_neg ha, value_of_pos hb, Int.compare_eq_lt.mpr (by omega)]
    rfl
  · rw [value_zero, value_of_neg hb, Int.compare_eq_gt.mpr hb]
    rfl
  · rfl
  · rw [value_zero, value_of_pos hb, Int.compare_eq_lt.mpr hb]
    rfl
  · rw [value_of_pos ha, value_of_neg hb, Int.compare_eq_gt.mpr (by omega)]
    rfl
  · rw [value_of_pos ha, value_zero, Int.compare_eq_gt.mpr ha]
    rfl
  · rw [value_of_pos ha, value_of_pos hb]
    show some ((compare _ _).then (compare _ _)) = _
    rw [compare_form (by omega) (by omega), compare_natAbs (by omega) (by omega)]

end WholeFloat

namespace Comparator

/-- A comparison of two whole numbers. -/
def ofInts : Comparator → Int → Int → Bool
  | less, a, b => decide (a < b)
  | greater, a, b => decide (b < a)
  | atMost, a, b => decide (a ≤ b)
  | atLeast, a, b => decide (b ≤ a)
  | equal, a, b => decide (a = b)
  | unequal, a, b => decide (a ≠ b)

/-- A comparison of floats is one of whole numbers, if the floats are in the order of the numbers. -/
theorem ofFloats_of_compare (c : Comparator) {x y : Float} {a b : Int}
    (hcompare : x.toModel.unpack.compare y.toModel.unpack = some (compare a b))
    (hback : y.toModel.unpack.compare x.toModel.unpack = some (compare b a)) : c.ofFloats x y = c.ofInts a b := by
  have hlt : ∀ x y : Float, decide (x < y) = (x.toModel.unpack.compare y.toModel.unpack == some .lt) := by
    intro x y
    show decide ((decide _ : Bool) = true) = _
    rw [Bool.decide_eq_true]
    show decide ((_ : Bool) = true) = _
    rw [Bool.decide_eq_true]
    rfl
  have hle : ∀ x y : Float, decide (x ≤ y) = (x.toModel.unpack.compare y.toModel.unpack).any (·.isLE) := by
    intro x y
    show decide ((decide _ : Bool) = true) = _
    rw [Bool.decide_eq_true]
    show decide ((_ : Bool) = true) = _
    rw [Bool.decide_eq_true]
    rfl
  have heq : ∀ x y : Float, (x == y) = (x.toModel.unpack.compare y.toModel.unpack == some .eq) := fun _ _ => rfl
  rcases Int.lt_trichotomy a b with h | rfl | h
  · rw [Int.compare_eq_lt.mpr h] at hcompare
    rw [Int.compare_eq_gt.mpr h] at hback
    cases c <;> simp only [ofFloats, ofInts, hlt, hle, heq, hcompare, hback] <;> symm <;> simp <;> omega
  · rw [Int.compare_eq_eq.mpr rfl] at hcompare hback
    cases c <;> simp [ofFloats, ofInts, hlt, hle, heq, hcompare, hback]
  · rw [Int.compare_eq_gt.mpr h] at hcompare
    rw [Int.compare_eq_lt.mpr h] at hback
    cases c <;> simp only [ofFloats, ofInts, hlt, hle, heq, hcompare, hback] <;> symm <;> simp <;> omega

/-- **A comparison of whole numbers as floats** is one as whole numbers, if they are below `2 ^ 53`. -/
theorem ofFloats_ofInt (c : Comparator) {a b : Int} (ha : a.natAbs < 2 ^ 53) (hb : b.natAbs < 2 ^ 53) :
    c.ofFloats (Float.ofInt a) (Float.ofInt b) = c.ofInts a b := by
  refine ofFloats_of_compare c ?_ ?_
  · rw [WholeFloat.unpack_ofInt ha, WholeFloat.unpack_ofInt hb, WholeFloat.compare_value]
  · rw [WholeFloat.unpack_ofInt ha, WholeFloat.unpack_ofInt hb, WholeFloat.compare_value]

end Comparator

end Flowchart
