import Flowchart.Proofs.WholeFloats

/-!
# Large whole numbers as floats

A whole number of 64 bits need not be a float.  Its float has 53 bits of it, and stands for the nearest number with so
many bits; of two that are equally near, for the one with the even mantissa.  Numbers keep their order, but two of them
may be rounded to the same.

* `nearest`, `rounded` — rounding, told for natural and for whole numbers.
* `rounded_of_le`, `rounded_mono` — small numbers are not changed, and the order is kept.
* `Stands` — a float in normal form, and the whole number that it stands for.
* `compare_of_stands` — floats are compared as the numbers they stand for.
* `repeat_shiftRightOne_zero`, `roundedMantissa_shifted` — shifting bits out of a mantissa and rounding it is rounding.
* **`stands_ofInt`** — the float of a whole number stands for the rounded number.
* **`Comparator.ofFloats_rounded`** — a comparison of whole numbers as floats is one of rounded numbers.
-/

namespace Flowchart

namespace WholeFloat

open Float.Model Float.Model.UnpackedFloat

/-! ### Rounding -/

/-- A number of units, rounded to the nearest; if two are equally near, to the even one. -/
def unitsOf (n unit : Nat) : Nat :=
  if 2 * (n % unit) < unit then n / unit
  else if unit < 2 * (n % unit) then n / unit + 1
  else n / unit + n / unit % 2

/-- The last of 53 bits of a number. -/
def lastBit (n : Nat) : Nat := 2 ^ (n.log2 - 52)

/-- The nearest number with 53 bits. -/
def nearest (n : Nat) : Nat := unitsOf n (lastBit n) * lastBit n

/-- The nearest whole number whose absolute value has 53 bits. -/
def rounded (n : Int) : Int := if n < 0 then -nearest n.natAbs else nearest n.natAbs

theorem unitsOf_bounds (n unit : Nat) : n / unit ≤ unitsOf n unit ∧ unitsOf n unit ≤ n / unit + 1 := by
  unfold unitsOf
  split
  · omega
  · split <;> omega

theorem unitsOf_mono {a b : Nat} (unit : Nat) (h : a ≤ b) : unitsOf a unit ≤ unitsOf b unit := by
  have hquotient : a / unit ≤ b / unit := Nat.div_le_div_right h
  have ha := unitsOf_bounds a unit
  have hb := unitsOf_bounds b unit
  rcases Nat.lt_or_ge (a / unit) (b / unit) with hlt | hge
  · omega
  · have hsame : a / unit = b / unit := by omega
    have hrest : a % unit ≤ b % unit := by
      have hda := Nat.div_add_mod a unit
      have hdb := Nat.div_add_mod b unit
      rw [hsame] at hda
      omega
    unfold unitsOf
    rw [hsame]
    generalize b / unit = q
    split <;> split <;> (try split) <;> (try split) <;> omega

theorem log2_mono {a b : Nat} (h : a ≤ b) (ha : a ≠ 0) : a.log2 ≤ b.log2 :=
  (Nat.le_log2 (by omega)).mpr ((Nat.log2_self_le ha).trans h)

/-- Numbers with 53 bits are left alone. -/
theorem nearest_of_lt {n : Nat} (h : n < 2 ^ 53) : nearest n = n := by
  have hlog := log2_le h
  have hone : lastBit n = 1 := by
    unfold lastBit
    rw [Nat.sub_eq_zero_of_le hlog, pow_zero]
  unfold nearest
  rw [hone, Nat.mul_one]
  unfold unitsOf
  rw [Nat.mod_one, if_pos (by decide), Nat.div_one]

/-- The units of a large number have 53 bits, or are the next power of two. -/
theorem units_bounds {n : Nat} (hn : n ≠ 0) (h : 52 ≤ n.log2) :
    2 ^ 52 ≤ unitsOf n (lastBit n) ∧ unitsOf n (lastBit n) ≤ 2 ^ 53 := by
  have hlow : 2 ^ n.log2 ≤ n := Nat.log2_self_le hn
  have hhigh : n < 2 ^ (n.log2 + 1) := Nat.lt_log2_self
  have hpos : 0 < lastBit n := Nat.two_pow_pos _
  have hfirst : 2 ^ 52 * lastBit n = 2 ^ n.log2 := by
    unfold lastBit
    rw [← pow_add]
    congr 1
    omega
  have hnext : 2 ^ 53 * lastBit n = 2 ^ (n.log2 + 1) := by
    unfold lastBit
    rw [← pow_add]
    congr 1
    omega
  have hquotient : 2 ^ 52 ≤ n / lastBit n := (Nat.le_div_iff_mul_le hpos).mpr (by omega)
  have hquotient' : n / lastBit n < 2 ^ 53 := (Nat.div_lt_iff_lt_mul hpos).mpr (by omega)
  have hbounds := unitsOf_bounds n (lastBit n)
  omega

/-- A number is rounded to one between two powers of two. -/
theorem nearest_bounds {n : Nat} (hn : n ≠ 0) : 2 ^ n.log2 ≤ nearest n ∧ nearest n ≤ 2 ^ (n.log2 + 1) := by
  rcases Nat.lt_or_ge n.log2 52 with hlog | hlog
  · have hhigh : n < 2 ^ (n.log2 + 1) := Nat.lt_log2_self
    have hpow : 2 ^ (n.log2 + 1) ≤ 2 ^ 53 := Nat.pow_le_pow_right (by decide) (by omega)
    rw [nearest_of_lt (by omega)]
    exact ⟨Nat.log2_self_le hn, hhigh.le⟩
  · obtain ⟨hlow, hhigh⟩ := units_bounds hn hlog
    have hpow : ∀ k, 2 ^ k * lastBit n = 2 ^ (k + (n.log2 - 52)) := fun k => (pow_add 2 k (n.log2 - 52)).symm
    unfold nearest
    constructor
    · calc 2 ^ n.log2 = 2 ^ 52 * lastBit n := by rw [hpow]; congr 1; omega
        _ ≤ unitsOf n (lastBit n) * lastBit n := Nat.mul_le_mul_right _ hlow
    · calc unitsOf n (lastBit n) * lastBit n ≤ 2 ^ 53 * lastBit n := Nat.mul_le_mul_right _ hhigh
        _ = 2 ^ (n.log2 + 1) := by rw [hpow]; congr 1; omega

/-- **Rounding keeps the order.** -/
theorem nearest_mono {a b : Nat} (h : a ≤ b) : nearest a ≤ nearest b := by
  by_cases ha : a = 0
  · rw [ha, nearest_of_lt (by decide)]
    exact Nat.zero_le _
  · rcases Nat.lt_or_ge a.log2 b.log2 with hlt | hge
    · calc nearest a ≤ 2 ^ (a.log2 + 1) := (nearest_bounds ha).2
        _ ≤ 2 ^ b.log2 := Nat.pow_le_pow_right (by decide) hlt
        _ ≤ nearest b := (nearest_bounds (by omega)).1
    · have hlog : a.log2 = b.log2 := le_antisymm (log2_mono h ha) hge
      have hbit : lastBit a = lastBit b := by
        unfold lastBit
        rw [hlog]
      unfold nearest
      rw [hbit]
      exact Nat.mul_le_mul_right _ (unitsOf_mono _ h)

/-- Numbers up to `2 ^ 53` are left alone. -/
theorem rounded_of_le {n : Int} (h : n.natAbs ≤ 2 ^ 53) : rounded n = n := by
  have hsame : nearest n.natAbs = n.natAbs := by
    rcases Nat.lt_or_eq_of_le h with hlt | heq
    · exact nearest_of_lt hlt
    · rw [heq]
      rfl
  unfold rounded
  rw [hsame]
  split <;> omega

theorem rounded_mono {a b : Int} (h : a ≤ b) : rounded a ≤ rounded b := by
  unfold rounded
  split
  · split
    · have := nearest_mono (show b.natAbs ≤ a.natAbs by omega)
      omega
    · omega
  · rw [if_neg (by omega)]
    have := nearest_mono (show a.natAbs ≤ b.natAbs by omega)
    omega

/-! ### Floats that stand for numbers -/

/-- A mantissa of 53 bits and an exponent stand for a natural number.  Both sides are multiplied by `2 ^ 52`, so that no
fraction arises. -/
structure Normal (m : Nat) (e : Int) (n : Nat) : Prop where
  low : 2 ^ 52 ≤ m
  high : m < 2 ^ 53
  exponent : -52 ≤ e
  value : m * 2 ^ (e + 52).toNat = n * 2 ^ 52

/-- A float in normal form stands for a whole number. -/
inductive Stands : UnpackedFloat → Int → Prop
  | zero : Stands (.zero .positive) 0
  | positive {m n : Nat} {e : Int} (hm : 0 < m) (h : Normal m e n) : Stands (.finite .positive m e hm) n
  | negative {m n : Nat} {e : Int} (hm : 0 < m) (h : Normal m e n) : Stands (.finite .negative m e hm) (-n)

section

variable {m m' a b : Nat} {e e' : Int}

theorem Normal.pos (h : Normal m e a) : 0 < a := by
  have hlow := h.low
  have hvalue := h.value
  have hpow : 0 < m * 2 ^ (e + 52).toNat := Nat.mul_pos (by omega) (Nat.two_pow_pos _)
  omega

/-- A number with a smaller exponent is smaller. -/
theorem Normal.lt_of_exponent_lt (h : Normal m e a) (h' : Normal m' e' b) (hlt : e < e') : a < b := by
  have hexponent := h.exponent
  have hless : m * 2 ^ (e + 52).toNat < m' * 2 ^ (e' + 52).toNat := by
    calc m * 2 ^ (e + 52).toNat < 2 ^ 53 * 2 ^ (e + 52).toNat :=
          Nat.mul_lt_mul_of_pos_right h.high (Nat.two_pow_pos _)
      _ = 2 ^ 52 * 2 ^ ((e + 52).toNat + 1) := by ring
      _ ≤ m' * 2 ^ (e' + 52).toNat := Nat.mul_le_mul h'.low (Nat.pow_le_pow_right (by decide) (by omega))
  have hvalue := h.value
  have hvalue' := h'.value
  omega

/-- **Numbers in normal form are ordered by their exponents first.** -/
theorem Normal.compare_eq (h : Normal m e a) (h' : Normal m' e' b) :
    (compare e e').then (compare m m') = compare a b := by
  rcases Int.lt_trichotomy e e' with hlt | rfl | hlt
  · rw [Int.compare_eq_lt.mpr hlt, Nat.compare_eq_lt.mpr (h.lt_of_exponent_lt h' hlt)]
    rfl
  · have hpow : 0 < 2 ^ (e + 52).toNat := Nat.two_pow_pos _
    have hvalue := h.value
    have hvalue' := h'.value
    rw [Int.compare_eq_eq.mpr rfl]
    show compare m m' = _
    rcases Nat.lt_trichotomy m m' with hm | rfl | hm
    · have hless := Nat.mul_lt_mul_of_pos_right hm hpow
      rw [Nat.compare_eq_lt.mpr hm, Nat.compare_eq_lt.mpr (by omega)]
    · rw [Nat.compare_eq_eq.mpr rfl, Nat.compare_eq_eq.mpr (by omega)]
    · have hless := Nat.mul_lt_mul_of_pos_right hm hpow
      rw [Nat.compare_eq_gt.mpr hm, Nat.compare_eq_gt.mpr (by omega)]
  · rw [Int.compare_eq_gt.mpr hlt, Nat.compare_eq_gt.mpr (h'.lt_of_exponent_lt h hlt)]
    rfl

end

theorem compare_natCast (a b : Nat) : compare (a : Int) b = compare a b := by
  rcases Nat.lt_trichotomy a b with h | rfl | h
  · rw [Nat.compare_eq_lt.mpr h, Int.compare_eq_lt.mpr (by omega)]
  · rw [Nat.compare_eq_eq.mpr rfl, Int.compare_eq_eq.mpr rfl]
  · rw [Nat.compare_eq_gt.mpr h, Int.compare_eq_gt.mpr (by omega)]

theorem compare_neg_neg (a b : Nat) : compare (-(a : Int)) (-b) = compare b a := by
  rcases Nat.lt_trichotomy a b with h | rfl | h
  · rw [Nat.compare_eq_gt.mpr h, Int.compare_eq_gt.mpr (by omega)]
  · rw [Nat.compare_eq_eq.mpr rfl, Int.compare_eq_eq.mpr rfl]
  · rw [Nat.compare_eq_lt.mpr h, Int.compare_eq_lt.mpr (by omega)]

/-- **Floats are compared as the numbers they stand for.** -/
theorem compare_of_stands {x y : UnpackedFloat} {a b : Int} (hx : Stands x a) (hy : Stands y b) :
    x.compare y = some (compare a b) := by
  cases hx with
  | zero =>
    cases hy with
    | zero => rfl
    | positive hm h =>
      have hpos := h.pos
      rw [Int.compare_eq_lt.mpr (by omega)]
      rfl
    | negative hm h =>
      have hpos := h.pos
      rw [Int.compare_eq_gt.mpr (by omega)]
      rfl
  | positive hm h =>
    have hpos := h.pos
    cases hy with
    | zero =>
      rw [Int.compare_eq_gt.mpr (by omega)]
      rfl
    | positive hm' h' =>
      show some ((compare _ _).then (compare _ _)) = _
      rw [h.compare_eq h', compare_natCast]
    | negative hm' h' =>
      have hpos' := h'.pos
      rw [Int.compare_eq_gt.mpr (by omega)]
      rfl
  | negative hm h =>
    have hpos := h.pos
    cases hy with
    | zero =>
      rw [Int.compare_eq_lt.mpr (by omega)]
      rfl
    | positive hm' h' =>
      rw [Int.compare_eq_lt.mpr (by omega)]
      rfl
    | negative hm' h' =>
      show some ((compare _ _).then (compare _ _)).swap = _
      rw [h.compare_eq h', Nat.compare_swap, compare_neg_neg]

/-! ### Shifting and rounding -/

/-- Bits that are shifted out leave the last one of them, and whether there were others. -/
theorem repeat_shiftRightOne_succ (n k : Nat) :
    (k + 1).repeat ExtendedMantissa.shiftRightOne ⟨n, false, false⟩ =
      ⟨n / 2 ^ (k + 1), n / 2 ^ k % 2 != 0, n % 2 ^ k != 0⟩ := by
  induction k with
  | zero => simp [Nat.repeat, ExtendedMantissa.shiftRightOne, Nat.mod_one]
  | succ k ih =>
    have hquotient : n / 2 ^ (k + 1) / 2 = n / 2 ^ (k + 1 + 1) := by rw [Nat.div_div_eq_div_mul, ← pow_succ]
    have hrest : n % 2 ^ (k + 1) = n % 2 ^ k + 2 ^ k * (n / 2 ^ k % 2) := by rw [pow_succ, Nat.mod_mul]
    have hpow : 0 < 2 ^ k := Nat.two_pow_pos k
    have hsticky : (n / 2 ^ k % 2 != 0 || n % 2 ^ k != 0) = (n % 2 ^ (k + 1) != 0) := by
      rw [hrest]
      rcases Nat.mod_two_eq_zero_or_one (n / 2 ^ k) with hbit | hbit
      · rw [hbit]
        simp
      · rw [hbit]
        simp
    rw [Nat.repeat, ih]
    show ExtendedMantissa.mk _ _ _ = _
    rw [hquotient, hsticky]

/-- **Rounding what is left of a mantissa** is rounding to units. -/
theorem roundedMantissa_shifted (n k : Nat) :
    ExtendedMantissa.roundedMantissa ⟨n / 2 ^ (k + 1), n / 2 ^ k % 2 != 0, n % 2 ^ k != 0⟩ =
      unitsOf n (2 ^ (k + 1)) := by
  have hpow : 0 < 2 ^ k := Nat.two_pow_pos k
  have hunit : 2 ^ (k + 1) = 2 ^ k * 2 := pow_succ 2 k
  have hrest : n % 2 ^ (k + 1) = n % 2 ^ k + 2 ^ k * (n / 2 ^ k % 2) := by rw [hunit, Nat.mod_mul]
  have hless : n % 2 ^ k < 2 ^ k := Nat.mod_lt _ hpow
  unfold unitsOf
  rcases Nat.mod_two_eq_zero_or_one (n / 2 ^ k) with hbit | hbit
  · rw [hbit, Nat.mul_zero, Nat.add_zero] at hrest
    rw [if_pos (by omega), hbit]
    cases hsticky : (n % 2 ^ k != 0) <;> rfl
  · rw [hbit, Nat.mul_one] at hrest
    rw [if_neg (by omega), hbit]
    by_cases hnought : n % 2 ^ k = 0
    · rw [if_neg (by omega), hnought]
      rfl
    · have hsticky : (n % 2 ^ k != 0) = true := bne_iff_ne.mpr hnought
      rw [if_pos (by omega), hsticky]
      rfl

theorem repeat_add {α : Type} (f : α → α) (x : α) (n k : Nat) : (k + n).repeat f x = k.repeat f (n.repeat f x) := by
  induction k with
  | zero => rw [Nat.zero_add]; rfl
  | succ k ih => rw [Nat.succ_add, Nat.repeat, ih]; rfl

/-- The bits of a large number beyond the first 53 are shifted out. -/
theorem shift_large {n k : Nat} (hlog : n.log2 = k + 53) :
    shiftToTargetExponent Format.binary64 (n * 2 ^ 53) (-53) .exact =
      (.mk (n / 2 ^ (k + 1)) (n / 2 ^ k % 2 != 0) (n % 2 ^ k != 0), ((k + 1 : Nat) : Int)) := by
  have hn : n ≠ 0 := by
    rintro rfl
    rw [Nat.log2_zero] at hlog
    omega
  have hlow : 2 ^ n.log2 ≤ n := Nat.log2_self_le hn
  have hhigh : n < 2 ^ (n.log2 + 1) := Nat.lt_log2_self
  have hscaled : (n * 2 ^ 53).log2 = n.log2 + 53 := by
    refine (Nat.log2_eq_iff (by omega)).mpr ⟨?_, ?_⟩
    · rw [pow_add]
      exact Nat.mul_le_mul_right _ hlow
    · rw [show n.log2 + 53 + 1 = n.log2 + 1 + 53 by omega, pow_add]
      exact Nat.mul_lt_mul_of_pos_right hhigh (Nat.two_pow_pos _)
  have htarget : Format.binary64.targetExponent (totalExponent (n * 2 ^ 53) (-53)) = (k + 1 : Nat) := by
    unfold Format.targetExponent totalExponent
    rw [hscaled, hlog]
    simp [Format.mantissaBits, Format.minExponent]
    omega
  have hamount : (((k + 1 : Nat) : Int) - -53).toNat = k + 1 + 53 := by omega
  unfold shiftToTargetExponent shiftToExponent
  rw [htarget]
  dsimp only
  rw [hamount]
  refine Prod.ext ?_ ?_
  · show (k + 1 + 53).repeat ExtendedMantissa.shiftRightOne (.mk (n * 2 ^ 53) false false) = _
    rw [repeat_add, repeat_shiftRightOne, repeat_shiftRightOne_succ]
  · show (-53 : Int) + ((k + 1 + 53 : Nat) : Int) = (k + 1 : Nat)
    omega

/-- **A large number is rounded to 53 bits.** -/
theorem round_large (s : Sign) {n : Nat} (h : 2 ^ 53 ≤ n) (h' : n < 2 ^ 64) :
    ∃ (m : Nat) (e : Int) (hm : 0 < m),
      roundWithAccuracy Format.binary64 s (n * 2 ^ 53) (-53) .exact = .finite s m e hm ∧
        Normal m e (nearest n) ∧ e ≤ 971 := by
  have hn : n ≠ 0 := by omega
  have hlow : 53 ≤ n.log2 := (Nat.le_log2 hn).mpr h
  have hhigh : n.log2 < 64 := (Nat.log2_lt hn).mpr h'
  obtain ⟨k, hlog⟩ : ∃ k, n.log2 = k + 53 := ⟨n.log2 - 53, by omega⟩
  have hbit : lastBit n = 2 ^ (k + 1) := by
    unfold lastBit
    congr 1
    omega
  obtain ⟨hunits, hunits'⟩ := units_bounds hn (by omega)
  have hnearest : nearest n = unitsOf n (lastBit n) * 2 ^ (k + 1) := by
    unfold nearest
    rw [hbit]
  rw [hnearest]
  have hrounded : ExtendedMantissa.roundedMantissa (.mk (n / 2 ^ (k + 1)) (n / 2 ^ k % 2 != 0) (n % 2 ^ k != 0)) =
      unitsOf n (lastBit n) := by
    rw [hbit]
    exact roundedMantissa_shifted n k
  generalize unitsOf n (lastBit n) = u at hunits hunits' hrounded
  -- A mantissa that is rounded up to the next power of two is shifted once more.
  obtain ⟨m, j, rfl, hm, hm', hj⟩ : ∃ m j, m * 2 ^ j = u ∧ 2 ^ 52 ≤ m ∧ m < 2 ^ 53 ∧ j ≤ 1 := by
    rcases Nat.lt_or_eq_of_le hunits' with hlt | rfl
    · exact ⟨u, 0, Nat.mul_one u, hunits, hlt, Nat.zero_le _⟩
    · exact ⟨2 ^ 52, 1, rfl, le_rfl, by decide, le_rfl⟩
  have hagain := shift_mul_pow hm hm' (e := k + 1 + j) (by omega) j
  rw [Int.add_sub_cancel] at hagain
  refine ⟨m, k + 1 + j, by omega, ?_, ⟨hm, hm', by omega, ?_⟩, by omega⟩
  · unfold roundWithAccuracy
    rw [shift_large hlog]
    simp only [hrounded, Nat.cast_add, Nat.cast_one, hagain, show m ≠ 0 by omega, dite_false]
  · have hexponent : ((k : Int) + 1 + j + 52).toNat = j + (k + 1) + 52 := by omega
    rw [hexponent]
    ring

/-! ### Floats of whole numbers -/

theorem normal_form {n : Nat} (hn : n ≠ 0) (h : n < 2 ^ 53) : Normal (mantissa n) (exponent n) n := by
  obtain ⟨hlow, hhigh⟩ := mantissa_bounds hn h
  have hlog := log2_le h
  have hexponent : (exponent n + 52).toNat = n.log2 := by
    unfold exponent
    omega
  refine ⟨hlow, hhigh, by unfold exponent; omega, ?_⟩
  rw [hexponent]
  unfold mantissa
  rw [Nat.mul_assoc, ← pow_add]
  congr 2
  omega

/-- The float of a natural number that is not nought. -/
theorem unpack_ofNat_normal {n : Nat} (hn : n ≠ 0) (h : n < 2 ^ 64) :
    ∃ (m : Nat) (e : Int) (hm : 0 < m), (Float.ofNat n).toModel.unpack = .finite .positive m e hm ∧
      Normal m e (nearest n) ∧ e ≤ 971 := by
  rcases Nat.lt_or_ge n (2 ^ 53) with hsmall | hlarge
  · have hlog := log2_le hsmall
    rw [unpack_ofNat hsmall, form_of_ne _ hn, nearest_of_lt hsmall]
    exact ⟨_, _, _, rfl, normal_form hn hsmall, by unfold exponent; omega⟩
  · obtain ⟨m, e, hm, hround, hnormal, he⟩ := round_large .positive hlarge h
    refine ⟨m, e, hm, ?_, hnormal, he⟩
    have hunpack : (Float.ofNat n).toModel.unpack = UnpackedFloat.unpack Format.binary64
        (UnpackedFloat.pack Format.binary64 (UnpackedFloat.ofScientific Format.binary64 n 0)) := by
      show (Float.ofScientific n false 0).toModel.unpack = _
      unfold Float.ofScientific
      rw [dif_neg (by omega)]
      rfl
    have hscientific : UnpackedFloat.ofScientific Format.binary64 n 0 = .finite .positive m e hm := by
      unfold UnpackedFloat.ofScientific
      rw [dif_neg hn, if_neg (by decide), if_neg (by simp), if_pos (by decide)]
      unfold UnpackedFloat.mul
      dsimp only
      rw [← hround, Nat.shiftLeft_eq, Int.toNat_zero, pow_zero, Nat.mul_one]
      rfl
    have hexponent := hnormal.exponent
    rw [hunpack, hscientific, unpack_pack_finite _ hnormal.low hnormal.high (by omega) he]

/-- **The float of a whole number** stands for the rounded number. -/
theorem stands_ofInt {n : Int} (h : n.natAbs < 2 ^ 64) : Stands (Float.ofInt n).toModel.unpack (rounded n) := by
  cases n with
  | ofNat n =>
    have hrounded : rounded (Int.ofNat n) = nearest n := if_neg (Int.not_lt.mpr (Int.natCast_nonneg n))
    rw [hrounded]
    by_cases hn : n = 0
    · subst hn
      show Stands (Float.ofNat 0).toModel.unpack (nearest 0)
      rw [unpack_ofNat (by decide), nearest_of_lt (by decide)]
      exact .zero
    · obtain ⟨m, e, hm, hunpack, hnormal, -⟩ := unpack_ofNat_normal hn h
      show Stands (Float.ofNat n).toModel.unpack (nearest n)
      rw [hunpack]
      exact .positive hm hnormal
  | negSucc n =>
    have hrounded : rounded (Int.negSucc n) = -nearest n.succ := if_pos (Int.negSucc_lt_zero n)
    obtain ⟨m, e, hm, hunpack, hnormal, he⟩ := unpack_ofNat_normal (Nat.succ_ne_zero n) h
    have hexponent := hnormal.exponent
    rw [hrounded]
    show Stands (UnpackedFloat.unpack Format.binary64 (UnpackedFloat.pack Format.binary64
      (Float.ofNat n.succ).toModel.unpack.neg)) _
    rw [hunpack]
    show Stands (UnpackedFloat.unpack Format.binary64 (UnpackedFloat.pack Format.binary64
      (.finite .negative m e hm))) _
    rw [unpack_pack_finite _ hnormal.low hnormal.high (by omega) he]
    exact .negative hm hnormal

end WholeFloat

namespace Comparator

/-- **A comparison of whole numbers as floats** is one of the rounded numbers. -/
theorem ofFloats_rounded (c : Comparator) {a b : Int} (ha : a.natAbs < 2 ^ 64) (hb : b.natAbs < 2 ^ 64) :
    c.ofFloats (Float.ofInt a) (Float.ofInt b) = c.ofInts (WholeFloat.rounded a) (WholeFloat.rounded b) :=
  c.ofFloats_of_compare (WholeFloat.compare_of_stands (WholeFloat.stands_ofInt ha) (WholeFloat.stands_ofInt hb))
    (WholeFloat.compare_of_stands (WholeFloat.stands_ofInt hb) (WholeFloat.stands_ofInt ha))

/-- **When rounding does not matter.**  All comparisons of two numbers come out the same for the rounded numbers if the
numbers are equal or are not rounded to the same number, and only then. -/
theorem ofInts_rounded_iff (a b : Int) :
    (∀ c : Comparator, c.ofInts (WholeFloat.rounded a) (WholeFloat.rounded b) = c.ofInts a b) ↔
      a = b ∨ WholeFloat.rounded a ≠ WholeFloat.rounded b := by
  constructor
  · intro h
    have hequal := h .equal
    simp only [ofInts, decide_eq_decide] at hequal
    by_cases hab : a = b
    · exact .inl hab
    · exact .inr (mt hequal.mp hab)
  · rintro (rfl | hne) c
    · cases c <;> simp [ofInts]
    · have hlt : a ≠ b := fun hab => hne (congrArg WholeFloat.rounded hab)
      rcases Int.lt_or_gt_of_ne hlt with h | h
      · have hrounded := WholeFloat.rounded_mono h.le
        cases c <;> simp only [ofInts, decide_eq_decide] <;> omega
      · have hrounded := WholeFloat.rounded_mono h.le
        cases c <;> simp only [ofInts, decide_eq_decide] <;> omega

end Comparator

end Flowchart
