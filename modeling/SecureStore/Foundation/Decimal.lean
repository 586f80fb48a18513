/-
# Decimal rounding

Decimal values are rationals. A fixed-point column keeps a number of decimals, a
floating decimal type keeps a number of significant digits, and both round half
away from zero. A value that fits the kept digits is not changed.
-/

import Mathlib.Data.Int.Log
import Mathlib.Data.Rat.Floor
import Mathlib.Tactic.FieldSimp
import Mathlib.Tactic.Linarith
import Mathlib.Tactic.Positivity
import Mathlib.Tactic.Ring

namespace SecureStore.Foundation

/-- The nearest integer, halves away from zero. -/
def roundHalfUp (x : ℚ) : ℤ :=
  if 0 ≤ x then ⌊x + 1 / 2⌋ else -⌊-x + 1 / 2⌋

/-- Round to a number of decimals. -/
def roundScale (scale : ℕ) (x : ℚ) : ℚ :=
  roundHalfUp (x * 10 ^ scale) / 10 ^ scale

/-- The exponent of the last digit kept when x is rounded to some precision. -/
def lastExponent (precision : ℕ) (x : ℚ) : ℤ := Int.log 10 |x| + 1 - precision

/-- Round to a number of significant digits. -/
def roundSig (precision : ℕ) (x : ℚ) : ℚ :=
  roundHalfUp (x / 10 ^ lastExponent precision x) * 10 ^ lastExponent precision x

/-- The value has at most the given number of decimals. -/
def HasScale (scale : ℕ) (x : ℚ) : Prop := ∃ m : ℤ, x * 10 ^ scale = m

instance (scale : ℕ) (x : ℚ) : Decidable (HasScale scale x) :=
  decidable_of_iff ((x * 10 ^ scale).den = 1) <| by
    rw [Rat.den_eq_one_iff]
    exact ⟨fun h => ⟨_, h.symm⟩, fun ⟨m, hm⟩ => by rw [hm, Rat.num_intCast]⟩

/-- The value has at most the given number of significant digits. -/
def Fits (precision : ℕ) (x : ℚ) : Prop :=
  ∃ m e : ℤ, |m| < 10 ^ precision ∧ x = m * 10 ^ e

theorem roundHalfUp_intCast (m : ℤ) : roundHalfUp (m : ℚ) = m := by
  have half : ∀ k : ℤ, ⌊(k : ℚ) + 1 / 2⌋ = k := by
    intro k
    rw [Int.floor_eq_iff]
    constructor <;> linarith
  unfold roundHalfUp
  split
  · exact half m
  · rw [show -(m : ℚ) = ((-m : ℤ) : ℚ) by push_cast; rfl, half]
    ring

/-- A value within the scale is stored as it is. -/
theorem roundScale_of_hasScale {scale : ℕ} {x : ℚ} (h : HasScale scale x) :
    roundScale scale x = x := by
  obtain ⟨m, hm⟩ := h
  have hpos : (10 : ℚ) ^ scale ≠ 0 := by positivity
  rw [roundScale, hm, roundHalfUp_intCast, ← hm]
  field_simp

/-- Rounding keeps the sign. -/
theorem roundScale_nonneg {scale : ℕ} {x : ℚ} (h : 0 ≤ x) : 0 ≤ roundScale scale x := by
  have hscaled : 0 ≤ x * 10 ^ scale := by positivity
  have hround : 0 ≤ roundHalfUp (x * 10 ^ scale) := by
    unfold roundHalfUp
    rw [if_pos hscaled]
    exact Int.floor_nonneg.mpr (by linarith)
  unfold roundScale
  positivity

theorem fits_zero (precision : ℕ) : Fits precision 0 :=
  ⟨0, 0, by simp, by simp⟩

/-- The digits of a value that fits are all kept. -/
theorem lastExponent_le {precision : ℕ} {m e : ℤ} (hm : |m| < 10 ^ precision) (hne : m ≠ 0) :
    lastExponent precision (m * 10 ^ e : ℚ) ≤ e := by
  have hten : (0 : ℚ) < 10 ^ e := zpow_pos (by norm_num) e
  have hpos : (0 : ℚ) < |(m : ℚ) * 10 ^ e| := by
    rw [abs_pos]
    exact mul_ne_zero (by exact_mod_cast hne) hten.ne'
  have hlt : |(m : ℚ) * 10 ^ e| < ((10 : ℕ) : ℚ) ^ ((precision : ℤ) + e) := by
    rw [abs_mul, abs_of_pos hten, Nat.cast_ofNat, zpow_add₀ (by norm_num), zpow_natCast]
    exact mul_lt_mul_of_pos_right (by exact_mod_cast hm) hten
  have hlog := (Int.lt_zpow_iff_log_lt (by norm_num : 1 < 10) hpos).mp hlt
  unfold lastExponent
  omega

/-- Rounding to significant digits does not change a value that fits. -/
theorem roundSig_of_fits {precision : ℕ} {x : ℚ} (h : Fits precision x) :
    roundSig precision x = x := by
  obtain ⟨m, e, hm, rfl⟩ := h
  rcases eq_or_ne m 0 with rfl | hne
  · norm_num [roundSig, roundHalfUp]
  · have hle := lastExponent_le (e := e) hm hne
    unfold roundSig
    generalize lastExponent precision ((m : ℚ) * 10 ^ e) = last at hle ⊢
    obtain ⟨n, rfl⟩ := Int.le.dest hle
    have hten : (10 : ℚ) ^ last ≠ 0 := zpow_ne_zero _ (by norm_num)
    have hscaled : (m : ℚ) * 10 ^ (last + n) / 10 ^ last = ((m * 10 ^ n : ℤ) : ℚ) := by
      rw [zpow_add₀ (by norm_num), zpow_natCast]
      push_cast
      field_simp
    rw [hscaled, roundHalfUp_intCast, ← hscaled]
    field_simp

theorem abs_roundHalfUp (x : ℚ) : |roundHalfUp x| = ⌊|x| + 1 / 2⌋ := by
  unfold roundHalfUp
  by_cases h : 0 ≤ x
  · rw [if_pos h, abs_of_nonneg h, abs_of_nonneg (Int.floor_nonneg.mpr (by linarith))]
  · have hneg : 0 ≤ -x := by linarith
    rw [if_neg h, abs_neg, abs_of_nonneg (Int.floor_nonneg.mpr (by linarith)),
      abs_of_nonpos (a := x) (by linarith)]

/-- Rounding to significant digits keeps the leading digit's order of magnitude. -/
theorem zpow_log_le_roundSig {precision : ℕ} (hprecision : 0 < precision) {x : ℚ} (hx : x ≠ 0) :
    (10 : ℚ) ^ Int.log 10 |x| ≤ |roundSig precision x| := by
  have hpos : 0 < |x| := abs_pos.mpr hx
  have hten : (0 : ℚ) < 10 ^ lastExponent precision x := zpow_pos (by norm_num) _
  have hsplit : (10 : ℚ) ^ Int.log 10 |x| =
      10 ^ (precision - 1) * 10 ^ lastExponent precision x := by
    rw [← zpow_natCast, ← zpow_add₀ (by norm_num)]
    congr 1
    unfold lastExponent
    omega
  have hlog : (10 : ℚ) ^ Int.log 10 |x| ≤ |x| := by
    exact_mod_cast Int.zpow_log_le_self (by norm_num : 1 < 10) hpos
  have hdigits : (10 : ℚ) ^ (precision - 1) ≤ |x / 10 ^ lastExponent precision x| := by
    rw [abs_div, abs_of_pos hten, le_div_iff₀ hten, ← hsplit]
    exact hlog
  have hround : (10 : ℤ) ^ (precision - 1) ≤ |roundHalfUp (x / 10 ^ lastExponent precision x)| := by
    rw [abs_roundHalfUp]
    apply Int.le_floor.mpr
    push_cast
    linarith
  unfold roundSig
  rw [abs_mul, abs_of_pos hten, hsplit]
  apply mul_le_mul_of_nonneg_right _ hten.le
  exact_mod_cast hround

/-- Only zero is rounded to zero. -/
theorem roundSig_eq_zero_iff {precision : ℕ} (hprecision : 0 < precision) {x : ℚ} :
    roundSig precision x = 0 ↔ x = 0 := by
  constructor
  · intro h
    by_contra hx
    have hle := zpow_log_le_roundSig hprecision hx
    rw [h, abs_zero] at hle
    exact absurd (zpow_pos (by norm_num) _) (not_lt.mpr hle)
  · rintro rfl
    exact roundSig_of_fits (fits_zero precision)

/-- A bounded value with few decimals fits. -/
theorem fits_of_hasScale {precision scale : ℕ} {x : ℚ} (h : HasScale scale x)
    (hlt : |x| * 10 ^ scale < 10 ^ precision) : Fits precision x := by
  obtain ⟨m, hm⟩ := h
  have hten : (0 : ℚ) < 10 ^ scale := by positivity
  refine ⟨m, -scale, ?_, ?_⟩
  · have habs : |(m : ℚ)| < 10 ^ precision := by rwa [← hm, abs_mul, abs_of_pos hten]
    exact_mod_cast habs
  · rw [zpow_neg, zpow_natCast, ← hm]
    field_simp

theorem HasScale.succ {scale : ℕ} {x : ℚ} (h : HasScale scale x) : HasScale (scale + 1) x := by
  obtain ⟨m, hm⟩ := h
  exact ⟨m * 10, by push_cast; rw [pow_succ, ← mul_assoc, hm]⟩

theorem HasScale.sub {scale : ℕ} {x y : ℚ} (hx : HasScale scale x) (hy : HasScale scale y) :
    HasScale scale (x - y) := by
  obtain ⟨m, hm⟩ := hx
  obtain ⟨n, hn⟩ := hy
  exact ⟨m - n, by push_cast; rw [sub_mul, hm, hn]⟩

/-- What a fixed-point column keeps is within its scale. -/
theorem hasScale_roundScale (scale : ℕ) (x : ℚ) : HasScale scale (roundScale scale x) := by
  have hten : (10 : ℚ) ^ scale ≠ 0 := by positivity
  refine ⟨roundHalfUp (x * 10 ^ scale), ?_⟩
  unfold roundScale
  field_simp

theorem roundScale_eq_self_iff {scale : ℕ} {x : ℚ} : roundScale scale x = x ↔ HasScale scale x := by
  constructor
  · intro h
    rw [← h]
    exact hasScale_roundScale scale x
  · exact roundScale_of_hasScale

/-- Rounding to significant digits keeps the sign. -/
theorem roundSig_pos {precision : ℕ} (hprecision : 0 < precision) {x : ℚ} (hx : 0 < x) :
    0 < roundSig precision x := by
  have hten : (0 : ℚ) < 10 ^ lastExponent precision x := zpow_pos (by norm_num) _
  have hscaled : 0 ≤ x / 10 ^ lastExponent precision x := by positivity
  have hnonneg : 0 ≤ roundSig precision x := by
    unfold roundSig roundHalfUp
    rw [if_pos hscaled]
    have hfloor : 0 ≤ ⌊x / 10 ^ lastExponent precision x + 1 / 2⌋ :=
      Int.floor_nonneg.mpr (by linarith)
    positivity
  apply lt_of_le_of_ne hnonneg
  intro hzero
  exact hx.ne' ((roundSig_eq_zero_iff hprecision).mp hzero.symm)

theorem roundHalfUp_neg (x : ℚ) : roundHalfUp (-x) = -roundHalfUp x := by
  unfold roundHalfUp
  rcases lt_trichotomy x 0 with hx | rfl | hx
  · rw [if_pos (by linarith), if_neg (by linarith), neg_neg]
  · norm_num
  · rw [if_neg (by linarith), if_pos hx.le, neg_neg]

theorem roundSig_neg (precision : ℕ) (x : ℚ) : roundSig precision (-x) = -roundSig precision x := by
  unfold roundSig lastExponent
  rw [abs_neg, neg_div, roundHalfUp_neg, Int.cast_neg, neg_mul]

theorem roundSig_pos_iff {precision : ℕ} (hprecision : 0 < precision) {x : ℚ} :
    0 < roundSig precision x ↔ 0 < x := by
  refine ⟨?_, roundSig_pos hprecision⟩
  intro h
  by_contra hx
  rcases (not_lt.mp hx).lt_or_eq with hneg | rfl
  · have hpos := roundSig_pos hprecision (neg_pos.mpr hneg)
    rw [roundSig_neg] at hpos
    linarith
  · rw [(roundSig_eq_zero_iff hprecision).mpr rfl] at h
    exact lt_irrefl 0 h

theorem roundSig_neg_iff {precision : ℕ} (hprecision : 0 < precision) {x : ℚ} :
    roundSig precision x < 0 ↔ x < 0 := by
  rw [← neg_pos, ← roundSig_neg, roundSig_pos_iff hprecision, neg_pos]

/-- A value within the scale is either kept by rounding to significant digits, or rounded to
another value within the scale. -/
theorem roundSig_eq_or_hasScale (precision : ℕ) {scale : ℕ} {x : ℚ} (h : HasScale scale x) :
    roundSig precision x = x ∨ HasScale scale (roundSig precision x) := by
  obtain ⟨m, hm⟩ := h
  have hten : (10 : ℚ) ^ lastExponent precision x ≠ 0 := zpow_ne_zero _ (by norm_num)
  by_cases hlast : lastExponent precision x ≤ -scale
  · left
    obtain ⟨n, hn⟩ := Int.le.dest hlast
    have hscaled : x / 10 ^ lastExponent precision x = ((m * 10 ^ n : ℤ) : ℚ) := by
      rw [div_eq_iff hten, Int.cast_mul, ← hm, Int.cast_pow, Int.cast_ofNat, mul_assoc, mul_assoc,
        ← zpow_natCast (10 : ℚ) n, ← zpow_natCast (10 : ℚ) scale, ← zpow_add₀ (by norm_num),
        ← zpow_add₀ (by norm_num)]
      rw [show (scale : ℤ) + (n + lastExponent precision x) = 0 by omega, zpow_zero, mul_one]
    unfold roundSig
    rw [hscaled, roundHalfUp_intCast, ← hscaled]
    field_simp
  · right
    obtain ⟨n, hn⟩ := Int.le.dest (not_le.mp hlast).le
    refine ⟨roundHalfUp (x / 10 ^ lastExponent precision x) * 10 ^ n, ?_⟩
    unfold roundSig
    rw [mul_assoc, ← zpow_natCast (10 : ℚ) scale, ← zpow_add₀ (by norm_num),
      show lastExponent precision x + scale = n by omega, zpow_natCast]
    push_cast
    ring

/-- A column whose scale covers a value keeps its rounding to significant digits only when
these digits are enough. -/
theorem roundScale_roundSig_eq_iff {precision scale : ℕ} {x : ℚ} (h : HasScale scale x) :
    roundScale scale (roundSig precision x) = x ↔ roundSig precision x = x := by
  constructor
  · intro hround
    rcases roundSig_eq_or_hasScale precision h with heq | hscale
    · exact heq
    · rwa [roundScale_of_hasScale hscale] at hround
  · intro heq
    rw [heq, roundScale_of_hasScale h]

/-- A rounding that a column holds with room to spare is exact. -/
theorem roundScale_roundSig_of_lt {precision scale : ℕ} (hprecision : 0 < precision) {x : ℚ}
    (h : HasScale scale x)
    (hlt : |roundScale scale (roundSig precision x)| * 10 ^ scale < 10 ^ precision) :
    roundScale scale (roundSig precision x) = x := by
  rw [roundScale_roundSig_eq_iff h]
  by_cases hx : x = 0
  · rw [hx]
    exact roundSig_of_fits (fits_zero precision)
  · apply roundSig_of_fits
    apply fits_of_hasScale h
    by_contra hge
    have hkept : roundScale scale (roundSig precision x) = roundSig precision x := by
      rcases roundSig_eq_or_hasScale precision h with heq | hscale
      · rw [heq, roundScale_of_hasScale h]
      · exact roundScale_of_hasScale hscale
    rw [hkept] at hlt
    have hten : (0 : ℚ) < 10 ^ scale := by positivity
    -- a large value is rounded to one at least the power of ten below it
    have hpow : (10 : ℚ) ^ ((precision : ℤ) - scale) ≤ |x| := by
      rw [zpow_sub₀ (by norm_num), zpow_natCast, zpow_natCast, div_le_iff₀ hten]
      exact not_lt.mp hge
    have hlog : (precision : ℤ) - scale ≤ Int.log 10 |x| :=
      (Int.zpow_le_iff_le_log (by norm_num) (abs_pos.mpr hx)).mp (by exact_mod_cast hpow)
    have hround : (10 : ℚ) ^ ((precision : ℤ) - scale) ≤ |roundSig precision x| :=
      (zpow_le_zpow_right₀ (by norm_num) hlog).trans (zpow_log_le_roundSig hprecision hx)
    have hbig : (10 : ℚ) ^ precision ≤ |roundSig precision x| * 10 ^ scale := by
      rw [zpow_sub₀ (by norm_num), zpow_natCast, zpow_natCast, div_le_iff₀ hten] at hround
      exact hround
    exact absurd hlt (not_lt.mpr hbig)

theorem HasScale.add {scale : ℕ} {x y : ℚ} (hx : HasScale scale x) (hy : HasScale scale y) :
    HasScale scale (x + y) := by
  obtain ⟨m, hm⟩ := hx
  obtain ⟨n, hn⟩ := hy
  exact ⟨m + n, by push_cast; rw [add_mul, hm, hn]⟩

/-! ## Ties -/

/-- The value lies halfway between two values of the scale. -/
def IsTie (scale : ℕ) (x : ℚ) : Prop := ∃ m : ℤ, x * 10 ^ scale = m + 1 / 2

instance (scale : ℕ) (x : ℚ) : Decidable (IsTie scale x) :=
  decidable_of_iff ((x * 10 ^ scale - 1 / 2).den = 1) <| by
    rw [Rat.den_eq_one_iff]
    constructor
    · intro h
      exact ⟨(x * 10 ^ scale - 1 / 2).num, by linarith⟩
    · rintro ⟨m, hm⟩
      rw [hm, add_sub_cancel_right, Rat.num_intCast]

/-- The nearest integer, for values that are not negative. -/
theorem roundHalfUp_eq_iff {x : ℚ} (hx : 0 ≤ x) {n : ℤ} :
    roundHalfUp x = n ↔ (n : ℚ) - 1 / 2 ≤ x ∧ x < n + 1 / 2 := by
  unfold roundHalfUp
  rw [if_pos hx, Int.floor_eq_iff]
  constructor
  · rintro ⟨hlow, hhigh⟩
    constructor <;> linarith
  · rintro ⟨hlow, hhigh⟩
    constructor <;> linarith

/-- Rounding to the nearest integer does not pass an integer. -/
theorem roundHalfUp_le {x : ℚ} (hx : 0 ≤ x) {n : ℤ} (h : x ≤ n) : roundHalfUp x ≤ n := by
  obtain ⟨hlow, -⟩ := (roundHalfUp_eq_iff hx).mp rfl
  have hlt : (roundHalfUp x : ℚ) < n + 1 := by linarith
  exact Int.lt_add_one_iff.mp (by exact_mod_cast hlt)

theorem le_roundHalfUp {x : ℚ} (hx : 0 ≤ x) {n : ℤ} (h : (n : ℚ) ≤ x) : n ≤ roundHalfUp x := by
  obtain ⟨-, hhigh⟩ := (roundHalfUp_eq_iff hx).mp rfl
  have hlt : (n : ℚ) < roundHalfUp x + 1 := by linarith
  exact Int.lt_add_one_iff.mp (by exact_mod_cast hlt)

section Ties

variable {precision scale : ℕ} {x h : ℚ}

/-- A tie of a scale is kept by digits that reach one place below the scale. -/
theorem IsTie.grid (htie : IsTie scale h) (hlast : lastExponent precision x ≤ -(scale + 1)) :
    ∃ n : ℤ, h / 10 ^ lastExponent precision x = n := by
  obtain ⟨m, hm⟩ := htie
  obtain ⟨k, hk⟩ := Int.le.dest hlast
  have hlastTen : (10 : ℚ) ^ lastExponent precision x ≠ 0 := zpow_ne_zero _ (by norm_num)
  refine ⟨(10 * m + 5) * 10 ^ k, ?_⟩
  have htenth : h * 10 ^ (scale + 1) = ((10 * m + 5 : ℤ) : ℚ) := by
    rw [pow_succ, ← mul_assoc, hm]
    push_cast
    ring
  have hsplit : (1 : ℚ) = 10 ^ (scale + 1) * (10 ^ k * 10 ^ lastExponent precision x) := by
    rw [← zpow_natCast (10 : ℚ) k, ← zpow_natCast (10 : ℚ) (scale + 1),
      ← zpow_add₀ (by norm_num), ← zpow_add₀ (by norm_num)]
    rw [show ((scale + 1 : ℕ) : ℤ) + (k + lastExponent precision x) = 0 by push_cast; omega,
      zpow_zero]
  rw [div_eq_iff hlastTen, Int.cast_mul, ← htenth]
  push_cast
  calc h = h * 1 := (mul_one h).symm
    _ = h * 10 ^ (scale + 1) * 10 ^ k * 10 ^ lastExponent precision x := by
        rw [hsplit]
        ring

/-- Rounding to enough digits does not pass a tie. -/
theorem roundSig_le_tie (hx : 0 ≤ x) (htie : IsTie scale h)
    (hlast : lastExponent precision x ≤ -(scale + 1)) (hle : x ≤ h) :
    roundSig precision x ≤ h := by
  obtain ⟨n, hn⟩ := htie.grid hlast
  have hten : (0 : ℚ) < 10 ^ lastExponent precision x := zpow_pos (by norm_num) _
  have hscaled : x / 10 ^ lastExponent precision x ≤ n := by
    rw [← hn]
    exact div_le_div_of_nonneg_right hle hten.le
  have hround := roundHalfUp_le (div_nonneg hx hten.le) hscaled
  unfold roundSig
  rw [← div_mul_cancel₀ h hten.ne', hn]
  exact mul_le_mul_of_nonneg_right (by exact_mod_cast hround) hten.le

theorem tie_le_roundSig (hx : 0 ≤ x) (htie : IsTie scale h)
    (hlast : lastExponent precision x ≤ -(scale + 1)) (hle : h ≤ x) :
    h ≤ roundSig precision x := by
  obtain ⟨n, hn⟩ := htie.grid hlast
  have hten : (0 : ℚ) < 10 ^ lastExponent precision x := zpow_pos (by norm_num) _
  have hscaled : (n : ℚ) ≤ x / 10 ^ lastExponent precision x := by
    rw [← hn]
    exact div_le_div_of_nonneg_right hle hten.le
  have hround := le_roundHalfUp (div_nonneg hx hten.le) hscaled
  unfold roundSig
  rw [← div_mul_cancel₀ h hten.ne', hn]
  exact mul_le_mul_of_nonneg_right (by exact_mod_cast hround) hten.le

/-- Digits of a value below a power of ten. -/
theorem lastExponent_le_of_lt {e : ℤ} (hx : 0 < x) (hlt : x < 10 ^ e) :
    lastExponent precision x ≤ e - precision := by
  have hpos : 0 < |x| := abs_pos.mpr hx.ne'
  have habs : |x| < ((10 : ℕ) : ℚ) ^ e := by
    rw [abs_of_pos hx, Nat.cast_ofNat]
    exact hlt
  have hlog := (Int.lt_zpow_iff_log_lt (by norm_num : 1 < 10) hpos).mp habs
  unfold lastExponent
  omega

end Ties

/-- Two parts of an integer, the second one known up to a rounding that passes no half: their
nearest integers add up to it unless the second is a half that was not rounded down to. -/
theorem roundHalfUp_add_iff {k : ℤ} {x y : ℚ} (hx : 0 ≤ x) (hy : 0 ≤ y)
    (hbelow : ∀ n : ℤ, k - x ≤ n + 1 / 2 → y ≤ n + 1 / 2)
    (habove : ∀ n : ℤ, n + 1 / 2 ≤ k - x → n + 1 / 2 ≤ y) :
    roundHalfUp x + roundHalfUp y = k ↔ ¬ ((∃ m : ℤ, y = m + 1 / 2) ∧ k - x ≤ y) := by
  obtain ⟨hlow, hhigh⟩ := (roundHalfUp_eq_iff hy).mp rfl
  set n := roundHalfUp y
  have hsum : roundHalfUp x + n = k ↔ (n : ℚ) - 1 / 2 < k - x ∧ k - x ≤ n + 1 / 2 := by
    rw [← eq_sub_iff_add_eq, roundHalfUp_eq_iff hx]
    push_cast
    constructor
    · rintro ⟨h, h'⟩
      constructor <;> linarith
    · rintro ⟨h, h'⟩
      constructor <;> linarith
  rw [hsum]
  constructor
  · rintro ⟨hlower, -⟩ ⟨⟨m, hm⟩, hle⟩
    -- the half can only be the lower end of what is rounded to n
    have hmn : m = n - 1 := by
      have h₁ : (m : ℚ) < n := by linarith
      have h₂ : (n : ℚ) - 1 ≤ m := by linarith
      have h₁' : m < n := by exact_mod_cast h₁
      have h₂' : n - 1 ≤ m := by exact_mod_cast h₂
      omega
    rw [hmn] at hm
    push_cast at hm
    linarith
  · intro hnot
    constructor
    · by_contra hge
      have hle : k - x ≤ ((n - 1 : ℤ) : ℚ) + 1 / 2 := by
        push_cast
        linarith
      have hhalf := hbelow (n - 1) hle
      push_cast at hhalf
      have heq : y = ((n - 1 : ℤ) : ℚ) + 1 / 2 := by
        push_cast
        linarith
      exact hnot ⟨⟨n - 1, heq⟩, by linarith⟩
    · by_contra hgt
      have hover := habove n (by linarith)
      linarith

end SecureStore.Foundation
