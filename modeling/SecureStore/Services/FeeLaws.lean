/-
# What a storage fee does

A fee is a rate applied to an amount, in tons or in bags, and to a time, in days, weeks or
months begun. Both are charges: the amount of the quantity, the time of the date. So a fee is
never negative, never falls with the quantity or with time, and never rises when a withdrawal
is taken whole instead of in parts.
-/

import SecureStore.Foundation.Charges
import SecureStore.Services.StorageFees

namespace SecureStore.Services

open SecureStore.Foundation SecureStore.Inventory

/-- The fee depends on the weight of a bag, which is one kilogram if it is not given and the
fee is by the bag. -/
def FeeType.UsesWeight (feeType : FeeType) (u : MeasurementUnit) : Prop :=
  match feeType with
  | .flatRate => False
  | .perMtPerMonth | .perMtPerDay => u = .bag
  | .perBagPerWeek => u = .metricTon ∨ u = .kilogram

/-- A fee that is a charge for the quantity and does not fall with time. -/
structure FeeLaws (deposited : Timestamp) (fee : ℚ → Timestamp → ℚ) : Prop where
  nonneg : ∀ a t, 0 ≤ a → deposited ≤ t → 0 ≤ fee a t
  mono_quantity : ∀ a b t, 0 ≤ a → a ≤ b → deposited ≤ t → fee a t ≤ fee b t
  mono_date : ∀ a t t', 0 ≤ a → deposited ≤ t → t ≤ t' → fee a t ≤ fee a t'
  subadditive : ∀ a b t, 0 ≤ a → 0 ≤ b → deposited ≤ t → fee (a + b) t ≤ fee a t + fee b t

section Laws

variable {policy : StorageFeePolicy} {bagWeightKg : Option ℚ}
  {deposited t t' : Timestamp} {rate : ℚ}

/-- Days begun. -/
theorem storageDays_mono (h : t ≤ t') : storageDays deposited t ≤ storageDays deposited t' := by
  apply Int.ceil_mono
  apply div_le_div_of_nonneg_right _ (by norm_num)
  exact_mod_cast Int.sub_le_sub_right h deposited

theorem storageDays_nonneg (h : deposited ≤ t) : 0 ≤ storageDays deposited t := by
  apply Int.ceil_nonneg
  apply div_nonneg _ (by norm_num)
  exact_mod_cast Int.sub_nonneg_of_le h

/-- Periods begun of days begun. -/
theorem ceilDays_mono (n : ℚ) (hn : 0 ≤ n) {days days' : ℤ} (h : days ≤ days') :
    ⌈(days : ℚ) / n⌉ ≤ ⌈(days' : ℚ) / n⌉ :=
  Int.ceil_mono (div_le_div_of_nonneg_right (Int.cast_le.mpr h) hn)

theorem ceilDays_nonneg (n : ℚ) (hn : 0 ≤ n) {days : ℤ} (h : 0 ≤ days) :
    0 ≤ ⌈(days : ℚ) / n⌉ :=
  Int.ceil_nonneg (div_nonneg (Int.cast_nonneg h) hn)

/-- A rate for an amount and a time. -/
theorem feeLaws_rated {amount : ℚ → ℚ} (hamount : Charge amount) (hrate : 0 ≤ rate)
    {periods : Timestamp → ℤ} (hnonneg : ∀ t, deposited ≤ t → 0 ≤ periods t)
    (hmono : ∀ t t', t ≤ t' → periods t ≤ periods t') :
    FeeLaws deposited fun a t => amount a * rate * periods t := by
  have hcharge : ∀ t, deposited ≤ t → Charge fun a => amount a * rate * (periods t : ℚ) :=
    fun t ht => (hamount.mul hrate).mul (Int.cast_nonneg (hnonneg t ht))
  refine ⟨?_, ?_, ?_, ?_⟩
  · exact fun a t ha ht => (hcharge t ht).nonneg a ha
  · exact fun a b t ha hab ht => (hcharge t ht).mono a b ha hab
  · intro a t t' ha _ htt'
    apply mul_le_mul_of_nonneg_left _ (mul_nonneg (hamount.nonneg a ha) hrate)
    exact Int.cast_le.mpr (hmono t t' htt')
  · exact fun a b t ha hb ht => (hcharge t ht).subadditive a b ha hb

/-- The same whatever is withdrawn, and whenever. -/
theorem feeLaws_flat (hrate : 0 ≤ rate) : FeeLaws deposited fun _ _ => rate where
  nonneg := fun _ _ _ _ => hrate
  mono_quantity := fun _ _ _ _ _ _ => le_rfl
  mono_date := fun _ _ _ _ _ _ => le_rfl
  subadditive := fun _ _ _ _ _ _ => le_add_of_nonneg_right hrate

/-- Tons are a charge. -/
theorem toMt_charge {commodity : StoredCommodity}
    (hconverts : FeeType.perMtPerDay.Converts commodity)
    (hweight : commodity.unitOfMeasure = .bag → ∀ w ∈ commodity.standardBagWeightKg, 0 < w) :
    ∃ mt, Charge mt ∧ ∀ qty,
      toMt commodity.standardBagWeightKg qty commodity.unitOfMeasure = .ok (mt qty) := by
  rcases hconverts with hton | hkilogram | ⟨hbag, weight, hgiven, hpositive⟩
  · refine ⟨_, Charge.id, fun qty => ?_⟩
    rw [hton]
    rfl
  · refine ⟨_, Charge.id.div (by norm_num : (0 : ℚ) ≤ 1000), fun qty => ?_⟩
    rw [hkilogram]
    rfl
  · have hthousand : Charge fun qty : ℚ => qty * weight / 1000 := by
      simpa only [mul_div_assoc] using
        Charge.linear (div_nonneg (hweight hbag weight hgiven).le (by norm_num : (0 : ℚ) ≤ 1000))
    refine ⟨_, hthousand, fun qty => ?_⟩
    rw [hbag, Option.mem_def.mp hgiven]
    simp [toMt, Option.filter, hpositive]

/-- Bags are a charge. -/
theorem toBags_charge {commodity : StoredCommodity}
    (hconverts : FeeType.perBagPerWeek.Converts commodity)
    (hweight : FeeType.perBagPerWeek.UsesWeight commodity.unitOfMeasure →
      ∀ w ∈ commodity.standardBagWeightKg, 0 < w) :
    ∃ bags, Charge bags ∧ ∀ qty,
      toBags commodity.standardBagWeightKg qty commodity.unitOfMeasure = .ok (bags qty) := by
  rcases hconverts with hbag | ⟨hunit, hzero⟩
  · refine ⟨_, Charge.id, fun qty => ?_⟩
    rw [hbag]
    rfl
  · have hnonneg : 0 ≤ commodity.standardBagWeightKg.getD 1 := by
      cases hgiven : commodity.standardBagWeightKg with
      | none => exact zero_le_one
      | some w => exact (hweight hunit w hgiven).le
    have hbags : Charge fun kg : ℚ => (⌈kg / commodity.standardBagWeightKg.getD 1⌉ : ℚ) :=
      Charge.ceil.div hnonneg
    rcases hunit with hton | hkilogram
    · refine ⟨_, hbags.comp (Charge.linear (by norm_num : (0 : ℚ) ≤ 1000)), fun qty => ?_⟩
      rw [hton]
      exact if_neg hzero
    · refine ⟨_, hbags, fun qty => ?_⟩
      rw [hkilogram]
      exact if_neg hzero

/-- The fee of a policy, for a unit that it converts. -/
theorem calculateFee_laws {commodity : StoredCommodity} (hrate : 0 ≤ policy.rate)
    (hconverts : policy.feeType.Converts commodity)
    (hweight : policy.feeType.UsesWeight commodity.unitOfMeasure →
      ∀ w ∈ commodity.standardBagWeightKg, 0 < w) (deposited : Timestamp) :
    ∃ fee, FeeLaws deposited fee ∧ ∀ qty t, calculateFee policy qty commodity.unitOfMeasure
      deposited t commodity.standardBagWeightKg = .ok (fee qty t) := by
  unfold calculateFee
  cases htype : policy.feeType with
  | flatRate => exact ⟨_, feeLaws_flat hrate, fun _ _ => rfl⟩
  | perMtPerDay =>
      rw [htype] at hconverts hweight
      obtain ⟨mt, hmt, hfee⟩ := toMt_charge hconverts hweight
      refine ⟨_, feeLaws_rated hmt hrate (fun _ => storageDays_nonneg)
        (fun _ _ => storageDays_mono), fun qty t => ?_⟩
      simp [hfee, Except.map]
  | perMtPerMonth =>
      rw [htype] at hconverts hweight
      obtain ⟨mt, hmt, hfee⟩ := toMt_charge hconverts hweight
      refine ⟨_, feeLaws_rated hmt hrate
        (fun _ ht => ceilDays_nonneg 30 (by norm_num) (storageDays_nonneg ht))
        (fun _ _ htt' => ceilDays_mono 30 (by norm_num) (storageDays_mono htt')), fun qty t => ?_⟩
      simp [hfee, Except.map, storageMonths]
  | perBagPerWeek =>
      rw [htype] at hconverts hweight
      obtain ⟨bags, hbags, hfee⟩ := toBags_charge hconverts hweight
      refine ⟨_, feeLaws_rated hbags hrate
        (fun _ ht => ceilDays_nonneg 7 (by norm_num) (storageDays_nonneg ht))
        (fun _ _ htt' => ceilDays_mono 7 (by norm_num) (storageDays_mono htt')), fun qty t => ?_⟩
      simp [hfee, Except.map, storageWeeks]

/-- A ton is a thousand kilograms, whatever the type of the fee. -/
theorem calculateFee_kilograms (qty : ℚ) :
    calculateFee policy (1000 * qty) .kilogram deposited t bagWeightKg =
      calculateFee policy qty .metricTon deposited t bagWeightKg := by
  have htons : 1000 * qty / 1000 = qty := by
    field_simp
  unfold calculateFee
  cases policy.feeType with
  | flatRate => rfl
  | perMtPerDay | perMtPerMonth => simp only [toMt, htons]
  | perBagPerWeek => simp only [toBags, mul_comm]

end Laws

/-! ## Fees are coherent -/

/-- Fees are never negative, never fall with quantity or with time, are never more for the whole
than for its parts, and are the same in tons and in kilograms. -/
theorem calculateFee_coherent {policy : StorageFeePolicy} {commodity : StoredCommodity}
    (hrate : 0 ≤ policy.rate) (hconverts : policy.feeType.Converts commodity)
    (hweight : policy.feeType.UsesWeight commodity.unitOfMeasure →
      ∀ w ∈ commodity.standardBagWeightKg, 0 < w) (deposited : Timestamp) :
    (∃ fee, FeeLaws deposited fee ∧ ∀ qty t, calculateFee policy qty commodity.unitOfMeasure
      deposited t commodity.standardBagWeightKg = .ok (fee qty t)) ∧
      ∀ qty t, calculateFee policy qty .metricTon deposited t commodity.standardBagWeightKg =
        calculateFee policy (1000 * qty) .kilogram deposited t commodity.standardBagWeightKg :=
  ⟨calculateFee_laws hrate hconverts hweight deposited,
    fun qty _ => (calculateFee_kilograms qty).symm⟩

/-- Two a week for a bag of fifty kilograms. -/
def samplePolicy : StorageFeePolicy :=
  { id := 1, tenantId := 1, warehouseId := none, commodityId := none, feeType := .perBagPerWeek
    rate := 2, isActive := true, createdAt := 0 }

def sampleCommodity : StoredCommodity :=
  { id := 1, unitOfMeasure := .kilogram, standardBagWeightKg := some 50 }

/-- Fees by the bag for goods by the kilogram. -/
theorem calculateFee_coherent_bags :
    (∃ fee, FeeLaws 0 fee ∧ ∀ qty t, calculateFee samplePolicy qty
      sampleCommodity.unitOfMeasure 0 t sampleCommodity.standardBagWeightKg =
        .ok (fee qty t)) ∧
      ∀ qty t, calculateFee samplePolicy qty .metricTon 0 t sampleCommodity.standardBagWeightKg =
        calculateFee samplePolicy (1000 * qty) .kilogram 0
          t sampleCommodity.standardBagWeightKg := by
  refine calculateFee_coherent (by norm_num [samplePolicy]) ?_ ?_ 0
  · exact .inr ⟨.inr rfl, by simp [sampleCommodity]⟩
  · rintro - w hw
    obtain rfl : 50 = w := Option.some_inj.mp hw
    norm_num

end SecureStore.Services
