/-
# Charges

A charge says what is asked for an amount. It is never negative, asks no less for more, and
asks no more for two amounts together than for each of them alone. Charges compose, and
rounding up is one, so a formula that nests roundings and conversions is a charge by parts.
-/

import Mathlib.Algebra.Order.Field.Basic
import Mathlib.Algebra.Order.Floor.Ring
import Mathlib.Tactic.Linarith

namespace SecureStore.Foundation

universe u

variable {K : Type u} [Field K] [LinearOrder K] [IsStrictOrderedRing K] {f g : K → K} {c : K}

/-- What is asked for an amount. -/
structure Charge (f : K → K) : Prop where
  nonneg : ∀ a, 0 ≤ a → 0 ≤ f a
  mono : ∀ a b, 0 ≤ a → a ≤ b → f a ≤ f b
  subadditive : ∀ a b, 0 ≤ a → 0 ≤ b → f (a + b) ≤ f a + f b

/-- In proportion to the amount. -/
theorem Charge.linear (hc : 0 ≤ c) : Charge fun a : K => a * c where
  nonneg := fun _ ha => mul_nonneg ha hc
  mono := fun _ _ _ hab => mul_le_mul_of_nonneg_right hab hc
  subadditive := fun a b _ _ => (add_mul a b c).le

omit [IsStrictOrderedRing K] in
/-- The amount itself. -/
theorem Charge.id : Charge fun a : K => a where
  nonneg := fun _ ha => ha
  mono := fun _ _ _ hab => hab
  subadditive := fun _ _ _ _ => le_rfl

/-- The amount, rounded up. -/
theorem Charge.ceil [FloorRing K] : Charge fun a : K => (⌈a⌉ : K) where
  nonneg := fun _ ha => Int.cast_nonneg (Int.ceil_nonneg ha)
  mono := fun _ _ _ hab => Int.cast_le.mpr (Int.ceil_mono hab)
  subadditive := by
    intro a b _ _
    rw [← Int.cast_add]
    exact Int.cast_le.mpr (Int.ceil_add_le a b)

/-- What is charged for a charge. -/
theorem Charge.comp (hf : Charge f) (hg : Charge g) : Charge fun a => f (g a) where
  nonneg := fun a ha => hf.nonneg _ (hg.nonneg a ha)
  mono := fun a b ha hab => hf.mono _ _ (hg.nonneg a ha) (hg.mono a b ha hab)
  subadditive := by
    intro a b ha hb
    have hwhole : 0 ≤ g (a + b) := hg.nonneg _ (add_nonneg ha hb)
    calc f (g (a + b)) ≤ f (g a + g b) := hf.mono _ _ hwhole (hg.subadditive a b ha hb)
      _ ≤ f (g a) + f (g b) := hf.subadditive _ _ (hg.nonneg a ha) (hg.nonneg b hb)

/-- A charge at a rate. -/
theorem Charge.mul (hf : Charge f) (hc : 0 ≤ c) : Charge fun a => f a * c :=
  (Charge.linear hc).comp hf

/-- A charge for part of an amount. -/
theorem Charge.div (hf : Charge f) (hc : 0 ≤ c) : Charge fun a => f (a / c) := by
  have hshare : Charge fun a : K => a / c := by
    simpa only [div_eq_mul_inv] using Charge.linear (inv_nonneg.mpr hc)
  exact hf.comp hshare

end SecureStore.Foundation
