/-
# Numerals

A number is written in decimal digits, with zeros in front of it up to a width. Numerals of one
width are ordered as texts the way the numbers are ordered, whatever follows them; so texts that
are built from numerals of fixed widths compare field by field.
-/

import Mathlib

namespace SecureStore.Foundation

/-! ## Order of texts -/

section Order

variable {α : Type*} [LinearOrder α]

/-- Texts of one length that differ are ordered whatever follows them. -/
theorem append_lt_append {l l' x y : List α} (hlength : l.length = l'.length) (h : l < l') :
    l ++ x < l' ++ y := by
  induction l generalizing l' with
  | nil =>
      obtain rfl := List.eq_nil_of_length_eq_zero hlength.symm
      exact absurd h (lt_irrefl _)
  | cons a l ih =>
      cases l' with
      | nil => simp at hlength
      | cons b l' =>
          rw [List.cons_append, List.cons_append, List.cons_lt_cons_iff]
          rcases List.cons_lt_cons_iff.mp h with hab | ⟨hab, hrest⟩
          · exact .inl hab
          · exact .inr ⟨hab, ih (Nat.succ.inj hlength) hrest⟩

end Order

/-! ## Numerals -/

/-- `String(n).padStart(width, '0')` -/
def padStart (width n : ℕ) : List Char := List.leftpad width '0' (Nat.toDigits 10 n)

theorem length_padStart {width n : ℕ} (hwidth : 0 < width) (h : n < 10 ^ width) :
    (padStart width n).length = width := by
  unfold padStart
  rw [List.length_leftpad]
  exact max_eq_left ((Nat.length_toDigits_le_iff (by decide) hwidth).mpr h)

/-- A number that has a width's digits is written as it is. -/
theorem padStart_of_le {width n : ℕ} (h : 10 ^ width ≤ n) :
    padStart (width + 1) n = Nat.toDigits 10 n := by
  have hlong : width + 1 ≤ (Nat.toDigits 10 n).length := by
    by_contra hshort
    cases width with
    | zero => exact hshort Nat.length_toDigits_pos
    | succ width =>
        have hless := (Nat.length_toDigits_le_iff (by decide) width.succ_pos).mp
          (Nat.le_of_lt_succ (Nat.lt_of_not_le hshort))
        omega
  unfold padStart List.leftpad
  rw [Nat.sub_eq_zero_of_le hlong]
  rfl

/-- The last digit is written behind the others. -/
theorem padStart_succ {width : ℕ} (hwidth : 0 < width) (n : ℕ) :
    padStart (width + 1) n = padStart width (n / 10) ++ [Nat.digitChar (n % 10)] := by
  unfold padStart List.leftpad
  by_cases h : n < 10
  · rw [Nat.toDigits_of_lt_base h, Nat.div_eq_of_lt h, Nat.mod_eq_of_lt h, Nat.toDigits_zero]
    obtain ⟨k, rfl⟩ := Nat.exists_eq_succ_of_ne_zero hwidth.ne'
    simp [List.replicate_succ']
  · rw [Nat.toDigits_of_base_le (by decide) (Nat.le_of_not_lt h), ← List.append_assoc,
      List.length_append, List.length_singleton, Nat.add_sub_add_right]

theorem digitChar_lt : ∀ m < 10, ∀ n < m, Nat.digitChar n < Nat.digitChar m := by decide

/-- Numerals of one width are ordered as their numbers. -/
theorem padStart_lt {width m n : ℕ} (hwidth : 0 < width) (h : m < n) (hn : n < 10 ^ width) :
    padStart width m < padStart width n := by
  induction width, hwidth using Nat.le_induction generalizing m n with
  | base =>
      have hten : n < 10 := hn
      unfold padStart
      rw [Nat.toDigits_of_lt_base (h.trans hten), Nat.toDigits_of_lt_base hten]
      exact List.cons_lt_cons_iff.mpr (.inl (digitChar_lt n hn m h))
  | succ width hwidth ih =>
      rw [padStart_succ hwidth, padStart_succ hwidth]
      have hdiv : n / 10 < 10 ^ width := by
        rw [Nat.pow_succ] at hn
        exact Nat.div_lt_of_lt_mul (by omega)
      rcases Nat.lt_or_ge (m / 10) (n / 10) with hless | hge
      · apply append_lt_append
        · rw [length_padStart hwidth (hless.trans hdiv), length_padStart hwidth hdiv]
        · exact ih hless hdiv
      · have hsame : m / 10 = n / 10 := by omega
        have hlast : m % 10 < n % 10 := by omega
        rw [hsame]
        apply List.append_left_lt
        exact List.cons_lt_cons_iff.mpr (.inl (digitChar_lt _ (Nat.mod_lt n (by decide)) _ hlast))

/-- A numeral and what follows it are ordered by the number first. -/
theorem padStart_append_le {width m n : ℕ} {x y : List Char} (hwidth : 0 < width)
    (hn : n < 10 ^ width) (h : m < n ∨ m = n ∧ x ≤ y) :
    padStart width m ++ x ≤ padStart width n ++ y := by
  rcases h with hless | ⟨rfl, hrest⟩
  · apply le_of_lt
    apply append_lt_append
    · rw [length_padStart hwidth (hless.trans hn), length_padStart hwidth hn]
    · exact padStart_lt hwidth hless hn
  · rcases hrest.lt_or_eq with hlast | rfl
    · exact le_of_lt (List.append_left_lt hlast)
    · exact le_rfl

end SecureStore.Foundation
