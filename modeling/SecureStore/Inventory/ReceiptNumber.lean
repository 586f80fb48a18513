/-
# Receipt numbers

A split numbers its children with the next free letter suffix under the base of
their parent's number. Suffixes are ordered by length and then alphabetically,
and the successor of the last one in use is not in use.
-/

import SecureStore.Inventory.Types
import Mathlib.Data.Char
import Mathlib.Data.List.Sort

namespace SecureStore.Inventory

/-- One of the letters A to Z. -/
def isLetter (c : Char) : Bool := decide ('A' ≤ c ∧ c ≤ 'Z')

/-- What `/^[A-Z]+$/` accepts. -/
def IsSuffix (s : List Char) : Prop := s ≠ [] ∧ ∀ c ∈ s, isLetter c = true

instance : DecidablePred IsSuffix := fun s =>
  @instDecidableAnd _ _ inferInstance (List.decidableBAll _ s)

/-- The number without a trailing dash and letters. -/
def baseReceiptNumber (parentNumber : List Char) : List Char :=
  let letters := parentNumber.reverse.takeWhile isLetter
  match letters, parentNumber.reverse.dropWhile isLetter with
  | _ :: _, '-' :: front => front.reverse
  | _, _ => parentNumber

/-- Alphabetical order, as `localeCompare` orders capital letters. -/
def localeLE : List Char → List Char → Bool
  | [], _ => true
  | _ :: _, [] => false
  | a :: as, b :: bs => if a = b then localeLE as bs else decide (a < b)

/-- The order in which suffixes are sorted. -/
def suffixLE (a b : List Char) : Prop :=
  if a.length = b.length then localeLE a b = true else a.length < b.length

instance : DecidableRel suffixLE := fun a b =>
  inferInstanceAs (Decidable (if a.length = b.length then localeLE a b = true else _))

/-- `String.fromCharCode(c.charCodeAt(0) + 1)` -/
def nextChar (c : Char) : Char := Char.ofNat (c.toNat + 1)

/-- The loop from the last character: each Z becomes A until another character
is raised; nothing when every character is Z. -/
def increment : List Char → Option (List Char)
  | [] => none
  | c :: rest =>
      match increment rest with
      | some rest' => some (c :: rest')
      | none =>
          if c ≠ 'Z' then some (nextChar c :: rest.map fun _ => 'A') else none

/-- The suffix after the last one in use. -/
def nextSuffix (existing : List (List Char)) : List Char :=
  match (existing.insertionSort suffixLE).getLast? with
  | none => ['A']
  | some last =>
      if last.length = 1 ∧ last ≠ ['Z'] then last.map nextChar
      else if last = ['Z'] then ['A', 'A']
      else
        match increment last with
        | some chars => chars
        | none => 'A' :: last.map fun _ => 'A'

/-- The letter suffixes in use under a base. -/
def existingChildSuffixes (receipts : List Receipt) (base : List Char) : List (List Char) :=
  ((receipts.map Receipt.receiptNumber).filter fun number =>
      (base ++ ['-']).isPrefixOf number).map (fun number => number.drop (base.length + 1))
    |>.filter fun suffix => IsSuffix suffix

theorem localeLE_refl (a : List Char) : localeLE a a = true := by
  induction a with
  | nil => rfl
  | cons c a ih => simpa [localeLE] using ih

theorem localeLE_total (a b : List Char) : localeLE a b = true ∨ localeLE b a = true := by
  induction a generalizing b with
  | nil => exact .inl rfl
  | cons c a ih =>
      cases b with
      | nil => exact .inr rfl
      | cons d b =>
          rcases lt_trichotomy c d with hlt | rfl | hgt
          · simp [localeLE, hlt, hlt.ne]
          · simpa [localeLE] using ih b
          · simp [localeLE, hgt, hgt.ne]

theorem localeLE_trans {a b c : List Char} (hab : localeLE a b = true)
    (hbc : localeLE b c = true) : localeLE a c = true := by
  induction a generalizing b c with
  | nil => rfl
  | cons x a ih =>
      cases b with
      | nil => simp [localeLE] at hab
      | cons y b =>
          cases c with
          | nil => simp [localeLE] at hbc
          | cons z c =>
              simp only [localeLE] at hab hbc ⊢
              split at hab <;> split at hbc <;> simp_all
              · exact ih hab hbc
              · split
                · rename_i hxz
                  exact absurd (hxz ▸ hab) (lt_asymm hbc)
                · exact lt_trans hab hbc

instance : Std.Total suffixLE where
  total a b := by
    unfold suffixLE
    by_cases h : a.length = b.length
    · simpa [h] using localeLE_total a b
    · simp only [h, Ne.symm h, if_false]
      omega

instance : IsTrans (List Char) suffixLE where
  trans a b c := by
    unfold suffixLE
    intro hab hbc
    split at hab <;> split at hbc
    · rename_i h h'
      rw [if_pos (h.trans h')]
      exact localeLE_trans hab hbc
    all_goals
      rw [if_neg (by omega)]
      omega

/-- Every suffix in use comes before the last one. -/
theorem suffixLE_last {existing : List (List Char)} {last s : List Char}
    (h : (existing.insertionSort suffixLE).getLast? = some last) (hs : s ∈ existing) :
    suffixLE s last := by
  obtain ⟨front, hsorted⟩ := List.getLast?_eq_some_iff.mp h
  have hmem : s ∈ existing.insertionSort suffixLE := (List.mem_insertionSort _).mpr hs
  have hpair := List.pairwise_insertionSort suffixLE existing
  rw [hsorted, List.pairwise_append] at hpair
  rw [hsorted, List.mem_append, List.mem_singleton] at hmem
  rcases hmem with hfront | rfl
  · exact hpair.2.2 s hfront last (List.mem_singleton.mpr rfl)
  · simp [suffixLE, localeLE_refl]

theorem toNat_of_isLetter {c : Char} (h : isLetter c = true) : 65 ≤ c.toNat ∧ c.toNat ≤ 90 := by
  simpa [isLetter, Char.le_def, UInt32.le_iff_toNat_le] using h

theorem toNat_nextChar {c : Char} (h : isLetter c = true) : (nextChar c).toNat = c.toNat + 1 := by
  have hrange := toNat_of_isLetter h
  have hvalid : (c.toNat + 1).isValidChar := .inl (by omega)
  rw [nextChar, Char.ofNat, dif_pos hvalid]
  rfl

theorem nextChar_spec {c : Char} (h : isLetter c = true) (hne : c ≠ 'Z') :
    c < nextChar c ∧ isLetter (nextChar c) = true := by
  have hrange := toNat_of_isLetter h
  have hlt : c.toNat ≠ 90 := fun h90 => hne (Char.ext (UInt32.toNat_inj.mp h90))
  have hnext := toNat_nextChar h
  constructor
  · rw [Char.lt_def, UInt32.lt_iff_toNat_lt]
    change c.toNat < (nextChar c).toNat
    omega
  · simp only [isLetter, Char.le_def, UInt32.le_iff_toNat_le, decide_eq_true_eq]
    change 65 ≤ (nextChar c).toNat ∧ (nextChar c).toNat ≤ 90
    omega

/-- Raising a suffix keeps its length and its letters and makes it later. -/
theorem increment_spec {s s' : List Char} (hs : ∀ c ∈ s, isLetter c = true)
    (h : increment s = some s') :
    s'.length = s.length ∧ (∀ c ∈ s', isLetter c = true) ∧ localeLE s' s = false := by
  induction s generalizing s' with
  | nil => simp [increment] at h
  | cons c rest ih =>
      have hrest : ∀ d ∈ rest, isLetter d = true := fun d hd => hs d (List.mem_cons_of_mem _ hd)
      have hc := hs c List.mem_cons_self
      simp only [increment] at h
      split at h
      · rename_i rest' hinc
        obtain rfl := Option.some_inj.mp h
        obtain ⟨hlen, hletters, hlater⟩ := ih hrest hinc
        exact ⟨by simp [hlen], by simpa [hc] using hletters, by simpa [localeLE] using hlater⟩
      · split at h
        · rename_i hne
          obtain rfl := Option.some_inj.mp h
          obtain ⟨hlt, hletter⟩ := nextChar_spec hc hne
          refine ⟨by simp, ?_, by simp [localeLE, hlt.ne', hlt.le]⟩
          intro d hd
          rcases List.mem_cons.mp hd with rfl | hd
          · exact hletter
          · obtain ⟨_, -, rfl⟩ := List.mem_map.mp hd
            decide
        · cases h

/-- The loop gives what the cases of a single letter give. -/
theorem nextSuffix_of_last {existing : List (List Char)} {last : List Char}
    (h : (existing.insertionSort suffixLE).getLast? = some last) :
    nextSuffix existing = (increment last).getD ('A' :: last.map fun _ => 'A') := by
  unfold nextSuffix
  rw [h]
  dsimp only
  by_cases hone : last.length = 1 ∧ last ≠ ['Z']
  · obtain ⟨c, rfl⟩ := List.length_eq_one_iff.mp hone.1
    have hc : c ≠ 'Z' := fun hZ => hone.2 (congrArg (· :: []) hZ)
    rw [if_pos hone]
    simp [increment, hc]
  · rw [if_neg hone]
    by_cases hZ : last = ['Z']
    · subst hZ
      rfl
    · rw [if_neg hZ]
      cases increment last with
      | none => rfl
      | some chars => rfl

theorem getLast?_sorted_eq_none {existing : List (List Char)} :
    (existing.insertionSort suffixLE).getLast? = none ↔ existing = [] := by
  rw [List.getLast?_eq_none_iff, ← List.length_eq_zero_iff, List.length_insertionSort,
    List.length_eq_zero_iff]

/-- What comes after a suffix is made of letters and is later. -/
theorem suffix_after {last : List Char} (h : IsSuffix last) :
    IsSuffix ((increment last).getD ('A' :: last.map fun _ => 'A')) ∧
      ¬ suffixLE ((increment last).getD ('A' :: last.map fun _ => 'A')) last := by
  obtain ⟨hne, hletters⟩ := h
  cases hinc : increment last with
  | some chars =>
      obtain ⟨hlen, hchars, hlater⟩ := increment_spec hletters hinc
      refine ⟨⟨?_, hchars⟩, by simp [suffixLE, hlen, hlater]⟩
      rintro rfl
      exact hne (List.length_eq_zero_iff.mp hlen.symm)
  | none =>
      refine ⟨⟨by simp, ?_⟩, by simp [suffixLE]⟩
      intro c hc
      rcases List.mem_cons.mp hc with rfl | hc
      · decide
      · obtain ⟨_, -, rfl⟩ := List.mem_map.mp hc
        decide

/-- The next suffix is made of letters and comes after all that are in use. -/
theorem nextSuffix_spec {existing : List (List Char)} (h : ∀ s ∈ existing, IsSuffix s) :
    IsSuffix (nextSuffix existing) ∧ nextSuffix existing ∉ existing := by
  cases hlast : (existing.insertionSort suffixLE).getLast? with
  | none =>
      obtain rfl := getLast?_sorted_eq_none.mp hlast
      exact ⟨by decide, by simp⟩
  | some last =>
      have hmem : last ∈ existing :=
        (List.mem_insertionSort _).mp (List.mem_of_getLast? hlast)
      obtain ⟨hsuffix, hlater⟩ := suffix_after (h last hmem)
      rw [nextSuffix_of_last hlast]
      exact ⟨hsuffix, fun hin => hlater (suffixLE_last hlast hin)⟩

/-- A suffix is in use under a base exactly when some receipt has the number. -/
theorem mem_existingChildSuffixes {receipts : List Receipt} {base suffix : List Char} :
    suffix ∈ existingChildSuffixes receipts base ↔
      IsSuffix suffix ∧ ∃ r ∈ receipts, r.receiptNumber = base ++ '-' :: suffix := by
  simp only [existingChildSuffixes, List.mem_filter, List.mem_map, decide_eq_true_eq,
    List.isPrefixOf_iff_prefix]
  constructor
  · rintro ⟨⟨number, ⟨⟨r, hr, rfl⟩, tail, htail⟩, rfl⟩, hsuffix⟩
    refine ⟨hsuffix, r, hr, ?_⟩
    rw [← htail]
    simp
  · rintro ⟨hsuffix, r, hr, hnumber⟩
    refine ⟨⟨r.receiptNumber, ⟨⟨r, hr, rfl⟩, suffix, ?_⟩, ?_⟩, hsuffix⟩
    · rw [hnumber]
      simp
    · rw [hnumber]
      simp

end SecureStore.Inventory
