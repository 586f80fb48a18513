/-
# The first of several lists

A feed shows the first so many of what several tables hold, in a common order. To spare work each
table is cut to its own first few before they are put together and sorted once more. The order is
stable, so ties keep their places; the cut is felt exactly when one table has more among the first
than it was cut to.
-/

import Mathlib.Data.List.Sort
import Mathlib.Data.List.Flatten
import Mathlib.Data.List.Nodup
import Mathlib.Data.List.Pairwise

namespace SecureStore.Foundation

variable {α : Type*} {r : α → α → Prop} [DecidableRel r]

/-- The first `k` of a list in the order of a relation. -/
def newest (r : α → α → Prop) [DecidableRel r] (k : ℕ) (l : List α) : List α :=
  (l.insertionSort r).take k

/-- What keeps the order may be applied before or after. -/
theorem map_newest {β : Type*} {r' : β → β → Prop} [DecidableRel r'] {f : α → β}
    (h : ∀ a b, r a b ↔ r' (f a) (f b)) (k : ℕ) (l : List α) :
    (newest r k l).map f = newest r' k (l.map f) := by
  unfold newest
  rw [List.map_take, List.map_insertionSort r r' f l fun a _ b _ => h a b]

section Prefixes

/-- A list that keeps all of a beginning begins with it. -/
theorem prefix_of_sublist {first rest l : List α} (h : l.Sublist (first ++ rest))
    (hnodup : (first ++ rest).Nodup) (hkept : ∀ x ∈ first, x ∈ l) : first <+: l := by
  induction first generalizing l with
  | nil => exact List.nil_prefix
  | cons a first ih =>
      obtain ⟨hfresh, hrest⟩ := List.nodup_cons.mp hnodup
      cases h with
      | cons _ hskipped =>
          exact absurd (hskipped.subset (hkept a List.mem_cons_self)) hfresh
      | @cons_cons l' _ _ htail =>
          refine List.prefix_cons_inj a |>.mpr (ih htail hrest fun x hx => ?_)
          rcases List.mem_cons.mp (hkept x (List.mem_cons_of_mem _ hx)) with rfl | hmem
          · exact absurd (List.mem_append_left _ hx) hfresh
          · exact hmem

/-- Parts that are lists of parts make up a list of what they make up. -/
theorem flatten_map_sublist {f g : List α → List α} (h : ∀ l, (f l).Sublist (g l))
    (parts : List (List α)) : (parts.map f).flatten.Sublist (parts.map g).flatten := by
  induction parts with
  | nil => exact List.Sublist.refl _
  | cons p parts ih => exact (h p).append ih

theorem flatten_map_perm {f : List α → List α} (h : ∀ l, (f l).Perm l) (parts : List (List α)) :
    (parts.map f).flatten.Perm parts.flatten := by
  induction parts with
  | nil => exact List.Perm.refl _
  | cons p parts ih => exact (h p).append ih

theorem insertionSort_append (l l' : List α) :
    (l ++ l').insertionSort r = l.foldr (List.orderedInsert r) (l'.insertionSort r) := by
  induction l with
  | nil => rfl
  | cons a l ih => rw [List.cons_append, List.insertionSort_cons, ih, List.foldr_cons]

end Prefixes

section Sorting

variable [Std.Total r] [IsTrans α r]

/-- Two entries out of order may be inserted in either order. -/
theorem orderedInsert_comm {a b : α} (h : ¬ r a b) (l : List α) :
    (l.orderedInsert r a).orderedInsert r b = (l.orderedInsert r b).orderedInsert r a := by
  have hba : r b a := (Std.Total.total a b).resolve_left h
  induction l with
  | nil => simp [h, hba]
  | cons c l ih =>
      by_cases hac : r a c
      · have hbc : r b c := IsTrans.trans b a c hba hac
        simp [hac, hbc, h, hba]
      · by_cases hbc : r b c
        · simp [hac, hbc, h]
        · simp [hac, hbc, ih]

theorem insertionSort_orderedInsert (a : α) (l l' : List α) :
    (l.orderedInsert r a ++ l').insertionSort r = (a :: (l ++ l')).insertionSort r := by
  induction l with
  | nil => rfl
  | cons b l ih =>
      by_cases h : r a b
      · rw [List.orderedInsert_cons_of_le r l h]
        rfl
      · rw [List.orderedInsert_of_not_le r l h, List.cons_append, List.insertionSort_cons, ih,
          List.insertionSort_cons, List.cons_append, List.insertionSort_cons,
          List.insertionSort_cons, orderedInsert_comm h]

/-- Sorting a beginning first changes nothing. -/
theorem insertionSort_sorted_append (l l' : List α) :
    (l.insertionSort r ++ l').insertionSort r = (l ++ l').insertionSort r := by
  induction l generalizing l' with
  | nil => rfl
  | cons a l ih =>
      rw [List.insertionSort_cons, insertionSort_orderedInsert, List.insertionSort_cons, ih]
      rfl

theorem insertionSort_flatten (parts : List (List α)) :
    (parts.map (List.insertionSort r)).flatten.insertionSort r =
      parts.flatten.insertionSort r := by
  induction parts with
  | nil => rfl
  | cons p parts ih =>
      rw [List.map_cons, List.flatten_cons, insertionSort_sorted_append, insertionSort_append, ih,
        ← insertionSort_append, List.flatten_cons]

theorem sublist_insertionSort_of_sublist {l l' : List α} (h : l.Sublist l') :
    (l.insertionSort r).Sublist (l'.insertionSort r) := by
  induction h with
  | slnil => exact List.Sublist.refl _
  | cons a _ ih => exact ih.trans (List.sublist_orderedInsert a _)
  | cons_cons a _ ih => exact ih.orderedInsert_sublist a (List.pairwise_insertionSort r _)

/-- Leaving out what is not among the first changes nothing about the first. -/
theorem newest_of_sublist {k : ℕ} {l l' : List α} (h : l'.Sublist l) (hnodup : l.Nodup)
    (hkept : ∀ x ∈ newest r k l, x ∈ l') : newest r k l' = newest r k l := by
  have hsorted : (l'.insertionSort r).Sublist (newest r k l ++ (l.insertionSort r).drop k) := by
    rw [newest, List.take_append_drop]
    exact sublist_insertionSort_of_sublist h
  have hsplit : (newest r k l ++ (l.insertionSort r).drop k).Nodup := by
    rw [newest, List.take_append_drop]
    exact (List.perm_insertionSort r l).nodup_iff.mpr hnodup
  have hprefix : newest r k l <+: l'.insertionSort r :=
    prefix_of_sublist hsorted hsplit fun x hx => (List.mem_insertionSort r).mpr (hkept x hx)
  have hshort : (l'.insertionSort r).length ≤ (l.insertionSort r).length :=
    (sublist_insertionSort_of_sublist h).length_le
  have htake : newest r k l = (l'.insertionSort r).take (newest r k l).length :=
    List.prefix_iff_eq_take.mp hprefix
  have hlength : (newest r k l).length = min k (l.insertionSort r).length := List.length_take
  rw [htake, hlength, newest]
  rcases le_total k (l.insertionSort r).length with hle | hge
  · rw [min_eq_left hle]
  · rw [min_eq_right hge, List.take_of_length_le hshort, List.take_of_length_le (hshort.trans hge)]

/-! ## Cutting the parts -/

variable [DecidableEq α]

/-- What a part contributes to a list it belongs to is the part. -/
theorem filter_mem_sorted {part l : List α} (h : part.Sublist l) (hnodup : l.Nodup) :
    ((l.insertionSort r).filter fun x => x ∈ part) = part.insertionSort r := by
  have hsub : (part.insertionSort r).Sublist ((l.insertionSort r).filter fun x => x ∈ part) := by
    have hfilter := (sublist_insertionSort_of_sublist (r := r) h).filter fun x => x ∈ part
    rwa [List.filter_eq_self.mpr (by simp)] at hfilter
  refine (hsub.eq_of_length_le ?_).symm
  have hsorted : (l.insertionSort r).Nodup := (List.perm_insertionSort r l).nodup_iff.mpr hnodup
  rw [List.length_insertionSort]
  refine (List.subperm_of_subset (hsorted.filter _) fun x hx => ?_).length_le
  simpa using (List.mem_filter.mp hx).2

/-- Cutting the parts shows the first of all exactly when no part has more of them than it was
cut to. -/
theorem newest_trimmed_iff {k m : ℕ} {parts : List (List α)} (hnodup : parts.flatten.Nodup) :
    newest r k (parts.map (newest r m)).flatten = newest r k parts.flatten ↔
      ∀ p ∈ parts, ((newest r k parts.flatten).filter fun x => x ∈ p).length ≤ m := by
  have hsorted : (parts.map (List.insertionSort r)).flatten.Nodup :=
    (flatten_map_perm (List.perm_insertionSort r) parts).nodup_iff.mpr hnodup
  have hcut : (parts.map (newest r m)).flatten.Sublist
      (parts.map (List.insertionSort r)).flatten :=
    flatten_map_sublist (fun _ => List.take_sublist _ _) parts
  constructor
  · intro heq p hp
    rw [← heq]
    have hfirst : ((newest r k (parts.map (newest r m)).flatten).filter fun x => x ∈ p).Nodup := by
      have hcutnodup := (List.perm_insertionSort r _).nodup_iff.mpr (hcut.nodup hsorted)
      exact (hcutnodup.sublist (List.take_sublist k _)).filter _
    have hown : ((newest r k (parts.map (newest r m)).flatten).filter fun x => x ∈ p) ⊆
        newest r m p := by
      intro x hx
      obtain ⟨hfirst, hmem⟩ := List.mem_filter.mp hx
      have hxp : x ∈ p := by simpa using hmem
      have hall := (List.mem_insertionSort r).mp (List.mem_of_mem_take hfirst)
      obtain ⟨q', hq', hxq⟩ := List.mem_flatten.mp hall
      obtain ⟨q, hq, rfl⟩ := List.mem_map.mp hq'
      obtain rfl : q = p := by
        by_contra hne
        have : Std.Symm (@List.Disjoint α) := ⟨fun _ _ h _ ha hb => h hb ha⟩
        have hdisjoint : List.Disjoint q p := (List.nodup_flatten.mp hnodup).2.forall hq hp hne
        exact hdisjoint ((List.mem_insertionSort r).mp (List.mem_of_mem_take hxq)) hxp
      exact hxq
    exact (List.subperm_of_subset hfirst hown).length_le.trans (List.length_take_le m _)
  · intro hfew
    have hall : newest r k (parts.map (List.insertionSort r)).flatten =
        newest r k parts.flatten := by
      unfold newest
      rw [insertionSort_flatten]
    rw [← hall]
    refine newest_of_sublist hcut hsorted fun x hx => ?_
    rw [hall] at hx
    have hmem := (List.mem_insertionSort r).mp (List.mem_of_mem_take hx)
    obtain ⟨p, hp, hxp⟩ := List.mem_flatten.mp hmem
    have hprefix : ((newest r k parts.flatten).filter fun x => x ∈ p) <+: p.insertionSort r := by
      rw [← filter_mem_sorted (List.sublist_flatten_of_mem hp) hnodup]
      exact (List.take_prefix k _).filter _
    refine List.mem_flatten.mpr ⟨newest r m p, List.mem_map_of_mem hp, ?_⟩
    refine (List.take_sublist_take_left (hfew p hp)).subset ?_
    rw [← List.prefix_iff_eq_take.mp hprefix]
    exact List.mem_filter.mpr ⟨hx, by simpa using hxp⟩

/-- Parts that are cut to no less than is shown lose nothing. -/
theorem newest_trimmed {k m : ℕ} (hle : k ≤ m) {parts : List (List α)}
    (hnodup : parts.flatten.Nodup) :
    newest r k (parts.map (newest r m)).flatten = newest r k parts.flatten := by
  refine (newest_trimmed_iff hnodup).mpr fun p _ => ?_
  exact (List.length_filter_le _ _).trans ((List.length_take_le k _).trans hle)

end Sorting

end SecureStore.Foundation
