/-
# Words and separators

A text is joined of words by single separators when each piece between separators is a word that
is not empty. Replacing every run of other characters by one separator, and cutting separators
off at both ends, leaves the words of a text joined by separators, or nothing; cutting that off
at a length may leave a separator at its end.
-/

import Mathlib.Data.List.Chain
import Mathlib.Data.List.DropRight

namespace SecureStore.Foundation

variable {α : Type*} (word : α → Bool) (sep : α)

/-- Every piece between separators is a word. -/
def Joined [DecidableEq α] (l : List α) : Prop :=
  ∀ w ∈ l.splitOn sep, w ≠ [] ∧ ∀ a ∈ w, word a = true

/-- The words of a text, between runs of anything else. -/
def wordsOf (l : List α) : List (List α) :=
  (l.splitOnP fun a => !word a).filter fun w => !w.isEmpty

/-- Each run of what is in no word becomes one separator; `inRun` tells that one has begun. -/
def collapse : Bool → List α → List α
  | _, [] => []
  | inRun, a :: l =>
      if word a then a :: collapse false l
      else if inRun then collapse true l
      else sep :: collapse true l

/-- Cut off what satisfies a condition at both ends. -/
def trimBoth (p : α → Bool) (l : List α) : List α := (l.dropWhile p).rdropWhile p

/-- Words and separators, of which no two meet. -/
structure Spaced (l : List α) : Prop where
  chars : ∀ a ∈ l, word a = true ∨ a = sep
  apart : l.IsChain fun a b => a = sep → b ≠ sep

variable {word : α → Bool} {sep : α} {l l' : List α}

theorem word_ne_sep {a : α} (hsep : word sep = false) (ha : word a = true) : a ≠ sep := by
  rintro rfl
  rw [ha] at hsep
  cases hsep

/-! ## Spaced texts -/

theorem Spaced.left (h : Spaced word sep (l ++ l')) : Spaced word sep l :=
  ⟨fun a ha => h.chars a (List.mem_append_left _ ha), h.apart.left_of_append⟩

theorem Spaced.right (h : Spaced word sep (l ++ l')) : Spaced word sep l' :=
  ⟨fun a ha => h.chars a (List.mem_append_right _ ha), h.apart.right_of_append⟩

/-- What is collapsed is spaced, and begins with no separator within a run. -/
theorem spaced_collapse (hsep : word sep = false) (inRun : Bool) (l : List α) :
    Spaced word sep (collapse word sep inRun l) ∧
      (inRun = true → (collapse word sep inRun l).head? ≠ some sep) := by
  induction l generalizing inRun with
  | nil => exact ⟨⟨by simp [collapse], by simp [collapse]⟩, by simp [collapse]⟩
  | cons a l ih =>
      unfold collapse
      split
      · next hword =>
          have hne := word_ne_sep hsep hword
          obtain ⟨hspaced, -⟩ := ih false
          refine ⟨⟨?_, ?_⟩, fun _ => by simpa using hne⟩
          · simpa [hword] using hspaced.chars
          · exact hspaced.apart.cons fun b _ heq => absurd heq hne
      · obtain ⟨hspaced, hhead⟩ := ih true
        split
        · exact ⟨hspaced, fun _ => hhead rfl⟩
        · next hrun =>
            refine ⟨⟨?_, ?_⟩, fun h => absurd h hrun⟩
            · simpa using hspaced.chars
            · refine hspaced.apart.cons fun b hb _ => ?_
              rintro rfl
              exact hhead rfl hb

/-- The characters of words stay. -/
theorem mem_collapse {a : α} (hsep : word sep = false) (ha : word a = true) (inRun : Bool) :
    a ∈ collapse word sep inRun l ↔ a ∈ l := by
  have hne := word_ne_sep hsep ha
  induction l generalizing inRun with
  | nil => rfl
  | cons b l ih =>
      unfold collapse
      split
      · rw [List.mem_cons, List.mem_cons]
        exact or_congr_right (ih false)
      · next hword =>
          have hother : a ≠ b := by
            rintro rfl
            exact hword ha
          split
          · rw [List.mem_cons, or_iff_right hother]
            exact ih true
          · rw [List.mem_cons, List.mem_cons, or_iff_right hother, or_iff_right hne]
            exact ih true

/-! ## Trimming -/

section Trim

variable {p : α → Bool}

/-- What is cut off at the ends satisfies the condition. -/
theorem mem_trimBoth {a : α} (ha : p a = false) : a ∈ trimBoth p l ↔ a ∈ l := by
  have hdrop : ∀ l : List α, a ∈ l.dropWhile p ↔ a ∈ l := by
    intro l
    refine ⟨fun h => (List.dropWhile_suffix p).subset h, fun h => ?_⟩
    rw [← List.takeWhile_append_dropWhile (p := p) (l := l), List.mem_append] at h
    rcases h with htake | hdrop
    · rw [List.mem_takeWhile_imp htake] at ha
      cases ha
    · exact hdrop
  unfold trimBoth List.rdropWhile
  rw [List.mem_reverse, hdrop, List.mem_reverse, hdrop]

/-- A part of the text is left, with ends that do not satisfy the condition. -/
theorem trimBoth_spec (p : α → Bool) (l : List α) :
    ∃ front back, l = front ++ trimBoth p l ++ back ∧
      (∀ a ∈ (trimBoth p l).head?, p a = false) ∧ ∀ a ∈ (trimBoth p l).getLast?, p a = false := by
  obtain ⟨front, hfront⟩ := List.dropWhile_suffix (l := l) p
  obtain ⟨back, hback⟩ := List.rdropWhile_prefix p (l.dropWhile p)
  refine ⟨front, back, ?_, fun a ha => ?_, fun a ha => ?_⟩
  · rw [List.append_assoc]
    unfold trimBoth
    rw [hback, hfront]
  · have hhead : (l.dropWhile p).head? = some a := by
      rw [← hback]
      exact List.mem_head?_append_of_mem_head? ha
    have hnot := List.head?_dropWhile_not p l
    rw [hhead] at hnot
    exact hnot
  · have hne : trimBoth p l ≠ [] := by
      rintro hnil
      simp [hnil] at ha
    obtain rfl := Option.some_inj.mp ((List.getLast?_eq_getLast_of_ne_nil hne).symm.trans ha)
    exact Bool.not_eq_true _ ▸ List.rdropWhile_last_not p (l.dropWhile p) hne

end Trim

/-! ## Words -/

section Words

variable {p : α → Bool} {a : α}

theorem wordsOf_cons_of_not (ha : word a = false) : wordsOf word (a :: l) = wordsOf word l := by
  unfold wordsOf
  rw [List.splitOnP_cons_eq_if_modifyHead, if_pos (by simpa using ha)]
  rfl

theorem wordsOf_concat_of_not (ha : word a = false) : wordsOf word (l ++ [a]) = wordsOf word l := by
  unfold wordsOf
  rw [List.splitOnP_append_cons l [] (by simpa using ha), List.filter_append]
  exact List.append_nil _

/-- Cutting off what is in no word leaves the words. -/
theorem wordsOf_trimBoth (hp : ∀ a, p a = true → word a = false) :
    wordsOf word (trimBoth p l) = wordsOf word l := by
  have hdrop : wordsOf word (l.dropWhile p) = wordsOf word l := by
    induction l with
    | nil => rfl
    | cons a l ih =>
        by_cases ha : p a = true
        · rw [List.dropWhile_cons_of_pos ha, ih, wordsOf_cons_of_not (hp a ha)]
        · rw [List.dropWhile_cons_of_neg ha]
  rw [← hdrop]
  unfold trimBoth
  induction l.dropWhile p using List.reverseRecOn with
  | nil => rfl
  | append_singleton l a ih =>
      by_cases ha : p a = true
      · rw [List.rdropWhile_concat_pos p l a ha, ih, wordsOf_concat_of_not (hp a ha)]
      · rw [List.rdropWhile_concat_neg p l a ha]

/-- Separators in place of runs leave the words. Outside a run the first piece stays as well, as
a character before it may belong to it. -/
theorem pieces_collapse (hsep : word sep = false) (l : List α) :
    (∃ w ws ws', (collapse word sep false l).splitOnP (fun a => !word a) = w :: ws ∧
        l.splitOnP (fun a => !word a) = w :: ws' ∧
        (ws.filter fun w => !w.isEmpty) = ws'.filter fun w => !w.isEmpty) ∧
      wordsOf word (collapse word sep true l) = wordsOf word l := by
  induction l with
  | nil => exact ⟨⟨[], [], [], rfl, rfl, rfl⟩, rfl⟩
  | cons a l ih =>
      obtain ⟨⟨w, ws, ws', hcollapsed, hplain, htails⟩, hwords⟩ := ih
      by_cases ha : word a = true
      · have hstep : ∀ inRun,
            collapse word sep inRun (a :: l) = a :: collapse word sep false l := by
          intro inRun
          rw [collapse, if_pos ha]
        have hleft : (a :: collapse word sep false l).splitOnP (fun a => !word a) =
            (a :: w) :: ws := by
          rw [List.splitOnP_cons_eq_if_modifyHead, if_neg (by simpa using ha), hcollapsed]
          rfl
        have hright : (a :: l).splitOnP (fun a => !word a) = (a :: w) :: ws' := by
          rw [List.splitOnP_cons_eq_if_modifyHead, if_neg (by simpa using ha), hplain]
          rfl
        rw [hstep, hstep]
        refine ⟨⟨a :: w, ws, ws', hleft, hright, htails⟩, ?_⟩
        unfold wordsOf
        rw [hleft, hright, List.filter_cons, List.filter_cons, htails]
      · have hnot : word a = false := Bool.not_eq_true _ ▸ ha
        have hfalse : collapse word sep false (a :: l) = sep :: collapse word sep true l := by
          rw [collapse, if_neg ha, if_neg Bool.false_ne_true]
        have htrue : collapse word sep true (a :: l) = collapse word sep true l := by
          rw [collapse, if_neg ha, if_pos rfl]
        rw [hfalse, htrue]
        refine ⟨⟨[], _, _, ?_, ?_, hwords⟩, ?_⟩
        · rw [List.splitOnP_cons_eq_if_modifyHead, if_pos (by simpa using hsep)]
        · rw [List.splitOnP_cons_eq_if_modifyHead, if_pos (by simpa using hnot)]
        · rw [hwords, wordsOf_cons_of_not hnot]

theorem wordsOf_collapse (hsep : word sep = false) (l : List α) :
    wordsOf word (collapse word sep false l) = wordsOf word l := by
  obtain ⟨⟨w, ws, ws', hcollapsed, hplain, htails⟩, -⟩ := pieces_collapse hsep l
  unfold wordsOf
  rw [hcollapsed, hplain, List.filter_cons, List.filter_cons, htails]

end Words

/-! ## Joined texts -/

section Joined

variable [DecidableEq α]

instance : Decidable (Joined word sep l) :=
  inferInstanceAs (Decidable (∀ w ∈ l.splitOn sep, w ≠ [] ∧ ∀ a ∈ w, word a = true))

theorem not_joined_nil : ¬ Joined word sep [] := fun h => (h [] (by simp)).1 rfl

/-- Texts that a separator joins are joined each. -/
theorem joined_append_cons :
    Joined word sep (l ++ sep :: l') ↔ Joined word sep l ∧ Joined word sep l' := by
  unfold Joined
  rw [List.splitOn_append_cons_self]
  exact List.forall_mem_append

theorem joined_word (hsep : word sep = false) (hne : l ≠ []) (h : ∀ a ∈ l, word a = true) :
    Joined word sep l := by
  have hnot : sep ∉ l := fun hmem => word_ne_sep hsep (h sep hmem) rfl
  unfold Joined
  rw [List.splitOn_eq_singleton hnot]
  simpa using ⟨hne, h⟩

theorem joined_cons {a : α} (hsep : word sep = false) (ha : word a = true)
    (h : Joined word sep l) : Joined word sep (a :: l) := by
  have hne := word_ne_sep hsep ha
  unfold Joined at *
  rw [List.splitOn_cons_eq_if_modifyHead, if_neg (by simpa using hne)]
  cases hpieces : l.splitOn sep with
  | nil => exact absurd hpieces (List.splitOn_ne_nil sep l)
  | cons w ws =>
      rw [hpieces] at h
      intro v hv
      rcases List.mem_cons.mp hv with rfl | hv
      · have hw := (h w List.mem_cons_self).2
        exact ⟨List.cons_ne_nil a w, by simpa [ha] using hw⟩
      · exact h v (List.mem_cons_of_mem w hv)

/-- A spaced text that begins and ends with no separator is joined; one that begins with a
separator is joined behind it. -/
theorem Spaced.joined_or (hsep : word sep = false) (h : Spaced word sep l) (hne : l ≠ [])
    (hlast : l.getLast? ≠ some sep) :
    (l.head? ≠ some sep → Joined word sep l) ∧ ∀ rest, l = sep :: rest → Joined word sep rest := by
  induction l with
  | nil => exact absurd rfl hne
  | cons a l ih =>
      have htail : Spaced word sep l := Spaced.right (l := [a]) h
      have hlast' : l ≠ [] → l.getLast? ≠ some sep := by
        intro hne
        rwa [List.getLast?_cons_of_ne_nil hne] at hlast
      constructor
      · intro hhead
        have hword : word a = true := by
          rcases h.chars a List.mem_cons_self with hword | rfl
          · exact hword
          · exact absurd rfl hhead
        by_cases hnil : l = []
        · subst hnil
          exact joined_word hsep (List.cons_ne_nil a []) (by simpa using hword)
        obtain ⟨hjoined, hbehind⟩ := ih htail hnil (hlast' hnil)
        by_cases hstart : l.head? = some sep
        · obtain ⟨rest, rfl⟩ := List.head?_eq_some_iff.mp hstart
          have hone : Joined word sep [a] :=
            joined_word hsep (List.cons_ne_nil a []) (by simpa using hword)
          exact joined_append_cons.mpr ⟨hone, hbehind rest rfl⟩
        · exact joined_cons hsep hword (hjoined hstart)
      · rintro rest heq
        obtain ⟨rfl, rfl⟩ := List.cons.inj heq
        have hnil : l ≠ [] := by
          rintro rfl
          exact hlast rfl
        refine (ih htail hnil (hlast' hnil)).1 fun hstart => ?_
        exact h.apart.rel_head? hstart rfl rfl

theorem Spaced.joined (hsep : word sep = false) (h : Spaced word sep l) (hne : l ≠ [])
    (hhead : l.head? ≠ some sep) (hlast : l.getLast? ≠ some sep) : Joined word sep l :=
  (h.joined_or hsep hne hlast).1 hhead

/-- Where every character is in a word or a separator, the words are the pieces. -/
theorem Spaced.pieces (hsep : word sep = false) (h : Spaced word sep l) :
    l.splitOnP (fun a => !word a) = l.splitOn sep := by
  have hchars := h.chars
  clear h
  induction l with
  | nil => rfl
  | cons a l ih =>
      rw [List.splitOnP_cons_eq_if_modifyHead, List.splitOn_cons_eq_if_modifyHead,
        ih fun b hb => hchars b (List.mem_cons_of_mem a hb)]
      rcases hchars a List.mem_cons_self with hword | rfl
      · rw [if_neg (by simpa using hword), if_neg (by simpa using word_ne_sep hsep hword)]
      · rw [if_pos (by simpa using hsep), if_pos (beq_self_eq_true a)]

/-- A joined text is its words, joined. -/
theorem Joined.intercalate (hsep : word sep = false) (hspaced : Spaced word sep l)
    (h : Joined word sep l) : [sep].intercalate (wordsOf word l) = l := by
  unfold wordsOf
  rw [hspaced.pieces hsep, List.filter_eq_self.mpr fun w hw => by simpa using (h w hw).1]
  exact List.intercalate_splitOn sep

end Joined

end SecureStore.Foundation
