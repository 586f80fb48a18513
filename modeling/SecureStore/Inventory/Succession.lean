/-
# The succession of suffixes

The suffixes of children are the numerals of a bijective system with the letters A to Z as
digits: shorter ones come first, and those of one length come in the order of the alphabet. The
suffix that follows those in use is the least of all that come after them, so that suffixes that
are taken one after the other leave none out.
-/

import SecureStore.Inventory.ReceiptNumber

namespace SecureStore.Inventory

/-- The strict order of suffixes. -/
def suffixLT (a b : List Char) : Prop := ¬ suffixLE b a

instance : DecidableRel suffixLT := fun _ _ => instDecidableNot

theorem suffixLT.ne {a b : List Char} (h : suffixLT a b) : a ≠ b := by
  rintro rfl
  exact h (by simp [suffixLE, localeLE_refl])

/-- A suffix follows another: it is later, and every later one is not before it. -/
def Follows (s s' : List Char) : Prop :=
  suffixLT s s' ∧ ∀ t, IsSuffix t → suffixLT s t → suffixLE s' t

/-- The suffixes in use when the next one has been taken a number of times. -/
def takenAfter (existing : List (List Char)) : ℕ → List (List Char)
  | 0 => existing
  | n + 1 => takenAfter existing n ++ [nextSuffix (takenAfter existing n)]

/-! ## Letters -/

theorem A_le {c : Char} (h : isLetter c = true) : 'A' ≤ c := (of_decide_eq_true h).1

theorem le_Z {c : Char} (h : isLetter c = true) : c ≤ 'Z' := (of_decide_eq_true h).2

/-- No letter is between a letter and the next one. -/
theorem nextChar_le {c d : Char} (hc : isLetter c = true) (hlt : c < d) : nextChar c ≤ d := by
  have hnext := toNat_nextChar hc
  rw [Char.lt_def, UInt32.lt_iff_toNat_lt] at hlt
  rw [Char.le_def, UInt32.le_iff_toNat_le]
  change (nextChar c).toNat ≤ d.toNat
  change c.toNat < d.toNat at hlt
  omega

/-- The loop gives up on what is all Z. -/
theorem increment_eq_none {s : List Char} (h : increment s = none) : ∀ c ∈ s, c = 'Z' := by
  induction s with
  | nil => simp
  | cons c rest ih =>
      unfold increment at h
      split at h
      · cases h
      · next hrest =>
          split at h
          · cases h
          · next hZ =>
              have hc : c = 'Z' := not_not.mp hZ
              intro d hd
              rcases List.mem_cons.mp hd with rfl | hd
              · exact hc
              · exact ih hrest d hd

/-- Nothing of its length comes after what is all Z. -/
theorem localeLE_of_forall_Z {s t : List Char} (hs : ∀ c ∈ s, c = 'Z')
    (ht : ∀ c ∈ t, isLetter c = true) (hlen : t.length = s.length) : localeLE t s = true := by
  induction t generalizing s with
  | nil => rfl
  | cons d t ih =>
      cases s with
      | nil => simp at hlen
      | cons c s =>
          have hle : d ≤ c := (hs c List.mem_cons_self) ▸ le_Z (ht d List.mem_cons_self)
          have hrest : localeLE t s = true :=
            ih (fun c hc => hs c (List.mem_cons_of_mem _ hc))
              (fun d hd => ht d (List.mem_cons_of_mem _ hd)) (Nat.succ.inj hlen)
          unfold localeLE
          split
          · exact hrest
          · next hne => exact decide_eq_true (lt_of_le_of_ne hle hne)

/-- Nothing of its length comes before what is all A. -/
theorem localeLE_of_forall_A {s t : List Char} (hs : ∀ c ∈ s, c = 'A')
    (ht : ∀ c ∈ t, isLetter c = true) (hlen : t.length = s.length) : localeLE s t = true := by
  induction s generalizing t with
  | nil => rfl
  | cons c s ih =>
      cases t with
      | nil => simp at hlen
      | cons d t =>
          have hle : c ≤ d := (hs c List.mem_cons_self) ▸ A_le (ht d List.mem_cons_self)
          have hrest : localeLE s t = true :=
            ih (fun c hc => hs c (List.mem_cons_of_mem _ hc))
              (fun d hd => ht d (List.mem_cons_of_mem _ hd)) (Nat.succ.inj hlen)
          unfold localeLE
          split
          · exact hrest
          · next hne => exact decide_eq_true (lt_of_le_of_ne hle hne)

theorem forall_map_A (s : List Char) : ∀ c ∈ s.map fun _ => 'A', c = 'A' := by
  intro c hc
  obtain ⟨_, -, rfl⟩ := List.mem_map.mp hc
  rfl

/-! ## The successor -/

/-- Of the suffixes of one length, none is between a suffix and the raised one. -/
theorem increment_least {s s' t : List Char} (h : increment s = some s')
    (hs : ∀ c ∈ s, isLetter c = true) (ht : ∀ c ∈ t, isLetter c = true)
    (hlen : t.length = s.length) (hlater : localeLE t s = false) : localeLE s' t = true := by
  induction s generalizing s' t with
  | nil => simp [increment] at h
  | cons c rest ih =>
      cases t with
      | nil => simp at hlen
      | cons d t =>
          have hc := hs c List.mem_cons_self
          have hrest : ∀ e ∈ rest, isLetter e = true := fun e he => hs e (List.mem_cons_of_mem _ he)
          have htail : ∀ e ∈ t, isLetter e = true := fun e he => ht e (List.mem_cons_of_mem _ he)
          have hsame : t.length = rest.length := Nat.succ.inj hlen
          -- the first letters differ, or the rest does
          have hfirst : c < d ∨ d = c ∧ localeLE t rest = false := by
            unfold localeLE at hlater
            split at hlater
            · next heq => exact .inr ⟨heq, hlater⟩
            · next hne =>
                exact .inl (lt_of_le_of_ne (not_lt.mp (of_decide_eq_false hlater)) (Ne.symm hne))
          unfold increment at h
          split at h
          · next rest' hinc =>
              obtain rfl := Option.some_inj.mp h
              unfold localeLE
              rcases hfirst with hlt | ⟨rfl, hlaterRest⟩
              · rw [if_neg hlt.ne]
                exact decide_eq_true hlt
              · rw [if_pos rfl]
                exact ih hinc hrest htail hsame hlaterRest
          · next hnone =>
              split at h
              · next hZ =>
                  obtain rfl := Option.some_inj.mp h
                  have hlt : c < d := by
                    rcases hfirst with hlt | ⟨-, hlater⟩
                    · exact hlt
                    · rw [localeLE_of_forall_Z (increment_eq_none hnone) htail hsame] at hlater
                      cases hlater
                  have hle := nextChar_le hc hlt
                  unfold localeLE
                  split
                  · refine localeLE_of_forall_A (forall_map_A rest) htail ?_
                    rw [List.length_map]
                    exact hsame
                  · next hne => exact decide_eq_true (lt_of_le_of_ne hle hne)
              · cases h

/-- What comes after a suffix follows it. -/
theorem follows_after {last : List Char} (h : IsSuffix last) :
    Follows last ((increment last).getD ('A' :: last.map fun _ => 'A')) := by
  refine ⟨(suffix_after h).2, fun t ht hlater => ?_⟩
  unfold suffixLT suffixLE at hlater
  cases hinc : increment last with
  | some chars =>
      obtain ⟨hlen, -, -⟩ := increment_spec h.2 hinc
      rw [Option.getD_some]
      unfold suffixLE
      by_cases hsame : t.length = last.length
      · rw [if_pos hsame, Bool.not_eq_true] at hlater
        rw [if_pos (hlen.trans hsame.symm)]
        exact increment_least hinc h.2 ht.2 hsame hlater
      · rw [if_neg hsame] at hlater
        rw [if_neg (by omega)]
        omega
  | none =>
      rw [Option.getD_none]
      unfold suffixLE
      have hlonger : last.length < t.length := by
        by_cases hsame : t.length = last.length
        · rw [if_pos hsame] at hlater
          exact absurd (localeLE_of_forall_Z (increment_eq_none hinc) ht.2 hsame) hlater
        · rw [if_neg hsame] at hlater
          omega
      rw [List.length_cons, List.length_map]
      split
      · next hlen =>
          refine localeLE_of_forall_A ?_ ht.2 ?_
          · exact forall_map_A ('A' :: last)
          · rw [List.length_cons, List.length_map]
            exact hlen.symm
      · omega

/-- The last suffix in use is the largest, and the next one follows it. -/
theorem nextSuffix_follows {existing : List (List Char)} (h : ∀ s ∈ existing, IsSuffix s)
    (hne : existing ≠ []) :
    ∃ largest ∈ existing, (∀ s ∈ existing, suffixLE s largest) ∧
      Follows largest (nextSuffix existing) := by
  cases hlast : (existing.insertionSort suffixLE).getLast? with
  | none => exact absurd (getLast?_sorted_eq_none.mp hlast) hne
  | some last =>
      have hmem : last ∈ existing :=
        (List.mem_insertionSort _).mp (List.mem_of_getLast? hlast)
      rw [nextSuffix_of_last hlast]
      exact ⟨last, hmem, fun s hs => suffixLE_last hlast hs, follows_after (h last hmem)⟩

/-! ## Succession -/

section Succession

variable {existing : List (List Char)}

/-- Whatever is taken is a suffix. -/
theorem takenAfter_suffixes (h : ∀ s ∈ existing, IsSuffix s) (n : ℕ) :
    ∀ s ∈ takenAfter existing n, IsSuffix s := by
  induction n with
  | zero => exact h
  | succ n ih =>
      intro s hs
      rcases List.mem_append.mp hs with hs | hs
      · exact ih s hs
      · rw [List.mem_singleton.mp hs]
        exact (nextSuffix_spec ih).1

/-- A suffix that is taken stays in use. -/
theorem mem_takenAfter {i j : ℕ} (h : i < j) :
    nextSuffix (takenAfter existing i) ∈ takenAfter existing j := by
  induction j, h using Nat.le_induction with
  | base => exact List.mem_append_right _ List.mem_cons_self
  | succ j _ ih => exact List.mem_append_left _ ih

/-- What is in use comes before the next suffix. -/
theorem lt_nextSuffix (h : ∀ s ∈ existing, IsSuffix s) {s : List Char} (hs : s ∈ existing) :
    suffixLT s (nextSuffix existing) := by
  obtain ⟨largest, -, hlargest, hlater, -⟩ := nextSuffix_follows h (List.ne_nil_of_mem hs)
  exact fun hle => hlater (IsTrans.trans _ _ _ hle (hlargest s hs))

end Succession

/-- The next suffix is made of letters and not in use; it is A when none is in use, and follows
the largest one otherwise; suffixes that are taken one after the other get later and later. -/
theorem nextSuffix_succession {existing : List (List Char)} (h : ∀ s ∈ existing, IsSuffix s) :
    IsSuffix (nextSuffix existing) ∧ nextSuffix existing ∉ existing ∧
      (existing = [] → nextSuffix existing = ['A']) ∧
      (existing ≠ [] → ∃ largest ∈ existing, (∀ s ∈ existing, suffixLE s largest) ∧
        Follows largest (nextSuffix existing)) ∧
      ∀ i j, i < j →
        suffixLT (nextSuffix (takenAfter existing i)) (nextSuffix (takenAfter existing j)) ∧
          nextSuffix (takenAfter existing i) ≠ nextSuffix (takenAfter existing j) := by
  obtain ⟨hsuffix, hfresh⟩ := nextSuffix_spec h
  refine ⟨hsuffix, hfresh, ?_, nextSuffix_follows h, fun i j hij => ?_⟩
  · rintro rfl
    rfl
  · have hlater : suffixLT (nextSuffix (takenAfter existing i))
        (nextSuffix (takenAfter existing j)) :=
      lt_nextSuffix (takenAfter_suffixes h j) (mem_takenAfter hij)
    exact ⟨hlater, hlater.ne⟩

/-- After Z and AA comes AB, and after that comes AC. -/
theorem nextSuffix_succession_sample :
    let existing := [['Z'], ['A', 'A'], ['Z']]
    nextSuffix existing = ['A', 'B'] ∧ nextSuffix existing ∉ existing ∧
      nextSuffix (takenAfter existing 1) = ['A', 'C'] ∧
      suffixLT (nextSuffix (takenAfter existing 0)) (nextSuffix (takenAfter existing 1)) := by
  intro existing
  have hsuffixes : ∀ s ∈ existing, IsSuffix s := by decide
  obtain ⟨-, hfresh, -, -, hlater⟩ := nextSuffix_succession hsuffixes
  exact ⟨by decide, hfresh, by decide, (hlater 0 1 (by decide)).1⟩

end SecureStore.Inventory
