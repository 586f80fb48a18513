/-
# Recursive queries over a forest

Rows that point at a parent row by its key form a forest when a rank increases
from parent to child. A recursive query starts from some rows and adds the
children of the rows it found last until it finds none. On a forest it stops,
and when every inner row weighs as much as its children together, the leaves it
finds weigh as much as the rows it started from.
-/

import Mathlib.Algebra.BigOperators.Group.List.Basic
import Mathlib.Algebra.Group.Basic
import Mathlib.Data.List.Nodup
import Mathlib.Tactic.Abel

namespace SecureStore.Foundation

universe u v w

variable {ρ : Type u} {κ : Type v} [DecidableEq κ] {M : Type w} [AddCommMonoid M]

/-- Rows that refer to their parent by key. -/
structure Lineage (ρ : Type u) (κ : Type v) where
  key : ρ → κ
  parent : ρ → Option κ

namespace Lineage

variable (l : Lineage ρ κ) (rows : List ρ)

/-- The rows whose parent has the given key. -/
def children (k : κ) : List ρ := rows.filter fun r => decide (l.parent r = some k)

/-- The rows one level below a working table. -/
def below (level : List ρ) : List ρ := level.flatMap fun t => l.children rows (l.key t)

/-- The recursive query from a working table, with the number of rounds it may
take; none when it has not stopped by then. -/
def descend : ℕ → List ρ → Option (List ρ)
  | _, [] => some []
  | 0, _ :: _ => none
  | n + 1, t :: level =>
      (descend n (l.below rows (t :: level))).map fun rest => (t :: level) ++ rest

variable {l rows}

theorem mem_children {k : κ} {r : ρ} : r ∈ l.children rows k ↔ r ∈ rows ∧ l.parent r = some k := by
  simp [children]

theorem mem_below {level : List ρ} {r : ρ} :
    r ∈ l.below rows level ↔ r ∈ rows ∧ ∃ t ∈ level, l.parent r = some (l.key t) := by
  simp only [below, List.mem_flatMap, mem_children]
  constructor
  · rintro ⟨t, ht, hr, hparent⟩
    exact ⟨hr, t, ht, hparent⟩
  · rintro ⟨hr, t, ht, hparent⟩
    exact ⟨t, ht, hr, hparent⟩

/-- The children after rows were rewritten in place and others appended. -/
theorem children_map_append {f : ρ → ρ} (hf : ∀ r ∈ rows, l.parent (f r) = l.parent r)
    (added : List ρ) (k : κ) :
    l.children (rows.map f ++ added) k = (l.children rows k).map f ++ l.children added k := by
  unfold children
  rw [List.filter_append, List.filter_map]
  congr 2
  exact List.filter_congr fun r hr => by simp [hf r hr]

/-- The rank of a row exceeds the rank of its parent and stays below a bound. -/
structure Ranked (l : Lineage ρ κ) (rows : List ρ) (rank : κ → ℕ) (bound : ℕ) : Prop where
  increases : ∀ r ∈ rows, ∀ k, l.parent r = some k → rank k < rank (l.key r)
  bounded : ∀ r ∈ rows, rank (l.key r) < bound

/-- The parents of rows are rows, and following them upwards ends: a finite forest. -/
structure IsForest (l : Lineage ρ κ) (rows : List ρ) : Prop where
  closed : ∀ r ∈ rows, ∀ k, l.parent r = some k → ∃ p ∈ rows, l.key p = k
  increases : ∃ rank : κ → ℕ, ∀ r ∈ rows, ∀ k, l.parent r = some k → rank k < rank (l.key r)

omit [DecidableEq κ] in
/-- The rows of a forest can be ranked below their number. -/
theorem IsForest.ranked (h : l.IsForest rows) : ∃ rank, l.Ranked rows rank rows.length := by
  obtain ⟨rank, hrank⟩ := h.increases
  let lower : κ → List ρ := fun k => rows.filter fun r => decide (rank (l.key r) < rank k)
  have shorter : ∀ r ∈ rows, ∀ k, rank (l.key r) < rank k →
      (lower (l.key r)).length < (lower k).length := by
    intro r hr k hlt
    -- everything below r is below k, and r itself is one more
    have hsub : lower (l.key r) =
        (lower k).filter fun x => decide (rank (l.key x) < rank (l.key r)) := by
      rw [List.filter_filter]
      apply List.filter_congr
      intro x _
      rw [eq_comm, Bool.and_eq_left_iff_imp, decide_eq_true_eq, decide_eq_true_eq]
      exact fun hx => hx.trans hlt
    rw [hsub]
    apply List.length_filter_lt_length_iff_exists.mpr
    exact ⟨r, List.mem_filter.mpr ⟨hr, decide_eq_true hlt⟩, by simp⟩
  refine ⟨fun k => (lower k).length, ?_, ?_⟩
  · intro r hr k hparent
    obtain ⟨p, hp, rfl⟩ := h.closed r hr k hparent
    exact shorter p hp _ (hrank r hr _ hparent)
  · intro r hr
    have hself : r ∉ lower (l.key r) := by simp [lower]
    exact List.length_filter_lt_length_iff_exists.mpr ⟨r, hr, by simp⟩

/-- Rewriting the rows of a forest in place and hanging new childless rows under them leaves a
forest. -/
theorem IsForest.extend (h : l.IsForest rows) {f : ρ → ρ} (hkey : ∀ r ∈ rows, l.key (f r) = l.key r)
    (hparent : ∀ r ∈ rows, l.parent (f r) = l.parent r) {added : List ρ}
    (hadded : ∀ r ∈ added, ∃ p ∈ rows, l.parent r = some (l.key p))
    (hfresh : ∀ r ∈ added, ∀ p ∈ rows, l.key r ≠ l.key p) : l.IsForest (rows.map f ++ added) where
  closed := by
    intro r hr k hk
    have hold : ∃ p ∈ rows, l.key p = k := by
      rcases List.mem_append.mp hr with hr | hr
      · obtain ⟨x, hx, rfl⟩ := List.mem_map.mp hr
        rw [hparent x hx] at hk
        exact h.closed x hx k hk
      · obtain ⟨p, hp, hpk⟩ := hadded r hr
        rw [hpk] at hk
        exact ⟨p, hp, Option.some_inj.mp hk⟩
    obtain ⟨p, hp, rfl⟩ := hold
    exact ⟨f p, List.mem_append_left _ (List.mem_map_of_mem hp), hkey p hp⟩
  increases := by
    obtain ⟨rank, hrank⟩ := h.ranked
    -- new rows rank above all old ones
    refine ⟨fun k => if k ∈ rows.map l.key then rank k else rows.length, ?_⟩
    intro r hr k hk
    rcases List.mem_append.mp hr with hr | hr
    · obtain ⟨x, hx, rfl⟩ := List.mem_map.mp hr
      rw [hparent x hx] at hk
      obtain ⟨p, hp, rfl⟩ := h.closed x hx k hk
      rw [hkey x hx]
      simp only [List.mem_map_of_mem hx, List.mem_map_of_mem hp, if_true]
      exact hrank.increases x hx _ hk
    · obtain ⟨p, hp, hpk⟩ := hadded r hr
      obtain rfl : l.key p = k := Option.some_inj.mp (hpk.symm.trans hk)
      have hnew : l.key r ∉ rows.map l.key := by
        intro hmem
        obtain ⟨q, hq, heq⟩ := List.mem_map.mp hmem
        exact hfresh r hr q hq heq.symm
      simp only [List.mem_map_of_mem hp, hnew, if_true, if_false]
      exact hrank.bounded p hp

/-- On a forest the query stops within as many rounds as there are ranks left. -/
theorem descend_terminates {rank : κ → ℕ} {bound : ℕ} (h : l.Ranked rows rank bound) (n : ℕ)
    {level : List ρ} (hlevel : ∀ t ∈ level, t ∈ rows)
    (hrank : ∀ t ∈ level, bound ≤ rank (l.key t) + n) :
    ∃ found, l.descend rows n level = some found := by
  induction n generalizing level with
  | zero =>
      cases level with
      | nil => exact ⟨[], rfl⟩
      | cons t level =>
          have hlow := hrank t List.mem_cons_self
          have hhigh := h.bounded t (hlevel t List.mem_cons_self)
          omega
  | succ n ih =>
      cases level with
      | nil => exact ⟨[], rfl⟩
      | cons t level =>
          have hbelow : ∀ r ∈ l.below rows (t :: level), bound ≤ rank (l.key r) + n := by
            intro r hr
            obtain ⟨hrow, t', ht', hparent⟩ := mem_below.mp hr
            have hlow := hrank t' ht'
            have hstep := h.increases r hrow _ hparent
            omega
          obtain ⟨rest, hrest⟩ := ih (fun r hr => (mem_below.mp hr).1) hbelow
          exact ⟨_, by rw [descend, hrest]; rfl⟩

/-- The query finds rows of the table only. -/
theorem descend_subset {n : ℕ} {level found : List ρ} (hlevel : ∀ t ∈ level, t ∈ rows)
    (h : l.descend rows n level = some found) : ∀ r ∈ found, r ∈ rows := by
  induction n generalizing level found with
  | zero =>
      cases level with
      | nil =>
          cases h
          simp
      | cons t level => cases h
  | succ n ih =>
      cases level with
      | nil =>
          cases h
          simp
      | cons t level =>
          obtain ⟨rest, hrest, rfl⟩ := Option.map_eq_some_iff.mp h
          intro r hr
          rcases List.mem_append.mp hr with hr | hr
          · exact hlevel r hr
          · exact ih (fun x hx => (mem_below.mp hx).1) hrest r hr

/-- What holds of the rows a query starts from and is handed down holds of all it finds. -/
theorem descend_induction {P : ρ → Prop} {n : ℕ} {level found : List ρ}
    (h : l.descend rows n level = some found) (hlevel : ∀ t ∈ level, P t)
    (hchild : ∀ p, P p → ∀ r ∈ rows, l.parent r = some (l.key p) → P r) : ∀ r ∈ found, P r := by
  induction n generalizing level found with
  | zero =>
      cases level with
      | nil =>
          cases h
          simp
      | cons t level => cases h
  | succ n ih =>
      cases level with
      | nil =>
          cases h
          simp
      | cons t level =>
          obtain ⟨rest, hrest, rfl⟩ := Option.map_eq_some_iff.mp h
          intro r hr
          rcases List.mem_append.mp hr with hr | hr
          · exact hlevel r hr
          · apply ih hrest _ r hr
            intro x hx
            obtain ⟨hrow, t', ht', hparent⟩ := mem_below.mp hx
            exact hchild t' (hlevel t' ht') x hrow hparent

section Once

/-- The query finds what it starts from, and below everything it finds. -/
theorem descend_perm {n : ℕ} {level found : List ρ} (h : l.descend rows n level = some found) :
    found.Perm (level ++ l.below rows found) := by
  induction n generalizing level found with
  | zero =>
      cases level with
      | nil =>
          cases h
          exact .refl _
      | cons t level => cases h
  | succ n ih =>
      cases level with
      | nil =>
          cases h
          exact .refl _
      | cons t level =>
          obtain ⟨rest, hrest, rfl⟩ := Option.map_eq_some_iff.mp h
          have hbelow : l.below rows (t :: level ++ rest) =
              l.below rows (t :: level) ++ l.below rows rest := List.flatMap_append
          rw [hbelow]
          exact (List.perm_append_left_iff _).mpr (ih hrest)

/-- A row is found when the query starts from it, or when its parent is found. -/
theorem mem_descend_iff {n : ℕ} {level found : List ρ} (h : l.descend rows n level = some found)
    {x : ρ} : x ∈ found ↔
      x ∈ level ∨ x ∈ rows ∧ ∃ p ∈ found, l.parent x = some (l.key p) := by
  rw [(descend_perm h).mem_iff, List.mem_append, mem_below]

variable (hkeys : (rows.map l.key).Nodup)

include hkeys

omit [DecidableEq κ] in
theorem key_inj {x y : ρ} (hx : x ∈ rows) (hy : y ∈ rows) (h : l.key x = l.key y) : x = y :=
  List.inj_on_of_nodup_map hkeys hx hy h

open Classical in
/-- A child is found below a list as often as its parent is in the list. -/
theorem count_below {level : List ρ} (hlevel : ∀ t ∈ level, t ∈ rows) {x p : ρ} (hx : x ∈ rows)
    (hp : p ∈ rows) (hparent : l.parent x = some (l.key p)) :
    (l.below rows level).count x = level.count p := by
  have honce : rows.count x = 1 := List.count_eq_one_of_mem (List.Nodup.of_map _ hkeys) hx
  induction level with
  | nil => rfl
  | cons t level ih =>
      have hrest := ih fun y hy => hlevel y (List.mem_cons_of_mem _ hy)
      have hcons : l.below rows (t :: level) =
          l.children rows (l.key t) ++ l.below rows level := rfl
      rw [hcons, List.count_append, hrest]
      by_cases hpt : p = t
      · subst hpt
        have hmem : x ∈ l.children rows (l.key p) := mem_children.mpr ⟨hx, hparent⟩
        have hcount : (l.children rows (l.key p)).count x = 1 := by
          rw [children, List.count_filter (by simpa using hparent), honce]
        rw [hcount, List.count_cons_self, add_comm]
      · have hnot : x ∉ l.children rows (l.key t) := by
          intro hmem
          apply hpt
          apply key_inj hkeys hp (hlevel t List.mem_cons_self)
          exact Option.some_inj.mp (hparent.symm.trans (mem_children.mp hmem).2)
        rw [List.count_eq_zero_of_not_mem hnot, List.count_cons_of_ne (Ne.symm hpt), zero_add]

open Classical in
omit [DecidableEq κ] hkeys in
/-- A row without a parent is not found below any list. -/
theorem count_below_root [DecidableEq κ] {level : List ρ} {x : ρ} (hparent : l.parent x = none) :
    (l.below rows level).count x = 0 := by
  apply List.count_eq_zero_of_not_mem
  intro hmem
  obtain ⟨-, t, -, ht⟩ := mem_below.mp hmem
  rw [hparent] at ht
  cases ht

open Classical in
/-- From distinct roots every row is found at most once. -/
theorem IsForest.count_le_one (h : l.IsForest rows) {n : ℕ} {level found : List ρ}
    (hlevel : ∀ t ∈ level, t ∈ rows) (hroots : ∀ t ∈ level, l.parent t = none)
    (hnodup : level.Nodup) (hfound : l.descend rows n level = some found) {x : ρ} (hx : x ∈ rows) :
    found.count x ≤ 1 := by
  obtain ⟨rank, hrank⟩ := h.increases
  -- by induction on the rank, which drops from a row to its parent
  induction hn : rank (l.key x) using Nat.strong_induction_on generalizing x with
  | _ n ih =>
      subst hn
      rw [(descend_perm hfound).count_eq, List.count_append]
      cases hparent : l.parent x with
      | none =>
          rw [count_below_root hparent, add_zero]
          exact List.nodup_iff_count_le_one.mp hnodup x
      | some k =>
          obtain ⟨p, hp, rfl⟩ := h.closed x hx k hparent
          have hnot : x ∉ level := by
            intro hmem
            rw [hroots x hmem] at hparent
            cases hparent
          rw [List.count_eq_zero_of_not_mem hnot, zero_add,
            count_below hkeys (descend_subset hlevel hfound) hx hp hparent]
          exact ih _ (hrank x hx _ hparent) hp rfl

/-- From distinct roots nothing is found twice. -/
theorem IsForest.nodup_found (h : l.IsForest rows) {n : ℕ} {level found : List ρ}
    (hlevel : ∀ t ∈ level, t ∈ rows) (hroots : ∀ t ∈ level, l.parent t = none)
    (hnodup : level.Nodup) (hfound : l.descend rows n level = some found) : found.Nodup := by
  classical
  apply List.nodup_iff_count_le_one.mpr
  intro x
  by_cases hx : x ∈ found
  · exact h.count_le_one hkeys hlevel hroots hnodup hfound (descend_subset hlevel hfound x hx)
  · rw [List.count_eq_zero_of_not_mem hx]
    exact Nat.zero_le 1

omit hkeys in
/-- From all roots everything is found. -/
theorem IsForest.found_all (h : l.IsForest rows) {n : ℕ} {found : List ρ}
    (hfound : l.descend rows n (rows.filter fun r => (l.parent r).isNone) = some found) {x : ρ}
    (hx : x ∈ rows) : x ∈ found := by
  obtain ⟨rank, hrank⟩ := h.increases
  induction hn : rank (l.key x) using Nat.strong_induction_on generalizing x with
  | _ n ih =>
      subst hn
      rw [mem_descend_iff hfound]
      cases hparent : l.parent x with
      | none => exact .inl (List.mem_filter.mpr ⟨hx, by simp [hparent]⟩)
      | some k =>
          obtain ⟨p, hp, rfl⟩ := h.closed x hx k hparent
          exact .inr ⟨hx, p, ih _ (hrank x hx _ hparent) hp rfl, rfl⟩

/-- The query from all roots finds the table. -/
theorem IsForest.found_perm (h : l.IsForest rows) {n : ℕ} {found : List ρ}
    (hfound : l.descend rows n (rows.filter fun r => (l.parent r).isNone) = some found) :
    found.Perm rows := by
  have hlevel : ∀ t ∈ rows.filter fun r => (l.parent r).isNone, t ∈ rows := by
    intro t ht
    exact (List.mem_filter.mp ht).1
  have hroots : ∀ t ∈ rows.filter fun r => (l.parent r).isNone, l.parent t = none := by
    intro t ht
    simpa using (List.mem_filter.mp ht).2
  have hnodup : rows.Nodup := List.Nodup.of_map _ hkeys
  apply (List.perm_ext_iff_of_nodup
    (h.nodup_found hkeys hlevel hroots (hnodup.filter _) hfound) hnodup).mpr
  intro x
  exact ⟨descend_subset hlevel hfound x, h.found_all hfound⟩

omit hkeys in
/-- Every row of a forest is in the tree of a root. -/
theorem IsForest.in_tree (h : l.IsForest rows) {x : ρ} (hx : x ∈ rows) :
    ∃ t ∈ rows, l.parent t = none ∧ ∃ found, l.descend rows rows.length [t] = some found ∧
      x ∈ found := by
  obtain ⟨rank, hrank⟩ := h.increases
  obtain ⟨rank', hranked⟩ := h.ranked
  have hfound : ∀ t ∈ rows, ∃ found, l.descend rows rows.length [t] = some found := by
    intro t ht
    apply descend_terminates hranked
    · intro y hy
      exact List.mem_singleton.mp hy ▸ ht
    · intro y _
      exact Nat.le_add_left _ _
  induction hn : rank (l.key x) using Nat.strong_induction_on generalizing x with
  | _ n ih =>
      subst hn
      cases hparent : l.parent x with
      | none =>
          obtain ⟨found, hdescend⟩ := hfound x hx
          refine ⟨x, hx, hparent, found, hdescend, ?_⟩
          exact (mem_descend_iff hdescend).mpr (.inl List.mem_cons_self)
      | some k =>
          obtain ⟨p, hp, rfl⟩ := h.closed x hx k hparent
          obtain ⟨t, ht, hroot, found, hdescend, hmem⟩ := ih _ (hrank x hx _ hparent) hp rfl
          refine ⟨t, ht, hroot, found, hdescend, ?_⟩
          exact (mem_descend_iff hdescend).mpr (.inr ⟨hx, p, hmem, hparent⟩)

/-- Trees of different roots share no row. -/
theorem IsForest.root_unique (h : l.IsForest rows) {n : ℕ} {t t' : ρ} {found found' : List ρ}
    (ht : t ∈ rows) (ht' : t' ∈ rows) (hroot : l.parent t = none) (hroot' : l.parent t' = none)
    (hfound : l.descend rows n [t] = some found) (hfound' : l.descend rows n [t'] = some found')
    {x : ρ} (hx : x ∈ found) (hx' : x ∈ found') : t = t' := by
  obtain ⟨rank, hrank⟩ := h.increases
  have hmem : ∀ y ∈ found, y ∈ rows := by
    apply descend_subset _ hfound
    intro y hy
    exact List.mem_singleton.mp hy ▸ ht
  have hmem' : ∀ y ∈ found', y ∈ rows := by
    apply descend_subset _ hfound'
    intro y hy
    exact List.mem_singleton.mp hy ▸ ht'
  induction hn : rank (l.key x) using Nat.strong_induction_on generalizing x with
  | _ n ih =>
      subst hn
      rcases (mem_descend_iff hfound).mp hx with hself | ⟨hrow, p, hp, hparent⟩
      · obtain rfl := List.mem_singleton.mp hself
        rcases (mem_descend_iff hfound').mp hx' with hself' | ⟨-, p', -, hparent'⟩
        · exact List.mem_singleton.mp hself'
        · rw [hroot] at hparent'
          cases hparent'
      · rcases (mem_descend_iff hfound').mp hx' with hself' | ⟨-, p', hp', hparent'⟩
        · obtain rfl := List.mem_singleton.mp hself'
          rw [hroot'] at hparent
          cases hparent
        · have hsame : p = p' := by
            apply key_inj hkeys (hmem p hp) (hmem' p' hp')
            exact Option.some_inj.mp (hparent.symm.trans hparent')
          subst hsame
          exact ih _ (hrank x hrow _ hparent) hp hp' rfl

end Once

section Mass

variable (l rows)

/-- Every inner row weighs as much as its children, and leaves have none. -/
structure Balanced (inner : ρ → Bool) (weight : ρ → M) : Prop where
  inner_sum : ∀ r ∈ rows, inner r = true →
    weight r = ((l.children rows (l.key r)).map weight).sum
  leaf_childless : ∀ r ∈ rows, inner r = false → l.children rows (l.key r) = []

variable {l rows} {inner : ρ → Bool} {weight : ρ → M}

theorem sum_below (level : List ρ) :
    ((l.below rows level).map weight).sum =
      (level.map fun t => ((l.children rows (l.key t)).map weight).sum).sum := by
  induction level with
  | nil => rfl
  | cons t level ih =>
      have hcons : l.below rows (t :: level) =
          l.children rows (l.key t) ++ l.below rows level := rfl
      rw [hcons, List.map_append, List.sum_append, ih, List.map_cons, List.sum_cons]

/-- A working table weighs as much as its own leaves and the level below. -/
theorem Balanced.sum_level (h : l.Balanced rows inner weight) {level : List ρ}
    (hlevel : ∀ t ∈ level, t ∈ rows) :
    (level.map weight).sum =
      ((level.filter fun r => !inner r).map weight).sum +
        ((l.below rows level).map weight).sum := by
  rw [sum_below]
  induction level with
  | nil => simp
  | cons t level ih =>
      have ht := hlevel t List.mem_cons_self
      have hrest := ih fun x hx => hlevel x (List.mem_cons_of_mem _ hx)
      simp only [List.map_cons, List.sum_cons, List.filter_cons]
      rw [hrest]
      cases hinner : inner t with
      | true =>
          rw [← h.inner_sum t ht hinner]
          simp only [Bool.not_true, Bool.false_eq_true, if_false]
          abel
      | false =>
          rw [h.leaf_childless t ht hinner]
          simp only [Bool.not_false, if_true, List.map_cons, List.sum_cons, List.map_nil,
            List.sum_nil]
          abel

/-- The leaves that the query finds weigh as much as the rows it starts from. -/
theorem Balanced.sum_leaves (h : l.Balanced rows inner weight) {n : ℕ} {level found : List ρ}
    (hlevel : ∀ t ∈ level, t ∈ rows) (hfound : l.descend rows n level = some found) :
    ((found.filter fun r => !inner r).map weight).sum = (level.map weight).sum := by
  induction n generalizing level found with
  | zero =>
      cases level with
      | nil =>
          cases hfound
          rfl
      | cons t level => cases hfound
  | succ n ih =>
      cases level with
      | nil =>
          cases hfound
          rfl
      | cons t level =>
          obtain ⟨rest, hrest, rfl⟩ := Option.map_eq_some_iff.mp hfound
          rw [List.filter_append, List.map_append, List.sum_append, h.sum_level hlevel,
            ih (fun x hx => (mem_below.mp hx).1) hrest]

end Mass

section Surplus

variable {G : Type w} [AddCommGroup G] (l rows)

/-- What a row weighs beyond its children. -/
def surplus (weight : ρ → G) (r : ρ) : G :=
  weight r - ((l.children rows (l.key r)).map weight).sum

variable {l rows} {weight : ρ → G}

theorem surplus_of_childless {r : ρ} (h : l.children rows (l.key r) = []) :
    l.surplus rows weight r = weight r := by
  simp [surplus, h]

/-- The rows a query starts from weigh as much as the surpluses of all rows it finds. -/
theorem sum_surplus {n : ℕ} {level found : List ρ} (hfound : l.descend rows n level = some found) :
    (level.map weight).sum = (found.map (l.surplus rows weight)).sum := by
  induction n generalizing level found with
  | zero =>
      cases level with
      | nil =>
          cases hfound
          rfl
      | cons t level => cases hfound
  | succ n ih =>
      cases level with
      | nil =>
          cases hfound
          rfl
      | cons t level =>
          obtain ⟨rest, hrest, rfl⟩ := Option.map_eq_some_iff.mp hfound
          rw [List.map_append, List.sum_append, ← ih hrest, sum_below]
          generalize t :: level = rows'
          induction rows' with
          | nil => simp
          | cons r rows' ih' =>
              simp only [List.map_cons, List.sum_cons]
              rw [ih']
              unfold surplus
              abel

/-- Where the inner rows that a query finds have no surplus, the childless rows it finds
weigh as much as the rows it starts from. -/
theorem sum_childless {n : ℕ} {level found : List ρ} (hfound : l.descend rows n level = some found)
    (h : ∀ r ∈ found, l.children rows (l.key r) ≠ [] → l.surplus rows weight r = 0) :
    (level.map weight).sum =
      ((found.filter fun r => decide (l.children rows (l.key r) = [])).map weight).sum := by
  rw [sum_surplus hfound]
  clear hfound
  induction found with
  | nil => rfl
  | cons r found ih =>
      have hrest := ih fun x hx => h x (List.mem_cons_of_mem _ hx)
      rw [List.map_cons, List.sum_cons, hrest]
      by_cases hr : l.children rows (l.key r) = []
      · rw [surplus_of_childless hr, List.filter_cons_of_pos (by simpa using hr)]
        simp
      · rw [h r List.mem_cons_self hr, List.filter_cons_of_neg (by simpa using hr), zero_add]

end Surplus

end Lineage

end SecureStore.Foundation
