/-
# Grouping

A list is grouped by a key and something is added up for each group. A query does so at once;
a loop keeps a map with a bucket for each key that came up, in the order in which the keys
came up first, and adds each entry to the bucket of its key. Either way the groups of a list
add up to what the list adds up to.
-/

import Mathlib.Algebra.BigOperators.Group.Finset.Basic
import Mathlib.Algebra.BigOperators.Group.Finset.Piecewise
import Mathlib.Data.List.Dedup
import Mathlib.Data.List.Find

namespace SecureStore.Foundation

variable {α β κ M N : Type*} [DecidableEq κ]

/-! ## Sums by key -/

section Sums

variable [AddCommMonoid M] [AddCommMonoid N] {key : α → κ} {w : α → M} {l : List α}

/-- The sum of a weight over the entries with a key. -/
def sumOn (key : α → κ) (w : α → M) (l : List α) (k : κ) : M :=
  ((l.filter fun a => key a = k).map w).sum

/-- Each key of a list with the sum of a weight over its entries. -/
def groupSums (key : α → κ) (w : α → M) (l : List α) : List (κ × M) :=
  (l.map key).dedup.map fun k => (k, sumOn key w l k)

theorem sumOn_cons (a : α) (k : κ) :
    sumOn key w (a :: l) k = (if key a = k then w a else 0) + sumOn key w l k := by
  unfold sumOn
  by_cases h : key a = k <;> simp [h]

theorem sumOn_append (l' : List α) (k : κ) :
    sumOn key w (l ++ l') k = sumOn key w l k + sumOn key w l' k := by
  simp [sumOn]

/-- A key that no entry has sums to nothing. -/
theorem sumOn_eq_zero {k : κ} (h : k ∉ l.map key) : sumOn key w l k = 0 := by
  have hnone : (l.filter fun a => key a = k) = [] := by
    apply List.filter_eq_nil_iff.mpr
    intro a ha
    simpa using fun heq => h (List.mem_map.mpr ⟨a, ha, heq⟩)
  rw [sumOn, hnone]
  rfl

/-- The sums over any keys, none twice, that include all of a list's add up to its sum. -/
theorem sum_sumOn {keys : List κ} (hnodup : keys.Nodup) (hkeys : ∀ a ∈ l, key a ∈ keys) :
    (keys.map (sumOn key w l)).sum = (l.map w).sum := by
  induction l with
  | nil =>
      have hzero : ∀ k ∈ keys, sumOn key w [] k = 0 := fun _ _ => rfl
      rw [List.map_congr_left hzero]
      simp
  | cons a l ih =>
      have hone : (keys.map fun k => if key a = k then w a else 0).sum = w a := by
        rw [← List.sum_toFinset _ hnodup, Finset.sum_ite_eq, if_pos]
        exact List.mem_toFinset.mpr (hkeys a List.mem_cons_self)
      have hsplit : keys.map (sumOn key w (a :: l)) =
          keys.map fun k => (if key a = k then w a else 0) + sumOn key w l k :=
        List.map_congr_left fun k _ => sumOn_cons a k
      rw [hsplit, List.sum_map_add, hone, ih fun b hb => hkeys b (List.mem_cons_of_mem a hb),
        List.map_cons, List.sum_cons]

/-- Adding up after grouping, each sum carried over by its key, is adding up at once. -/
theorem sum_groupSums (f : κ → M →+ N) :
    ((groupSums key w l).map fun g => f g.1 g.2).sum = (l.map fun a => f (key a) (w a)).sum := by
  have hcarry : ∀ k, f k (sumOn key w l k) = sumOn key (fun a => f (key a) (w a)) l k := by
    intro k
    have hgroup : ∀ a ∈ l.filter (fun a => key a = k), f k (w a) = f (key a) (w a) := by
      intro a ha
      rw [of_decide_eq_true (List.mem_filter.mp ha).2]
    unfold sumOn
    rw [map_list_sum, List.map_map]
    exact congrArg _ (List.map_congr_left hgroup)
  unfold groupSums
  rw [List.map_map]
  refine Eq.trans (congrArg _ (List.map_congr_left fun k _ => hcarry k)) ?_
  refine sum_sumOn (List.nodup_dedup _) fun a ha => ?_
  exact List.mem_dedup.mpr (List.mem_map_of_mem ha)

/-- Looking a key up among the sums of the groups finds its sum. -/
theorem find_groupSums (k : κ) :
    (((groupSums key w l).find? fun g => g.1 = k).map Prod.snd).getD 0 = sumOn key w l k := by
  unfold groupSums
  cases hfound : ((l.map key).dedup.map fun k => (k, sumOn key w l k)).find? fun g => g.1 = k with
  | none =>
      symm
      apply sumOn_eq_zero
      intro hmem
      have hlisted : (k, sumOn key w l k) ∈ (l.map key).dedup.map fun k => (k, sumOn key w l k) :=
        List.mem_map_of_mem (List.mem_dedup.mpr hmem)
      exact List.find?_eq_none.mp hfound _ hlisted (decide_eq_true rfl)
  | some g =>
      have hkey : g.1 = k := by simpa using List.find?_some hfound
      obtain ⟨k', -, rfl⟩ := List.mem_map.mp (List.mem_of_find?_eq_some hfound)
      subst hkey
      rfl

end Sums

/-- Groups are joined with what their keys stand for; a group whose key stands for nothing is
left out. A key that stands for something finds the same among the groups before and after. -/
theorem find_joined {γ ε : Type*} (lookup : κ → Option γ) (key : ε → κ) (entry : γ → β → ε)
    (hkey : ∀ k c b, lookup k = some c → key (entry c b) = k) (groups : List (κ × β)) {k : κ}
    {c : γ} (hfound : lookup k = some c) :
    ((groups.filterMap fun g => (lookup g.1).map fun c => entry c g.2).find? fun e => key e = k) =
      (groups.find? fun g => g.1 = k).map fun g => entry c g.2 := by
  induction groups with
  | nil => rfl
  | cons g groups ih =>
      rw [List.find?_cons, List.filterMap_cons]
      cases hlookup : lookup g.1 with
      | none =>
          have hne : g.1 ≠ k := by
            intro heq
            rw [heq, hfound] at hlookup
            cases hlookup
          simp only [Option.map_none, hne, decide_false]
          exact ih
      | some c' =>
          simp only [Option.map_some, List.find?_cons, hkey _ _ _ hlookup]
          by_cases heq : g.1 = k
          · rw [heq, hfound] at hlookup
            cases hlookup
            simp [heq]
          · simp only [heq, decide_false]
            exact ih

/-! ## Buckets -/

/-- Set what is kept under a key, given what was kept there; a key that is there keeps its
place. -/
def upsert (k : κ) (f : Option β → β) : List (κ × β) → List (κ × β)
  | [] => [(k, f none)]
  | (k', b) :: rest => if k' = k then (k', f (some b)) :: rest else (k', b) :: upsert k f rest

/-- One bucket for each key: `init` is a bucket before its first entry. -/
def buckets (key : α → κ) (init : α → β) (add : α → β → β) (l : List α) : List (κ × β) :=
  l.foldl (fun m a => upsert (key a) (fun b => add a (b.getD (init a))) m) []

section Buckets

variable {key : α → κ} {init : α → β} {add : α → β → β} {l : List α}

theorem buckets_append_singleton (a : α) :
    buckets key init add (l ++ [a]) =
      upsert (key a) (fun b => add a (b.getD (init a))) (buckets key init add l) := by
  simp [buckets]

theorem mem_keys_upsert {k k' : κ} {f : Option β → β} {m : List (κ × β)} :
    k' ∈ (upsert k f m).map Prod.fst ↔ k' = k ∨ k' ∈ m.map Prod.fst := by
  induction m with
  | nil => simp [upsert]
  | cons p m ih =>
      unfold upsert
      split
      · next hk =>
          simp only [List.map_cons, List.mem_cons, hk, or_self_left]
      · rw [List.map_cons, List.mem_cons, ih, List.map_cons, List.mem_cons, or_left_comm]

theorem nodup_keys_upsert {k : κ} {f : Option β → β} {m : List (κ × β)}
    (h : (m.map Prod.fst).Nodup) : ((upsert k f m).map Prod.fst).Nodup := by
  induction m with
  | nil => simp [upsert]
  | cons p m ih =>
      rw [List.map_cons, List.nodup_cons] at h
      unfold upsert
      split
      · rw [List.map_cons, List.nodup_cons]
        exact h
      · next hk =>
          rw [List.map_cons, List.nodup_cons, mem_keys_upsert]
          exact ⟨fun hmem => hmem.elim hk h.1, ih h.2⟩

/-- There is a bucket for each key that came up. -/
theorem mem_keys_buckets {k : κ} :
    k ∈ (buckets key init add l).map Prod.fst ↔ ∃ a ∈ l, key a = k := by
  induction l using List.reverseRecOn with
  | nil => simp [buckets]
  | append_singleton l a ih =>
      rw [buckets_append_singleton, mem_keys_upsert, ih]
      constructor
      · rintro (rfl | ⟨b, hb, hkey⟩)
        · exact ⟨a, by simp, rfl⟩
        · exact ⟨b, List.mem_append_left _ hb, hkey⟩
      · rintro ⟨b, hb, hkey⟩
        rcases List.mem_append.mp hb with hb | hb
        · exact .inr ⟨b, hb, hkey⟩
        · obtain rfl := List.mem_singleton.mp hb
          exact .inl hkey.symm

theorem nodup_keys_buckets : ((buckets key init add l).map Prod.fst).Nodup := by
  induction l using List.reverseRecOn with
  | nil => simp [buckets]
  | append_singleton l a ih =>
      rw [buckets_append_singleton]
      exact nodup_keys_upsert ih

/-- What is set under a key is found there, and nowhere else. -/
theorem mem_upsert {k : κ} {f : Option β → β} {m : List (κ × β)} (h : (m.map Prod.fst).Nodup)
    {p : κ × β} (hp : p ∈ upsert k f m) :
    (p.1 = k ∧ ((k ∉ m.map Prod.fst ∧ p.2 = f none) ∨ ∃ b, (k, b) ∈ m ∧ p.2 = f (some b))) ∨
      (p.1 ≠ k ∧ p ∈ m) := by
  induction m with
  | nil =>
      obtain rfl := List.mem_singleton.mp hp
      exact .inl ⟨rfl, .inl ⟨by simp, rfl⟩⟩
  | cons q m ih =>
      rw [List.map_cons, List.nodup_cons] at h
      unfold upsert at hp
      split at hp
      · next hq =>
          rcases List.mem_cons.mp hp with rfl | hp
          · exact .inl ⟨hq, .inr ⟨q.2, by rw [← hq]; exact List.mem_cons_self, rfl⟩⟩
          · refine .inr ⟨?_, List.mem_cons_of_mem q hp⟩
            rintro rfl
            exact h.1 (hq ▸ List.mem_map_of_mem hp)
      · next hq =>
          rcases List.mem_cons.mp hp with rfl | hp
          · exact .inr ⟨hq, List.mem_cons_self⟩
          · rcases ih h.2 hp with ⟨hk, ⟨hnot, hvalue⟩ | ⟨b, hb, hvalue⟩⟩ | ⟨hk, hmem⟩
            · refine .inl ⟨hk, .inl ⟨?_, hvalue⟩⟩
              rw [List.map_cons, List.mem_cons]
              exact fun hmem => hmem.elim (fun heq => hq heq.symm) hnot
            · exact .inl ⟨hk, .inr ⟨b, List.mem_cons_of_mem q hb, hvalue⟩⟩
            · exact .inr ⟨hk, List.mem_cons_of_mem q hmem⟩

/-- What the entries of a list establish and keep for their keys holds of every bucket. -/
theorem forall_mem_buckets {P : κ → β → Prop} (hinit : ∀ a ∈ l, P (key a) (add a (init a)))
    (hadd : ∀ a ∈ l, ∀ b, P (key a) b → P (key a) (add a b)) {p : κ × β}
    (hp : p ∈ buckets key init add l) : P p.1 p.2 := by
  induction l using List.reverseRecOn generalizing p with
  | nil => simp [buckets] at hp
  | append_singleton l a ih =>
      rw [buckets_append_singleton] at hp
      have hmem : a ∈ l ++ [a] := List.mem_append_right _ List.mem_cons_self
      have hbefore : ∀ {q : κ × β}, q ∈ buckets key init add l → P q.1 q.2 :=
        ih (fun b hb => hinit b (List.mem_append_left _ hb))
          fun b hb => hadd b (List.mem_append_left _ hb)
      rcases mem_upsert nodup_keys_buckets hp with ⟨hk, ⟨-, hvalue⟩ | ⟨b, hb, hvalue⟩⟩ |
        ⟨-, hmem'⟩
      · rw [hk, hvalue]
        exact hinit a hmem
      · rw [hk, hvalue]
        exact hadd a hmem b (hbefore hb)
      · exact hbefore hmem'

/-- What every entry establishes and keeps for its key holds of every bucket. -/
theorem forall_buckets {P : κ → β → Prop} (hinit : ∀ a, P (key a) (add a (init a)))
    (hadd : ∀ a b, P (key a) b → P (key a) (add a b)) {p : κ × β}
    (hp : p ∈ buckets key init add l) : P p.1 p.2 :=
  forall_mem_buckets (fun a _ => hinit a) (fun a _ => hadd a) hp

variable [AddCommMonoid M] {v : β → M} {w : α → M}

/-- What is set under a key adds to a measure of the kept values what it adds there. -/
theorem sum_upsert {k : κ} {f : Option β → β} {m : List (κ × β)} {x : M} (hnone : v (f none) = x)
    (hsome : ∀ b, v (f (some b)) = v b + x) :
    ((upsert k f m).map fun p => v p.2).sum = (m.map fun p => v p.2).sum + x := by
  induction m with
  | nil => simp [upsert, hnone]
  | cons p m ih =>
      unfold upsert
      split
      · rw [List.map_cons, List.sum_cons, hsome, List.map_cons, List.sum_cons, add_right_comm]
      · rw [List.map_cons, List.sum_cons, ih, List.map_cons, List.sum_cons, add_assoc]

/-- A measure of the buckets that each entry adds its weight to: all buckets together measure
what the list weighs. -/
theorem sum_buckets (hinit : ∀ a, v (init a) = 0) (hadd : ∀ a b, v (add a b) = v b + w a) :
    ((buckets key init add l).map fun p => v p.2).sum = (l.map w).sum := by
  induction l using List.reverseRecOn with
  | nil => simp [buckets]
  | append_singleton l a ih =>
      rw [buckets_append_singleton, sum_upsert (x := w a), ih]
      · simp
      · rw [hadd, Option.getD_none, hinit, zero_add]
      · exact fun b => hadd a b

/-- The bucket of a key measures what the entries with that key weigh. -/
theorem measure_bucket (hinit : ∀ a, v (init a) = 0) (hadd : ∀ a b, v (add a b) = v b + w a)
    {p : κ × β} (hp : p ∈ buckets key init add l) : v p.2 = sumOn key w l p.1 := by
  induction l using List.reverseRecOn generalizing p with
  | nil => simp [buckets] at hp
  | append_singleton l a ih =>
      rw [buckets_append_singleton] at hp
      have hlast : sumOn key w [a] p.1 = if key a = p.1 then w a else 0 := by
        rw [sumOn_cons]
        exact add_zero _
      rw [sumOn_append, hlast]
      rcases mem_upsert nodup_keys_buckets hp with ⟨hk, ⟨hnot, hvalue⟩ | ⟨b, hb, hvalue⟩⟩ |
        ⟨hk, hmem⟩
      · have hzero : sumOn key w l p.1 = 0 := by
          apply sumOn_eq_zero
          rw [hk, List.mem_map]
          exact fun hmem => hnot (mem_keys_buckets.mpr hmem)
        rw [hvalue, hadd, Option.getD_none, hinit, hzero, if_pos hk.symm]
      · rw [hvalue, hadd, Option.getD_some, ih hb, hk, if_pos rfl]
      · rw [ih hmem, if_neg fun h => hk h.symm, add_zero]

/-- Looking a key up measures what the entries with that key weigh, none if there are none. -/
theorem find_bucket (hinit : ∀ a, v (init a) = 0) (hadd : ∀ a b, v (add a b) = v b + w a) (k : κ) :
    (((buckets key init add l).find? fun p => p.1 = k).map fun p => v p.2).getD 0 =
      sumOn key w l k := by
  cases hfound : (buckets key init add l).find? fun p => p.1 = k with
  | none =>
      symm
      apply sumOn_eq_zero
      intro hmem
      obtain ⟨a, ha, hkey⟩ := List.mem_map.mp hmem
      obtain ⟨p, hp, hpk⟩ := List.mem_map.mp (mem_keys_buckets.mpr ⟨a, ha, hkey⟩)
      exact List.find?_eq_none.mp hfound p hp (decide_eq_true hpk)
  | some p =>
      have hkey : p.1 = k := by simpa using List.find?_some hfound
      rw [Option.map_some, Option.getD_some,
        measure_bucket hinit hadd (List.mem_of_find?_eq_some hfound), hkey]

/-- So does looking it up among the buckets alone, when they know their keys. -/
theorem find_value {id : β → κ} (hinit : ∀ a, v (init a) = 0)
    (hadd : ∀ a b, v (add a b) = v b + w a) (hidInit : ∀ a, id (init a) = key a)
    (hidAdd : ∀ a b, id (add a b) = id b) (k : κ) :
    ((((buckets key init add l).map Prod.snd).find? fun b => id b = k).map v).getD 0 =
      sumOn key w l k := by
  have hid : ∀ p ∈ buckets key init add l,
      ((fun b => decide (id b = k)) ∘ Prod.snd) p = decide (p.1 = k) := by
    intro p hp
    have hkey : id p.2 = p.1 := by
      refine forall_buckets (P := fun k b => id b = k) ?_ ?_ hp
      · exact fun a => (hidAdd a _).trans (hidInit a)
      · exact fun a b hb => (hidAdd a b).trans hb
    exact congrArg (fun k' => decide (k' = k)) hkey
  rw [List.find?_map, List.find?_congr hid, Option.map_map]
  exact find_bucket hinit hadd k

end Buckets

end SecureStore.Foundation
