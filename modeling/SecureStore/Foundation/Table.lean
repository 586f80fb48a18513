/-
# Tables with a primary key

A table is a list of rows in insertion order whose keys are pairwise distinct.
Distinctness is a field, so a table with a duplicate key cannot be built: an
insertion either finds its key free or fails, and an update keeps the key of
the row it rewrites. Lookups are by key, and sums run over the rows.
-/

import Mathlib.Algebra.BigOperators.Group.List.Basic
import Mathlib.Algebra.Group.Basic
import Mathlib.Algebra.Order.BigOperators.Group.List
import Mathlib.Data.List.Nodup
import Mathlib.Logic.Function.Basic
import Mathlib.Tactic.Abel

namespace SecureStore.Foundation

universe u v w

/-- Rows of type ρ are identified by a key of type κ. -/
class Keyed (ρ : Type u) (κ : outParam (Type v)) where
  /-- The primary key of a row. -/
  key : ρ → κ

/-- Rows in insertion order with pairwise distinct keys. -/
structure Table (ρ : Type u) {κ : Type v} [Keyed ρ κ] where
  rows : List ρ
  nodup : (rows.map Keyed.key).Nodup

/-- Texts are compared character by character. -/
instance lawfulBEqText : @LawfulBEq (List Char) List.instBEq := inferInstance

/-- A lookup finds the only value that a key is listed with. -/
theorem lookup_of_unique {κ β : Type*} [DecidableEq κ] {l : List (κ × β)} {a : κ} {b : β}
    (hmem : (a, b) ∈ l) (hunique : ∀ b', (a, b') ∈ l → b' = b) : l.lookup a = some b := by
  induction l with
  | nil => cases hmem
  | cons p l ih =>
      obtain ⟨a', b'⟩ := p
      by_cases ha : a = a'
      · subst ha
        rw [hunique b' List.mem_cons_self]
        simp
      · have htail : (a, b) ∈ l := by
          rcases List.mem_cons.mp hmem with heq | htail
          · cases heq
            exact absurd rfl ha
          · exact htail
        have hne : (a == a') = false := by simpa using ha
        rw [List.lookup_cons, hne]
        exact ih htail fun b' hb' => hunique b' (List.mem_cons_of_mem _ hb')

/-- The order in which a query that asks for none returns its rows. -/
structure Scan (ρ : Type u) where
  order : List ρ → List ρ
  perm : ∀ rows, (order rows).Perm rows

namespace Scan

variable {ρ : Type u} (scan : Scan ρ) {rows : List ρ}

/-- The rows as they are stored. -/
def stored : Scan ρ := ⟨id, .refl⟩

/-- The last row stored is the first one returned. -/
def reversed : Scan ρ := ⟨List.reverse, List.reverse_perm⟩

/-- The rows with a property are returned before the others. -/
def first (p : ρ → Bool) : Scan ρ :=
  ⟨fun rows => rows.filter p ++ rows.filter fun row => !p row, List.filter_append_perm p⟩

@[simp]
theorem mem_order {row : ρ} : row ∈ scan.order rows ↔ row ∈ rows := (scan.perm rows).mem_iff

@[simp]
theorem order_nil : scan.order [] = [] := (scan.perm []).eq_nil

@[simp]
theorem order_eq_nil : scan.order rows = [] ↔ rows = [] :=
  ⟨fun h => (h ▸ scan.perm rows).nil_eq.symm, fun h => h ▸ scan.order_nil⟩

end Scan

/-- A map into which rows are set one after the other. -/
def setAll {ρ κ γ : Type*} [DecidableEq κ] (key : ρ → κ) (value : ρ → γ) (rows : List ρ)
    (map : κ → Option γ) : κ → Option γ :=
  rows.foldl (fun map row => Function.update map (key row) (some (value row))) map

/-- The last row under a key is what the map holds. -/
theorem setAll_apply {ρ κ γ : Type*} [DecidableEq κ] (key : ρ → κ) (value : ρ → γ)
    (rows : List ρ) (map : κ → Option γ) (k : κ) :
    setAll key value rows map k =
      ((rows.filter fun row => key row = k).getLast?.map value).or (map k) := by
  induction rows generalizing map with
  | nil => simp [setAll]
  | cons row rows ih =>
      have hstep : setAll key value (row :: rows) map =
          setAll key value rows (Function.update map (key row) (some (value row))) := rfl
      rw [hstep, ih]
      by_cases hkey : key row = k
      · subst hkey
        rw [List.filter_cons_of_pos (by simp), List.getLast?_cons, Function.update_self]
        cases (rows.filter fun x => key x = key row).getLast? <;> simp
      · rw [List.filter_cons_of_neg (by simpa using hkey), Function.update_of_ne (Ne.symm hkey)]

/-- Rows under other keys leave an entry as it is. -/
theorem setAll_of_not_mem {ρ κ γ : Type*} [DecidableEq κ] {key : ρ → κ} {value : ρ → γ}
    {rows : List ρ} {map : κ → Option γ} {k : κ} (h : ∀ row ∈ rows, key row ≠ k) :
    setAll key value rows map k = map k := by
  have hnone : (rows.filter fun row => key row = k) = [] := by
    apply List.filter_eq_nil_iff.mpr
    intro row hrow hkey
    exact h row hrow (of_decide_eq_true hkey)
  rw [setAll_apply, hnone]
  rfl

/-- A row that no other shares its key with is what the map holds. -/
theorem setAll_of_unique {ρ κ γ : Type*} [DecidableEq κ] {key : ρ → κ} {value : ρ → γ}
    {rows : List ρ} {map : κ → Option γ} {row : ρ} (hrow : row ∈ rows)
    (h : ∀ row' ∈ rows, key row' = key row → row' = row) :
    setAll key value rows map (key row) = some (value row) := by
  rw [setAll_apply]
  have hmem : row ∈ rows.filter fun x => key x = key row :=
    List.mem_filter.mpr ⟨hrow, by simp⟩
  obtain ⟨last, hlast⟩ :=
    List.getLast?_isSome.mpr (List.ne_nil_of_mem hmem) |> Option.isSome_iff_exists.mp
  obtain ⟨hin, hkey⟩ := List.mem_filter.mp (List.mem_of_getLast? hlast)
  rw [hlast, h last hin (of_decide_eq_true hkey)]
  rfl

/-- A sum over the elements that satisfy a predicate. -/
theorem sum_filter {α M : Type*} [AddCommMonoid M] (l : List α) (p : α → Bool) (g : α → M) :
    ((l.filter p).map g).sum = (l.map fun x => if p x then g x else 0).sum := by
  induction l with
  | nil => rfl
  | cons x l ih =>
      rw [List.filter_cons, List.map_cons, List.sum_cons, ← ih]
      cases p x <;> simp

namespace Table

variable {ρ : Type u} {κ : Type v} [Keyed ρ κ] [DecidableEq κ]

instance : Membership ρ (Table ρ) := ⟨fun t r => r ∈ t.rows⟩

omit [DecidableEq κ] in
theorem mem_def {t : Table ρ} {r : ρ} : r ∈ t ↔ r ∈ t.rows := Iff.rfl

omit [DecidableEq κ] in
@[ext]
theorem ext {t t' : Table ρ} (h : t.rows = t'.rows) : t = t' := by
  cases t
  cases t'
  cases h
  rfl

/-- The table without rows. -/
def empty : Table ρ := ⟨[], List.nodup_nil⟩

/-- The row with the given key, if there is one. -/
def find (t : Table ρ) (k : κ) : Option ρ :=
  t.rows.find? fun r => decide (Keyed.key r = k)

omit [DecidableEq κ] in
@[simp]
theorem not_mem_empty (r : ρ) : r ∉ (empty : Table ρ) := by simp [mem_def, empty]

@[simp]
theorem find_empty (k : κ) : (empty : Table ρ).find k = none := rfl

omit [DecidableEq κ] in
/-- The key determines the row. -/
theorem eq_of_key_eq {t : Table ρ} {r r' : ρ} (h : r ∈ t) (h' : r' ∈ t)
    (hkey : Keyed.key r = Keyed.key r') : r = r' :=
  List.inj_on_of_nodup_map t.nodup h h' hkey

theorem find_eq_some_iff {t : Table ρ} {k : κ} {r : ρ} :
    t.find k = some r ↔ r ∈ t ∧ Keyed.key r = k := by
  constructor
  · intro h
    exact ⟨List.mem_of_find?_eq_some h, by simpa using List.find?_some h⟩
  · rintro ⟨hmem, rfl⟩
    cases hfind : t.find (Keyed.key r) with
    | none => simpa using List.find?_eq_none.mp hfind r hmem
    | some r' =>
        have hkey : Keyed.key r' = Keyed.key r := by simpa using List.find?_some hfind
        exact congrArg some (eq_of_key_eq (List.mem_of_find?_eq_some hfind) hmem hkey)

theorem mem_of_find {t : Table ρ} {k : κ} {r : ρ} (h : t.find k = some r) : r ∈ t :=
  (find_eq_some_iff.mp h).1

theorem key_of_find {t : Table ρ} {k : κ} {r : ρ} (h : t.find k = some r) :
    Keyed.key r = k :=
  (find_eq_some_iff.mp h).2

theorem find_of_mem {t : Table ρ} {r : ρ} (h : r ∈ t) : t.find (Keyed.key r) = some r :=
  find_eq_some_iff.mpr ⟨h, rfl⟩

theorem find_eq_none_iff {t : Table ρ} {k : κ} :
    t.find k = none ↔ ∀ r ∈ t, Keyed.key r ≠ k := by
  simp [find, List.find?_eq_none, mem_def]

omit [DecidableEq κ] in
/-- A row splits its table into rows with other keys. -/
theorem split_at {t : Table ρ} {r : ρ} (h : r ∈ t) :
    ∃ pre post, t.rows = pre ++ r :: post ∧ (∀ x ∈ pre, Keyed.key x ≠ Keyed.key r) ∧
      ∀ x ∈ post, Keyed.key x ≠ Keyed.key r := by
  obtain ⟨pre, post, hrows⟩ := List.append_of_mem (mem_def.mp h)
  have hnodup := t.nodup
  rw [hrows, List.map_append, List.map_cons] at hnodup
  refine ⟨pre, post, hrows, ?_, ?_⟩
  · intro x hx heq
    exact (List.nodup_append.mp hnodup).2.2 _ (List.mem_map_of_mem hx) _
      List.mem_cons_self heq
  · intro x hx heq
    exact (List.nodup_cons.mp (List.nodup_append.mp hnodup).2.1).1
      (heq ▸ List.mem_map_of_mem hx)

/-- Selecting by the key of a row finds that row alone. -/
theorem filter_key {t : Table ρ} {r : ρ} (h : r ∈ t) :
    (t.rows.filter fun x => decide (Keyed.key x = Keyed.key r)) = [r] := by
  obtain ⟨pre, post, hrows, hpre, hpost⟩ := split_at h
  rw [hrows, List.filter_append, List.filter_cons_of_pos (by simp),
    List.filter_eq_nil_iff.mpr fun x hx => by simpa using hpre x hx,
    List.filter_eq_nil_iff.mpr fun x hx => by simpa using hpost x hx]
  rfl

/-- Append a row; `none` when its key is taken. -/
def insert (t : Table ρ) (r : ρ) : Option (Table ρ) :=
  if h : Keyed.key r ∈ t.rows.map Keyed.key then none
  else some ⟨t.rows ++ [r], by
    rw [List.map_append, List.map_singleton]
    exact List.nodup_append.mpr ⟨t.nodup, List.nodup_singleton _, by
      intro a ha b hb hab
      rw [List.mem_singleton] at hb
      exact h (hb ▸ hab ▸ ha)⟩⟩

theorem insert_eq_some_iff {t t' : Table ρ} {r : ρ} :
    t.insert r = some t' ↔ t.find (Keyed.key r) = none ∧ t'.rows = t.rows ++ [r] := by
  rw [find_eq_none_iff]
  unfold insert
  split
  · rename_i h
    obtain ⟨r', hr', hkey⟩ := List.mem_map.mp h
    simp only [reduceCtorEq, false_iff, not_and]
    intro hfree
    exact absurd hkey (hfree r' hr')
  · rename_i h
    rw [Option.some_inj]
    constructor
    · rintro rfl
      exact ⟨fun r' hr' hkey => h (List.mem_map.mpr ⟨r', hr', hkey⟩), rfl⟩
    · rintro ⟨-, hrows⟩
      exact ext hrows.symm

/-- A free key can be inserted. -/
theorem insert_of_find_none {t : Table ρ} {r : ρ} (h : t.find (Keyed.key r) = none) :
    ∃ t', t.insert r = some t' := by
  rw [find_eq_none_iff] at h
  refine ⟨_, dif_neg ?_⟩
  intro hmem
  obtain ⟨r', hr', hkey⟩ := List.mem_map.mp hmem
  exact h r' hr' hkey

theorem mem_insert {t t' : Table ρ} {r r' : ρ} (h : t.insert r = some t') :
    r' ∈ t' ↔ r' ∈ t ∨ r' = r := by
  rw [mem_def, (insert_eq_some_iff.mp h).2, List.mem_append, List.mem_singleton]
  rfl

theorem find_insert {t t' : Table ρ} {r : ρ} (h : t.insert r = some t') (k : κ) :
    t'.find k = if k = Keyed.key r then some r else t.find k := by
  obtain ⟨hfree, hrows⟩ := insert_eq_some_iff.mp h
  unfold find
  rw [hrows, List.find?_append]
  split
  · rename_i hk
    subst hk
    rw [show t.rows.find? (fun r' => decide (Keyed.key r' = Keyed.key r)) = none from hfree]
    simp
  · rename_i hk
    simp [Ne.symm hk]

theorem find_insert_self {t t' : Table ρ} {r : ρ} (h : t.insert r = some t') :
    t'.find (Keyed.key r) = some r := by
  rw [find_insert h, if_pos rfl]

/-- A key found before an insertion is found after it, with the same row. -/
theorem find_insert_of_find {t t' : Table ρ} {r x : ρ} {k : κ} (h : t.insert r = some t')
    (hx : t.find k = some x) : t'.find k = some x := by
  rw [find_insert h]
  split
  · rename_i hk
    rw [hk, (insert_eq_some_iff.mp h).1] at hx
    cases hx
  · exact hx

/-- Append rows one after the other; `none` when a key is taken. -/
def insertAll (t : Table ρ) (rows : List ρ) : Option (Table ρ) := rows.foldlM insert t

theorem insertAll_eq_some {t t' : Table ρ} {rows : List ρ} (h : t.insertAll rows = some t') :
    t'.rows = t.rows ++ rows := by
  unfold insertAll at h
  induction rows generalizing t with
  | nil =>
      cases h
      exact (List.append_nil _).symm
  | cons r rows ih =>
      obtain ⟨t₁, hinsert, hrest⟩ := Option.bind_eq_some_iff.mp h
      rw [ih hrest, (insert_eq_some_iff.mp hinsert).2, List.append_assoc]
      rfl

/-- Rows with new and distinct keys can be appended. -/
theorem insertAll_succeeds {t : Table ρ} {rows : List ρ}
    (hfree : ∀ r ∈ rows, t.find (Keyed.key r) = none) (hnodup : (rows.map Keyed.key).Nodup) :
    ∃ t', t.insertAll rows = some t' := by
  unfold insertAll
  induction rows generalizing t with
  | nil => exact ⟨t, rfl⟩
  | cons r rows ih =>
      obtain ⟨hnot, hrest⟩ := List.nodup_cons.mp hnodup
      obtain ⟨t₁, hinsert⟩ := insert_of_find_none (hfree r List.mem_cons_self)
      have hfree₁ : ∀ x ∈ rows, t₁.find (Keyed.key x) = none := by
        intro x hx
        rw [find_insert hinsert, if_neg]
        · exact hfree x (List.mem_cons_of_mem _ hx)
        · intro hkey
          exact hnot (hkey ▸ List.mem_map_of_mem hx)
      obtain ⟨t', ht'⟩ := ih hfree₁ hrest
      exact ⟨t', Option.bind_eq_some_iff.mpr ⟨t₁, hinsert, ht'⟩⟩

/-- Delete the row with the given key, if there is one. -/
def remove (t : Table ρ) (k : κ) : Table ρ :=
  ⟨t.rows.filter fun r => Keyed.key r ≠ k, t.nodup.sublist (List.filter_sublist.map Keyed.key)⟩

theorem mem_remove {t : Table ρ} {k : κ} {r : ρ} :
    r ∈ t.remove k ↔ r ∈ t ∧ Keyed.key r ≠ k := by
  rw [mem_def, remove, List.mem_filter, decide_eq_true_eq]
  exact Iff.rfl

theorem find_remove_of_ne {t : Table ρ} {k k' : κ} (h : k' ≠ k) :
    (t.remove k).find k' = t.find k' := by
  cases hfind : t.find k' with
  | none =>
      rw [find_eq_none_iff] at hfind ⊢
      intro r hr
      exact hfind r (mem_remove.mp hr).1
  | some r =>
      have hkey := key_of_find hfind
      rw [find_eq_some_iff]
      exact ⟨mem_remove.mpr ⟨mem_of_find hfind, hkey ▸ h⟩, hkey⟩

/-- Rewrite the rows that satisfy a predicate, each keeping its key. -/
def modifyWhere (t : Table ρ) (p : ρ → Prop) [DecidablePred p] (f : ρ → ρ)
    (hf : ∀ r, Keyed.key (f r) = Keyed.key r := by intro r; rfl) : Table ρ :=
  ⟨t.rows.map fun r => if p r then f r else r, by
    have hkey : (Keyed.key ∘ fun r => if p r then f r else r) = (Keyed.key : ρ → κ) := by
      funext r
      simp only [Function.comp]
      split
      · exact hf r
      · rfl
    rw [List.map_map, hkey]
    exact t.nodup⟩

/-- Rewrite the row with the given key, if there is one. -/
def modify (t : Table ρ) (k : κ) (f : ρ → ρ)
    (hf : ∀ r, Keyed.key (f r) = Keyed.key r := by intro r; rfl) : Table ρ :=
  t.modifyWhere (fun r => Keyed.key r = k) f hf

section Modify

variable {p : ρ → Prop} [DecidablePred p] {f : ρ → ρ}
  {hf : ∀ r, Keyed.key (f r) = Keyed.key r}

omit [DecidableEq κ] in
@[simp]
theorem rows_modifyWhere (t : Table ρ) :
    (t.modifyWhere p f hf).rows = t.rows.map fun r => if p r then f r else r := rfl

theorem find_modifyWhere (t : Table ρ) (k : κ) :
    (t.modifyWhere p f hf).find k = (t.find k).map fun r => if p r then f r else r := by
  unfold find
  rw [rows_modifyWhere, List.find?_map]
  congr 2
  funext r
  simp only [Function.comp]
  split
  · rw [hf r]
  · rfl

theorem find_modify (t : Table ρ) (k k' : κ) :
    (t.modify k f hf).find k' = if k' = k then (t.find k).map f else t.find k' := by
  rw [modify, find_modifyWhere]
  cases hfind : t.find k' with
  | none =>
      split
      · rename_i hk
        rw [← hk, hfind]
        rfl
      · rfl
  | some r =>
      have hkey := key_of_find hfind
      split
      · rename_i hk
        rw [← hk, hfind]
        simp [hkey, hk]
      · rename_i hk
        have : Keyed.key r ≠ k := fun h => hk (hkey ▸ h)
        simp [this]

theorem find_modify_self {t : Table ρ} {k : κ} {r : ρ} (h : t.find k = some r) :
    (t.modify k f hf).find k = some (f r) := by
  rw [find_modify, if_pos rfl, h]
  rfl

theorem find_modify_of_ne {t : Table ρ} {k k' : κ} (h : k' ≠ k) :
    (t.modify k f hf).find k' = t.find k' := by
  rw [find_modify, if_neg h]

/-- The rows after an update: the rewritten row and the others. -/
theorem mem_modify {t : Table ρ} {k : κ} {r' : ρ} :
    r' ∈ t.modify k f hf ↔
      (∃ r, t.find k = some r ∧ r' = f r) ∨ (r' ∈ t ∧ Keyed.key r' ≠ k) := by
  constructor
  · intro h
    have hfind := find_of_mem h
    rw [find_modify] at hfind
    split at hfind
    · obtain ⟨r, hr, rfl⟩ := Option.map_eq_some_iff.mp hfind
      exact .inl ⟨r, hr, rfl⟩
    · exact .inr ⟨mem_of_find hfind, ‹_›⟩
  · rintro (⟨r, hr, rfl⟩ | ⟨hmem, hne⟩)
    · exact mem_of_find (find_modify_self hr)
    · exact mem_of_find ((find_modify_of_ne hne).trans (find_of_mem hmem))

/-- The rows after an update, each from the row it was. -/
theorem exists_of_mem_modify (f : ρ → ρ) (hf : ∀ r, Keyed.key (f r) = Keyed.key r) {t : Table ρ}
    {k : κ} {r' : ρ} (h : r' ∈ t.modify k f hf) :
    ∃ r ∈ t, Keyed.key r' = Keyed.key r ∧
      ((Keyed.key r = k ∧ r' = f r) ∨ (Keyed.key r ≠ k ∧ r' = r)) := by
  rcases mem_modify.mp h with ⟨r, hr, rfl⟩ | ⟨hmem, hne⟩
  · exact ⟨r, mem_of_find hr, hf r, .inl ⟨key_of_find hr, rfl⟩⟩
  · exact ⟨r', hmem, rfl, .inr ⟨hne, rfl⟩⟩

theorem mem_modify_self (f : ρ → ρ) (hf : ∀ r, Keyed.key (f r) = Keyed.key r) {t : Table ρ}
    {r : ρ} (h : r ∈ t) : f r ∈ t.modify (Keyed.key r) f hf :=
  mem_modify.mpr (.inl ⟨r, find_of_mem h, rfl⟩)

theorem mem_modify_other (f : ρ → ρ) (hf : ∀ r, Keyed.key (f r) = Keyed.key r) {t : Table ρ}
    {k : κ} {r : ρ} (h : r ∈ t) (hne : Keyed.key r ≠ k) : r ∈ t.modify k f hf :=
  mem_modify.mpr (.inr ⟨h, hne⟩)

/-- Every row is still there after an update, rewritten or not. -/
theorem exists_mem_modify (f : ρ → ρ) (hf : ∀ r, Keyed.key (f r) = Keyed.key r) {t : Table ρ}
    {r : ρ} (h : r ∈ t) (k : κ) :
    ∃ r' ∈ t.modify k f hf, Keyed.key r' = Keyed.key r ∧
      ((Keyed.key r = k ∧ r' = f r) ∨ (Keyed.key r ≠ k ∧ r' = r)) := by
  by_cases hkey : Keyed.key r = k
  · exact ⟨f r, mem_modify.mpr (.inl ⟨r, hkey ▸ find_of_mem h, rfl⟩), hf r, .inl ⟨hkey, rfl⟩⟩
  · exact ⟨r, mem_modify.mpr (.inr ⟨h, hkey⟩), rfl, .inr ⟨hkey, rfl⟩⟩

/-- Updating the row that was inserted last. -/
theorem rows_modify_last (f : ρ → ρ) (hf : ∀ r, Keyed.key (f r) = Keyed.key r)
    {t : Table ρ} {l : List ρ} {r : ρ} (h : t.rows = l ++ [r]) :
    (t.modify (Keyed.key r) f hf).rows = l ++ [f r] := by
  have hnodup := t.nodup
  rw [h, List.map_append] at hnodup
  rw [modify, rows_modifyWhere, h, List.map_append]
  congr 1
  · refine (List.map_congr_left fun x hx => if_neg ?_).trans (List.map_id l)
    exact fun heq => (List.nodup_append.mp hnodup).2.2 _ (List.mem_map_of_mem hx)
      (Keyed.key r) (by simp) heq
  · simp

end Modify

section Sum

variable {M : Type w} [AddCommMonoid M]

/-- Sum of a weight over all rows. -/
def sumOf (t : Table ρ) (g : ρ → M) : M := (t.rows.map g).sum

omit [DecidableEq κ] in
@[simp]
theorem sumOf_empty (g : ρ → M) : (empty : Table ρ).sumOf g = 0 := rfl

theorem sumOf_insert {t t' : Table ρ} {r : ρ} (h : t.insert r = some t') (g : ρ → M) :
    t'.sumOf g = t.sumOf g + g r := by
  rw [sumOf, (insert_eq_some_iff.mp h).2, List.map_append, List.sum_append]
  simp [sumOf]

omit [DecidableEq κ] in
theorem sumOf_congr {t : Table ρ} {g g' : ρ → M} (h : ∀ r ∈ t, g r = g' r) :
    t.sumOf g = t.sumOf g' := by
  rw [sumOf, sumOf, List.map_congr_left h]

omit [DecidableEq κ] in
/-- A weight that vanishes on every row sums to zero. -/
theorem sumOf_eq_zero {t : Table ρ} {g : ρ → M} (h : ∀ r ∈ t, g r = 0) : t.sumOf g = 0 := by
  rw [sumOf_congr h, sumOf]
  simp

end Sum

section Order

variable {M : Type w} [AddCommMonoid M] [PartialOrder M] [IsOrderedAddMonoid M] {t : Table ρ}
  {g g' : ρ → M}

omit [DecidableEq κ] in
theorem sumOf_le_sumOf (h : ∀ r ∈ t, g r ≤ g' r) : t.sumOf g ≤ t.sumOf g' :=
  List.sum_le_sum h

omit [DecidableEq κ] in
/-- A rewrite that raises no weight raises no sum. -/
theorem sumOf_modifyWhere_le {p : ρ → Prop} [DecidablePred p] {f : ρ → ρ}
    {hf : ∀ r, Keyed.key (f r) = Keyed.key r} (h : ∀ r ∈ t, g (f r) ≤ g r) :
    (t.modifyWhere p f hf).sumOf g ≤ t.sumOf g := by
  unfold sumOf
  rw [rows_modifyWhere, List.map_map]
  apply List.sum_le_sum
  intro r hr
  by_cases hp : p r
  · simpa [hp] using h r hr
  · simp [hp]

omit [DecidableEq κ] in
/-- A row whose weight vanishes takes its weight out of the sum. -/
theorem sumOf_add_le {r : ρ} (hr : r ∈ t) (hvanish : g r = 0) (h : ∀ x ∈ t, g x ≤ g' x) :
    t.sumOf g + g' r ≤ t.sumOf g' := by
  obtain ⟨pre, post, hrows, -, -⟩ := split_at hr
  have hpre : (pre.map g).sum ≤ (pre.map g').sum :=
    List.sum_le_sum fun x hx => h x (mem_def.mpr (hrows ▸ List.mem_append_left _ hx))
  have hpost : (post.map g).sum ≤ (post.map g').sum :=
    List.sum_le_sum fun x hx => h x
      (mem_def.mpr (hrows ▸ List.mem_append_right _ (List.mem_cons_of_mem _ hx)))
  unfold sumOf
  rw [hrows]
  simp only [List.map_append, List.map_cons, List.sum_append, List.sum_cons, hvanish, zero_add]
  calc (pre.map g).sum + (post.map g).sum + g' r
      ≤ (pre.map g').sum + (post.map g').sum + g' r :=
        add_le_add_left (add_le_add hpre hpost) _
    _ = (pre.map g').sum + (g' r + (post.map g').sum) := by abel

end Order

end Table

end SecureStore.Foundation
