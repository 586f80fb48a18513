/-
# The structure that the backfill sets

On a forest the recursive query reaches every receipt from one root, so the first statement
points each receipt at the root it is under, and running it again changes nothing. The
second statement flags the receipts that have children. Once both hold, the gap query lists
the roots in order, each with the receipts that point at it.
-/

import SecureStore.Backfill.Statements

namespace SecureStore.Backfill

open SecureStore.Foundation SecureStore.Inventory

namespace LegacyDb

variable {db : LegacyDb}

/-- A database as migration 3a leaves it: parent links form a finite forest, quantities fit
their column, receipt numbers are unique, and what the migration added is empty. -/
structure Legacy (db : LegacyDb) : Prop where
  forest : legacyTree.IsForest db.receipts.rows
  scale : ∀ r ∈ db.receipts.rows, HasScale 3 r.quantity
  numbers : (db.receipts.rows.map LegacyReceipt.receiptNumber).Nodup
  noEvents : db.events.rows = []
  noSources : ∀ r ∈ db.receipts.rows, r.sourceEventId = none

/-- Roots name themselves, and every other receipt names the root its parent names. -/
structure Rooted (db : LegacyDb) : Prop where
  self : ∀ r ∈ db.receipts.rows, r.parentReceiptId = none → r.rootReceiptId = some r.id
  inherited : ∀ r ∈ db.receipts.rows, ∀ p ∈ db.receipts.rows, r.parentReceiptId = some p.id →
    r.rootReceiptId = p.rootReceiptId

/-- Receipts with children are SPLIT parents. -/
def Promoted (db : LegacyDb) : Prop :=
  ∀ p ∈ db.receipts.rows, db.kids p.id ≠ [] → p.isParent = true ∧ p.status = .split

theorem mem_roots {r : LegacyReceipt} :
    r ∈ db.roots ↔ r ∈ db.receipts.rows ∧ r.parentReceiptId = none := by
  simp [roots]

theorem mem_kids {id : Id} {r : LegacyReceipt} :
    r ∈ db.kids id ↔ r ∈ db.receipts.rows ∧ r.parentReceiptId = some id :=
  Lineage.mem_children

theorem keys_nodup (db : LegacyDb) : (db.receipts.rows.map legacyTree.key).Nodup :=
  db.receipts.nodup

/-- The key determines the receipt. -/
theorem eq_of_id {x y : LegacyReceipt} (hx : x ∈ db.receipts.rows) (hy : y ∈ db.receipts.rows)
    (h : x.id = y.id) : x = y :=
  Table.eq_of_key_eq (t := db.receipts) hx hy h

/-- A receipt after the roots were set. -/
def rerooted (db : LegacyDb) (r : LegacyReceipt) : LegacyReceipt :=
  { r with rootReceiptId := db.chain.lookup r.id }

/-! ### Trees -/

section Trees

variable (hforest : legacyTree.IsForest db.receipts.rows)

include hforest

theorem descend_treeOf {root : LegacyReceipt} (hroot : root ∈ db.receipts.rows) :
    legacyTree.descend db.receipts.rows db.receipts.rows.length [root] =
      some (db.treeOf root) := by
  obtain ⟨rank, hranked⟩ := hforest.ranked
  have hlevel : ∀ t ∈ [root], t ∈ db.receipts.rows := by simpa using hroot
  obtain ⟨found, hfound⟩ := Lineage.descend_terminates hranked db.receipts.rows.length hlevel
    fun _ _ => Nat.le_add_left _ _
  rw [treeOf, hfound]
  rfl

theorem treeOf_subset {root : LegacyReceipt} (hroot : root ∈ db.receipts.rows) :
    ∀ x ∈ db.treeOf root, x ∈ db.receipts.rows :=
  Lineage.descend_subset (by simpa using hroot) (descend_treeOf hforest hroot)

theorem mem_treeOf_iff {root : LegacyReceipt} (hroot : root ∈ db.receipts.rows)
    {x : LegacyReceipt} : x ∈ db.treeOf root ↔
      x = root ∨ x ∈ db.receipts.rows ∧ ∃ p ∈ db.treeOf root, x.parentReceiptId = some p.id := by
  rw [Lineage.mem_descend_iff (descend_treeOf hforest hroot), List.mem_singleton]
  rfl

theorem root_mem_treeOf {root : LegacyReceipt} (hroot : root ∈ db.receipts.rows) :
    root ∈ db.treeOf root :=
  (mem_treeOf_iff hforest hroot).mpr (.inl rfl)

/-- Every receipt is in the tree of a root. -/
theorem exists_root {x : LegacyReceipt} (hx : x ∈ db.receipts.rows) :
    ∃ root ∈ db.roots, x ∈ db.treeOf root := by
  obtain ⟨root, hroot, hparent, found, hfound, hmem⟩ := hforest.in_tree hx
  refine ⟨root, mem_roots.mpr ⟨hroot, hparent⟩, ?_⟩
  rw [descend_treeOf hforest hroot] at hfound
  cases hfound
  exact hmem

theorem root_unique {root root' x : LegacyReceipt} (hroot : root ∈ db.roots)
    (hroot' : root' ∈ db.roots) (hx : x ∈ db.treeOf root) (hx' : x ∈ db.treeOf root') :
    root = root' := by
  obtain ⟨hmem, hparent⟩ := mem_roots.mp hroot
  obtain ⟨hmem', hparent'⟩ := mem_roots.mp hroot'
  exact hforest.root_unique db.keys_nodup hmem hmem' hparent hparent'
    (descend_treeOf hforest hmem) (descend_treeOf hforest hmem') hx hx'

theorem treeOf_nodup (hroot : root ∈ db.roots) : (db.treeOf root).Nodup := by
  obtain ⟨hrow, hparent⟩ := mem_roots.mp hroot
  apply hforest.nodup_found db.keys_nodup _ _ (List.nodup_singleton root)
    (descend_treeOf hforest hrow)
  · simpa using hrow
  · simpa using hparent

/-- The chain query lists each receipt with the root it is under. -/
theorem lookup_chain {root x : LegacyReceipt} (hroot : root ∈ db.roots)
    (hx : x ∈ db.treeOf root) : db.chain.lookup x.id = some root.id := by
  have hrow := (mem_roots.mp hroot).1
  apply lookup_of_unique
  · exact List.mem_flatMap.mpr ⟨root, hroot, List.mem_map.mpr ⟨x, hx, rfl⟩⟩
  · intro k hk
    obtain ⟨root', hroot', hpair⟩ := List.mem_flatMap.mp hk
    obtain ⟨y, hy, heq⟩ := List.mem_map.mp hpair
    have hrow' := (mem_roots.mp hroot').1
    have hyx : y = x := eq_of_id (treeOf_subset hforest hrow' y hy)
      (treeOf_subset hforest hrow x hx) (congrArg Prod.fst heq)
    subst hyx
    rw [root_unique hforest hroot hroot' hx hy]
    exact (congrArg Prod.snd heq).symm

/-! ### The root links -/

theorem setRoots_rows : db.setRoots.receipts.rows = db.receipts.rows.map db.rerooted := by
  unfold setRoots
  rw [Table.rows_modifyWhere]
  apply List.map_congr_left
  intro r hr
  obtain ⟨root, hroot, hmem⟩ := exists_root hforest hr
  have hlookup := lookup_chain hforest hroot hmem
  split
  · rfl
  · rename_i hnot
    have hsame : r.rootReceiptId = db.chain.lookup r.id := by
      by_contra hne
      exact hnot ⟨by rw [hlookup]; rfl, hne⟩
    rw [rerooted, ← hsame]

theorem rooted_setRoots : db.setRoots.Rooted where
  self := by
    intro r' hr' hparent
    rw [setRoots_rows hforest] at hr'
    obtain ⟨r, hr, rfl⟩ := List.mem_map.mp hr'
    have hroot : r ∈ db.roots := mem_roots.mpr ⟨hr, hparent⟩
    have hlookup : db.chain.lookup r.id = some r.id :=
      lookup_chain hforest hroot (root_mem_treeOf hforest hr)
    exact hlookup
  inherited := by
    intro r' hr' p' hp' hparent
    rw [setRoots_rows hforest] at hr' hp'
    obtain ⟨r, hr, rfl⟩ := List.mem_map.mp hr'
    obtain ⟨p, hp, rfl⟩ := List.mem_map.mp hp'
    obtain ⟨root, hroot, hmem⟩ := exists_root hforest hp
    have hchild : r ∈ db.treeOf root :=
      (mem_treeOf_iff hforest (mem_roots.mp hroot).1).mpr (.inr ⟨hr, p, hmem, hparent⟩)
    exact (lookup_chain hforest hroot hchild).trans (lookup_chain hforest hroot hmem).symm

variable (hrooted : db.Rooted)

include hrooted

/-- The receipts in a tree name its root. -/
theorem Rooted.names {root x : LegacyReceipt} (hroot : root ∈ db.roots)
    (hx : x ∈ db.treeOf root) : x.rootReceiptId = some root.id := by
  obtain ⟨hrow, hparent⟩ := mem_roots.mp hroot
  have hall : ∀ y ∈ db.treeOf root, y ∈ db.receipts.rows ∧ y.rootReceiptId = some root.id := by
    apply Lineage.descend_induction (P := fun y => y ∈ db.receipts.rows ∧
      y.rootReceiptId = some root.id) (descend_treeOf hforest hrow)
    · intro t ht
      obtain rfl := List.mem_singleton.mp ht
      exact ⟨hrow, hrooted.self t hrow hparent⟩
    · intro p hp r hr hlink
      exact ⟨hr, (hrooted.inherited r hr p hp.1 hlink).trans hp.2⟩
  exact (hall x hx).2

/-- The tree of a root is what names it. -/
theorem Rooted.mem_treeOf {root x : LegacyReceipt} (hroot : root ∈ db.roots) :
    x ∈ db.treeOf root ↔ x ∈ db.receipts.rows ∧ x.rootReceiptId = some root.id := by
  have hrow := (mem_roots.mp hroot).1
  constructor
  · intro hx
    exact ⟨treeOf_subset hforest hrow x hx, hrooted.names hforest hroot hx⟩
  · rintro ⟨hx, hnames⟩
    obtain ⟨root', hroot', hmem⟩ := exists_root hforest hx
    have hid : root'.id = root.id :=
      Option.some_inj.mp ((hrooted.names hforest hroot' hmem).symm.trans hnames)
    rwa [← eq_of_id (mem_roots.mp hroot').1 hrow hid]

/-- Every receipt names a root. -/
theorem Rooted.names_root {x : LegacyReceipt} (hx : x ∈ db.receipts.rows) :
    ∃ root ∈ db.roots, x.rootReceiptId = some root.id := by
  obtain ⟨root, hroot, hmem⟩ := exists_root hforest hx
  exact ⟨root, hroot, hrooted.names hforest hroot hmem⟩

/-- Setting the roots again changes nothing. -/
theorem Rooted.setRoots_eq : db.setRoots = db := by
  have hrows : db.setRoots.receipts.rows = db.receipts.rows := by
    rw [setRoots_rows hforest]
    apply (List.map_congr_left _).trans (List.map_id _)
    intro r hr
    obtain ⟨root, hroot, hmem⟩ := exists_root hforest hr
    rw [rerooted, lookup_chain hforest hroot hmem, ← hrooted.names hforest hroot hmem]
    rfl
  have htable : db.setRoots.receipts = db.receipts := Table.ext hrows
  calc db.setRoots = { db with receipts := db.setRoots.receipts } := rfl
    _ = db := by rw [htable]

end Trees

/-! ### The parent flags -/

/-- A receipt after the parents were promoted. -/
def promoted (db : LegacyDb) (p : LegacyReceipt) : LegacyReceipt :=
  if db.kids p.id ≠ [] ∧ (p.isParent = false ∨ p.status ≠ .split) then
    { p with
      isParent := true, status := .split, supersededAt := some (p.supersededAt.getD p.updatedAt) }
  else p

theorem promoteParents_rows : db.promoteParents.receipts.rows =
    db.receipts.rows.map db.promoted := rfl

section Promoted

variable (p : LegacyReceipt)

@[simp]
theorem id_promoted : (db.promoted p).id = p.id := by
  unfold promoted
  split <;> rfl

@[simp]
theorem receiptNumber_promoted : (db.promoted p).receiptNumber = p.receiptNumber := by
  unfold promoted
  split <;> rfl

@[simp]
theorem quantity_promoted : (db.promoted p).quantity = p.quantity := by
  unfold promoted
  split <;> rfl

@[simp]
theorem parentReceiptId_promoted : (db.promoted p).parentReceiptId = p.parentReceiptId := by
  unfold promoted
  split <;> rfl

@[simp]
theorem rootReceiptId_promoted : (db.promoted p).rootReceiptId = p.rootReceiptId := by
  unfold promoted
  split <;> rfl

@[simp]
theorem sourceEventId_promoted : (db.promoted p).sourceEventId = p.sourceEventId := by
  unfold promoted
  split <;> rfl

theorem isParent_promoted (hkids : db.kids p.id = []) :
    (db.promoted p).isParent = p.isParent := by
  unfold promoted
  rw [if_neg]
  exact fun h => h.1 hkids

end Promoted

/-- Receipts keep their children when rows are rewritten in place and others appended. -/
theorem kids_map_append {db' : LegacyDb} {f : LegacyReceipt → LegacyReceipt}
    {added : List LegacyReceipt} (hrows : db'.receipts.rows = db.receipts.rows.map f ++ added)
    (hf : ∀ r ∈ db.receipts.rows, (f r).parentReceiptId = r.parentReceiptId) (id : Id) :
    db'.kids id = (db.kids id).map f ++ legacyTree.children added id := by
  unfold kids
  rw [hrows]
  exact Lineage.children_map_append hf added id

theorem kids_setRoots (hforest : legacyTree.IsForest db.receipts.rows) (id : Id) :
    db.setRoots.kids id = (db.kids id).map db.rerooted := by
  have hrows : db.setRoots.receipts.rows = db.receipts.rows.map db.rerooted ++ [] := by
    rw [setRoots_rows hforest, List.append_nil]
  rw [kids_map_append hrows (fun _ _ => rfl) id]
  exact List.append_nil _

theorem kids_promoteParents (id : Id) :
    db.promoteParents.kids id = (db.kids id).map db.promoted := by
  have hrows : db.promoteParents.receipts.rows = db.receipts.rows.map db.promoted ++ [] := by
    rw [promoteParents_rows, List.append_nil]
  rw [kids_map_append hrows (fun r _ => parentReceiptId_promoted r) id]
  exact List.append_nil _

theorem promoted_promoteParents : db.promoteParents.Promoted := by
  intro p' hp' hkids
  rw [promoteParents_rows] at hp'
  obtain ⟨p, hp, rfl⟩ := List.mem_map.mp hp'
  rw [id_promoted, kids_promoteParents] at hkids
  have hkids : db.kids p.id ≠ [] := by simpa using hkids
  unfold promoted
  split
  · exact ⟨rfl, rfl⟩
  · rename_i hnot
    by_contra hflags
    apply hnot
    refine ⟨hkids, ?_⟩
    by_cases hparent : p.isParent = true
    · exact .inr fun hstatus => hflags ⟨hparent, hstatus⟩
    · exact .inl (by simpa using hparent)

/-- Promoting the parents again changes nothing. -/
theorem Promoted.promoteParents_eq (h : db.Promoted) : db.promoteParents = db := by
  have hrows : db.promoteParents.receipts.rows = db.receipts.rows := by
    rw [promoteParents_rows]
    apply (List.map_congr_left _).trans (List.map_id _)
    intro p hp
    apply if_neg
    rintro ⟨hkids, hflags⟩
    obtain ⟨hparent, hstatus⟩ := h p hp hkids
    rcases hflags with hflag | hflag
    · rw [hparent] at hflag
      cases hflag
    · exact hflag hstatus
  have htable : db.promoteParents.receipts = db.receipts := Table.ext hrows
  calc db.promoteParents = { db with receipts := db.promoteParents.receipts } := rfl
    _ = db := by rw [htable]

theorem forest_setRoots (hforest : legacyTree.IsForest db.receipts.rows) :
    legacyTree.IsForest db.setRoots.receipts.rows := by
  rw [setRoots_rows hforest, ← List.append_nil (db.receipts.rows.map _)]
  apply hforest.extend (f := db.rerooted) (fun _ _ => rfl) (fun _ _ => rfl)
  · exact fun _ hr => absurd hr List.not_mem_nil
  · exact fun _ hr => absurd hr List.not_mem_nil

theorem forest_promoteParents (hforest : legacyTree.IsForest db.receipts.rows) :
    legacyTree.IsForest db.promoteParents.receipts.rows := by
  rw [promoteParents_rows, ← List.append_nil (db.receipts.rows.map _)]
  apply hforest.extend (f := db.promoted) (fun r _ => id_promoted r)
    (fun r _ => parentReceiptId_promoted r)
  · exact fun _ hr => absurd hr List.not_mem_nil
  · exact fun _ hr => absurd hr List.not_mem_nil

theorem Rooted.promoteParents (h : db.Rooted) : db.promoteParents.Rooted where
  self := by
    intro r' hr' hparent
    rw [promoteParents_rows] at hr'
    obtain ⟨r, hr, rfl⟩ := List.mem_map.mp hr'
    rw [parentReceiptId_promoted] at hparent
    rw [rootReceiptId_promoted, id_promoted]
    exact h.self r hr hparent
  inherited := by
    intro r' hr' p' hp' hparent
    rw [promoteParents_rows] at hr' hp'
    obtain ⟨r, hr, rfl⟩ := List.mem_map.mp hr'
    obtain ⟨p, hp, rfl⟩ := List.mem_map.mp hp'
    rw [parentReceiptId_promoted, id_promoted] at hparent
    rw [rootReceiptId_promoted, rootReceiptId_promoted]
    exact h.inherited r hr p hp hparent

/-! ### The gap query -/

/-- What the unflagged receipts that name a root sum to. -/
def leafSum (db : LegacyDb) (root : Id) : ℚ :=
  sumQty (db.receipts.rows.filter fun t => t.rootReceiptId = some root ∧ !t.isParent)

def gapRow (db : LegacyDb) (root : LegacyReceipt) : GapRow :=
  ⟨root.id, root.quantity, db.leafSum root.id⟩

theorem sumQty_perm {rows rows' : List LegacyReceipt} (h : rows.Perm rows') :
    sumQty rows = sumQty rows' :=
  (h.map _).sum_eq

/-- The query from all roots finds the receipts. -/
theorem forestRows_perm (hforest : legacyTree.IsForest db.receipts.rows) :
    db.forestRows.Perm db.receipts.rows := by
  obtain ⟨rank, hranked⟩ := hforest.ranked
  have hlevel : ∀ t ∈ db.roots, t ∈ db.receipts.rows := fun _ ht => (mem_roots.mp ht).1
  obtain ⟨found, hfound⟩ := Lineage.descend_terminates hranked db.receipts.rows.length hlevel
    fun _ _ => Nat.le_add_left _ _
  have hperm := hforest.found_perm db.keys_nodup hfound
  rw [forestRows, hfound]
  exact hperm

/-- The gap query lists the roots in order with what the receipts that name them sum to. -/
theorem gapRows_eq (hforest : legacyTree.IsForest db.receipts.rows) (hrooted : db.Rooted) :
    db.gapRows = db.roots.map db.gapRow := by
  have hmembers : ∀ rt ∈ db.receipts.rows,
      (db.forestRows.filter fun t => t.rootReceiptId = some rt.id) = [] ↔
        ¬ rt.parentReceiptId = none := by
    intro rt hrt
    rw [List.filter_eq_nil_iff]
    constructor
    · intro hnone hparent
      exact hnone rt ((forestRows_perm hforest).mem_iff.mpr hrt)
          (by simpa using hrooted.self rt hrt hparent)
    · intro hparent t ht hnames
      obtain ⟨root, hroot, hroots⟩ :=
        hrooted.names_root hforest ((forestRows_perm hforest).mem_iff.mp ht)
      have hid : root.id = rt.id := by
        rw [hroots] at hnames
        simpa using hnames
      rw [eq_of_id (mem_roots.mp hroot).1 hrt hid] at hroot
      exact hparent (mem_roots.mp hroot).2
  have hsum : ∀ root : Id, sumQty ((db.forestRows.filter fun t =>
      t.rootReceiptId = some root).filter fun t => !t.isParent) = db.leafSum root := by
    intro root
    rw [leafSum, List.filter_filter]
    apply sumQty_perm
    have hperm := (forestRows_perm hforest).filter fun t : LegacyReceipt =>
      decide (t.rootReceiptId = some root ∧ !t.isParent)
    refine .trans (.of_eq (List.filter_congr ?_)) hperm
    intro t _
    simp [and_comm]
  unfold gapRows roots
  rw [← List.filterMap_eq_map, List.filterMap_filter]
  apply List.filterMap_congr
  intro rt hrt
  by_cases hparent : rt.parentReceiptId = none
  · rw [if_neg (mt (hmembers rt hrt).mp (not_not_intro hparent)), if_pos (by simp [hparent]), hsum]
    rfl
  · rw [if_pos ((hmembers rt hrt).mpr hparent), if_neg]
    simpa using hparent

end LegacyDb

end SecureStore.Backfill
