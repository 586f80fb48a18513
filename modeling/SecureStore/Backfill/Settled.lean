/-
# Databases with some gaps settled

Once the structure is set, all that a run still does is log the genesis events, link the
roots to them, and settle the roots with a positive gap one by one. Which roots are
settled, with what quantity and withdrawal, depends on the structure alone; a run only
draws the ids and times. So the state after some settlements is given by the structure,
the genesis ids and the list of settlements.
-/

import SecureStore.Backfill.Structure

namespace SecureStore.Backfill

open SecureStore.Foundation SecureStore.Inventory

/-- A root that was settled, and what was drawn for it. -/
structure Settlement where
  root : LegacyReceipt
  draws : Draws

namespace LegacyDb

variable {base db : LegacyDb}

/-- The structure is set and nothing is logged. -/
structure Prepared (base : LegacyDb) : Prop extends base.Legacy, base.Rooted where
  promoted : base.Promoted

theorem Legacy.prepared (h : db.Legacy) : db.setRoots.promoteParents.Prepared where
  forest := forest_promoteParents (forest_setRoots h.forest)
  scale := by
    intro r'' hr''
    rw [promoteParents_rows, setRoots_rows h.forest, List.map_map] at hr''
    obtain ⟨r, hr, rfl⟩ := List.mem_map.mp hr''
    simpa [rerooted] using h.scale r hr
  numbers := by
    rw [promoteParents_rows, setRoots_rows h.forest, List.map_map, List.map_map]
    simpa [Function.comp_def, rerooted] using h.numbers
  noEvents := h.noEvents
  noSources := by
    intro r'' hr''
    rw [promoteParents_rows, setRoots_rows h.forest, List.map_map] at hr''
    obtain ⟨r, hr, rfl⟩ := List.mem_map.mp hr''
    simpa [rerooted] using h.noSources r hr
  toRooted := (rooted_setRoots h.forest).promoteParents
  promoted := promoted_promoteParents

/-! ### What the structure decides -/

section Gaps

variable (base : LegacyDb) (close : ℚ → ℚ → Bool) (root : LegacyReceipt)

/-- What a root weighs beyond its leaves. -/
def gap : ℚ := roundSig 20 (root.quantity - base.leafSum root.id)

/-- The gap as the columns keep it. -/
def storedGap : ℚ := roundScale 3 (base.gap root)

/-- The withdrawal that a gap is attributed to. -/
def matched : Option Id := base.matchWithdrawal close root.id (base.gap root)

/-- Why the transaction for a root fails. -/
def blocked : Option BackfillError :=
  if 10 ^ 15 ≤ |base.storedGap root| then some .numericOverflow
  else if base.availableRequired then some .notNullViolation
  else if root.receiptNumber ++ "-RCN".toList ∈
      base.receipts.rows.map LegacyReceipt.receiptNumber then some .uniqueViolation
  else none

end Gaps

/-- A root without children is all of its tree. -/
theorem treeOf_childless (hforest : legacyTree.IsForest db.receipts.rows) {root : LegacyReceipt}
    (hroot : root ∈ db.receipts.rows) (hkids : db.kids root.id = []) :
    ∀ x ∈ db.treeOf root, x = root := by
  apply Lineage.descend_induction (P := fun x => x = root) (descend_treeOf hforest hroot)
  · intro t ht
    exact List.mem_singleton.mp ht
  · rintro p rfl r hr hlink
    have hmem : r ∈ db.kids p.id := mem_kids.mpr ⟨hr, hlink⟩
    rw [hkids] at hmem
    cases hmem

theorem hasScale_sumQty {rows : List LegacyReceipt} (h : ∀ r ∈ rows, HasScale 3 r.quantity) :
    HasScale 3 (sumQty rows) := by
  induction rows with
  | nil => exact ⟨0, by simp [sumQty]⟩
  | cons r rows ih =>
      exact (h r List.mem_cons_self).add (ih fun x hx => h x (List.mem_cons_of_mem _ hx))

section Prepared

variable (hbase : base.Prepared) {root : LegacyReceipt} (hroot : root ∈ base.roots)

include hbase hroot

/-- A root with a gap has children. -/
theorem Prepared.flagged (hgap : 0 < base.gap root) : root.isParent = true := by
  obtain ⟨hrow, hparent⟩ := mem_roots.mp hroot
  by_contra hflag
  have hkids : base.kids root.id = [] := by
    by_contra hkids
    exact hflag (hbase.promoted root hrow hkids).1
  have hleaves : (base.receipts.rows.filter fun t =>
      t.rootReceiptId = some root.id ∧ !t.isParent) = [root] := by
    rw [← Table.filter_key (t := base.receipts) hrow]
    apply List.filter_congr
    intro t ht
    by_cases hid : t.id = root.id
    · rw [eq_of_id ht hrow hid]
      simpa [hbase.self root hrow hparent] using hflag
    · have hnames : t.rootReceiptId ≠ some root.id := by
        intro hnames
        have hmem := (hbase.toRooted.mem_treeOf hbase.forest hroot).mpr ⟨ht, hnames⟩
        exact hid (congrArg LegacyReceipt.id (treeOf_childless hbase.forest hrow hkids t hmem))
      simp [hnames, hid]
  have hzero : base.gap root = 0 := by
    rw [gap, leafSum, hleaves, roundSig_eq_zero_iff (by norm_num)]
    simp [sumQty]
  exact hgap.ne' hzero

/-- What is stored for a root that is not blocked is its whole gap. -/
theorem Prepared.storedGap_eq (hfree : base.blocked root = none) :
    base.storedGap root = root.quantity - base.leafSum root.id := by
  have hsmall : |base.storedGap root| < 10 ^ 15 := by
    by_contra hlarge
    rw [blocked, if_pos (not_lt.mp hlarge)] at hfree
    cases hfree
  have hscale : HasScale 3 (base.leafSum root.id) :=
    hasScale_sumQty fun r hr => hbase.scale r (List.mem_filter.mp hr).1
  apply roundScale_roundSig_of_lt (by norm_num)
  · exact (hbase.scale root (mem_roots.mp hroot).1).sub hscale
  · calc |roundScale 3 (roundSig 20 (root.quantity - base.leafSum root.id))| * 10 ^ 3
        < 10 ^ 15 * 10 ^ 3 := mul_lt_mul_of_pos_right hsmall (by norm_num)
      _ < 10 ^ 20 := by norm_num

end Prepared

/-! ### After some settlements -/

/-- A root that points at its genesis event. -/
def linked (genesis : Draws) (r : LegacyReceipt) : LegacyReceipt :=
  { r with sourceEventId := some (genesis.genesis r.id) }

/-- A receipt after its root was linked and some roots were settled. -/
def finished (genesis : Draws) (done : List Settlement) (r : LegacyReceipt) : LegacyReceipt :=
  if r.parentReceiptId = none then
    match done.find? fun x => x.root.id = r.id with
    | some x => settle x.draws r (linked genesis r)
    | none => linked genesis r
  else r

section Finished

variable (genesis : Draws) (done : List Settlement) (r : LegacyReceipt)

@[simp]
theorem id_finished : (finished genesis done r).id = r.id := by
  unfold finished
  split
  · split <;> rfl
  · rfl

@[simp]
theorem receiptNumber_finished : (finished genesis done r).receiptNumber = r.receiptNumber := by
  unfold finished
  split
  · split <;> rfl
  · rfl

@[simp]
theorem quantity_finished : (finished genesis done r).quantity = r.quantity := by
  unfold finished
  split
  · split <;> rfl
  · rfl

@[simp]
theorem parentReceiptId_finished :
    (finished genesis done r).parentReceiptId = r.parentReceiptId := by
  unfold finished
  split
  · split <;> rfl
  · rfl

@[simp]
theorem rootReceiptId_finished : (finished genesis done r).rootReceiptId = r.rootReceiptId := by
  unfold finished
  split
  · split <;> rfl
  · rfl

theorem sourceEventId_finished (hparent : r.parentReceiptId = none) :
    (finished genesis done r).sourceEventId = some (genesis.genesis r.id) := by
  unfold finished
  rw [if_pos hparent]
  split <;> rfl

/-- Settling a root leaves a SPLIT parent. -/
theorem finished_split (hparent : r.parentReceiptId = none)
    (hdone : ∃ x ∈ done, x.root.id = r.id) :
    (finished genesis done r).isParent = true ∧ (finished genesis done r).status = .split := by
  obtain ⟨x, hx, hid⟩ := hdone
  unfold finished
  rw [if_pos hparent]
  split
  · exact ⟨rfl, rfl⟩
  · rename_i hnone
    exact absurd (decide_eq_true hid) (List.find?_eq_none.mp hnone x hx)

theorem status_finished (hstatus : r.status = .split) :
    (finished genesis done r).status = .split := by
  unfold finished
  split
  · split
    · rfl
    · exact hstatus
  · exact hstatus

end Finished

section Settled

variable (base : LegacyDb) (close : ℚ → ℚ → Bool)

/-- The event of a settlement. -/
def settlementEvent (x : Settlement) : BackfillEvent :=
  reconEvent x.draws x.root (base.storedGap x.root) (base.matched close x.root)

/-- The child of a settlement. -/
def settlementChild (x : Settlement) : LegacyReceipt :=
  reconChild x.draws x.root (base.storedGap x.root) (base.matched close x.root)

/-- The state after the roots were linked to the genesis events of one run and some of them
were settled. -/
structure Settled (genesis : Draws) (done : List Settlement) (db : LegacyDb) : Prop where
  receipts : db.receipts.rows = base.receipts.rows.map (finished genesis done) ++
    done.map (base.settlementChild close)
  events : db.events.rows = base.roots.map (genesisEvent genesis) ++
    done.map (base.settlementEvent close)
  eventIds : (db.events.rows.map fun e => e.id).Nodup
  withdrawals : db.withdrawals = base.withdrawals
  availableRequired : db.availableRequired = base.availableRequired

/-- Settlements of different roots with a positive gap, none of them blocked. -/
structure Covers (done : List Settlement) : Prop where
  mem : ∀ x ∈ done, x.root ∈ base.roots ∧ 0 < base.gap x.root ∧ base.blocked x.root = none
  nodup : (done.map Settlement.root).Nodup

end Settled

section Covers

variable {done : List Settlement} {root : LegacyReceipt}

theorem roots_nodup (db : LegacyDb) : db.roots.Nodup :=
  (List.Nodup.of_map _ db.receipts.nodup).filter _

theorem Covers.nil (base : LegacyDb) : base.Covers [] := ⟨by simp, List.nodup_nil⟩

theorem Covers.root_mem (h : base.Covers done) {x : Settlement} (hx : x ∈ done) :
    x.root ∈ base.roots :=
  (h.mem x hx).1

/-- What is known of a root that was settled. -/
theorem Covers.of_settled (h : base.Covers done) (hsettled : root ∈ done.map Settlement.root) :
    root ∈ base.roots ∧ 0 < base.gap root ∧ base.blocked root = none := by
  obtain ⟨x, hx, rfl⟩ := List.mem_map.mp hsettled
  exact h.mem x hx

/-- No settlement has the id of a root that is not settled. -/
theorem Covers.unsettled (h : base.Covers done) (hroot : root ∈ base.roots)
    (hnot : root ∉ done.map Settlement.root) : ∀ x ∈ done, x.root.id ≠ root.id := by
  intro x hx hid
  have hsame : x.root = root :=
    eq_of_id (mem_roots.mp (h.root_mem hx)).1 (mem_roots.mp hroot).1 hid
  exact hnot (List.mem_map.mpr ⟨x, hx, hsame⟩)

/-- One more root is settled. -/
theorem Covers.settled (h : base.Covers done) (hroot : root ∈ base.roots)
    (hnot : root ∉ done.map Settlement.root) (hgap : 0 < base.gap root)
    (hfree : base.blocked root = none) (draws : Draws) :
    base.Covers (done ++ [⟨root, draws⟩]) where
  mem := by
    intro x hx
    rcases List.mem_append.mp hx with hx | hx
    · exact h.mem x hx
    · obtain rfl := List.mem_singleton.mp hx
      exact ⟨hroot, hgap, hfree⟩
  nodup := by
    rw [List.map_append, List.nodup_append_comm]
    exact List.nodup_cons.mpr ⟨hnot, h.nodup⟩

end Covers

section Facts

variable {close : ℚ → ℚ → Bool} {genesis : Draws} {done : List Settlement}
  {root : LegacyReceipt}

theorem Settled.mem_receipts (h : base.Settled close genesis done db) {r : LegacyReceipt} :
    r ∈ db.receipts.rows ↔ (∃ x ∈ base.receipts.rows, finished genesis done x = r) ∨
      ∃ x ∈ done, base.settlementChild close x = r := by
  rw [h.receipts, List.mem_append, List.mem_map, List.mem_map]

/-- The children that settlements add are new. -/
theorem Settled.child_fresh (h : base.Settled close genesis done db) {x : Settlement}
    (hx : x ∈ done) {r : LegacyReceipt} (hr : r ∈ base.receipts.rows) :
    (base.settlementChild close x).id ≠ r.id := by
  intro hid
  have hnodup := db.keys_nodup
  rw [h.receipts, List.map_append] at hnodup
  apply (List.nodup_append.mp hnodup).2.2 r.id _ _ (List.mem_map_of_mem (List.mem_map_of_mem hx))
  · exact hid.symm
  · rw [List.map_map]
    exact List.mem_map.mpr ⟨r, hr, id_finished genesis done r⟩

theorem Settled.roots_eq (h : base.Settled close genesis done db) :
    db.roots = base.roots.map (finished genesis done) := by
  unfold roots
  rw [h.receipts, List.filter_append, List.filter_map]
  have hchildren : (done.map (base.settlementChild close)).filter
      (fun r => (legacyTree.parent r).isNone) = [] := by
    rw [List.filter_eq_nil_iff]
    intro r hr
    obtain ⟨x, -, rfl⟩ := List.mem_map.mp hr
    simp [settlementChild, reconChild]
  rw [hchildren, List.append_nil]
  congr 1
  apply List.filter_congr
  intro r _
  simp

theorem Settled.kids_eq (h : base.Settled close genesis done db) (id : Id) :
    db.kids id = (base.kids id).map (finished genesis done) ++
      (done.map (base.settlementChild close)).filter fun r => r.parentReceiptId = some id :=
  kids_map_append h.receipts (fun r _ => parentReceiptId_finished genesis done r) id

/-- A root is settled at most once. -/
theorem Covers.count_root (h : base.Covers done) (root : LegacyReceipt) :
    (done.map Settlement.root).count root =
      if root ∈ done.map Settlement.root then 1 else 0 :=
  h.nodup.count

/-- What settlements add under a root. -/
theorem Covers.sum_children (h : base.Covers done) (close : ℚ → ℚ → Bool)
    (hroot : root ∈ base.roots) :
    sumQty ((done.map (base.settlementChild close)).filter fun t =>
      t.rootReceiptId = some root.id ∧ !t.isParent) =
      if root ∈ done.map Settlement.root then base.storedGap root else 0 := by
  have hfilter : (done.filter ((fun t : LegacyReceipt =>
      decide (t.rootReceiptId = some root.id ∧ !t.isParent)) ∘ base.settlementChild close)) =
      done.filter ((fun r => decide (r = root)) ∘ Settlement.root) := by
    apply List.filter_congr
    intro x hx
    have hiff : x.root.id = root.id ↔ x.root = root :=
      ⟨eq_of_id (mem_roots.mp (h.root_mem hx)).1 (mem_roots.mp hroot).1,
        congrArg LegacyReceipt.id⟩
    simp [settlementChild, reconChild, hiff]
  calc sumQty ((done.map (base.settlementChild close)).filter fun t =>
        t.rootReceiptId = some root.id ∧ !t.isParent)
      = (((done.map Settlement.root).filter fun r => r = root).map base.storedGap).sum := by
        rw [List.filter_map, List.filter_map, sumQty, List.map_map, List.map_map, hfilter]
        rfl
    _ = if root ∈ done.map Settlement.root then base.storedGap root else 0 := by
        rw [List.filter_eq, h.count_root]
        split <;> simp

theorem sumQty_finished (genesis : Draws) (done : List Settlement) (rows : List LegacyReceipt) :
    sumQty (rows.map (finished genesis done)) = sumQty rows := by
  simp [sumQty, Function.comp_def]

theorem sumQty_append (rows rows' : List LegacyReceipt) :
    sumQty (rows ++ rows') = sumQty rows + sumQty rows' := by
  simp [sumQty]

variable (hbase : base.Prepared) (hcovers : base.Covers done)
  (h : base.Settled close genesis done db)

include hbase hcovers

/-- Settling raises no flag, because the roots with a gap have children. -/
theorem Covers.isParent_finished {r : LegacyReceipt} (hr : r ∈ base.receipts.rows) :
    (finished genesis done r).isParent = r.isParent := by
  unfold finished
  split
  · split
    · rename_i x hx
      have hmem := List.mem_of_find?_eq_some hx
      have hid : x.root.id = r.id := by simpa using List.find?_some hx
      have hroot := hcovers.root_mem hmem
      have hflag := hbase.flagged hroot (hcovers.mem x hmem).2.1
      rw [eq_of_id (mem_roots.mp hroot).1 hr hid] at hflag
      exact hflag.symm
    · rfl
  · rfl

include h

theorem Settled.forest : legacyTree.IsForest db.receipts.rows := by
  rw [h.receipts]
  apply hbase.forest.extend (fun r _ => id_finished genesis done r)
    (fun r _ => parentReceiptId_finished genesis done r)
  · intro r hr
    obtain ⟨x, hx, rfl⟩ := List.mem_map.mp hr
    exact ⟨x.root, (mem_roots.mp (hcovers.root_mem hx)).1, rfl⟩
  · intro r hr p hp
    obtain ⟨x, hx, rfl⟩ := List.mem_map.mp hr
    exact h.child_fresh hx hp

theorem Settled.rooted : db.Rooted where
  self := by
    intro r hr hparent
    rcases h.mem_receipts.mp hr with ⟨x, hx, rfl⟩ | ⟨x, -, rfl⟩
    · rw [parentReceiptId_finished] at hparent
      rw [rootReceiptId_finished, id_finished]
      exact hbase.self x hx hparent
    · cases hparent
  inherited := by
    intro r hr p hp hparent
    rcases h.mem_receipts.mp hp with ⟨y, hy, rfl⟩ | ⟨y, hy, rfl⟩
    · rw [id_finished] at hparent
      rw [rootReceiptId_finished]
      rcases h.mem_receipts.mp hr with ⟨x, hx, rfl⟩ | ⟨x, hx, rfl⟩
      · rw [parentReceiptId_finished] at hparent
        rw [rootReceiptId_finished]
        exact hbase.inherited x hx y hy hparent
      · obtain ⟨hroot, htop⟩ := mem_roots.mp (hcovers.root_mem hx)
        have hsame : x.root = y := eq_of_id hroot hy (Option.some_inj.mp hparent)
        rw [← hsame, hbase.self x.root hroot htop]
        rfl
    · -- nothing hangs under a child that a settlement added
      exfalso
      rcases h.mem_receipts.mp hr with ⟨x, hx, rfl⟩ | ⟨x, hx, rfl⟩
      · rw [parentReceiptId_finished] at hparent
        obtain ⟨p, hp, hid⟩ := hbase.forest.closed x hx _ hparent
        exact h.child_fresh hy hp hid.symm
      · have hroot := (mem_roots.mp (hcovers.root_mem hx)).1
        exact h.child_fresh hy hroot (Option.some_inj.mp hparent).symm

theorem Settled.no_grandchildren {x : Settlement} (hx : x ∈ done) :
    db.kids (base.settlementChild close x).id = [] := by
  rw [h.kids_eq, List.append_eq_nil_iff]
  constructor
  · rw [List.map_eq_nil_iff, List.eq_nil_iff_forall_not_mem]
    intro r hr
    obtain ⟨hrow, hlink⟩ := mem_kids.mp hr
    obtain ⟨p, hp, hid⟩ := hbase.forest.closed r hrow _ hlink
    exact h.child_fresh hx hp hid.symm
  · rw [List.filter_eq_nil_iff]
    intro r hr hlink
    obtain ⟨y, hy, rfl⟩ := List.mem_map.mp hr
    have hid : y.root.id = (base.settlementChild close x).id := by
      simpa [settlementChild, reconChild] using hlink
    exact h.child_fresh hx (mem_roots.mp (hcovers.root_mem hy)).1 hid.symm

theorem Settled.promoted : db.Promoted := by
  intro p hp hkids
  rcases h.mem_receipts.mp hp with ⟨r, hr, rfl⟩ | ⟨x, hx, rfl⟩
  · rw [id_finished, h.kids_eq] at hkids
    by_cases hbefore : base.kids r.id = []
    · -- its only children were added by settlements
      rw [hbefore, List.map_nil, List.nil_append] at hkids
      obtain ⟨c, hc⟩ := List.exists_mem_of_ne_nil _ hkids
      obtain ⟨hmem, hlink⟩ := List.mem_filter.mp hc
      obtain ⟨x, hx, rfl⟩ := List.mem_map.mp hmem
      have hid : x.root.id = r.id := by simpa [settlementChild, reconChild] using hlink
      obtain ⟨hroot, htop⟩ := mem_roots.mp (hcovers.root_mem hx)
      rw [eq_of_id hroot hr hid] at htop
      exact finished_split genesis done r htop ⟨x, hx, hid⟩
    · obtain ⟨hflag, hstatus⟩ := hbase.promoted r hr hbefore
      rw [hcovers.isParent_finished hbase hr]
      exact ⟨hflag, status_finished genesis done r hstatus⟩
  · exact absurd (h.no_grandchildren hbase hcovers hx) hkids

/-- The leaves under a root: a settled root weighs as much as they do. -/
theorem Settled.leafSum_eq (hroot : root ∈ base.roots) :
    db.leafSum root.id =
      if root ∈ done.map Settlement.root then root.quantity else base.leafSum root.id := by
  have hown : ((base.receipts.rows.map (finished genesis done)).filter fun t =>
      t.rootReceiptId = some root.id ∧ !t.isParent) = (base.receipts.rows.filter fun t =>
        t.rootReceiptId = some root.id ∧ !t.isParent).map (finished genesis done) := by
    rw [List.filter_map]
    congr 1
    apply List.filter_congr
    intro r hr
    simp only [Function.comp, rootReceiptId_finished, hcovers.isParent_finished hbase hr]
  calc db.leafSum root.id
      = base.leafSum root.id +
          if root ∈ done.map Settlement.root then base.storedGap root else 0 := by
        rw [leafSum, h.receipts, List.filter_append, sumQty_append, hown, sumQty_finished,
          hcovers.sum_children close hroot]
        rfl
    _ = _ := by
        split
        · rename_i hsettled
          rw [hbase.storedGap_eq hroot (hcovers.of_settled hsettled).2.2]
          exact add_sub_cancel _ _
        · exact add_zero _

/-- The row of the gap query for a root, after some settlements. -/
def rowAfter (base : LegacyDb) (done : List Settlement) (root : LegacyReceipt) : GapRow :=
  if root ∈ done.map Settlement.root then ⟨root.id, root.quantity, root.quantity⟩
  else base.gapRow root

/-- The gap query after some settlements. -/
theorem Settled.gapRows_eq : db.gapRows = base.roots.map (base.rowAfter done) := by
  rw [LegacyDb.gapRows_eq (h.forest hbase hcovers) (h.rooted hbase hcovers), h.roots_eq,
    List.map_map]
  apply List.map_congr_left
  intro root hroot
  simp only [Function.comp, gapRow, rowAfter, id_finished, quantity_finished,
    h.leafSum_eq hbase hcovers hroot]
  split <;> rfl

end Facts

end LegacyDb

end SecureStore.Backfill
