/-
# The verification gate after the backfill

A run that completes leaves roots that name themselves, genesis events, and leaves that
weigh as much as their root: what it adds closes the gap between a root and its leaves. The
gate also compares every other parent with its direct children, where the run adds nothing,
and every root with its direct children. So it passes exactly when the parents below the
roots were balanced before, and what stale parent flags hide from the leaf sums is nothing.
-/

import SecureStore.Backfill.Rerun

namespace SecureStore.Backfill

open SecureStore.Foundation SecureStore.Inventory

namespace LegacyDb

variable {base db s : LegacyDb} {close : ℚ → ℚ → Bool} {genesis draws : Draws}
  {done : List Settlement} {root : LegacyReceipt}

/-- Every receipt below a root that has children weighs as much as they do. -/
def InnerBalanced (db : LegacyDb) : Prop :=
  ∀ r ∈ db.receipts.rows, r.parentReceiptId ≠ none → db.kids r.id ≠ [] →
    r.quantity = sumQty (db.kids r.id)

/-- The receipts below a root that are flagged as parents and have no children. -/
def strayParents (db : LegacyDb) (root : LegacyReceipt) : List LegacyReceipt :=
  (db.treeOf root).filter fun r => r.isParent ∧ db.kids r.id = [] ∧ r.id ≠ root.id

/-! ### What the gate checks -/

section Checks

variable (hforest : legacyTree.IsForest db.receipts.rows)

include hforest

/-- What the unflagged receipts of a tree weigh. -/
theorem leafSum_eq_treeOf (hrooted : db.Rooted) (hroot : root ∈ db.roots) :
    db.leafSum root.id = sumQty ((db.treeOf root).filter fun t => !t.isParent) := by
  have hperm : (db.receipts.rows.filter fun t => t.rootReceiptId = some root.id).Perm
      (db.treeOf root) := by
    apply (List.perm_ext_iff_of_nodup ((List.Nodup.of_map _ db.receipts.nodup).filter _)
      (treeOf_nodup hforest hroot)).mpr
    intro x
    rw [hrooted.mem_treeOf hforest hroot, List.mem_filter, decide_eq_true_eq]
  have hleaves := sumQty_perm (hperm.filter fun t => !t.isParent)
  rw [List.filter_filter] at hleaves
  rw [← hleaves, leafSum]
  congr 1
  apply List.filter_congr
  intro t _
  simp [and_comm]

/-- A root that weighs as much as its leaves weighs as much as its children, too, exactly when
its stray parents weigh nothing, provided the parents below it are balanced. -/
theorem Promoted.root_balanced_iff (hpromoted : db.Promoted) (hrooted : db.Rooted)
    (hinner : db.InnerBalanced) (hroot : root ∈ db.roots)
    (hleaves : root.quantity = db.leafSum root.id) (hkids : db.kids root.id ≠ []) :
    root.quantity = sumQty (db.kids root.id) ↔ sumQty (db.strayParents root) = 0 := by
  have hrow := (mem_roots.mp hroot).1
  have hsubset := treeOf_subset hforest hrow
  have hself := root_mem_treeOf hforest hrow
  let surplus := legacyTree.surplus db.receipts.rows LegacyReceipt.quantity
  -- a receipt of the tree is the root, or balanced, or childless and counted by its flag
  have hpoint : ∀ x ∈ db.treeOf root, surplus x =
      (if x = root then surplus x else 0) + (if !x.isParent then x.quantity else 0) +
        if x.isParent ∧ db.kids x.id = [] ∧ x.id ≠ root.id then x.quantity else 0 := by
    intro x hx
    have hxrow := hsubset x hx
    by_cases hxroot : x = root
    · subst hxroot
      simp [(hpromoted x hxrow hkids).1]
    · have hid : x.id ≠ root.id := fun hid => hxroot (eq_of_id hxrow hrow hid)
      have hparent : x.parentReceiptId ≠ none := by
        intro hnone
        have hxself : x ∈ db.roots := mem_roots.mpr ⟨hxrow, hnone⟩
        exact hxroot (root_unique hforest hxself hroot (root_mem_treeOf hforest hxrow) hx)
      rw [if_neg hxroot, zero_add]
      by_cases hxkids : db.kids x.id = []
      · have hsurplus : surplus x = x.quantity := Lineage.surplus_of_childless hxkids
        rw [hsurplus]
        cases hflag : x.isParent with
        | true => simp [hxkids, hid]
        | false => simp
      · have hsurplus : surplus x = 0 := sub_eq_zero_of_eq (hinner x hxrow hparent hxkids)
        rw [hsurplus, (hpromoted x hxrow hxkids).1]
        simp [hxkids]
  have hroots : ((db.treeOf root).filter fun x => x = root) = [root] := by
    rw [List.filter_eq, List.count_eq_one_of_mem (treeOf_nodup hforest hroot) hself]
    rfl
  have hsum : root.quantity =
      surplus root + db.leafSum root.id + sumQty (db.strayParents root) := by
    calc root.quantity
        = ((db.treeOf root).map surplus).sum := by
          rw [← Lineage.sum_surplus (descend_treeOf hforest hrow)]
          simp
      _ = _ := by
          rw [List.map_congr_left hpoint, List.sum_map_add, List.sum_map_add,
            leafSum_eq_treeOf hforest hrooted hroot, strayParents, sumQty, sumQty, sum_filter,
            sum_filter]
          have hone := sum_filter (db.treeOf root) (fun x => decide (x = root)) surplus
          rw [hroots] at hone
          simp only [decide_eq_true_eq] at hone ⊢
          rw [← hone]
          simp
  have hsurplus : surplus root = root.quantity - sumQty (db.kids root.id) := rfl
  rw [hsurplus, ← hleaves] at hsum
  constructor
  · intro h
    linarith
  · intro h
    linarith

theorem strayParents_childless (hroot : root ∈ db.roots) (hkids : db.kids root.id = []) :
    db.strayParents root = [] := by
  unfold strayParents
  rw [List.filter_eq_nil_iff]
  intro x hx hstray
  rw [treeOf_childless hforest (mem_roots.mp hroot).1 hkids x hx] at hstray
  simp at hstray

/-- The second check, on a database whose roots weigh as much as their leaves. -/
theorem badParents_eq_nil_iff (hpromoted : db.Promoted) (hrooted : db.Rooted)
    (hleaves : ∀ root ∈ db.roots, root.quantity = db.leafSum root.id) :
    db.badParents = [] ↔
      db.InnerBalanced ∧ ∀ root ∈ db.roots, sumQty (db.strayParents root) = 0 := by
  have hall : db.badParents = [] ↔ ∀ p ∈ db.receipts.rows, db.kids p.id ≠ [] →
      p.quantity = sumQty (db.kids p.id) := by
    unfold badParents
    rw [List.filter_eq_nil_iff]
    constructor
    · intro h p hp hkids
      by_contra hne
      exact h p hp (by simp [(hpromoted p hp hkids).1, hkids, hne])
    · intro h p hp hbad
      simp only [decide_eq_true_eq] at hbad
      exact hbad.2.2 (h p hp hbad.2.1)
  rw [hall]
  constructor
  · intro h
    have hinner : db.InnerBalanced := fun r hr _ hkids => h r hr hkids
    refine ⟨hinner, ?_⟩
    intro root hroot
    by_cases hkids : db.kids root.id = []
    · rw [strayParents_childless hforest hroot hkids]
      rfl
    · exact (hpromoted.root_balanced_iff hforest hrooted hinner hroot (hleaves root hroot)
        hkids).mp (h root (mem_roots.mp hroot).1 hkids)
  · rintro ⟨hinner, hstray⟩ p hp hkids
    by_cases hparent : p.parentReceiptId = none
    · have hroot : p ∈ db.roots := mem_roots.mpr ⟨hp, hparent⟩
      exact (hpromoted.root_balanced_iff hforest hrooted hinner hroot (hleaves p hroot)
        hkids).mpr (hstray p hroot)
    · exact hinner p hp hparent hkids

end Checks

theorem verify_eq_nil_iff : db.verify = [] ↔
    db.nullRoots = [] ∧ db.badParents = [] ∧ db.badRoots = [] ∧ db.badGenesis = [] := by
  unfold verify
  simp only [List.append_eq_nil_iff, and_assoc, ite_eq_right_iff, List.cons_ne_nil, imp_false,
    not_lt, Nat.le_zero, List.length_eq_zero_iff]

/-- The other checks pass after a run that got through without negative gaps. -/
theorem Settled.verify_iff (hbase : base.Prepared) (hcovers : base.Covers done)
    (hall : ∀ root ∈ base.roots, 0 < base.gap root → root ∈ done.map Settlement.root)
    (h : base.Settled close genesis done s) (hnegatives : negatives base.gapRows = []) :
    s.verify = [] ↔ s.InnerBalanced ∧ ∀ root ∈ s.roots, sumQty (s.strayParents root) = 0 := by
  have hforest := h.forest hbase hcovers
  have hrooted := h.rooted hbase hcovers
  have hleaves : ∀ root ∈ s.roots, root.quantity = s.leafSum root.id := by
    intro root' hroot'
    rw [h.roots_eq] at hroot'
    obtain ⟨root, hroot, rfl⟩ := List.mem_map.mp hroot'
    rw [quantity_finished, id_finished, h.leafSum_eq hbase hcovers hroot]
    by_cases hgap : 0 < base.gap root
    · rw [if_pos (hall root hroot hgap)]
    · rw [if_neg fun hsettled => hgap (hcovers.of_settled hsettled).2.1]
      have hnonneg : ¬ base.gap root < 0 := by
        intro hneg
        unfold negatives at hnegatives
        rw [List.map_eq_nil_iff, List.filter_eq_nil_iff,
          LegacyDb.gapRows_eq hbase.forest hbase.toRooted] at hnegatives
        exact hnegatives _ (List.mem_map_of_mem hroot) (decide_eq_true hneg)
      have hzero : base.gap root = 0 := le_antisymm (not_lt.mp hgap) (not_lt.mp hnonneg)
      exact sub_eq_zero.mp ((roundSig_eq_zero_iff (by norm_num)).mp hzero)
  have hnull : s.nullRoots = [] := by
    unfold nullRoots
    rw [List.filter_eq_nil_iff]
    intro r hr
    obtain ⟨root, -, hnames⟩ := hrooted.names_root hforest hr
    simp [hnames]
  have hbadRoots : s.badRoots = [] := by
    unfold badRoots
    rw [LegacyDb.gapRows_eq hforest hrooted, List.filter_eq_nil_iff]
    intro g hg
    obtain ⟨root, hroot, rfl⟩ := List.mem_map.mp hg
    simp [gapRow, ← hleaves root hroot]
  have hgenesis : s.badGenesis = [] := by
    unfold badGenesis
    rw [List.filter_eq_nil_iff, h.roots_eq]
    intro r' hr'
    obtain ⟨r, hr, rfl⟩ := List.mem_map.mp hr'
    have hmem : genesisEvent genesis r ∈ s.events.rows := by
      rw [h.events]
      exact List.mem_append_left _ (List.mem_map_of_mem hr)
    have hany : s.events.rows.any (fun e => some e.id = (finished genesis done r).sourceEventId ∧
        e.eventType = .deposit ∧ e.quantity = (finished genesis done r).quantity) = true := by
      rw [List.any_eq_true]
      refine ⟨_, hmem, ?_⟩
      rw [sourceEventId_finished genesis done r (mem_roots.mp hr).2, quantity_finished]
      simp [genesisEvent]
    rw [hany]
    decide
  rw [verify_eq_nil_iff,
    badParents_eq_nil_iff hforest (h.promoted hbase hcovers) hrooted hleaves]
  simp [hnull, hbadRoots, hgenesis]

/-! ### What a run leaves as it was -/

/-- Rewriting receipts in place and hanging childless unflagged ones under the roots, with the
flags of the other childless receipts left alone. -/
structure Extends (db s : LegacyDb) (f : LegacyReceipt → LegacyReceipt)
    (added : List LegacyReceipt) : Prop where
  receipts : s.receipts.rows = db.receipts.rows.map f ++ added
  id_eq : ∀ r, (f r).id = r.id
  parent_eq : ∀ r, (f r).parentReceiptId = r.parentReceiptId
  quantity_eq : ∀ r, (f r).quantity = r.quantity
  flag_eq : ∀ r ∈ db.receipts.rows, db.kids r.id = [] → r.parentReceiptId ≠ none →
    (f r).isParent = r.isParent
  hung : ∀ c ∈ added, c.isParent = false ∧ ∃ root ∈ db.roots, c.parentReceiptId = some root.id
  fresh : ∀ c ∈ added, ∀ r ∈ db.receipts.rows, c.id ≠ r.id

section Extends

variable {f : LegacyReceipt → LegacyReceipt} {added : List LegacyReceipt}
  (hext : Extends db s f added) (hforest : legacyTree.IsForest db.receipts.rows)

include hext

theorem Extends.kids_eq {r : LegacyReceipt} (hr : r ∈ db.receipts.rows)
    (hparent : r.parentReceiptId ≠ none) : s.kids r.id = (db.kids r.id).map f := by
  rw [kids_map_append hext.receipts fun x _ => hext.parent_eq x]
  have hnone : legacyTree.children added r.id = [] := by
    rw [List.eq_nil_iff_forall_not_mem]
    intro c hc
    obtain ⟨hmem, hlink⟩ := Lineage.mem_children.mp hc
    obtain ⟨-, root, hroot, hunder⟩ := hext.hung c hmem
    have hid : root.id = r.id := Option.some_inj.mp (hunder.symm.trans hlink)
    obtain ⟨hrow, htop⟩ := mem_roots.mp hroot
    rw [eq_of_id hrow hr hid] at htop
    exact hparent htop
  rw [hnone, List.append_nil]

theorem Extends.sum_map (rows : List LegacyReceipt) : sumQty (rows.map f) = sumQty rows := by
  simp [sumQty, Function.comp_def, hext.quantity_eq]

theorem Extends.mem_of_mem {r : LegacyReceipt} (hr : r ∈ db.receipts.rows) :
    f r ∈ s.receipts.rows := by
  rw [hext.receipts]
  exact List.mem_append_left _ (List.mem_map_of_mem hr)

theorem Extends.roots_eq : s.roots = db.roots.map f := by
  unfold roots
  rw [hext.receipts, List.filter_append, List.filter_map]
  have hnone : added.filter (fun r => (legacyTree.parent r).isNone) = [] := by
    rw [List.filter_eq_nil_iff]
    intro c hc
    obtain ⟨-, root, -, hunder⟩ := hext.hung c hc
    simp [hunder]
  rw [hnone, List.append_nil]
  congr 1
  apply List.filter_congr
  intro r _
  simp [hext.parent_eq]

include hforest

theorem Extends.forest : legacyTree.IsForest s.receipts.rows := by
  rw [hext.receipts]
  apply hforest.extend (fun r _ => hext.id_eq r) (fun r _ => hext.parent_eq r) _ hext.fresh
  intro c hc
  obtain ⟨-, root, hroot, hunder⟩ := hext.hung c hc
  exact ⟨root, (mem_roots.mp hroot).1, hunder⟩

/-- Receipts stay in the tree they were in. -/
theorem Extends.mem_treeOf_iff (hroot : root ∈ db.roots) {r : LegacyReceipt}
    (hr : r ∈ db.receipts.rows) : f r ∈ s.treeOf (f root) ↔ r ∈ db.treeOf root := by
  have hforest' := hext.forest hforest
  have hkeep : ∀ root ∈ db.roots, ∀ r ∈ db.treeOf root, f r ∈ s.treeOf (f root) := by
    intro root hroot
    have hrow := (mem_roots.mp hroot).1
    have hrow' := hext.mem_of_mem hrow
    apply Lineage.descend_induction (P := fun r => f r ∈ s.treeOf (f root))
      (descend_treeOf hforest hrow)
    · intro t ht
      rw [List.mem_singleton.mp ht]
      exact root_mem_treeOf hforest' hrow'
    · intro p hp r hr hlink
      apply (LegacyDb.mem_treeOf_iff hforest' hrow').mpr
      refine .inr ⟨hext.mem_of_mem hr, f p, hp, ?_⟩
      rw [hext.parent_eq, hext.id_eq]
      exact hlink
  constructor
  · intro h
    obtain ⟨root', hroot', hmem⟩ := exists_root hforest hr
    have hroots : ∀ x ∈ db.roots, f x ∈ s.roots := by
      intro x hx
      rw [hext.roots_eq]
      exact List.mem_map_of_mem hx
    have hsame := root_unique hforest' (hroots _ hroot') (hroots _ hroot)
      (hkeep _ hroot' r hmem) h
    have hid := congrArg LegacyReceipt.id hsame
    rw [hext.id_eq, hext.id_eq] at hid
    rwa [← eq_of_id (mem_roots.mp hroot').1 (mem_roots.mp hroot).1 hid]
  · exact hkeep root hroot r

theorem Extends.innerBalanced_iff : s.InnerBalanced ↔ db.InnerBalanced := by
  have hforest' := hext.forest hforest
  constructor
  · intro h r hr hparent hkids
    have hbalanced := h (f r) (hext.mem_of_mem hr)
    rw [hext.parent_eq, hext.id_eq, hext.quantity_eq, hext.kids_eq hr hparent,
      hext.sum_map] at hbalanced
    apply hbalanced hparent
    rwa [Ne, List.map_eq_nil_iff]
  · intro h r' hr' hparent hkids
    rw [hext.receipts] at hr'
    rcases List.mem_append.mp hr' with hr' | hr'
    · obtain ⟨r, hr, rfl⟩ := List.mem_map.mp hr'
      rw [hext.parent_eq] at hparent
      rw [hext.id_eq, hext.kids_eq hr hparent] at hkids ⊢
      rw [hext.quantity_eq, hext.sum_map]
      apply h r hr hparent
      rwa [Ne, List.map_eq_nil_iff] at hkids
    · -- nothing hangs under what was added
      exfalso
      obtain ⟨c, hc⟩ := List.exists_mem_of_ne_nil _ hkids
      obtain ⟨hmem, hlink⟩ := mem_kids.mp hc
      rw [hext.receipts] at hmem
      rcases List.mem_append.mp hmem with hmem | hmem
      · obtain ⟨r, hr, rfl⟩ := List.mem_map.mp hmem
        rw [hext.parent_eq] at hlink
        obtain ⟨p, hp, hid⟩ := hforest.closed r hr _ hlink
        exact hext.fresh r' hr' p hp hid.symm
      · obtain ⟨-, root, hroot, hunder⟩ := hext.hung c hmem
        exact hext.fresh r' hr' root (mem_roots.mp hroot).1
          (Option.some_inj.mp (hlink.symm.trans hunder))

theorem Extends.strayParents_perm (hroot : root ∈ db.roots) :
    (s.strayParents (f root)).Perm ((db.strayParents root).map f) := by
  have hforest' := hext.forest hforest
  have hroot' : f root ∈ s.roots := by
    rw [hext.roots_eq]
    exact List.mem_map_of_mem hroot
  have hrow := (mem_roots.mp hroot).1
  have hnodup : ((db.strayParents root).map f).Nodup := by
    apply List.Nodup.map_on _ ((treeOf_nodup hforest hroot).filter _)
    intro x hx y hy hxy
    have hid := congrArg LegacyReceipt.id hxy
    rw [hext.id_eq, hext.id_eq] at hid
    exact eq_of_id (treeOf_subset hforest hrow x (List.mem_filter.mp hx).1)
      (treeOf_subset hforest hrow y (List.mem_filter.mp hy).1) hid
  -- below a root a receipt keeps its flag and its children
  have hiff : ∀ r ∈ db.receipts.rows, f r ∈ s.strayParents (f root) ↔ r ∈ db.strayParents root := by
    intro r hr
    unfold strayParents
    rw [List.mem_filter, List.mem_filter, hext.mem_treeOf_iff hforest hroot hr, hext.id_eq,
      hext.id_eq, decide_eq_true_eq, decide_eq_true_eq]
    apply and_congr_right
    intro htree
    by_cases hid : r.id = root.id
    · simp [hid]
    · have hparent : r.parentReceiptId ≠ none := by
        intro htop
        have hself : r ∈ db.roots := mem_roots.mpr ⟨hr, htop⟩
        apply hid
        rw [root_unique hforest hself hroot (root_mem_treeOf hforest hr) htree]
      rw [hext.kids_eq hr hparent, List.map_eq_nil_iff]
      constructor
      · rintro ⟨hflag, hkids, hne⟩
        rw [hext.flag_eq r hr hkids hparent] at hflag
        exact ⟨hflag, hkids, hne⟩
      · rintro ⟨hflag, hkids, hne⟩
        rw [hext.flag_eq r hr hkids hparent]
        exact ⟨hflag, hkids, hne⟩
  apply (List.perm_ext_iff_of_nodup ((treeOf_nodup hforest' hroot').filter _) hnodup).mpr
  intro x
  constructor
  · intro hx
    obtain ⟨htree, hstray⟩ := List.mem_filter.mp hx
    have hxrow := treeOf_subset hforest' (mem_roots.mp hroot').1 x htree
    rw [hext.receipts] at hxrow
    rcases List.mem_append.mp hxrow with hxrow | hxrow
    · obtain ⟨r, hr, rfl⟩ := List.mem_map.mp hxrow
      exact List.mem_map_of_mem ((hiff r hr).mp hx)
    · rw [(hext.hung x hxrow).1] at hstray
      simp at hstray
  · intro hx
    obtain ⟨r, hr, rfl⟩ := List.mem_map.mp hx
    exact (hiff r (treeOf_subset hforest hrow r (List.mem_filter.mp hr).1)).mpr hr

end Extends

/-- What settled roots leave of the legacy table. -/
theorem Settled.extends (hlegacy : db.Legacy)
    (hcovers : db.setRoots.promoteParents.Covers done)
    (h : db.setRoots.promoteParents.Settled close genesis done s) :
    Extends db s (fun r => finished genesis done (db.structured r))
      (done.map (db.setRoots.promoteParents.settlementChild close)) where
  receipts := by
    rw [h.receipts, structured_rows hlegacy, List.map_map]
    rfl
  id_eq := by
    intro r
    rw [id_finished, structured, id_promoted]
    rfl
  parent_eq := by
    intro r
    rw [parentReceiptId_finished, structured, parentReceiptId_promoted]
    rfl
  quantity_eq := by
    intro r
    rw [quantity_finished, structured, quantity_promoted]
    rfl
  flag_eq := by
    intro r hr hkids hparent
    have hrow : db.structured r ∈ db.setRoots.promoteParents.receipts.rows := by
      rw [structured_rows hlegacy]
      exact List.mem_map_of_mem hr
    rw [hcovers.isParent_finished hlegacy.prepared hrow, Bool.eq_iff_iff, ← not_iff_not,
      Bool.not_eq_true, Bool.not_eq_true, isParent_structured hlegacy hr]
    exact and_iff_right hkids
  hung := by
    intro c hc
    obtain ⟨x, hx, rfl⟩ := List.mem_map.mp hc
    refine ⟨rfl, ?_⟩
    have hroot := hcovers.root_mem hx
    rw [structured_roots hlegacy] at hroot
    obtain ⟨root, hmem, hroot⟩ := List.mem_map.mp hroot
    refine ⟨root, hmem, ?_⟩
    have hid : x.root.id = root.id := by
      rw [← hroot]
      exact id_promoted (db.rerooted root)
    exact congrArg some hid
  fresh := by
    intro c hc r hr hid
    obtain ⟨x, hx, rfl⟩ := List.mem_map.mp hc
    have hrow : db.structured r ∈ db.setRoots.promoteParents.receipts.rows := by
      rw [structured_rows hlegacy]
      exact List.mem_map_of_mem hr
    apply h.child_fresh hx hrow
    rw [structured, id_promoted]
    exact hid

/-- After a run that completes, the gate passes exactly when, in the legacy table, every parent
below a root weighed as much as its children and the stray parents below each root weighed
nothing together. -/
theorem backfill_verifies_iff (draws : Draws) (close : ℚ → ℚ → Bool) {db db' : LegacyDb}
    (hlegacy : db.Legacy) (h : (backfill draws close).exec db = (.ok (), db')) :
    db'.verify = [] ↔
      db.InnerBalanced ∧ ∀ root ∈ db.roots, sumQty (db.strayParents root) = 0 := by
  have hstage : Stage close db db := .legacy
  have hnew : False → draws.New db := False.elim
  have hrun := (hstage.run hlegacy hnew).exec
  rw [show Process.exec (backfill draws close) db = (.ok (), db') from h] at hrun
  rcases hrun with ⟨genesis, first, passed, rest, done, hgoes, hpassed, hcovers, hsettled,
    hended⟩ | ⟨-, e, herr⟩
  swap
  · cases herr
  cases hended with
  | completed hnegatives =>
      have hext := hsettled.extends hlegacy hcovers
      have hall : ∀ root ∈ db.setRoots.promoteParents.roots,
          0 < db.setRoots.promoteParents.gap root → root ∈ done.map Settlement.root := by
        intro root hroot
        exact hpassed.settled root (by simpa using hgoes.perm.mem_iff.mpr hroot)
      rw [hsettled.verify_iff hlegacy.prepared hcovers hall hnegatives,
        hext.innerBalanced_iff hlegacy.forest, hext.roots_eq, List.forall_mem_map]
      apply and_congr_right
      intro _
      apply forall₂_congr
      intro root hroot
      rw [sumQty_perm (hext.strayParents_perm hlegacy.forest hroot), hext.sum_map]

/-- A root of 10 over a child of 6. -/
def gapLegacy : LegacyDb where
  receipts := ⟨[legacyReceipt 0 none 10, legacyReceipt 1 (some 0) 6], by decide⟩
  events := Table.empty
  withdrawals := []
  availableRequired := false

theorem legacy_gapLegacy : gapLegacy.Legacy where
  forest :=
    { closed := by decide
      increases := ⟨fun k => k, by decide⟩ }
  scale := by
    intro r hr
    have hwhole : ∀ x ∈ gapLegacy.receipts.rows,
        x.quantity * 10 ^ 3 = ((x.quantity.num * 1000 : ℤ) : ℚ) := by decide +kernel
    exact ⟨_, hwhole r hr⟩
  numbers := by decide
  noEvents := rfl
  noSources := by decide

/-- A run that settles a gap at a root, after which the gate passes. -/
theorem backfill_verifies_sample :
    ((backfill (drawsFrom 100) fun w gap => w = gap).exec gapLegacy).2.verify = [] :=
  (backfill_verifies_iff (drawsFrom 100) _ legacy_gapLegacy
    (Prod.ext (by decide +kernel) rfl)).mpr
      ⟨by unfold InnerBalanced; decide +kernel, by decide +kernel⟩

/-- A root of 10 over 6 and 6, the first of these over 4: the leaves weigh 10. -/
def unbalancedLegacy : LegacyDb where
  receipts := ⟨[legacyReceipt 0 none 10, legacyReceipt 1 (some 0) 6,
    legacyReceipt 2 (some 1) 4, legacyReceipt 3 (some 0) 6], by decide⟩
  events := Table.empty
  withdrawals := []
  availableRequired := true

theorem legacy_unbalancedLegacy : unbalancedLegacy.Legacy where
  forest :=
    { closed := by decide
      increases := ⟨fun k => if k = 3 then 1 else k, by decide⟩ }
  scale := by
    intro r hr
    have hwhole : ∀ x ∈ unbalancedLegacy.receipts.rows,
        x.quantity * 10 ^ 3 = ((x.quantity.num * 1000 : ℤ) : ℚ) := by decide +kernel
    exact ⟨_, hwhole r hr⟩
  numbers := by decide
  noEvents := rfl
  noSources := by decide

/-- The run completes, and the gate finds two parents that differ from their children. -/
theorem unbalanced_not_verified :
    unbalancedLegacy.Legacy ∧
      ((backfill (drawsFrom 100) fun w gap => w = gap).exec unbalancedLegacy).1 = .ok () ∧
        ((backfill (drawsFrom 100) fun w gap => w = gap).exec unbalancedLegacy).2.verify =
          [.massViolation 2] :=
  ⟨legacy_unbalancedLegacy, by decide +kernel⟩

end LegacyDb

end SecureStore.Backfill
