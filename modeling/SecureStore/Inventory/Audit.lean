/-
# The audit

The replay check compares inner nodes with their children, but only those whose
stored flag marks them as parents and only through their children; the
reconciliation counts as leaves what the flag does not mark. On tables with stale
flags the two disagree, and this module says exactly when a passed audit means
that the trees conserve.
-/

import SecureStore.Inventory.Recon

namespace SecureStore.Inventory

open SecureStore.Foundation

/-- Why the whole table does not verify. -/
inductive AuditFailure where
  /-- `${n} parent(s) violate mass conservation` -/
  | massViolation (n : ℕ)
  deriving DecidableEq, Repr

structure Audit where
  ok : Bool
  failures : List AuditFailure

/-- The receipts under a receipt. -/
def kids (s : Ledger) (r : Receipt) : List Receipt := receiptTree.children s.receipts.rows r.id

/-- The inner nodes of the table, or of one tenant, that have children and differ from
their sum. -/
def allBadParents (tenantId : Option Id) (s : Ledger) : List Receipt :=
  s.receipts.rows.filter fun p =>
    p.isParent ∧ (tenantId = none ∨ tenantId = some p.tenantId) ∧ kids s p ≠ [] ∧
      p.quantity ≠ sumQuantity (kids s p)

/-- The recurring audit of the table or of one tenant. -/
def verifyAll (tenantId : Option Id) (s : Ledger) : Audit :=
  -- `root_receipt_id` is NOT NULL, so the count of NULL roots adds no failure
  let bad := allBadParents tenantId s
  let failures := if bad.length > 0 then [AuditFailure.massViolation bad.length] else []
  { ok := decide (failures.length = 0), failures := failures }

/-- A node that has children equals their sum. -/
def NodeConserves (s : Ledger) (r : Receipt) : Prop :=
  kids s r ≠ [] → r.quantity = sumQuantity (kids s r)

instance (s : Ledger) (r : Receipt) : Decidable (NodeConserves s r) :=
  inferInstanceAs (Decidable (kids s r ≠ [] → r.quantity = sumQuantity (kids s r)))

/-- What a passed audit is to mean for a tree: it reconciles, and its nodes conserve. -/
structure TreeConserves (s : Ledger) (rootReceiptId : Id) : Prop where
  balanced : ∃ recon, reconcileRoot .decimalJs rootReceiptId s = some recon ∧
    recon.balanced = true
  nodes : ∃ rows, tree s rootReceiptId = some rows ∧ ∀ r ∈ rows, NodeConserves s r

/-- The first DEPOSIT event of a tree carries the quantity of its root. -/
def Anchored (s : Ledger) (root : Receipt) : Prop :=
  (s.events.rows.find? fun e => e.rootReceiptId = root.id ∧ e.eventType = .deposit).map
    InventoryEvent.quantity = some root.quantity

/-- The flags of a tree hide nothing: the nodes with children that are not flagged conserve,
and they weigh as much as the flagged nodes without children. -/
structure FlagsHarmless (s : Ledger) (rows : List Receipt) : Prop where
  unflagged : ∀ r ∈ rows, r.isParent = false → NodeConserves s r
  weights : sumQuantity (rows.filter fun r => !r.isParent && decide (kids s r ≠ [])) =
    sumQuantity (rows.filter fun r => r.isParent && decide (kids s r = []))

section Sums

variable {rows : List Receipt}

theorem sumQuantity_cons (r : Receipt) :
    sumQuantity (r :: rows) = r.quantity + sumQuantity rows := by
  simp [sumQuantity]

/-- Rows are those that satisfy a predicate and those that do not. -/
theorem sumQuantity_filter_split (rows : List Receipt) (p q : Receipt → Bool) :
    sumQuantity (rows.filter p) = sumQuantity (rows.filter fun r => p r && q r) +
      sumQuantity (rows.filter fun r => p r && !q r) := by
  induction rows with
  | nil => simp [sumQuantity]
  | cons r rows ih =>
      cases hp : p r <;> cases hq : q r <;>
        simp only [List.filter_cons, hp, hq, Bool.and_self, Bool.and_true, Bool.and_false,
          Bool.not_true, Bool.not_false, Bool.false_eq_true, if_true, if_false,
          sumQuantity_cons] <;>
        linarith

end Sums

section Trees

variable {s : Ledger} {root : Receipt} {rows : List Receipt}

theorem tree_of_forest (hforest : receiptTree.IsForest s.receipts.rows)
    (hroot : root ∈ s.receipts) :
    ∃ rows, tree s root.id = some rows ∧
      receiptTree.descend s.receipts.rows s.receipts.rows.length [root] = some rows := by
  have hstart : s.receipts.rows.filter (fun r => r.id = root.id) = [root] :=
    Table.filter_key hroot
  obtain ⟨rank, hranked⟩ := hforest.ranked
  have hlevel : ∀ t ∈ [root], t ∈ s.receipts.rows := by
    intro t ht
    exact List.mem_singleton.mp ht ▸ hroot
  obtain ⟨rows, hrows⟩ := Lineage.descend_terminates hranked s.receipts.rows.length hlevel
    fun t _ => Nat.le_add_left _ _
  exact ⟨rows, by rw [tree, hstart, hrows], hrows⟩

theorem mem_table_of_tree (hroot : root ∈ s.receipts)
    (hrows : receiptTree.descend s.receipts.rows s.receipts.rows.length [root] = some rows) :
    ∀ r ∈ rows, r ∈ s.receipts := by
  apply Lineage.descend_subset _ hrows
  intro t ht
  exact List.mem_singleton.mp ht ▸ hroot

/-- Where all nodes of a tree conserve, the root equals the nodes that are not flagged exactly
when the wrongly flagged nodes weigh as much as the wrongly unflagged ones. -/
theorem root_eq_unflagged_iff
    (hrows : receiptTree.descend s.receipts.rows s.receipts.rows.length [root] = some rows)
    (hnodes : ∀ r ∈ rows, NodeConserves s r) :
    root.quantity = sumQuantity (rows.filter fun r => !r.isParent) ↔
      sumQuantity (rows.filter fun r => !r.isParent && decide (kids s r ≠ [])) =
        sumQuantity (rows.filter fun r => r.isParent && decide (kids s r = [])) := by
  have hsurplus : ∀ r ∈ rows, receiptTree.children s.receipts.rows (receiptTree.key r) ≠ [] →
      receiptTree.surplus s.receipts.rows Receipt.quantity r = 0 := by
    intro r hr hkids
    exact sub_eq_zero.mpr (hnodes r hr hkids)
  have hchildless : root.quantity = sumQuantity (rows.filter fun r => decide (kids s r = [])) := by
    have hsum := Lineage.sum_childless hrows hsurplus
    rw [List.map_singleton, List.sum_singleton] at hsum
    exact hsum
  have hleaves := sumQuantity_filter_split rows (fun r => !r.isParent)
    fun r => decide (kids s r = [])
  have hstray := sumQuantity_filter_split rows (fun r => decide (kids s r = []))
    fun r => r.isParent
  simp only [Bool.and_comm, ← decide_not] at hleaves hstray ⊢
  rw [hchildless, hleaves, hstray]
  constructor
  · intro h
    linarith
  · intro h
    linarith

theorem reconcileRoot_balanced_iff (hroot : root ∈ s.receipts)
    (hrows : tree s root.id = some rows) :
    (∃ recon, reconcileRoot .decimalJs root.id s = some recon ∧ recon.balanced = true) ↔
      root.quantity = sumQuantity (rows.filter fun r => !r.isParent) := by
  have hfind : s.receipts.find root.id = some root := Table.find_of_mem hroot
  have hzero : ∀ x : ℚ, Numeric.decimalJs.minus root.quantity x = 0 ↔ root.quantity = x := by
    intro x
    exact (roundSig_eq_zero_iff (by decide)).trans sub_eq_zero
  simp [reconcileRoot, hrows, hfind, hzero]

theorem replayVerify_ok_iff (hroot : root ∈ s.receipts) (hrows : tree s root.id = some rows)
    (hmem : ∀ r ∈ rows, r ∈ s.receipts) :
    (∃ v, replayVerify root.id s = some v ∧ v.ok = true) ↔
      Anchored s root ∧ ∀ r ∈ rows, r.isParent = true → NodeConserves s r := by
  have hfind : s.receipts.find root.id = some root := Table.find_of_mem hroot
  have hbad : badParents s rows = [] ↔ ∀ r ∈ rows, r.isParent = true → NodeConserves s r := by
    simp only [badParents, List.filter_eq_nil_iff, decide_eq_true_eq, not_and, not_not]
    constructor
    · intro h r hr hflag hkids
      exact h r (hmem r hr) hflag (List.mem_map_of_mem hr) hkids
    · intro h p hp hflag hid hkids
      obtain ⟨r, hr, hrid⟩ := List.mem_map.mp hid
      obtain rfl := Table.eq_of_key_eq (hmem r hr) hp hrid
      exact h r hr hflag hkids
  rw [← hbad, ← List.length_eq_zero_iff]
  unfold Anchored
  simp only [replayVerify, hfind, hrows, Option.bind_eq_bind, Option.bind_some, Option.pure_def,
    Option.some_inj, exists_eq_left']
  by_cases hlength : (badParents s rows).length = 0 <;> simp [hlength]

theorem verifyAll_ok_iff : (verifyAll none s).ok = true ↔
    ∀ r ∈ s.receipts, r.isParent = true → NodeConserves s r := by
  have hbad : allBadParents none s = [] ↔
      ∀ r ∈ s.receipts, r.isParent = true → NodeConserves s r := by
    simp only [allBadParents, List.filter_eq_nil_iff, decide_eq_true_eq, not_and, not_not, true_or,
      forall_const]
    exact Iff.rfl
  rw [← hbad, ← List.length_eq_zero_iff]
  unfold verifyAll
  by_cases hlength : (allBadParents none s).length = 0
  · simp [hlength]
  · simp [hlength, Nat.pos_of_ne_zero hlength]

/-- Where the flagged nodes of a tree conserve, the tree conserves exactly when its flags are
harmless. -/
theorem treeConserves_iff (hforest : receiptTree.IsForest s.receipts.rows)
    (hroot : root ∈ s.receipts)
    (hrows : tree s root.id = some rows)
    (hflagged : ∀ r ∈ rows, r.isParent = true → NodeConserves s r) :
    TreeConserves s root.id ↔ FlagsHarmless s rows := by
  obtain ⟨rows', hrows', hdescend⟩ := tree_of_forest hforest hroot
  obtain rfl : rows = rows' := Option.some_inj.mp (hrows.symm.trans hrows')
  constructor
  · intro h
    obtain ⟨rows', hrows', hnodes⟩ := h.nodes
    obtain rfl : rows = rows' := Option.some_inj.mp (hrows.symm.trans hrows')
    constructor
    · intro r hr _
      exact hnodes r hr
    · apply (root_eq_unflagged_iff hdescend hnodes).mp
      exact (reconcileRoot_balanced_iff hroot hrows).mp h.balanced
  · intro h
    have hnodes : ∀ r ∈ rows, NodeConserves s r := by
      intro r hr
      cases hflag : r.isParent with
      | true => exact hflagged r hr hflag
      | false => exact h.unflagged r hr hflag
    constructor
    · apply (reconcileRoot_balanced_iff hroot hrows).mpr
      exact (root_eq_unflagged_iff hdescend hnodes).mpr h.weights
    · exact ⟨rows, hrows, hnodes⟩

end Trees

/-- On every table whose parent links form a finite forest: a passed replay of a root means
that its tree conserves, exactly when the flags of a tree that passes are harmless; and a
passed audit of the table means so for every root, exactly when the flags of every tree are. -/
theorem audit_sound_iff (s : Ledger) (hforest : receiptTree.IsForest s.receipts.rows) :
    (∀ root ∈ s.receipts, root.parentReceiptId = none →
      (((∃ v, replayVerify root.id s = some v ∧ v.ok = true) → TreeConserves s root.id) ↔
        ∀ rows, tree s root.id = some rows → Anchored s root →
          (∀ r ∈ rows, r.isParent = true → NodeConserves s r) → FlagsHarmless s rows)) ∧
    (((verifyAll none s).ok = true →
        ∀ root ∈ s.receipts, root.parentReceiptId = none → TreeConserves s root.id) ↔
      ((∀ r ∈ s.receipts, r.isParent = true → NodeConserves s r) →
        ∀ root ∈ s.receipts, root.parentReceiptId = none →
          ∀ rows, tree s root.id = some rows → FlagsHarmless s rows)) := by
  constructor
  · intro root hroot _
    obtain ⟨rows, hrows, hdescend⟩ := tree_of_forest hforest hroot
    rw [replayVerify_ok_iff hroot hrows (mem_table_of_tree hroot hdescend)]
    constructor
    · intro h rows' hrows' hanchor hflagged
      obtain rfl : rows = rows' := Option.some_inj.mp (hrows.symm.trans hrows')
      exact (treeConserves_iff hforest hroot hrows hflagged).mp (h ⟨hanchor, hflagged⟩)
    · intro h ⟨hanchor, hflagged⟩
      apply (treeConserves_iff hforest hroot hrows hflagged).mpr
      exact h rows hrows hanchor hflagged
  · rw [verifyAll_ok_iff]
    have tree_flagged : (∀ r ∈ s.receipts, r.isParent = true → NodeConserves s r) →
        ∀ root ∈ s.receipts, ∀ rows, tree s root.id = some rows →
          ∀ r ∈ rows, r.isParent = true → NodeConserves s r := by
      intro hflagged root hroot rows hrows r hr
      obtain ⟨rows', hrows', hdescend⟩ := tree_of_forest hforest hroot
      obtain rfl : rows = rows' := Option.some_inj.mp (hrows.symm.trans hrows')
      exact hflagged r (mem_table_of_tree hroot hdescend r hr)
    constructor
    · intro h hflagged root hroot hparent rows hrows
      apply (treeConserves_iff hforest hroot hrows (tree_flagged hflagged root hroot rows hrows)).mp
      exact h hflagged root hroot hparent
    · intro h hflagged root hroot hparent
      obtain ⟨rows, hrows, -⟩ := tree_of_forest hforest hroot
      apply (treeConserves_iff hforest hroot hrows
        (tree_flagged hflagged root hroot rows hrows)).mpr
      exact h hflagged root hroot hparent rows hrows

/-- Flags that mark exactly the nodes with children are harmless. -/
theorem FlagsHarmless.of_exact {s : Ledger} {rows : List Receipt}
    (h : ∀ r ∈ rows, r.isParent = true ↔ kids s r ≠ []) : FlagsHarmless s rows := by
  constructor
  · intro r hr hflag hkids
    rw [(h r hr).mpr hkids] at hflag
    cases hflag
  · congr 1
    apply List.filter_congr
    intro r hr
    by_cases hkids : kids s r = []
    · have hflag : r.isParent = false := by
        rw [Bool.eq_false_iff, ne_eq, h r hr, not_not]
        exact hkids
      simp [hkids, hflag]
    · simp [hkids, (h r hr).mpr hkids]

/-- In every run a replay that passes means that the tree conserves. -/
theorem replay_sound_run (num : Numeric) (calls : List LedgerCall) :
    let s := runCalls num calls Ledger.empty
    ∀ root ∈ s.receipts, (∃ v, replayVerify root.id s = some v ∧ v.ok = true) →
      TreeConserves s root.id := by
  intro s root hroot hok
  have hancestry : Ancestry s := ancestry_run num ancestry_empty calls
  obtain ⟨rows, hrows, hdescend⟩ := tree_of_forest hancestry.forest hroot
  have hmem := mem_table_of_tree hroot hdescend
  obtain ⟨-, hflagged⟩ := (replayVerify_ok_iff hroot hrows hmem).mp hok
  apply (treeConserves_iff hancestry.forest hroot hrows hflagged).mpr
  apply FlagsHarmless.of_exact
  intro r hr
  rw [hancestry.lifecycle.parent_iff r (hmem r hr)]
  constructor
  · intro hsplit
    obtain ⟨k, hk, hparent⟩ := hancestry.lifecycle.split_has_child r (hmem r hr) hsplit
    exact List.ne_nil_of_mem (Lineage.mem_children.mpr ⟨hk, hparent⟩)
  · intro hkids
    obtain ⟨k, hk⟩ := List.exists_mem_of_ne_nil _ hkids
    obtain ⟨hk, hparent⟩ := Lineage.mem_children.mp hk
    obtain ⟨q, hq, hid, hsplit⟩ := hancestry.lifecycle.child_of_split k hk r.id hparent
    exact Table.eq_of_key_eq hq (hmem r hr) hid ▸ hsplit

/-- A node of a sample tree in tenant 7. -/
def sampleNode (id : Id) (parent : Option Id) (isParent : Bool) (quantity : ℚ) : Receipt where
  id := id
  receiptNumber := Nat.toDigits 10 id
  status := if isParent then .split else .active
  tenantId := 7
  commodityId := 9
  quantity := quantity
  grade := none
  warehouseId := 5
  clientId := 8
  approvalStatus := .approved
  parentReceiptId := parent
  rootReceiptId := 1
  isParent := isParent
  sourceTxnType := none
  sourceTxnId := none
  sourceEventId := none
  dateOfDeposit := 0
  expiryDate := none

/-- The genesis of the sample tree. -/
def sampleGenesis : InventoryEvent where
  id := 101
  tenantId := 7
  rootReceiptId := 1
  fromReceiptId := 1
  eventType := .deposit
  quantity := 10
  idempotencyKey := [.text "deposit"]

/-- Root 1 of ten units over node 2 of ten units over leaf 3. -/
def sampleTree (flag : Bool) (leaf : ℚ) : Ledger where
  receipts := ⟨[sampleNode 1 none true 10, sampleNode 2 (some 1) flag 10,
    sampleNode 3 (some 2) false leaf], (by decide : [1, 2, 3].Nodup)⟩
  events := ⟨[sampleGenesis], by decide⟩

theorem sampleTree_forest (flag : Bool) (leaf : ℚ) :
    receiptTree.IsForest (sampleTree flag leaf).receipts.rows := by
  constructor
  · intro r hr k hk
    simp only [sampleTree, List.mem_cons, List.not_mem_nil, or_false] at hr ⊢
    rcases hr with rfl | rfl | rfl <;> cases hk
    · exact ⟨_, .inl rfl, rfl⟩
    · exact ⟨_, .inr (.inl rfl), rfl⟩
  · refine ⟨fun k => k, ?_⟩
    intro r hr k hk
    simp only [sampleTree, List.mem_cons, List.not_mem_nil, or_false] at hr
    rcases hr with rfl | rfl | rfl <;> cases hk <;> exact Nat.lt_succ_self _

/-- With node 2 not flagged, both audits pass although its only child carries four of its ten
units, and the leaves are reported to weigh fourteen. -/
theorem stale_flag_passes :
    receiptTree.IsForest (sampleTree false 4).receipts.rows ∧
      (replayVerify 1 (sampleTree false 4)).map ReplayVerification.ok = some true ∧
      (verifyAll none (sampleTree false 4)).ok = true ∧
      (reconcileRoot .decimalJs 1 (sampleTree false 4)).map RootReconResult.balanced =
        some false ∧
      ¬ TreeConserves (sampleTree false 4) 1 := by
  have hbalanced : (reconcileRoot .decimalJs 1 (sampleTree false 4)).map
      RootReconResult.balanced = some false := by decide +kernel
  refine ⟨sampleTree_forest false 4, by decide +kernel, by decide +kernel, hbalanced, ?_⟩
  intro h
  obtain ⟨recon, hrecon, htrue⟩ := h.balanced
  rw [hrecon, Option.map_some, htrue] at hbalanced
  cases hbalanced

/-- The theorem at the tree whose flags are right. -/
theorem audit_sound_iff_sample : TreeConserves (sampleTree true 10) 1 := by
  have hroot : sampleNode 1 none true 10 ∈ (sampleTree true 10).receipts := List.mem_cons_self
  apply ((audit_sound_iff (sampleTree true 10) (sampleTree_forest true 10)).1 _ hroot rfl).mpr
  · intro rows hrows _ _
    obtain rfl : rows = (sampleTree true 10).receipts.rows := by
      have htree : tree (sampleTree true 10) 1 = some (sampleTree true 10).receipts.rows := by
        decide +kernel
      exact Option.some_inj.mp (hrows.symm.trans htree)
    constructor
    · decide +kernel
    · decide +kernel
  · have hok : (replayVerify 1 (sampleTree true 10)).map ReplayVerification.ok = some true := by
      decide +kernel
    exact Option.map_eq_some_iff.mp hok

end SecureStore.Inventory
