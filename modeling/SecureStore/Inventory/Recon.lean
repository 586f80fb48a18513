/-
# Reconciliation

The reconciliation service compares a root with the leaves of its tree and every
inner node with its children. Both checks succeed in every run whose splits are
exact: a tree then conserves the quantity of its root through every operation.
Subtraction keeps twenty significant digits, so a split is exact when what it
leaves has no more.
-/

import SecureStore.Inventory.Ancestry

namespace SecureStore.Inventory

open SecureStore.Foundation

structure RootReconResult where
  rootReceiptId : Id
  rootQuantity : ℚ
  leafSum : ℚ
  balanced : Bool
  gap : ℚ

/-- The recursive query `tree` of a root; none when it does not stop. -/
def tree (s : Ledger) (rootReceiptId : Id) : Option (List Receipt) :=
  receiptTree.descend s.receipts.rows s.receipts.rows.length
    (s.receipts.rows.filter fun r => r.id = rootReceiptId)

/-- `COALESCE(SUM(quantity), 0)` -/
def sumQuantity (rows : List Receipt) : ℚ := (rows.map Receipt.quantity).sum

/-- The leaves of a tree against its root. -/
def reconcileRoot (num : Numeric) (rootReceiptId : Id) (s : Ledger) : Option RootReconResult := do
  let rows ← tree s rootReceiptId
  let rootQty := ((s.receipts.find rootReceiptId).map Receipt.quantity).getD 0
  let leafSum := sumQuantity (rows.filter fun r => !r.isParent)
  let gap := num.minus rootQty leafSum
  pure
    { rootReceiptId := rootReceiptId
      rootQuantity := rootQty
      leafSum := leafSum
      balanced := decide (gap = 0)
      gap := gap }

/-- Why a tree does not verify. -/
inductive ReplayReason where
  /-- `root ${rootReceiptId} missing` -/
  | rootMissing (rootReceiptId : Id)
  /-- `genesis DEPOSIT event missing or quantity mismatch` -/
  | genesisMismatch
  /-- `${n} parent(s) violate mass conservation` -/
  | massViolation (n : ℕ)
  deriving DecidableEq, Repr

structure ReplayVerification where
  ok : Bool
  reasons : List ReplayReason

/-- The inner nodes of a tree that have children and differ from their sum. -/
def badParents (s : Ledger) (rows : List Receipt) : List Receipt :=
  s.receipts.rows.filter fun p =>
    p.isParent ∧ p.id ∈ rows.map Receipt.id ∧
      receiptTree.children s.receipts.rows p.id ≠ [] ∧
      p.quantity ≠ sumQuantity (receiptTree.children s.receipts.rows p.id)

/-- The genesis event against the root, and every inner node against its children. -/
def replayVerify (rootReceiptId : Id) (s : Ledger) : Option ReplayVerification := do
  let genesis := s.events.rows.find? fun e =>
    e.rootReceiptId = rootReceiptId ∧ e.eventType = .deposit
  match s.receipts.find rootReceiptId with
  | none => pure { ok := false, reasons := [.rootMissing rootReceiptId] }
  | some root =>
      let rows ← tree s rootReceiptId
      let bad := badParents s rows
      let reasons :=
        (if genesis.map InventoryEvent.quantity = some root.quantity then []
          else [ReplayReason.genesisMismatch]) ++
        (if bad.length ≠ 0 then [ReplayReason.massViolation bad.length] else [])
      pure { ok := decide (reasons.length = 0), reasons := reasons }

/-- A split of p off q keeps both parts as they are computed exactly. -/
structure Numeric.ExactAt (num : Numeric) (q p : ℚ) : Prop where
  part : num.numeric18_3 p = p
  rest : num.numeric18_3 (num.minus q p) = q - p
  minus : num.minus q p = q - p

theorem exactAt_exact (q p : ℚ) : Numeric.exact.ExactAt q p := ⟨rfl, rfl, rfl⟩

/-- Twenty significant digits are enough for what is left. -/
theorem exactAt_decimalJs {q p : ℚ} (h : Fits 20 (q - p)) : Numeric.decimalJs.ExactAt q p :=
  ⟨rfl, roundSig_of_fits h, roundSig_of_fits h⟩

/-- The receipt a call asks to split and the quantity it asks to split off. -/
def LedgerOp.splitOf (op : LedgerOp) (s : Ledger) : Option (Receipt × ℚ) :=
  match op with
  | .hold input => (s.receipts.find input.sourceReceiptId).map fun r => (r, input.quantity)
  | .releasePartial input =>
      (s.receipts.find input.heldReceiptId).map fun r => (r, input.releaseQuantity)
  | .seize input =>
      match input.partialQuantity with
      | some pq => (s.receipts.find input.heldLoanReceiptId).map fun r => (r, pq)
      | none => none
  | _ => none

/-- The children of a split weigh as much as its source. -/
def Change.Conserves : Change → Prop
  | .split source kids => sumQuantity kids = source.quantity
  | _ => True

section Effects

variable {num : Numeric} {uuids : Uuids} {op : LedgerOp} {s s' : Ledger}
  {events : List InventoryEvent} {change : Change} {result : LedgerResult}

theorem sum_partition {source : Receipt} {qty : ℚ} {primary : Primary} {number number' : List Char}
    (h : num.ExactAt source.quantity qty) (havailable : qty ≤ source.quantity) :
    sumQuantity (primaryChild num uuids source qty primary number ::
      (partitionRemainder num uuids source qty number').toList) = source.quantity := by
  unfold partitionRemainder sumQuantity
  rw [h.minus]
  split
  · simp [h.part, h.rest]
  · rename_i hrest
    have hall : qty = source.quantity := le_antisymm havailable (by linarith)
    simpa [h.part] using hall

/-- A split that is exact conserves the quantity of its source. -/
theorem Effect.conserves (h : Effect num uuids s op events change result)
    (hexact : ∀ source part, op.splitOf s = some (source, part) → 0 < part →
      part ≤ source.quantity → num.ExactAt source.quantity part) : change.Conserves := by
  cases h with
  | hold input src number number' loaded active approved leaf positive available =>
      exact sum_partition (hexact src input.quantity (by simp [LedgerOp.splitOf, loaded.1])
        positive available) available
  | releasePartial input src number number' loaded lien positive available =>
      have hsplit := hexact src input.releaseQuantity (by simp [LedgerOp.splitOf, loaded.1])
        positive available.le
      simp [Change.Conserves, sumQuantity, hsplit.part, hsplit.rest]
  | seizePart input r pq number number' loaded loan part positive available =>
      exact sum_partition (hexact r pq (by simp [LedgerOp.splitOf, part, loaded.1])
        positive available.le) available.le
  | _ => trivial

/-- The children of a split point at its source. -/
theorem Effect.kid_parent {source : Receipt} {kids : List Receipt}
    (h : Effect num uuids s op events (.split source kids) result) {k : Receipt} (hk : k ∈ kids) :
    k.parentReceiptId = some source.id := by
  obtain ⟨-, -, -, hroot | ⟨src, hrewritten, hparent⟩⟩ := h.created hk
  · cases h with
    | hold =>
        rcases List.mem_cons.mp hk with rfl | hk
        · cases hroot
        · rw [mem_partitionRemainder hk] at hroot
          cases hroot
    | releasePartial =>
        rcases List.mem_pair.mp hk with rfl | rfl <;> cases hroot
    | seizePart =>
        rcases List.mem_cons.mp hk with rfl | hk
        · cases hroot
        · rw [mem_partitionRemainder hk] at hroot
          cases hroot
  · cases hrewritten
    exact hparent

/-- A deposit is the only operation that mints a root or logs a DEPOSIT event. -/
theorem Effect.genesis (h : Effect num uuids s op events change result) :
    (∃ root e, change = .mint root ∧ events = [e] ∧ e.eventType = .deposit ∧
      e.rootReceiptId = root.id ∧ e.fromReceiptId = root.id ∧ e.quantity = root.quantity) ∨
    ((∀ e ∈ events, e.eventType ≠ .deposit) ∧
      ∀ k ∈ change.created, k.parentReceiptId ≠ none) := by
  cases h with
  | deposit input positive => exact .inl ⟨_, _, rfl, rfl, rfl, rfl, rfl, rfl⟩
  | hold input src number number' loaded active approved leaf positive available =>
      refine .inr ⟨by simp, fun k hk => ?_⟩
      rw [(Effect.hold input src number number' loaded active approved leaf positive
        available).kid_parent hk]
      simp
  | releasePartial input src number number' loaded lien positive available =>
      refine .inr ⟨by simp, fun k hk => ?_⟩
      rw [(Effect.releasePartial input src number number' loaded lien positive
        available).kid_parent hk]
      simp
  | seizePart input r pq number number' loaded loan part positive available =>
      refine .inr ⟨by simp, fun k hk => ?_⟩
      rw [(Effect.seizePart input r pq number number' loaded loan part positive
        available).kid_parent hk]
      simp
  | _ => exact .inr ⟨by simp, by simp⟩

/-- The trees of a ledger conserve quantities from their genesis down. -/
structure Conserved (s : Ledger) : Prop where
  lifecycle : Lifecycle s
  provenance : Provenance s
  balanced : receiptTree.Balanced s.receipts.rows Receipt.isParent Receipt.quantity
  ranked : ∃ rank, receiptTree.Ranked s.receipts.rows rank s.receipts.rows.length
  genesis_exists : ∀ r ∈ s.receipts, r.parentReceiptId = none →
    ∃ e ∈ s.events, e.eventType = .deposit ∧ e.rootReceiptId = r.id
  genesis_root : ∀ e ∈ s.events, e.eventType = .deposit → e.rootReceiptId = e.fromReceiptId
  genesis_quantity : ∀ e ∈ s.events, e.eventType = .deposit →
    ∀ r ∈ s.receipts, r.id = e.rootReceiptId → e.quantity = r.quantity

theorem conserved_empty : Conserved Ledger.empty where
  lifecycle := lifecycle_empty
  provenance := provenance_empty
  balanced := ⟨by simp [Table.empty], by simp [Table.empty]⟩
  ranked := ⟨fun _ => 0, by simp [Table.empty], by simp [Table.empty]⟩
  genesis_exists := by simp
  genesis_root := by simp
  genesis_quantity := by simp

/-- The children of a node after a commit: those it had, and the created ones. -/
theorem Commits.children (hcommits : Commits s events change s')
    (heffect : Effect num uuids s op events change result) (id : Id) :
    receiptTree.children s'.receipts.rows id =
      (receiptTree.children s.receipts.rows id).map change.apply ++
        receiptTree.children change.created id := by
  rw [hcommits.rows]
  exact Lineage.children_map_append
    (fun r hr => (hcommits.advance heffect hr).1.parentReceiptId) change.created id

/-- Rewriting nodes does not change what they weigh together. -/
theorem Commits.sum_rewritten (hcommits : Commits s events change s')
    (heffect : Effect num uuids s op events change result) {rows : List Receipt}
    (hrows : ∀ r ∈ rows, r ∈ s.receipts) :
    sumQuantity (rows.map change.apply) = sumQuantity rows := by
  unfold sumQuantity
  rw [List.map_map]
  congr 1
  exact List.map_congr_left fun r hr => (hcommits.advance heffect (hrows r hr)).1.quantity

theorem children_mem {rows : List Receipt} {id : Id} :
    ∀ r ∈ receiptTree.children rows id, r ∈ rows := fun _ hr => (Lineage.mem_children.mp hr).1

/-- Only the source of a split gains children. -/
theorem Effect.created_children (h : Effect num uuids s op events change result) {id : Id}
    (hid : ∀ src, change.rewritten = some (src, supersede src) → src.id ≠ id) :
    receiptTree.children change.created id = [] := by
  rw [List.eq_nil_iff_forall_not_mem]
  intro k hk
  obtain ⟨hcreated, hparent⟩ := Lineage.mem_children.mp hk
  obtain ⟨-, -, -, hroot | ⟨src, hrewritten, hsrc⟩⟩ := h.created hcreated
  · rw [show receiptTree.parent k = k.parentReceiptId from rfl, hroot] at hparent
    cases hparent
  · rw [show receiptTree.parent k = k.parentReceiptId from rfl, hsrc] at hparent
    exact hid src hrewritten (Option.some_inj.mp hparent)

/-- A node without children in a ledger whose lifecycle is kept. -/
theorem Lifecycle.childless (h : Lifecycle s) {id : Id}
    (hid : ∀ r ∈ s.receipts, r.id = id → r.isParent = false) :
    receiptTree.children s.receipts.rows id = [] := by
  rw [List.eq_nil_iff_forall_not_mem]
  intro k hk
  obtain ⟨hmem, hparent⟩ := Lineage.mem_children.mp hk
  obtain ⟨r, hr, hrid, hsplit⟩ := h.child_of_split k hmem id hparent
  have hflag := (h.parent_iff r hr).mpr hsplit
  rw [hid r hr hrid] at hflag
  cases hflag

/-- Only leaves are split. -/
theorem Effect.split_leaf {source : Receipt} {kids : List Receipt}
    (h : Effect num uuids s op events (.split source kids) result) :
    Moves source.status .split := by
  cases h with
  | hold input src number number' loaded active => exact active ▸ .split
  | releasePartial input src number number' loaded lien => exact lien ▸ .releasePart
  | seizePart input r pq number number' loaded loan => exact loan ▸ .seizePart

/-- A split that conserves keeps every inner node equal to its children. -/
theorem Conserved.balanced_step (h : Conserved s)
    (heffect : Effect num uuids s op events change result)
    (hcommits : Commits s events change s') (hconserves : change.Conserves) :
    receiptTree.Balanced s'.receipts.rows Receipt.isParent Receipt.quantity := by
  have hlife' := h.lifecycle.step heffect hcommits
  have sum_old : ∀ {r : Receipt}, r ∈ s.receipts → r.isParent = true →
      receiptTree.children change.created r.id = [] →
      r.quantity = sumQuantity (receiptTree.children s'.receipts.rows r.id) := by
    intro r hr hflag hnone
    rw [hcommits.children heffect, hnone, List.append_nil,
      hcommits.sum_rewritten heffect children_mem]
    exact h.balanced.inner_sum r hr hflag
  constructor
  · intro r hr hflag
    change r.quantity = sumQuantity (receiptTree.children s'.receipts.rows r.id)
    have hsplit := (hlife'.parent_iff r hr).mp hflag
    rcases hcommits.receipt_cases hr with hcreated | ⟨before, hrewritten, hbefore⟩ | ⟨hold, hne⟩
    · exact absurd hsplit (heffect.created hcreated).2.1
    · cases change with
      | mint root => cases hrewritten
      | amend b a =>
          cases hrewritten
          have hnode := heffect.sameNode rfl
          rw [hnode.quantity, hnode.id]
          rcases heffect.moves rfl with ⟨-, hp, -⟩ | ⟨-, hns, -⟩ | ⟨-, -, k, hk, -⟩
          · exact sum_old hbefore (hp ▸ hflag) rfl
          · exact absurd hsplit hns
          · cases hk
      | split src kids =>
          -- the source was a leaf, so its children are the new ones
          cases hrewritten
          have hleaf : before.isParent = false := by
            rw [Bool.eq_false_iff, ne_eq, h.lifecycle.parent_iff before hbefore]
            intro hs
            exact heffect.split_leaf.not_terminal (by rw [hs]; decide)
          have hnone : receiptTree.children s.receipts.rows before.id = [] :=
            h.lifecycle.childless fun x hx hid => Table.eq_of_key_eq hx hbefore hid ▸ hleaf
          have hkids : receiptTree.children kids before.id = kids :=
            List.filter_eq_self.mpr fun k hk => by
              exact decide_eq_true (heffect.kid_parent hk)
          rw [supersede_id, hcommits.children heffect, hnone, Change.created_split, hkids]
          exact hconserves.symm
    · refine sum_old hold hflag (heffect.created_children fun src hsrc => ?_)
      exact (hne _ _ hsrc).symm
  · intro r hr hflag
    exact hlife'.childless fun r' hr' hid => Table.eq_of_key_eq hr' hr hid ▸ hflag

theorem Conserved.step (h : Conserved s) (heffect : Effect num uuids s op events change result)
    (hcommits : Commits s events change s') (hconserves : change.Conserves) : Conserved s' where
  lifecycle := h.lifecycle.step heffect hcommits
  provenance := h.provenance.step heffect hcommits
  balanced := h.balanced_step heffect hcommits hconserves
  ranked := h.lifecycle.ranked_step h.ranked heffect hcommits
  genesis_exists := by
    intro r hr hroot
    rcases hcommits.mem_receipts.mp hr with ⟨r₀, hr₀, rfl⟩ | hcreated
    · have hnode := (hcommits.advance heffect hr₀).1
      obtain ⟨e, he, htype, hid⟩ := h.genesis_exists r₀ hr₀ (hnode.parentReceiptId ▸ hroot)
      exact ⟨e, hcommits.mem_events.mpr (.inl he), htype, hid.trans hnode.id.symm⟩
    · rcases heffect.genesis with ⟨root, e, rfl, rfl, htype, hid, -, -⟩ | ⟨-, hnoroot⟩
      · obtain rfl := List.mem_singleton.mp hcreated
        exact ⟨e, hcommits.mem_events.mpr (.inr (List.mem_singleton.mpr rfl)), htype, hid⟩
      · exact absurd hroot (hnoroot r hcreated)
  genesis_root := by
    intro e he htype
    rcases hcommits.mem_events.mp he with hold | hnew
    · exact h.genesis_root e hold htype
    · rcases heffect.genesis with ⟨root, e', -, rfl, -, hid, hfrom, -⟩ | ⟨hno, -⟩
      · obtain rfl := List.mem_singleton.mp hnew
        exact hid.trans hfrom.symm
      · exact absurd htype (hno e hnew)
  genesis_quantity := by
    intro e he htype r hr hid
    rcases hcommits.mem_events.mp he with hold | hnew
    · obtain ⟨root, hroot, hrid, -⟩ := h.provenance.from_exists e hold
      have heid : root.id = e.rootReceiptId := hrid.trans (h.genesis_root e hold htype).symm
      rcases hcommits.mem_receipts.mp hr with ⟨r₀, hr₀, rfl⟩ | hcreated
      · have hnode := (hcommits.advance heffect hr₀).1
        exact (h.genesis_quantity e hold htype r₀ hr₀ (hnode.id.symm.trans hid)).trans
          hnode.quantity.symm
      · exact absurd (heid.trans hid.symm) (hcommits.created_ne hcreated hroot)
    · rcases heffect.genesis with ⟨root, e', rfl, rfl, -, heid, -, hq⟩ | ⟨hno, -⟩
      · obtain rfl := List.mem_singleton.mp hnew
        have hroot := hcommits.find_created (List.mem_singleton.mpr rfl)
        have hfind := Table.find_of_mem hr
        rw [key_receipt, hid, heid, hroot] at hfind
        rw [hq, Option.some_inj.mp hfind]
      · exact absurd htype (hno e hnew)

end Effects

/-- A property of every split that a run asks for within the available quantity,
given the quantity of the source and the part. -/
def SplitsAll (P : ℚ → ℚ → Prop) (num : Numeric) : List LedgerCall → Ledger → Prop
  | [], _ => True
  | c :: calls, s =>
      (∀ source part, c.op.splitOf s = some (source, part) → 0 < part →
        part ≤ source.quantity → P source.quantity part) ∧
      SplitsAll P num calls (c.after num s)

/-- A run of exact splits conserves quantities. -/
theorem conserved_run {num : Numeric} (calls : List LedgerCall) {s : Ledger} (hs : Conserved s)
    (hexact : SplitsAll num.ExactAt num calls s) : Conserved (runCalls num calls s) := by
  induction calls generalizing s with
  | nil => exact hs
  | cons c calls ih =>
      have hafter : Conserved (c.after num s) := by
        rcases after_cases num c s with hsame | ⟨events, change, result, -, heffect, hcommits⟩
        · rw [hsame]
          exact hs
        · exact hs.step heffect hcommits (heffect.conserves hexact.1)
      exact ih hafter hexact.2

theorem SplitsAll.mono {P Q : ℚ → ℚ → Prop} {num : Numeric} (himp : ∀ q p, P q p → Q q p)
    {calls : List LedgerCall} {s : Ledger} (h : SplitsAll P num calls s) :
    SplitsAll Q num calls s := by
  induction calls generalizing s with
  | nil => trivial
  | cons c calls ih =>
      exact ⟨fun source part hsplit hpos havailable => himp _ _ (h.1 source part hsplit hpos
        havailable), ih h.2⟩

section Reports

variable {s : Ledger}

/-- The recursive query of a root stops, and its leaves weigh as much as the root. -/
theorem Conserved.tree_leaves (h : Conserved s) {root : Receipt} (hroot : root ∈ s.receipts) :
    ∃ rows, tree s root.id = some rows ∧
      root.quantity = sumQuantity (rows.filter fun r => !r.isParent) := by
  have hstart : s.receipts.rows.filter (fun r => r.id = root.id) = [root] :=
    Table.filter_key hroot
  obtain ⟨rank, hranked⟩ := h.ranked
  have hlevel : ∀ t ∈ [root], t ∈ s.receipts.rows := fun t ht =>
    List.mem_singleton.mp ht ▸ hroot
  obtain ⟨rows, hrows⟩ := Lineage.descend_terminates hranked s.receipts.rows.length hlevel
    fun t _ => Nat.le_add_left _ _
  refine ⟨rows, by rw [tree, hstart, hrows], ?_⟩
  have hsum := h.balanced.sum_leaves hlevel hrows
  simpa [sumQuantity] using hsum.symm

theorem minus_self (q : ℚ) : Numeric.decimalJs.minus q q = 0 := by
  change roundSig 20 (q - q) = 0
  rw [sub_self, roundSig_of_fits (fits_zero 20)]

theorem Conserved.reconciles (h : Conserved s) {root : Receipt} (hroot : root ∈ s.receipts) :
    ∃ recon, reconcileRoot .decimalJs root.id s = some recon ∧ recon.balanced = true := by
  obtain ⟨rows, hrows, hsum⟩ := h.tree_leaves hroot
  have hfind : s.receipts.find root.id = some root := Table.find_of_mem hroot
  refine ⟨_, by rw [reconcileRoot, hrows]; rfl, ?_⟩
  simp [hfind, ← hsum, minus_self]

theorem Conserved.verifies (h : Conserved s) {root : Receipt} (hroot : root ∈ s.receipts)
    (hparent : root.parentReceiptId = none) :
    ∃ verification, replayVerify root.id s = some verification ∧ verification.ok = true := by
  obtain ⟨rows, hrows, -⟩ := h.tree_leaves hroot
  have hfind : s.receipts.find root.id = some root := Table.find_of_mem hroot
  have hbad : badParents s rows = [] := by
    refine List.filter_eq_nil_iff.mpr fun p hp => ?_
    simp only [decide_eq_true_eq, not_and, not_not]
    intro hflag _ _
    exact h.balanced.inner_sum p hp hflag
  obtain ⟨e, he, htype, hid⟩ := h.genesis_exists root hroot hparent
  have hgenesis : (s.events.rows.find? fun e =>
      decide (e.rootReceiptId = root.id ∧ e.eventType = .deposit)).map InventoryEvent.quantity =
        some root.quantity := by
    cases hfirst : s.events.rows.find? fun e =>
        decide (e.rootReceiptId = root.id ∧ e.eventType = .deposit) with
    | none => simpa [htype, hid] using List.find?_eq_none.mp hfirst e he
    | some g =>
        have hg : g.rootReceiptId = root.id ∧ g.eventType = .deposit := by
          simpa using List.find?_some hfirst
        exact congrArg some (h.genesis_quantity g (List.mem_of_find?_eq_some hfirst) hg.2 root
          hroot hg.1.symm)
  refine ⟨⟨true, []⟩, ?_, rfl⟩
  simp only [replayVerify, hfind, hrows, Option.bind_eq_bind, Option.bind_some, hbad, hgenesis]
  rfl

end Reports

/-- In every run whose splits leave no more than twenty significant digits, every
root equals the leaves of its tree, every inner node equals its children, and
both checks of the reconciliation service succeed. -/
theorem trees_conserve (calls : List LedgerCall)
    (hfits : SplitsAll (fun q p => Fits 20 (q - p)) .decimalJs calls Ledger.empty) :
    let s := runCalls .decimalJs calls Ledger.empty
    (∀ root ∈ s.receipts, root.parentReceiptId = none →
      (∃ rows, tree s root.id = some rows ∧
        root.quantity = sumQuantity (rows.filter fun r => !r.isParent)) ∧
      (∃ recon, reconcileRoot .decimalJs root.id s = some recon ∧ recon.balanced = true) ∧
      ∃ verification, replayVerify root.id s = some verification ∧ verification.ok = true) ∧
    ∀ r ∈ s.receipts, r.isParent = true →
      r.quantity = sumQuantity (receiptTree.children s.receipts.rows r.id) := by
  intro s
  have hconserved : Conserved s :=
    conserved_run calls conserved_empty (hfits.mono fun _ _ => exactAt_decimalJs)
  refine ⟨?_, hconserved.balanced.inner_sum⟩
  intro root hroot hparent
  exact ⟨hconserved.tree_leaves hroot, hconserved.reconciles hroot,
    hconserved.verifies hroot hparent⟩

/-- The theorem at the sample deposit and hold: the children of the root carry its ten
units. -/
theorem trees_conserve_sample :
    10 = sumQuantity (receiptTree.children
      (runCalls .decimalJs (sampleDeposit ++ [sampleHold]) Ledger.empty).receipts.rows 1) := by
  have hroot : ∃ r ∈ (runCalls .decimalJs (sampleDeposit ++ [sampleHold])
      Ledger.empty).receipts.rows, r.id = 1 ∧ r.isParent = true ∧ r.quantity = 10 := by
    decide +kernel
  obtain ⟨r, hr, hid, hparent, hquantity⟩ := hroot
  rw [← hid, ← hquantity]
  refine (trees_conserve (sampleDeposit ++ [sampleHold]) ⟨?_, ?_, ?_, trivial⟩).2 r hr hparent
  · rintro _ _ ⟨⟩
  · rintro _ _ ⟨⟩
  · intro source part hsplit _ _
    have hten : ((sampleHold.op.splitOf (runCalls .decimalJs sampleDeposit Ledger.empty)).map
        fun p => (p.1.quantity, p.2)) = some (10, 4) := by decide +kernel
    rw [show sampleHold.op.splitOf (runCalls .decimalJs sampleDeposit Ledger.empty) =
      some (source, part) from hsplit] at hten
    obtain ⟨hsource, hpart⟩ := Prod.mk.inj (Option.some_inj.mp hten)
    exact ⟨6, 0, by norm_num, by norm_num [show source.quantity = 10 from hsource,
      show part = 4 from hpart]⟩

/-- A hold of 10⁻²⁵ units. -/
def tinyHold : LedgerCall :=
  ⟨⟨103, 0, 2, 3, .stored⟩, .hold
    { tenantId := 7, sourceReceiptId := 1, quantity := 1 / 10 ^ 25
      heldStatus := .heldWithdrawal, txnType := .withdrawal, txnId := 50, actorUserId := none
      idempotencyKey := [.text "hold"] }⟩

/-- Holding so little that the remainder is rounded to the whole source leaves a
tree whose children exceed their parent, and neither check succeeds. -/
theorem tiny_hold_unbalanced :
    let s := runCalls .decimalJs (sampleDeposit ++ [tinyHold]) Ledger.empty
    (reconcileRoot .decimalJs 1 s).map RootReconResult.balanced = some false ∧
      (replayVerify 1 s).map ReplayVerification.ok = some false ∧
      ¬ ∀ r ∈ s.receipts, r.isParent = true →
        r.quantity = sumQuantity (receiptTree.children s.receipts.rows r.id) := by
  refine ⟨by decide +kernel, by decide +kernel, fun h => ?_⟩
  have hbad : (runCalls .decimalJs (sampleDeposit ++ [tinyHold]) Ledger.empty).receipts.rows.all
      (fun r => !r.isParent || decide (r.quantity = sumQuantity (receiptTree.children
        (runCalls .decimalJs (sampleDeposit ++ [tinyHold]) Ledger.empty).receipts.rows r.id))) =
      false := by decide +kernel
  refine absurd hbad ?_
  rw [Bool.not_eq_false, List.all_eq_true]
  intro r hr
  cases hflag : r.isParent with
  | false => rfl
  | true => simpa using h r hr hflag

end SecureStore.Inventory
