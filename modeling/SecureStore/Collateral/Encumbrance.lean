/-
# The encumbrance of a receipt

A client is shown how the volume of one of its receipts divides into what is available, pledged
and under liens. The query selects the leaves that name the receipt as their root, whoever owns
them, and the receipt itself; the pending releases are those whose lines name a selected leaf
under a lien. So the figures are exact for a root that still belongs to its client as a whole,
and a receipt further down that was split shows nothing.
-/

import SecureStore.Collateral.Commitments
import SecureStore.Custody.Trees

namespace SecureStore.Services

open SecureStore.Foundation SecureStore.Inventory

/-! ## The query -/

/-- The decomposition of a receipt. -/
structure Encumbrance where
  receiptId : Id
  totalQuantity : ℚ
  available : ℚ
  pledgePending : ℚ
  liened : ℚ
  releasePending : ℚ

structure EncumbranceLien where
  id : Id
  financierOrgId : Id
  quantity : ℚ
  status : LienStatus

structure EncumbrancePledge where
  id : Id
  financierOrgId : Id
  quantity : ℚ
  expiresAt : Timestamp

structure ReceiptEncumbrance where
  encumbrance : Encumbrance
  liens : List EncumbranceLien
  pendingPledges : List EncumbrancePledge

/-- The statuses of the leaves that the query selects. -/
def leafStatuses : List ReceiptStatus :=
  [.active, .heldPledgePending, .heldLien, .heldWithdrawal, .heldLoan, .heldTrade]

/-- All leaves in the receipt's tree, and the receipt itself. -/
def encumbranceLeaves (db : Db) (root : Receipt) : List Receipt :=
  db.ledger.receipts.rows.filter fun r => r.tenantId = root.tenantId ∧
    (r.rootReceiptId = root.id ∨ r.id = root.id) ∧ r.status ∈ leafStatuses

/-- The leaves of a status weigh together. -/
def volumeIn (leaves : List Receipt) (status : ReceiptStatus) : ℚ :=
  sumQuantity (leaves.filter fun r => r.status = status)

/-- The PENDING lines with a property weigh together. -/
def pendingSum (db : Db) (p : ReleaseRequestLine → Prop) [DecidablePred p] : ℚ :=
  ((db.releaseRequestLines.rows.filter fun x => PendingLine db x ∧ p x).map
    ReleaseRequestLine.quantity).sum

/-- The PENDING lines that name one of the receipts; there is no query without receipts. -/
def releasePendingOn (heldLienIds : List Id) : Api ℚ :=
  if heldLienIds = [] then pure 0
  else Api.query fun db => pendingSum db fun x => x.receiptId ∈ heldLienIds

/-- The whole of `getReceiptEncumbrance`. -/
def receiptEncumbrance (callerUserId receiptId : Id) : Api ReceiptEncumbrance := do
  let root ← Api.query fun db => db.ledger.receipts.find receiptId
  let root ← Api.orThrow root (.notFound "Receipt not found")
  Api.throwIf (root.clientId ≠ callerUserId) (.notFound "Receipt not found")
  let leaves ← Api.query fun db => encumbranceLeaves db root
  let releasePending ← releasePendingOn
    ((leaves.filter fun r => r.status = .heldLien).map Receipt.id)
  let pendingPledges ← Api.query fun db => db.pledges.rows.filter fun p =>
    p.receiptId = root.id ∧ p.status = .pending
  let activeLiens ← Api.query fun db => db.liens.rows.filter fun l =>
    l.clientId = callerUserId ∧ l.status.Live ∧
      ((db.ledger.receipts.find l.receiptId).map Receipt.rootReceiptId) = some root.id
  pure
    { encumbrance :=
        { receiptId := root.id
          totalQuantity := root.quantity
          available := volumeIn leaves .active
          pledgePending := volumeIn leaves .heldPledgePending
          liened := volumeIn leaves .heldLien
          releasePending := releasePending }
      liens := activeLiens.map fun l => ⟨l.id, l.financierOrgId, l.remainingQuantity, l.status⟩
      pendingPledges := pendingPledges.map fun p =>
        ⟨p.id, p.financierOrgId, p.quantity, p.expiresAt⟩ }

section Query

variable {db : Db} {r : Receipt} {c : Id}

/-- The ids of the leaves under a lien that the query selects. -/
def heldLienIds (db : Db) (r : Receipt) : List Id :=
  ((encumbranceLeaves db r).filter fun k => k.status = .heldLien).map Receipt.id

theorem releasePendingOn_exec (ids : List Id) :
    (releasePendingOn ids).exec db = (.ok (pendingSum db fun x => x.receiptId ∈ ids), db) := by
  unfold releasePendingOn
  split
  · rename_i hnone
    simp [hnone, pendingSum]
  · rfl

/-- The figures of a receipt that the caller owns. -/
theorem receiptEncumbrance_exec (hr : db.ledger.receipts.find r.id = some r)
    (howner : r.clientId = c) :
    ∃ response, (receiptEncumbrance c r.id).exec db = (.ok response, db) ∧
      response.encumbrance =
        { receiptId := r.id
          totalQuantity := r.quantity
          available := volumeIn (encumbranceLeaves db r) .active
          pledgePending := volumeIn (encumbranceLeaves db r) .heldPledgePending
          liened := volumeIn (encumbranceLeaves db r) .heldLien
          releasePending := pendingSum db fun x => x.receiptId ∈ heldLienIds db r } := by
  simp only [receiptEncumbrance, Api.query, Api.orThrow, Api.throwIf, Attempt.exec_bind,
    Attempt.exec_read, hr, Attempt.exec_orThrow_some, Attempt.exec_throwIf, howner, ne_eq,
    not_true_eq_false, if_false, releasePendingOn_exec, Attempt.exec_pure]
  exact ⟨_, rfl, rfl⟩

theorem availableOf_eq : availableOf db r = volumeIn (encumbranceLeaves db r) .active := by
  unfold availableOf volumeIn encumbranceLeaves sumQuantity
  rw [List.filter_filter]
  congr 2
  apply List.filter_congr
  intro x _
  by_cases hactive : x.status = .active
  · simp [hactive, leafStatuses]
  · simp [hactive]

/-- The callers of the query that ask for the available volume alone get the same figure. -/
theorem getReceiptEncumbrance_available {receiptId : Id} :
    ((getReceiptEncumbrance c receiptId).exec db).1 =
      ((receiptEncumbrance c receiptId).exec db).1.map fun response =>
        response.encumbrance.available := by
  cases hfind : db.ledger.receipts.find receiptId with
  | none =>
      simp [getReceiptEncumbrance, receiptEncumbrance, Api.query, Api.orThrow, hfind,
        Attempt.exec_bind, Except.map]
  | some r =>
      obtain rfl : r.id = receiptId := Table.key_of_find hfind
      by_cases howner : r.clientId = c
      · obtain ⟨response, hexec, hfigures⟩ := receiptEncumbrance_exec hfind howner
        rw [hexec]
        simp only [getReceiptEncumbrance, Api.query, Api.orThrow, Api.throwIf, Attempt.exec_bind,
          Attempt.exec_read, hfind, Attempt.exec_orThrow_some, Attempt.exec_throwIf, howner, ne_eq,
          not_true_eq_false, if_false, Except.map, hfigures, availableOf_eq]
      · simp [getReceiptEncumbrance, receiptEncumbrance, Api.query, Api.orThrow, Api.throwIf, hfind,
          Attempt.exec_bind, Attempt.exec_throwIf, howner, Except.map]

end Query

/-! ## What the figures should be -/

/-- The leaves below a receipt with a property weigh together. -/
def leafSum (s : Ledger) (id : Id) (p : Receipt → Prop) [DecidablePred p] : ℚ :=
  sumQuantity ((subtree s id).filter fun x => x.isParent = false ∧ p x)

/-- ACTIVE volume of a client. -/
def AvailableTo (c : Id) (x : Receipt) : Prop := x.status = .active ∧ x.clientId = c

/-- Volume that is held for something else, belongs to another client, or is closed. -/
def ElsewhereFor (c : Id) (x : Receipt) : Prop :=
  x.status ∈ [.heldWithdrawal, .heldLoan, .heldTrade] ∨
    x.status = .active ∧ x.clientId ≠ c ∨ x.status ∈ closedStatuses

instance (c : Id) : DecidablePred (AvailableTo c) := fun _ => instDecidableAnd

instance (c : Id) : DecidablePred (ElsewhereFor c) := fun _ => instDecidableOr

/-- The line asks for volume of a live lien on a receipt or below it. -/
def OnLiveLien (db : Db) (id : Id) (x : ReleaseRequestLine) : Prop :=
  ∃ l ∈ db.liens.find x.lienId, l.status.Live ∧ ∃ k ∈ subtree db.ledger id, k.id = l.receiptId

instance (db : Db) (id : Id) : DecidablePred (OnLiveLien db id) := by
  unfold OnLiveLien
  infer_instance

/-- The line names a leaf under a lien that is the receipt or has it as its root. -/
def OnShownLeaf (db : Db) (r : Receipt) (x : ReleaseRequestLine) : Prop :=
  ∃ k ∈ db.ledger.receipts.find x.receiptId, k.status = .heldLien ∧ k.tenantId = r.tenantId ∧
    (k.rootReceiptId = r.id ∨ k.id = r.id)

instance (db : Db) (r : Receipt) : DecidablePred (OnShownLeaf db r) := by
  unfold OnShownLeaf
  infer_instance

/-- The figures of a client's receipt are those of the leaves below it and of the live liens on
them. -/
structure EncumbranceExact (db : Db) (c : Id) (r : Receipt) (figures : Encumbrance) : Prop where
  available : figures.available = leafSum db.ledger r.id (AvailableTo c)
  pledgePending : figures.pledgePending =
    leafSum db.ledger r.id fun x => x.status = .heldPledgePending
  liened : figures.liened = leafSum db.ledger r.id fun x => x.status = .heldLien
  total : figures.available + figures.pledgePending + figures.liened +
    leafSum db.ledger r.id (ElsewhereFor c) = figures.totalQuantity
  releasePending : figures.releasePending = pendingSum db (OnLiveLien db r.id)
  within : figures.releasePending ≤ figures.liened

/-- When the figures are exact: the receipt is a root, was not split, or has nothing of what is
shown below it; if it is a root, nobody else has ACTIVE volume below it; it is approved; what its
splits lost cancels out; and of the pending lines of live liens, what names a receipt that its
lien has left weighs as much as what names a leaf that no live lien is on, and all of them
together weigh no more than the leaves. -/
structure Decomposes (db : Db) (c : Id) (r : Receipt) : Prop where
  whole : r.parentReceiptId = none ∨ r.status ≠ .split ∨ ∀ x ∈ subtree db.ledger r.id,
    AvailableTo c x ∨ x.status = .heldPledgePending ∨ x.status = .heldLien → x.quantity = 0
  own : r.parentReceiptId = none → ∀ x ∈ subtree db.ledger r.id,
    x.status = .active → x.clientId ≠ c → x.quantity = 0
  approved : r.status = .pendingApproval → r.quantity = 0
  lossless : splitLoss db.ledger r.id = 0
  named : (pendingSum db fun x => OnLiveLien db r.id x ∧ ¬ OnShownLeaf db r x) =
    pendingSum db fun x => OnShownLeaf db r x ∧ ¬ OnLiveLien db r.id x
  covered : pendingSum db (OnLiveLien db r.id) ≤
    leafSum db.ledger r.id fun x => x.status = .heldLien

instance (db : Db) (c : Id) (r : Receipt) : Decidable (Decomposes db c r) :=
  decidable_of_iff
    ((r.parentReceiptId = none ∨ r.status ≠ .split ∨ ∀ x ∈ subtree db.ledger r.id,
        AvailableTo c x ∨ x.status = .heldPledgePending ∨ x.status = .heldLien → x.quantity = 0) ∧
      (r.parentReceiptId = none → ∀ x ∈ subtree db.ledger r.id,
        x.status = .active → x.clientId ≠ c → x.quantity = 0) ∧
      (r.status = .pendingApproval → r.quantity = 0) ∧ splitLoss db.ledger r.id = 0 ∧
      (pendingSum db fun x => OnLiveLien db r.id x ∧ ¬ OnShownLeaf db r x) =
        (pendingSum db fun x => OnShownLeaf db r x ∧ ¬ OnLiveLien db r.id x) ∧
      pendingSum db (OnLiveLien db r.id) ≤ leafSum db.ledger r.id fun x => x.status = .heldLien)
    ⟨fun ⟨whole, own, approved, lossless, named, covered⟩ =>
        ⟨whole, own, approved, lossless, named, covered⟩,
      fun h => ⟨h.whole, h.own, h.approved, h.lossless, h.named, h.covered⟩⟩

/-- The elements with a property weigh as much as those with and those without another. -/
theorem sum_filter_and_not {α : Type} {rows : List α} {weight : α → ℚ} {p q : α → Prop}
    [DecidablePred p] [DecidablePred q] :
    ((rows.filter fun x => p x).map weight).sum =
      ((rows.filter fun x => p x ∧ q x).map weight).sum +
        ((rows.filter fun x => p x ∧ ¬ q x).map weight).sum := by
  rw [← List.sum_map_filter_add_sum_map_filter_not q weight (rows.filter fun x => p x),
    List.filter_filter, List.filter_filter]
  congr 3
  · apply List.filter_congr
    intro x _
    simp [Bool.and_comm]
  · apply List.filter_congr
    intro x _
    simp [Bool.and_comm]

section Sums

variable {rows : List Receipt} {p : Receipt → Prop} [DecidablePred p]

theorem sumQuantity_filter :
    sumQuantity (rows.filter fun x => p x) =
      (rows.map fun x => if p x then x.quantity else 0).sum := by
  unfold sumQuantity
  induction rows with
  | nil => rfl
  | cons x rows ih =>
      by_cases hp : p x
      · simp [hp, ih]
      · simp [hp, ih]

/-- What weighs nothing together weighs nothing piece by piece. -/
theorem sumQuantity_eq_zero_iff (hweight : ∀ x ∈ rows, 0 ≤ x.quantity) :
    sumQuantity (rows.filter fun x => p x) = 0 ↔ ∀ x ∈ rows, p x → x.quantity = 0 := by
  constructor
  · intro hzero x hx hp
    apply List.all_zero_of_le_zero_le_of_sum_eq_zero _ hzero
    · exact List.mem_map.mpr ⟨x, List.mem_filter.mpr ⟨hx, decide_eq_true hp⟩, rfl⟩
    · intro y hy
      obtain ⟨z, hz, rfl⟩ := List.mem_map.mp hy
      exact hweight z (List.mem_filter.mp hz).1
  · intro hnone
    apply List.sum_eq_zero
    intro y hy
    obtain ⟨z, hz, rfl⟩ := List.mem_map.mp hy
    obtain ⟨hmem, hp⟩ := List.mem_filter.mp hz
    exact hnone z hmem (of_decide_eq_true hp)

/-- Every leaf is available, pledged, under a lien, elsewhere, or awaits its approval. -/
theorem sumQuantity_leaves (c : Id) :
    sumQuantity (rows.filter fun x => x.isParent = false) =
      sumQuantity (rows.filter fun x => x.isParent = false ∧ AvailableTo c x) +
        sumQuantity (rows.filter fun x => x.isParent = false ∧ x.status = .heldPledgePending) +
        sumQuantity (rows.filter fun x => x.isParent = false ∧ x.status = .heldLien) +
        sumQuantity (rows.filter fun x => x.isParent = false ∧ ElsewhereFor c x) +
        sumQuantity (rows.filter fun x => x.isParent = false ∧ x.status = .pendingApproval) := by
  simp only [sumQuantity_filter, ← List.sum_map_add]
  congr 1
  apply List.map_congr_left
  intro x _
  by_cases hleaf : x.isParent = false
  · by_cases hclient : x.clientId = c
    · cases hstatus : x.status <;>
        simp [hleaf, hclient, hstatus, AvailableTo, ElsewhereFor, closedStatuses]
    · cases hstatus : x.status <;>
        simp [hleaf, hclient, hstatus, AvailableTo, ElsewhereFor, closedStatuses]
  · simp [hleaf]

end Sums

section Figures

variable {db : Db} {c : Id} {r : Receipt} {status : ReceiptStatus}

/-- The query of a root finds the leaves below it. -/
theorem volumeIn_root (h : Ancestry db.ledger) (hr : r ∈ db.ledger.receipts)
    (hroot : r.parentReceiptId = none) (hselected : status ∈ leafStatuses) :
    volumeIn (encumbranceLeaves db r) status =
      sumQuantity ((subtree db.ledger r.id).filter fun x => x.status = status) := by
  have hperm := ((subtree_perm h hr hroot).filter fun x => x.status = status).map Receipt.quantity
  unfold volumeIn sumQuantity
  rw [hperm.sum_eq, encumbranceLeaves, List.filter_filter, List.filter_filter]
  congr 2
  apply List.filter_congr
  intro x _
  by_cases hstatus : x.status = status
  · simp [hstatus, hselected]
  · simp [hstatus]

/-- The query of a receipt that is no root finds at most the receipt itself. -/
theorem volumeIn_inner (h : Ancestry db.ledger) (hr : r ∈ db.ledger.receipts)
    (hroot : r.parentReceiptId ≠ none) (hselected : status ∈ leafStatuses) :
    volumeIn (encumbranceLeaves db r) status = if r.status = status then r.quantity else 0 := by
  have hself : db.ledger.receipts.rows.filter (fun x => x.id = r.id) = [r] := Table.filter_key hr
  have hleaves : (encumbranceLeaves db r).filter (fun x => x.status = status) =
      [r].filter fun x => x.status = status := by
    rw [← hself, encumbranceLeaves, List.filter_filter, List.filter_filter]
    apply List.filter_congr
    intro x hx
    have hnamed : x.rootReceiptId ≠ r.id := fun hrootId => hroot (named_root h hr hx hrootId)
    by_cases hid : x.id = r.id
    · obtain rfl : x = r := Table.eq_of_key_eq hx hr hid
      by_cases hstatus : x.status = status
      · simp [hstatus, hselected]
      · simp [hstatus]
    · simp [hid, hnamed]
  rw [volumeIn, hleaves, sumQuantity_filter]
  simp

/-- What is not split is a leaf. -/
theorem leafSum_eq (h : Ancestry db.ledger) (hr : r ∈ db.ledger.receipts) {p : Receipt → Prop}
    [DecidablePred p] (hp : ∀ x, p x → x.status ≠ .split) :
    leafSum db.ledger r.id p = sumQuantity ((subtree db.ledger r.id).filter fun x => p x) := by
  unfold leafSum
  congr 1
  apply List.filter_congr
  intro x hx
  have hflag := h.lifecycle.parent_iff x (subtree_mem h hr hx)
  by_cases hpx : p x
  · have hleaf : x.isParent = false :=
      Bool.eq_false_iff.mpr fun hparent => hp x hpx (hflag.mp hparent)
    simp [hpx, hleaf]
  · simp [hpx]

theorem leafSum_leaf (h : Ancestry db.ledger) (hr : r ∈ db.ledger.receipts)
    (hleaf : r.status ≠ .split) {p : Receipt → Prop} [DecidablePred p]
    (hp : ∀ x, p x → x.status ≠ .split) :
    leafSum db.ledger r.id p = if p r then r.quantity else 0 := by
  rw [leafSum_eq h hr hp, subtree_leaf h hr hleaf, sumQuantity_filter]
  simp

/-- Of the receipts below one, only itself can await approval. -/
theorem leafSum_pending (h : Grown db.ledger) (hr : r ∈ db.ledger.receipts) :
    (leafSum db.ledger r.id fun x => x.status = .pendingApproval) =
      if r.status = .pendingApproval then r.quantity else 0 := by
  have hp : ∀ x : Receipt, x.status = .pendingApproval → x.status ≠ .split := by
    intro x hstatus
    rw [hstatus]
    decide
  by_cases hpending : r.status = .pendingApproval
  · exact leafSum_leaf h.ancestry hr (hp r hpending) hp
  · rw [if_neg hpending, leafSum_eq h.ancestry hr hp]
    apply List.sum_eq_zero
    intro y hy
    obtain ⟨x, hx, rfl⟩ := List.mem_map.mp hy
    obtain ⟨hmem, hstatus⟩ := List.mem_filter.mp hx
    have hroot := h.pending x (subtree_mem h.ancestry hr hmem) (of_decide_eq_true hstatus)
    rcases (Lineage.mem_descend_iff (tree_subtree h.ancestry hr)).mp hmem with hself | hbelow
    · obtain rfl := List.mem_singleton.mp hself
      exact absurd (of_decide_eq_true hstatus) hpending
    · obtain ⟨-, parent, -, hparent⟩ := hbelow
      cases hroot.symm.trans hparent

/-- A leaf has lost nothing. -/
theorem splitLoss_leaf (h : Ancestry db.ledger) (hr : r ∈ db.ledger.receipts)
    (hleaf : r.status ≠ .split) : splitLoss db.ledger r.id = 0 := by
  have hflag : ¬ r.isParent = true :=
    fun hparent => hleaf ((h.lifecycle.parent_iff r hr).mp hparent)
  rw [splitLoss, subtree_leaf h hr hleaf]
  simp [hflag]

/-- The leaves below a receipt, by what they are to its client. -/
theorem figures_total (h : Grown db.ledger) (hr : r ∈ db.ledger.receipts) :
    leafSum db.ledger r.id (AvailableTo c) +
        (leafSum db.ledger r.id fun x => x.status = .heldPledgePending) +
        (leafSum db.ledger r.id fun x => x.status = .heldLien) +
        leafSum db.ledger r.id (ElsewhereFor c) = r.quantity ↔
      (r.status = .pendingApproval → r.quantity = 0) ∧ splitLoss db.ledger r.id = 0 := by
  have hweight := subtree_weight h.ancestry hr
  have hpending := leafSum_pending h hr
  unfold leafSum at hpending ⊢
  generalize subtree db.ledger r.id = below at hpending hweight ⊢
  have hleaves := @sumQuantity_leaves below c
  rw [hpending] at hleaves
  by_cases hstatus : r.status = .pendingApproval
  · have hloss : splitLoss db.ledger r.id = 0 := by
      apply splitLoss_leaf h.ancestry hr
      rw [hstatus]
      decide
    rw [if_pos hstatus] at hleaves
    constructor
    · intro htotal
      refine ⟨fun _ => ?_, hloss⟩
      linarith
    · rintro ⟨hzero, -⟩
      have hnothing := hzero hstatus
      linarith
  · rw [if_neg hstatus] at hleaves
    constructor
    · intro htotal
      refine ⟨fun hpendingStatus => absurd hpendingStatus hstatus, ?_⟩
      linarith
    · rintro ⟨-, hloss⟩
      linarith

/-- The query counts the lines that name the leaves it shows. -/
theorem pendingSum_heldLienIds :
    (pendingSum db fun x => x.receiptId ∈ heldLienIds db r) = pendingSum db (OnShownLeaf db r) := by
  have hnames : ∀ x : ReleaseRequestLine, x.receiptId ∈ heldLienIds db r ↔ OnShownLeaf db r x := by
    intro x
    simp only [heldLienIds, encumbranceLeaves, OnShownLeaf, List.mem_map, List.mem_filter,
      decide_eq_true_eq]
    constructor
    · rintro ⟨k, ⟨⟨hk, htenant, hkin, -⟩, hstatus⟩, hid⟩
      exact ⟨k, hid ▸ Table.find_of_mem hk, hstatus, htenant, hkin⟩
    · rintro ⟨k, hfind, hstatus, htenant, hkin⟩
      have hselected : k.status ∈ leafStatuses := by
        rw [hstatus]
        decide
      exact ⟨k, ⟨⟨Table.mem_of_find hfind, htenant, hkin, hselected⟩, hstatus⟩,
        Table.key_of_find hfind⟩
  simp only [pendingSum, hnames]

/-- The selected lines weigh what they should when what is missed weighs what strays in. -/
theorem pendingSum_eq_iff {p q : ReleaseRequestLine → Prop} [DecidablePred p] [DecidablePred q] :
    pendingSum db q = pendingSum db p ↔
      (pendingSum db fun x => p x ∧ ¬ q x) = pendingSum db fun x => q x ∧ ¬ p x := by
  have hsplit : ∀ (p q : ReleaseRequestLine → Prop) [DecidablePred p] [DecidablePred q],
      pendingSum db p = (pendingSum db fun x => p x ∧ q x) +
        pendingSum db fun x => p x ∧ ¬ q x := by
    intro p q _ _
    simp only [pendingSum, ← and_assoc]
    exact sum_filter_and_not
  have hcomm : (pendingSum db fun x => q x ∧ p x) = pendingSum db fun x => p x ∧ q x := by
    simp only [pendingSum, and_comm (a := q _)]
  have hp := hsplit p q
  have hq := hsplit q p
  constructor
  · intro hequal
    linarith
  · intro hequal
    linarith

/-- Of a root, only volume that others own can be shown wrongly. -/
theorem volumes_root_iff (h : Grown db.ledger) (hr : r ∈ db.ledger.receipts)
    (hroot : r.parentReceiptId = none) :
    (volumeIn (encumbranceLeaves db r) .active = leafSum db.ledger r.id (AvailableTo c) ∧
      (volumeIn (encumbranceLeaves db r) .heldPledgePending =
        leafSum db.ledger r.id fun x => x.status = .heldPledgePending) ∧
      (volumeIn (encumbranceLeaves db r) .heldLien =
        leafSum db.ledger r.id fun x => x.status = .heldLien)) ↔
      ∀ x ∈ subtree db.ledger r.id, x.status = .active → x.clientId ≠ c → x.quantity = 0 := by
  have hexact : ∀ status ∈ leafStatuses, volumeIn (encumbranceLeaves db r) status =
      leafSum db.ledger r.id fun x => x.status = status := by
    intro status hselected
    rw [volumeIn_root h.ancestry hr hroot hselected, leafSum_eq h.ancestry hr]
    rintro x rfl
    intro hsplit
    rw [hsplit] at hselected
    exact absurd hselected (by decide)
  have hown : sumQuantity ((subtree db.ledger r.id).filter fun x => x.status = .active) =
      leafSum db.ledger r.id (AvailableTo c) +
        sumQuantity ((subtree db.ledger r.id).filter fun x =>
          x.status = .active ∧ ¬ x.clientId = c) := by
    rw [leafSum_eq h.ancestry hr fun x hx => by simp [hx.1]]
    exact sum_filter_and_not
  have hothers := @sumQuantity_eq_zero_iff (subtree db.ledger r.id)
    (fun x => x.status = .active ∧ ¬ x.clientId = c) _
    fun x hx => h.weight x (subtree_mem h.ancestry hr hx)
  rw [volumeIn_root h.ancestry hr hroot (by decide), hown]
  constructor
  · rintro ⟨havailable, -, -⟩ x hx hactive hclient
    exact hothers.mp (by linarith) x hx ⟨hactive, hclient⟩
  · intro hnone
    have hzero := hothers.mpr fun x hx hp => hnone x hx hp.1 hp.2
    exact ⟨by rw [hzero, add_zero], hexact _ (by decide), hexact _ (by decide)⟩

/-- Of a receipt that is no root, what is below it is not shown. -/
theorem volumes_inner_iff (h : Grown db.ledger) (hr : r ∈ db.ledger.receipts)
    (hroot : r.parentReceiptId ≠ none) (howner : r.clientId = c) :
    (volumeIn (encumbranceLeaves db r) .active = leafSum db.ledger r.id (AvailableTo c) ∧
      (volumeIn (encumbranceLeaves db r) .heldPledgePending =
        leafSum db.ledger r.id fun x => x.status = .heldPledgePending) ∧
      (volumeIn (encumbranceLeaves db r) .heldLien =
        leafSum db.ledger r.id fun x => x.status = .heldLien)) ↔
      (r.status ≠ .split ∨ ∀ x ∈ subtree db.ledger r.id,
        AvailableTo c x ∨ x.status = .heldPledgePending ∨ x.status = .heldLien →
          x.quantity = 0) := by
  have hmine : ∀ x : Receipt, AvailableTo c x → x.status ≠ .split := fun x hx => by simp [hx.1]
  have hpledged : ∀ x : Receipt, x.status = .heldPledgePending → x.status ≠ .split :=
    fun x hx => by simp [hx]
  have hliened : ∀ x : Receipt, x.status = .heldLien → x.status ≠ .split := fun x hx => by simp [hx]
  rw [volumeIn_inner h.ancestry hr hroot (by decide),
    volumeIn_inner h.ancestry hr hroot (by decide),
    volumeIn_inner h.ancestry hr hroot (by decide)]
  by_cases hsplit : r.status = .split
  · have hweights : ∀ x ∈ subtree db.ledger r.id, 0 ≤ x.quantity :=
      fun x hx => h.weight x (subtree_mem h.ancestry hr hx)
    simp only [hsplit, reduceCtorEq, if_false, ne_eq, not_true_eq_false, false_or]
    rw [leafSum_eq h.ancestry hr hmine, leafSum_eq h.ancestry hr hpledged,
      leafSum_eq h.ancestry hr hliened, eq_comm, sumQuantity_eq_zero_iff hweights,
      @eq_comm ℚ 0, sumQuantity_eq_zero_iff hweights, @eq_comm ℚ 0,
      sumQuantity_eq_zero_iff hweights]
    constructor
    · rintro ⟨havailable, hpledge, hlien⟩ x hx (hmine | hpledged | hliened)
      · exact havailable x hx hmine
      · exact hpledge x hx hpledged
      · exact hlien x hx hliened
    · intro hnone
      exact ⟨fun x hx hp => hnone x hx (.inl hp), fun x hx hp => hnone x hx (.inr (.inl hp)),
        fun x hx hp => hnone x hx (.inr (.inr hp))⟩
  · rw [leafSum_leaf h.ancestry hr hsplit hmine, leafSum_leaf h.ancestry hr hsplit hpledged,
      leafSum_leaf h.ancestry hr hsplit hliened]
    simp [AvailableTo, howner, hsplit]

/-- The volumes are exact when the tree of the receipt is shown as a whole. -/
theorem volumes_iff (h : Grown db.ledger) (hr : r ∈ db.ledger.receipts) (howner : r.clientId = c) :
    (volumeIn (encumbranceLeaves db r) .active = leafSum db.ledger r.id (AvailableTo c) ∧
      (volumeIn (encumbranceLeaves db r) .heldPledgePending =
        leafSum db.ledger r.id fun x => x.status = .heldPledgePending) ∧
      (volumeIn (encumbranceLeaves db r) .heldLien =
        leafSum db.ledger r.id fun x => x.status = .heldLien)) ↔
      (r.parentReceiptId = none ∨ r.status ≠ .split ∨ ∀ x ∈ subtree db.ledger r.id,
        AvailableTo c x ∨ x.status = .heldPledgePending ∨ x.status = .heldLien →
          x.quantity = 0) ∧
        (r.parentReceiptId = none → ∀ x ∈ subtree db.ledger r.id,
          x.status = .active → x.clientId ≠ c → x.quantity = 0) := by
  by_cases hroot : r.parentReceiptId = none
  · rw [volumes_root_iff h hr hroot]
    simp only [hroot, true_or, true_and, true_implies]
  · rw [volumes_inner_iff h hr hroot howner]
    simp only [hroot, false_or, false_implies, and_true]

end Figures

/-! ## Reachable states -/

/-- In every reachable state the figures of a receipt are exact when its tree decomposes. -/
theorem encumbrance_exact_iff {directory : Directory} {requests : List Request}
    {trace : List (Transition Label Db)} {db : Db} {pool : List (Api Unit)}
    (h : Run (Db.initial directory) (requests.map (Request.run .postgres)) trace db pool)
    {c : Id} {r : Receipt} (hr : db.ledger.receipts.find r.id = some r) (howner : r.clientId = c) :
    ∃ response, (receiptEncumbrance c r.id).exec db = (.ok response, db) ∧
      (EncumbranceExact db c r response.encumbrance ↔ Decomposes db c r) := by
  have hgrown := runs_grown keepsSign_postgres h
  have hmem := Table.mem_of_find hr
  have hvolumes := volumes_iff hgrown hmem howner
  have htotal := figures_total (c := c) hgrown hmem
  have hpending := @pendingSum_eq_iff db (OnLiveLien db r.id) (OnShownLeaf db r) _ _
  obtain ⟨response, hexec, hfigures⟩ := receiptEncumbrance_exec hr howner
  refine ⟨response, hexec, ?_, ?_⟩
  · rintro ⟨havailable, hpledge, hlien, hsum, hrelease, hwithin⟩
    rw [havailable, hpledge, hlien] at hsum
    rw [hlien, hrelease] at hwithin
    simp only [hfigures, pendingSum_heldLienIds] at havailable hpledge hlien hsum hrelease
    obtain ⟨hwhole, hown⟩ := hvolumes.mp ⟨havailable, hpledge, hlien⟩
    obtain ⟨happroved, hlossless⟩ := htotal.mp hsum
    exact ⟨hwhole, hown, happroved, hlossless, hpending.mp hrelease, hwithin⟩
  · rintro ⟨hwhole, hown, happroved, hlossless, hnamed, hcovered⟩
    obtain ⟨havailable, hpledge, hlien⟩ := hvolumes.mpr ⟨hwhole, hown⟩
    have hsum := htotal.mpr ⟨happroved, hlossless⟩
    have hrelease := hpending.mpr hnamed
    rw [hfigures, pendingSum_heldLienIds]
    refine ⟨havailable, hpledge, hlien, ?_, hrelease, ?_⟩
    · rw [havailable, hpledge, hlien]
      exact hsum
    · rw [hrelease, hlien]
      exact hcovered

/-- Four and then one of the six units under lien 8 are asked for. -/
def sampleAsked : List Request :=
  sampleStock ++ [samplePledge, sampleAcceptance, sampleRelease 40 41 4, sampleRelease 42 43 1]

/-- One request after another. -/
def oneByOne (requests : List Request) : List (Transition Label Db) × Db × List (Api Unit) :=
  interleave ((List.range requests.length).flatMap (List.replicate 20))
    (Db.initial sampleDirectory) (requests.map (Request.run .postgres))

theorem run_oneByOne (requests : List Request) :
    Run (Db.initial sampleDirectory) (requests.map (Request.run .postgres))
      (oneByOne requests).1 (oneByOne requests).2.1 (oneByOne requests).2.2 :=
  run_interleave _ _ _

/-- Both requests wait for volume that is shown under the lien. -/
theorem encumbrance_exact_iff_sample :
    ∃ r ∈ (oneByOne sampleAsked).2.1.ledger.receipts.rows, ∃ response,
      (receiptEncumbrance 10 r.id).exec (oneByOne sampleAsked).2.1 =
        (.ok response, (oneByOne sampleAsked).2.1) ∧
      EncumbranceExact (oneByOne sampleAsked).2.1 10 r response.encumbrance := by
  obtain ⟨r, hr, howner, hdecomposes⟩ :
      ∃ r ∈ (oneByOne sampleAsked).2.1.ledger.receipts.rows,
        r.clientId = 10 ∧ Decomposes (oneByOne sampleAsked).2.1 10 r := by
    decide +kernel
  obtain ⟨response, hexec, hiff⟩ :=
    encumbrance_exact_iff (run_oneByOne _) (Table.find_of_mem hr) howner
  exact ⟨r, hr, response, hexec, hiff.mpr hdecomposes⟩

/-- Once the four units are released, what is left under the lien is a new leaf. The line that
still waits names the old one, and the client is told that no release is pending. -/
theorem stale_line_uncounted :
    ¬ ∀ (directory : Directory) (requests : List Request) (trace : List (Transition Label Db))
        (db : Db) (pool : List (Api Unit)),
      Run (Db.initial directory) (requests.map (Request.run .postgres)) trace db pool →
        ∀ (c : Id) (r : Receipt), db.ledger.receipts.find r.id = some r → r.clientId = c →
          ∃ response, (receiptEncumbrance c r.id).exec db = (.ok response, db) ∧
            EncumbranceExact db c r response.encumbrance := by
  intro hclaim
  obtain ⟨r, hr, howner, hmissed⟩ :
      ∃ r ∈ (oneByOne (sampleAsked ++ [sampleApproval])).2.1.ledger.receipts.rows,
        r.clientId = 10 ∧
        (pendingSum (oneByOne (sampleAsked ++ [sampleApproval])).2.1 fun x =>
          x.receiptId ∈ heldLienIds (oneByOne (sampleAsked ++ [sampleApproval])).2.1 r) ≠
        pendingSum (oneByOne (sampleAsked ++ [sampleApproval])).2.1
          (OnLiveLien (oneByOne (sampleAsked ++ [sampleApproval])).2.1 r.id) := by
    decide +kernel
  have hrun := run_oneByOne (sampleAsked ++ [sampleApproval])
  generalize oneByOne (sampleAsked ++ [sampleApproval]) = last at hr hmissed hrun
  obtain ⟨response, hexec, hexact⟩ :=
    hclaim _ _ _ _ _ hrun 10 r (Table.find_of_mem hr) howner
  obtain ⟨shown, hshown, hfigures⟩ := receiptEncumbrance_exec (Table.find_of_mem hr) howner
  obtain rfl : response = shown := Except.ok.inj (Prod.mk.inj (hexec.symm.trans hshown)).1
  have hreleased := hexact.releasePending
  rw [hfigures] at hreleased
  exact hmissed hreleased

end SecureStore.Services
