/-
# The detail of a receipt

The detail page shows the receipts from the root of the tree down to the receipt, what the
receipt was split into, and the events that made it what it is. The path comes from one
recursive query and the events from one condition, neither of which asks for the tenant: that
nothing of another tenant is shown rests on the ledger.
-/

import SecureStore.Custody.Trees
import SecureStore.Foundation.Ascent
import SecureStore.Inventory.Timeline
import SecureStore.Services.StorageFees

namespace SecureStore.Services

open SecureStore.Foundation SecureStore.Inventory

/-- A receipt on the path from the root. -/
structure PathStep where
  id : Id
  receiptNumber : List Char
  status : ReceiptStatus
  deriving DecidableEq

structure Descendant where
  id : Id
  receiptNumber : List Char
  status : ReceiptStatus
  quantity : ℚ
  deriving DecidableEq

structure TimelineEntry where
  id : Id
  eventType : InventoryEventType
  quantity : ℚ
  txnType : Option TxnType
  txnId : Option Id
  occurredAt : Timestamp
  deriving DecidableEq

/-- `scope` of the policy that is shown. -/
inductive PolicyScope where
  | warehouseAndCommodity
  | warehouse
  | commodity
  | tenantDefault
  deriving DecidableEq, Repr

def StorageFeePolicy.scope (policy : StorageFeePolicy) : PolicyScope :=
  if policy.warehouseId.isSome = true then
    if policy.commodityId.isSome = true then .warehouseAndCommodity else .warehouse
  else if policy.commodityId.isSome = true then .commodity
  else .tenantDefault

structure ReceiptDetail where
  id : Id
  receiptNumber : List Char
  status : ReceiptStatus
  approvalStatus : ApprovalStatus
  group : ReceiptGroup
  isParent : Bool
  quantity : ℚ
  commodityId : Id
  dateOfDeposit : Timestamp
  expiryDate : Option Timestamp
  grade : Option String
  approvedById : Option Id
  warehouseId : Id
  ownerId : Id
  rootReceiptId : Id
  parentReceiptId : Option Id
  pathToRoot : List PathStep
  sourceTxnType : Option TxnType
  sourceTxnId : Option Id
  sourceEvent : Option (Id × InventoryEventType)
  managerId : Option Id
  storageFeePolicy : Option (StorageFeePolicy × PolicyScope)
  descendants : List Descendant
  timeline : List TimelineEntry

def pathStep (r : Receipt) : PathStep := ⟨r.id, r.receiptNumber, r.status⟩

def descendant (r : Receipt) : Descendant := ⟨r.id, r.receiptNumber, r.status, r.quantity⟩

def timelineEntry (occurredAt : InventoryEvent → Timestamp) (e : InventoryEvent) :
    TimelineEntry :=
  ⟨e.id, e.eventType, e.quantity, e.txnType, e.txnId, occurredAt e⟩

/-- `orderBy: { occurredAt: 'asc' }` -/
def byTime (occurredAt : InventoryEvent → Timestamp) (events : List InventoryEvent) :
    List InventoryEvent :=
  events.insertionSort fun e e' => occurredAt e ≤ occurredAt e'

/-- The database stamps the events in the order of the log. -/
def StampedInOrder (occurredAt : InventoryEvent → Timestamp) (s : Ledger) : Prop :=
  s.events.rows.Pairwise fun e e' => occurredAt e ≤ occurredAt e'

namespace InventoryQueryService

/-- The path from the root; none when the recursive query does not stop. -/
def pathToRoot (s : Ledger) (id : Id) : Option (List PathStep) :=
  (receiptTree.ascend s.receipts.rows s.receipts.rows.length 0
      (s.receipts.rows.filter fun r => r.id = id)).map fun anc =>
    (anc.insertionSort fun a b => b.2 ≤ a.2).map fun a => pathStep a.1

/-- The policy that applies to a receipt, if there is one. -/
def resolveStorageFeePolicy (tables : FeeTables) (tenantId warehouseId commodityId : Id) :
    Option StorageFeePolicy :=
  (candidates warehouseId commodityId).findSome? (findPolicy tables tenantId)

/-- The detail of a receipt of the tenant; none when the recursive query does not stop. -/
def getReceiptDetail (tables : FeeTables) (occurredAt : InventoryEvent → Timestamp) (s : Ledger)
    (tenantId id : Id) : Option (Except ApiError ReceiptDetail) :=
  match (s.receipts.find id).filter fun r => r.tenantId = tenantId with
  | none => some (.error (.receiptNotFound id))
  | some r =>
      let sourceEvent := s.events.rows.find? fun e => r.sourceEventId = some e.id
      (pathToRoot s id).map fun path => .ok
        { id := r.id
          receiptNumber := r.receiptNumber
          status := r.status
          approvalStatus := r.approvalStatus
          group := deriveGroup r
          isParent := r.isParent
          quantity := r.quantity
          commodityId := r.commodityId
          dateOfDeposit := r.dateOfDeposit
          expiryDate := r.expiryDate
          grade := r.grade
          approvedById := r.approvedById
          warehouseId := r.warehouseId
          ownerId := r.clientId
          rootReceiptId := r.rootReceiptId
          parentReceiptId := r.parentReceiptId
          pathToRoot := path
          sourceTxnType := r.sourceTxnType
          sourceTxnId := r.sourceTxnId
          sourceEvent := sourceEvent.map fun e => (e.id, e.eventType)
          managerId := sourceEvent.bind InventoryEvent.actorUserId
          storageFeePolicy :=
            (resolveStorageFeePolicy tables tenantId r.warehouseId r.commodityId).map
              fun policy => (policy, policy.scope)
          descendants := (receiptTree.children s.receipts.rows r.id).map descendant
          timeline := (byTime occurredAt (s.timeline id)).map (timelineEntry occurredAt) }

/-- The policy that is shown is the one that a fee is charged by. -/
theorem resolvePolicy_eq (tables : FeeTables) (tenantId warehouseId commodityId : Id) :
    (resolvePolicy tables tenantId warehouseId commodityId).toOption =
      resolveStorageFeePolicy tables tenantId warehouseId commodityId := by
  unfold resolvePolicy resolveStorageFeePolicy
  cases (candidates warehouseId commodityId).findSome? (findPolicy tables tenantId) <;> rfl

section Shown

variable {s : Ledger} {r : Receipt} {occurredAt : InventoryEvent → Timestamp}

/-- The path of a receipt is its line of ancestors, read from the root. -/
theorem pathToRoot_eq (h : Ancestry s) (hr : r ∈ s.receipts) :
    ∃ line, receiptTree.Line s.receipts.rows r line ∧
      pathToRoot s r.id = some ((line.map pathStep).reverse) := by
  have hfrom : (s.receipts.rows.filter fun x => decide (x.id = r.id)) = [r] := by
    apply List.perm_singleton.mp
    apply (List.perm_ext_iff_of_nodup ((List.Nodup.of_map _ s.receipts.nodup).filter _)
      (List.nodup_singleton r)).mpr
    intro x
    rw [List.mem_filter, decide_eq_true_eq, List.mem_singleton]
    constructor
    · rintro ⟨hx, hid⟩
      exact Table.eq_of_key_eq hx hr hid
    · rintro rfl
      exact ⟨hr, rfl⟩
  obtain ⟨line, hline, hfound⟩ := h.forest.ascends s.receipts.nodup hr 0
  refine ⟨line, hline, ?_⟩
  unfold pathToRoot
  rw [hfrom, hfound]
  simp only [Option.map_some, Lineage.insertionSort_zipIdx, List.map_reverse]
  have hsteps : (line.zipIdx 0).map (fun a => pathStep a.1) =
      ((line.zipIdx 0).map Prod.fst).map pathStep := by
    rw [List.map_map]
    rfl
  rw [hsteps, List.zipIdx_map_fst]

/-- On the line of a receipt there are receipts of its tree, split all but the first. -/
theorem line_kin (h : Ancestry s) (hr : r ∈ s.receipts) {line : List Receipt}
    (hline : receiptTree.Line s.receipts.rows r line) :
    (∀ a ∈ line, a ∈ s.receipts ∧ a.tenantId = r.tenantId ∧ a.commodityId = r.commodityId ∧
      a.warehouseId = r.warehouseId ∧ a.rootReceiptId = r.rootReceiptId) ∧
    (∀ a ∈ line.tail, a.status = .split) ∧
    line.getLast?.map Receipt.id = some r.rootReceiptId := by
  have hall : ∀ a ∈ line, a ∈ s.receipts ∧ a.tenantId = r.tenantId ∧
      a.commodityId = r.commodityId ∧ a.warehouseId = r.warehouseId ∧
        a.rootReceiptId = r.rootReceiptId := by
    refine hline.induct (P := fun a => a ∈ s.receipts ∧ a.tenantId = r.tenantId ∧
      a.commodityId = r.commodityId ∧ a.warehouseId = r.warehouseId ∧
        a.rootReceiptId = r.rootReceiptId) ?_ ?_
    · exact ⟨hr, rfl, rfl, rfl, rfl⟩
    · rintro c p hp hparent ⟨hc, htenant, hcommodity, hwarehouse, hroot⟩
      obtain ⟨q, hq, hid, hkin⟩ := h.parent c hc p.id hparent
      obtain rfl := Table.eq_of_key_eq hq hp hid
      exact ⟨hp, hkin.tenantId.symm.trans htenant, hkin.commodityId.symm.trans hcommodity,
        hkin.warehouseId.symm.trans hwarehouse, hkin.rootReceiptId.symm.trans hroot⟩
  refine ⟨hall, ?_, ?_⟩
  · intro a ha
    obtain ⟨hmem, c, hc, hparent⟩ := hline.parents hr a ha
    obtain ⟨q, hq, hid, hsplit⟩ := h.lifecycle.child_of_split c hc a.id hparent
    obtain rfl := Table.eq_of_key_eq hq hmem hid
    exact hsplit
  · obtain ⟨-, root, hlast, htop⟩ := hline.chain
    obtain ⟨hmem, -, -, -, hroot⟩ := hall root (List.mem_of_getLast? hlast)
    rw [hlast, Option.map_some, ← hroot, h.root root hmem htop]

/-- Every event on the timeline of a receipt is of its tenant and its tree. -/
theorem timeline_kin (h : Ancestry s) (hr : r ∈ s.receipts) :
    ∀ e ∈ s.timeline r.id, e.tenantId = r.tenantId ∧ e.rootReceiptId = r.rootReceiptId := by
  intro e he
  rw [timeline_eq hr, List.mem_filter] at he
  obtain ⟨hmem, hmatch⟩ := he
  obtain ⟨x, hx, hid, htenant, hroot⟩ := h.provenance.from_exists e hmem
  rcases of_decide_eq_true hmatch with hfrom | hsource
  · obtain rfl := Table.eq_of_key_eq hx hr (hid.trans hfrom)
    exact ⟨htenant.symm, hroot.symm⟩
  · obtain ⟨e', he', hminted⟩ := h.minted r hr
    have hsame : e' = e := by
      apply h.provenance.event_ids e' he' e hmem
      exact Option.some_inj.mp (hminted.source.symm.trans hsource)
    subst hsame
    refine ⟨?_, hminted.root⟩
    cases hparent : r.parentReceiptId with
    | none =>
        -- the root of the event's receipt is the receipt itself
        have hself : r.rootReceiptId = r.id := h.root r hr hparent
        obtain ⟨line, hline, -⟩ := pathToRoot_eq h hx
        obtain ⟨hall, -, hlast⟩ := line_kin h hx hline
        obtain ⟨top, htop, htopid⟩ := Option.map_eq_some_iff.mp hlast
        obtain ⟨htopmem, htoptenant, -⟩ := hall top (List.mem_of_getLast? htop)
        have hids : top.id = r.id := by
          rw [htopid, hroot, hminted.root, hself]
        obtain rfl := Table.eq_of_key_eq htopmem hr hids
        exact htenant.symm.trans htoptenant.symm
    | some p =>
        obtain ⟨q, hq, hqid, hkin⟩ := h.parent r hr p hparent
        have hids : x.id = q.id := by
          rw [hid, hminted.parent p hparent, hqid]
        obtain rfl := Table.eq_of_key_eq hx hq hids
        exact htenant.symm.trans hkin.tenantId.symm

/-- A receipt has descendants when it was split, and only then. -/
theorem children_eq_nil_iff (h : Ancestry s) (hr : r ∈ s.receipts) :
    receiptTree.children s.receipts.rows r.id = [] ↔ r.status ≠ .split := by
  constructor
  · intro hnone hsplit
    obtain ⟨k, hk, hparent⟩ := h.lifecycle.split_has_child r hr hsplit
    have hmem : k ∈ receiptTree.children s.receipts.rows r.id :=
      Lineage.mem_children.mpr ⟨hk, hparent⟩
    simp [hnone] at hmem
  · intro hstatus
    apply List.eq_nil_iff_forall_not_mem.mpr
    intro k hk
    obtain ⟨hmem, hparent⟩ := Lineage.mem_children.mp hk
    obtain ⟨q, hq, hid, hsplit⟩ := h.lifecycle.child_of_split k hmem r.id hparent
    obtain rfl := Table.eq_of_key_eq hq hr hid
    exact hstatus hsplit

end Shown

/-- However the requests of the platform interleave and wherever they crash, the detail of every
receipt is given in its tenant alone. The path leads from the root that the receipt names down
to it, through receipts of its tenant, commodity and warehouse that were all split; descendants
are shown when it was split, and they are its children in the same tenant; the events are of
its tenant and its tree, the one that minted it is the first of them in the log, and together
they tell where it stands; the policy that is shown is the one a fee is charged by. -/
theorem receipt_detail_accounts {num : Numeric} {directory : Directory} {requests : List Request}
    {trace : List (Transition Label Db)} {db : Db} {pool : List (Api Unit)}
    (h : Run (Db.initial directory) (requests.map (Request.run num)) trace db pool)
    (tables : FeeTables) (occurredAt : InventoryEvent → Timestamp) {r : Receipt}
    (hr : r ∈ db.ledger.receipts) :
    (∀ tenantId, tenantId ≠ r.tenantId → getReceiptDetail tables occurredAt db.ledger tenantId
      r.id = some (.error (.receiptNotFound r.id))) ∧
    ∃ (detail : ReceiptDetail) (line : List Receipt),
      getReceiptDetail tables occurredAt db.ledger r.tenantId r.id =
        some (.ok detail) ∧
      (detail.pathToRoot = (line.map pathStep).reverse ∧ line.head? = some r ∧
        line.IsChain (fun child parent => child.parentReceiptId = some parent.id) ∧
        (line.map Receipt.id).Nodup ∧ line.getLast?.map Receipt.id = some r.rootReceiptId ∧
        (∀ a ∈ line, a ∈ db.ledger.receipts ∧ a.tenantId = r.tenantId ∧
          a.commodityId = r.commodityId ∧ a.warehouseId = r.warehouseId) ∧
        ∀ a ∈ line.tail, a.status = .split) ∧
      (detail.descendants = (receiptTree.children db.ledger.receipts.rows r.id).map descendant ∧
        (detail.descendants = [] ↔ r.status ≠ .split) ∧
        ∀ k ∈ receiptTree.children db.ledger.receipts.rows r.id, k.tenantId = r.tenantId) ∧
      (detail.timeline.Perm ((db.ledger.timeline r.id).map (timelineEntry occurredAt)) ∧
        (StampedInOrder occurredAt db.ledger →
          detail.timeline = (db.ledger.timeline r.id).map (timelineEntry occurredAt)) ∧
        Tells r (db.ledger.timeline r.id) ∧
        ∀ e ∈ db.ledger.timeline r.id,
          e.tenantId = r.tenantId ∧ e.rootReceiptId = r.rootReceiptId) ∧
      detail.storageFeePolicy.map Prod.fst =
        (resolvePolicy tables r.tenantId r.warehouseId r.commodityId).toOption := by
  obtain ⟨hancestry, htold⟩ : Ancestry db.ledger ∧ Told db.ledger := by
    refine runs_ledger (P := fun s => Ancestry s ∧ Told s) ⟨ancestry_empty, ?_⟩ ?_ h
    · intro x hx
      simp at hx
    · exact fun hs heffect hcommits => ⟨hs.1.step heffect hcommits,
        hs.2.step hs.1 heffect hcommits⟩
  have hfind : db.ledger.receipts.find r.id = some r := Table.find_of_mem hr
  constructor
  · intro tenantId hne
    unfold getReceiptDetail
    rw [hfind, Option.filter_some, if_neg (by simpa using Ne.symm hne)]
  obtain ⟨line, hline, hpath⟩ := pathToRoot_eq hancestry hr
  obtain ⟨hkin, hsplit, hroot⟩ := line_kin hancestry hr hline
  have hdetail : ∃ detail, getReceiptDetail tables occurredAt db.ledger r.tenantId r.id =
      some (.ok detail) ∧ detail.pathToRoot = (line.map pathStep).reverse ∧
      detail.descendants = (receiptTree.children db.ledger.receipts.rows r.id).map descendant ∧
      detail.timeline =
        (byTime occurredAt (db.ledger.timeline r.id)).map (timelineEntry occurredAt) ∧
      detail.storageFeePolicy = (resolveStorageFeePolicy tables r.tenantId r.warehouseId
        r.commodityId).map fun policy => (policy, policy.scope) := by
    unfold getReceiptDetail
    rw [hfind, Option.filter_some, if_pos (by simp), hpath]
    exact ⟨_, rfl, rfl, rfl, rfl, rfl⟩
  obtain ⟨detail, hok, hshown, hdescendants, htimeline, hpolicy⟩ := hdetail
  refine ⟨detail, line, hok, ⟨hshown, ?_, hline.chain.1,
    hancestry.forest.line_nodup hline hr, hroot, ?_, hsplit⟩, ⟨hdescendants, ?_, ?_⟩,
    ⟨?_, ?_, htold r hr, timeline_kin hancestry hr⟩, ?_⟩
  · obtain ⟨rest, rfl⟩ := hline.head
    rfl
  · intro a ha
    obtain ⟨hmem, htenant, hcommodity, hwarehouse, -⟩ := hkin a ha
    exact ⟨hmem, htenant, hcommodity, hwarehouse⟩
  · rw [hdescendants, List.map_eq_nil_iff]
    exact children_eq_nil_iff hancestry hr
  · intro k hk
    obtain ⟨hmem, hparent⟩ := Lineage.mem_children.mp hk
    obtain ⟨q, hq, hid, hchild⟩ := hancestry.parent k hmem r.id hparent
    obtain rfl := Table.eq_of_key_eq hq hr hid
    exact hchild.tenantId
  · rw [htimeline]
    exact (List.perm_insertionSort _ _).map _
  · intro hstamped
    rw [htimeline]
    congr 1
    apply List.Pairwise.insertionSort_eq
    exact hstamped.filter _
  · rw [hpolicy, resolvePolicy_eq, Option.map_map]
    exact Option.map_id'

/-- Withdrawal 9 is paid for, dispatched while another request is about to reject it. -/
def dispatchedRun : List (Transition Label Db) × Db × List (Api Unit) :=
  interleave ([0, 1] ++ List.replicate 4 2 ++ List.replicate 3 3 ++ List.replicate 3 4 ++
      [6, 5, 5, 6] ++ List.replicate 2 5) (Db.initial sampleDirectory)
    ((sampleStock ++ sampleWithdrawal ++
      [Request.rejectWithdrawal (sampleUuids 180) 1 9 (some 12) none]).map (Request.run .postgres))

/-- The dispatched receipt comes second on its path, behind the split root. -/
theorem receipt_detail_accounts_sample : ∃ r ∈ dispatchedRun.2.1.ledger.receipts,
    r.status = .withdrawn ∧ ∃ detail : ReceiptDetail,
      getReceiptDetail ⟨Table.empty, Table.empty⟩ (fun _ => 0) dispatchedRun.2.1.ledger r.tenantId
        r.id = some (.ok detail) ∧
      detail.timeline =
        (dispatchedRun.2.1.ledger.timeline r.id).map (timelineEntry fun _ => 0) ∧
      (dispatchedRun.2.1.ledger.timeline r.id).map InventoryEvent.eventType =
        [.holdPlaced, .approved, .consumed] := by
  have hdispatched : ∃ r ∈ dispatchedRun.2.1.ledger.receipts.rows, r.status = .withdrawn ∧
      (dispatchedRun.2.1.ledger.timeline r.id).map InventoryEvent.eventType =
        [.holdPlaced, .approved, .consumed] := by decide +kernel
  obtain ⟨r, hr, hstatus, htypes⟩ := hdispatched
  obtain ⟨-, detail, line, hok, -, -, ⟨-, htimeline, -⟩, -⟩ :=
    receipt_detail_accounts (run_interleave _ _ _) ⟨Table.empty, Table.empty⟩ (fun _ => 0)
      (r := r) hr
  have hstamped : StampedInOrder (fun _ => 0) dispatchedRun.2.1.ledger :=
    List.pairwise_of_forall fun _ _ => le_rfl
  exact ⟨r, hr, hstatus, detail, hok, htimeline hstamped, htypes⟩

end InventoryQueryService

end SecureStore.Services
