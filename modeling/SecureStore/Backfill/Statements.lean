/-
# The phase 1 backfill

A legacy table has parent links but no root links, no event log and no reliable parent
flags. The backfill sets the root links, promotes the nodes that have children, logs one
genesis event for each root, and closes the gap of a root that outweighs its leaves with
one more child. Each statement commits on its own, and so does the transaction for each
root, so a run can stop between any two of them. The uuids a run draws and the clock it
reads are inputs. The verification gate that follows only reads.
-/

import SecureStore.Foundation.Alone
import SecureStore.Inventory.Ancestry
import SecureStore.Services.Database
import Mathlib

namespace SecureStore.Backfill

open SecureStore.Foundation SecureStore.Inventory

/-- A receipt between the two migrations: root, source event and supersession may be null. -/
structure LegacyReceipt where
  id : Id
  receiptNumber : List Char
  status : ReceiptStatus
  tenantId : Id
  commodityId : Id
  quantity : ℚ
  grade : Option String
  warehouseId : Id
  clientId : Id
  approvalStatus : ApprovalStatus
  parentReceiptId : Option Id
  rootReceiptId : Option Id
  isParent : Bool
  supersededAt : Option Timestamp
  sourceTxnType : Option TxnType
  sourceTxnId : Option Id
  sourceEventId : Option Id
  dateOfDeposit : Timestamp
  expiryDate : Option Timestamp
  createdAt : Timestamp
  updatedAt : Timestamp
  deriving DecidableEq

instance : Keyed LegacyReceipt Id := ⟨LegacyReceipt.id⟩

@[simp]
theorem key_legacy (r : LegacyReceipt) : Keyed.key r = r.id := rfl

/-- What the backfill notes on its events, besides `backfill: true`. -/
structure EventMetadata where
  reason : Option String
  matchedWithdrawalId : Option Id
  deriving DecidableEq

structure BackfillEvent extends InventoryEvent where
  metadata : EventMetadata
  occurredAt : Timestamp
  deriving DecidableEq

instance : Keyed BackfillEvent IdempotencyKey := ⟨fun e => e.idempotencyKey⟩

@[simp]
theorem key_backfillEvent (e : BackfillEvent) : Keyed.key e = e.idempotencyKey := rfl

structure LegacyWithdrawal where
  id : Id
  receiptId : Id
  status : Services.WithdrawalStatus
  quantity : ℚ
  createdAt : Timestamp
  deriving DecidableEq

structure LegacyDb where
  receipts : Table LegacyReceipt
  events : Table BackfillEvent
  withdrawals : List LegacyWithdrawal
  /-- Whether receipts still have the column `quantity_available`: not null, without a
  default, and not set by the client. -/
  availableRequired : Bool

/-- Legacy receipts under their parents. -/
def legacyTree : Lineage LegacyReceipt Id where
  key := LegacyReceipt.id
  parent := LegacyReceipt.parentReceiptId

@[simp]
theorem legacyTree_key (r : LegacyReceipt) : legacyTree.key r = r.id := rfl

@[simp]
theorem legacyTree_parent (r : LegacyReceipt) : legacyTree.parent r = r.parentReceiptId := rfl

inductive BackfillError where
  /-- P2002 or a primary key violation. -/
  | uniqueViolation
  /-- `numeric field overflow` -/
  | numericOverflow
  /-- P2011 -/
  | notNullViolation
  /-- P2025 -/
  | recordNotFound
  /-- `ABORT: ${n} root(s) have leaves > root` -/
  | abort (negatives : List Id)
  deriving DecidableEq

/-- The statements of a run. -/
inductive Statement where
  | setRoots
  | promoteParents
  | insertGenesis
  | linkGenesis
  | selectGaps
  | findEvent
  | findRoot
  | matchWithdrawal
  | reconcile
  deriving DecidableEq

/-- A root with its quantity and the sum of its leaves. -/
structure GapRow where
  rootId : Id
  rootQty : ℚ
  leafSum : ℚ
  deriving DecidableEq

/-- The uuids and times a run draws for each root, and the order in which the database
returns the groups of the gap query. -/
structure Draws where
  /-- `gen_random_uuid()` for the genesis event. -/
  genesis : Id → Id
  /-- The id of the reconciliation event. -/
  event : Id → Id
  /-- The id of the reconciliation child. -/
  child : Id → Id
  /-- The time of the root's transaction. -/
  now : Id → Timestamp
  /-- `GROUP BY` comes without an order. -/
  groups : Scan GapRow

/-- `backfill:deposit:${root}` -/
def depositKey (root : Id) : IdempotencyKey := [.text "backfill", .text "deposit", .uuid root]

/-- `backfill:recon:${root}` -/
def reconKey (root : Id) : IdempotencyKey := [.text "backfill", .text "recon", .uuid root]

/-- `SUM(quantity)` -/
def sumQty (rows : List LegacyReceipt) : ℚ := (rows.map LegacyReceipt.quantity).sum

namespace LegacyDb

variable (db : LegacyDb)

/-- The receipts without a parent. -/
def roots : List LegacyReceipt :=
  db.receipts.rows.filter fun r => (legacyTree.parent r).isNone

/-- The recursive query from a root. -/
def treeOf (root : LegacyReceipt) : List LegacyReceipt :=
  (legacyTree.descend db.receipts.rows db.receipts.rows.length [root]).getD []

/-- The direct children of a receipt. -/
def kids (id : Id) : List LegacyReceipt := legacyTree.children db.receipts.rows id

/-! ### Step A: structure -/

/-- The recursive query `chain`: each node with the root it is under. -/
def chain : List (Id × Id) :=
  db.roots.flatMap fun root => (db.treeOf root).map fun r => (r.id, root.id)

/-- A1: every node's root. -/
def setRoots : LegacyDb :=
  { db with
    receipts := db.receipts.modifyWhere
      (fun r => (db.chain.lookup r.id).isSome ∧ r.rootReceiptId ≠ db.chain.lookup r.id)
      fun r => { r with rootReceiptId := db.chain.lookup r.id } }

/-- A2: any node with children is a superseded SPLIT parent. -/
def promoteParents : LegacyDb :=
  { db with
    receipts := db.receipts.modifyWhere
      (fun p => db.kids p.id ≠ [] ∧ (p.isParent = false ∨ p.status ≠ .split))
      fun p => { p with
        isParent := true, status := .split,
        supersededAt := some (p.supersededAt.getD p.updatedAt) } }

/-! ### Step B: genesis -/

def genesisEvent (draws : Draws) (r : LegacyReceipt) : BackfillEvent where
  id := draws.genesis r.id
  tenantId := r.tenantId
  rootReceiptId := r.id
  fromReceiptId := r.id
  eventType := .deposit
  txnType := some .deposit
  quantity := r.quantity
  idempotencyKey := depositKey r.id
  metadata := ⟨none, none⟩
  occurredAt := r.createdAt

/-- The roots whose genesis is not logged. -/
def missingGenesis : List LegacyReceipt :=
  db.roots.filter fun r => (db.events.find (depositKey r.id)).isNone

/-- Append events: their ids and keys are unique. -/
def insertEvents (new : List BackfillEvent) : Except BackfillError (Unit × LegacyDb) :=
  if (new.map (·.id) ++ db.events.rows.map (·.id)).Nodup then
    match db.events.insertAll new with
    | some events => .ok ((), { db with events := events })
    | none => .error .uniqueViolation
  else .error .uniqueViolation

/-- One DEPOSIT event for each root that has none. -/
def insertGenesis (draws : Draws) : Except BackfillError (Unit × LegacyDb) :=
  db.insertEvents (db.missingGenesis.map (genesisEvent draws))

/-- Point each root at its genesis event. -/
def linkGenesis : LegacyDb :=
  { db with
    receipts := db.receipts.modifyWhere
      (fun r => r.parentReceiptId = none ∧ (db.events.find (depositKey r.id)).isSome ∧
        r.sourceEventId ≠ (db.events.find (depositKey r.id)).map (·.id))
      fun r => { r with sourceEventId := (db.events.find (depositKey r.id)).map (·.id) } }

/-! ### Step C: reconciliation -/

/-- The recursive query from all roots. -/
def forestRows : List LegacyReceipt :=
  (legacyTree.descend db.receipts.rows db.receipts.rows.length db.roots).getD []

/-- The nodes of the forest grouped by their root, joined with the root. -/
def gapRows : List GapRow :=
  db.receipts.rows.filterMap fun rt =>
    let members := db.forestRows.filter fun t => t.rootReceiptId = some rt.id
    if members = [] then none
    else some
      { rootId := rt.id
        rootQty := rt.quantity
        leafSum := sumQty (members.filter fun t => !t.isParent) }

/-- A completed legacy withdrawal from the tree of about the gap's quantity; `close` is
`ABS(w.quantity - gap) < 0.0005` on doubles. -/
def matchWithdrawal (close : ℚ → ℚ → Bool) (root : Id) (gap : ℚ) : Option Id :=
  let matching := db.withdrawals.filter fun w =>
    (db.receipts.rows.any fun r => r.id = w.receiptId ∧ r.rootReceiptId = some root) ∧
      w.status = .completed ∧ close w.quantity gap = true
  (matching.insertionSort fun w w' => w.createdAt ≤ w'.createdAt).head?.map LegacyWithdrawal.id

def reconEvent (draws : Draws) (root : LegacyReceipt) (gap : ℚ) (w : Option Id) :
    BackfillEvent where
  id := draws.event root.id
  tenantId := root.tenantId
  rootReceiptId := root.id
  fromReceiptId := root.id
  eventType := if w.isSome then .consumed else .legacyReconciliation
  txnType := some (if w.isSome then .withdrawal else .adjustment)
  txnId := w
  quantity := gap
  idempotencyKey := reconKey root.id
  metadata :=
    ⟨some (if w.isSome then "legacy completed withdrawal reflected as terminal node"
      else "opening-balance adjustment: unattributable legacy gap"), w⟩
  occurredAt := root.createdAt

def reconChild (draws : Draws) (root : LegacyReceipt) (gap : ℚ) (w : Option Id) :
    LegacyReceipt where
  id := draws.child root.id
  receiptNumber := root.receiptNumber ++ "-RCN".toList
  status := if w.isSome then .withdrawn else .cancelled
  tenantId := root.tenantId
  commodityId := root.commodityId
  quantity := gap
  grade := root.grade
  warehouseId := root.warehouseId
  clientId := root.clientId
  approvalStatus := .approved
  parentReceiptId := some root.id
  rootReceiptId := some root.id
  isParent := false
  supersededAt := none
  sourceTxnType := some (if w.isSome then .withdrawal else .adjustment)
  sourceTxnId := w
  sourceEventId := some (draws.event root.id)
  dateOfDeposit := root.dateOfDeposit
  expiryDate := root.expiryDate
  createdAt := draws.now root.id
  updatedAt := draws.now root.id

/-- What a reconciliation does to its root. -/
def settle (draws : Draws) (root : LegacyReceipt) (r : LegacyReceipt) : LegacyReceipt :=
  { r with
    isParent := true, status := .split
    supersededAt := some (root.supersededAt.getD root.updatedAt), updatedAt := draws.now root.id }

/-- The transaction for one root: the event, the child, and the root's promotion. The
columns round to three decimals and hold values below 10¹⁵. -/
def reconcile (draws : Draws) (root : LegacyReceipt) (gap : ℚ) (w : Option Id) :
    Except BackfillError (Unit × LegacyDb) :=
  let stored := roundScale 3 gap
  if 10 ^ 15 ≤ |stored| then .error .numericOverflow
  else
    match db.insertEvents [reconEvent draws root stored w] with
    | .error e => .error e
    | .ok (_, db') =>
        let child := reconChild draws root stored w
        if db.availableRequired then .error .notNullViolation
        else if child.receiptNumber ∈ db.receipts.rows.map LegacyReceipt.receiptNumber then
          .error .uniqueViolation
        else
          match db'.receipts.insert child with
          | none => .error .uniqueViolation
          | some receipts =>
              if (receipts.find root.id).isNone then .error .recordNotFound
              else .ok ((), { db' with receipts := receipts.modify root.id (settle draws root) })

end LegacyDb

/-- The attempts of a backfill. -/
abbrev Run (α : Type) := Attempt Statement LegacyDb BackfillError α

section Steps

variable (draws : Draws) (close : ℚ → ℚ → Bool)

def stepA_structural : Run Unit := do
  Attempt.write .setRoots fun db => .ok ((), db.setRoots)
  Attempt.write .promoteParents fun db => .ok ((), db.promoteParents)

def stepB_genesis : Run Unit := do
  Attempt.write .insertGenesis fun db => db.insertGenesis draws
  Attempt.write .linkGenesis fun db => .ok ((), db.linkGenesis)

/-- One round of the loop over the gaps. -/
def reconcileGap (g : GapRow) : Run Unit :=
  let gap := roundSig 20 (g.rootQty - g.leafSum)
  if gap ≤ 0 then pure ()
  else do
    let found ← Attempt.read .findEvent fun db => db.events.find (reconKey g.rootId)
    if found.isSome then pure ()
    else do
      let root ← Attempt.read .findRoot fun db => db.receipts.find g.rootId
      let root ← Attempt.orThrow root .recordNotFound
      let w ← Attempt.read .matchWithdrawal fun db => db.matchWithdrawal close root.id gap
      Attempt.write .reconcile fun db => db.reconcile draws root gap w

/-- The roots whose leaves outweigh them. -/
def negatives (gaps : List GapRow) : List Id :=
  (gaps.filter fun g => roundSig 20 (g.rootQty - g.leafSum) < 0).map GapRow.rootId

def stepC_reconcile : Run Unit := do
  let gaps ← Attempt.read .selectGaps fun db => draws.groups.order db.gapRows
  Attempt.forEach gaps (reconcileGap draws close)
  Attempt.throwIf (negatives gaps ≠ []) (.abort (negatives gaps))

/-- The phase 1 backfill. -/
def backfill : Run Unit := do
  stepA_structural
  stepB_genesis draws
  stepC_reconcile draws close

end Steps

/-! ### The verification gate -/

inductive VerifyFailure where
  /-- `(1) ${n} receipt(s) with NULL root_receipt_id` -/
  | nullRoots (n : ℕ)
  /-- `(2) ${n} parent(s) violate mass conservation` -/
  | massViolation (n : ℕ)
  /-- `(3) ${n} root(s) where Σ leaves ≠ root.quantity` -/
  | rootMismatch (n : ℕ)
  /-- `(4) ${n} root(s) missing a linked genesis DEPOSIT event with matching quantity` -/
  | genesisMissing (n : ℕ)
  deriving DecidableEq

namespace LegacyDb

variable (db : LegacyDb)

def nullRoots : List LegacyReceipt := db.receipts.rows.filter fun r => r.rootReceiptId = none

def badParents : List LegacyReceipt :=
  db.receipts.rows.filter fun p =>
    p.isParent ∧ db.kids p.id ≠ [] ∧ p.quantity ≠ sumQty (db.kids p.id)

def badRoots : List GapRow := db.gapRows.filter fun g => g.rootQty ≠ g.leafSum

def badGenesis : List LegacyReceipt :=
  db.roots.filter fun r => !db.events.rows.any fun e =>
    some e.id = r.sourceEventId ∧ e.eventType = .deposit ∧ e.quantity = r.quantity

/-- The failures that the verification reports. -/
def verify : List VerifyFailure :=
  (if db.nullRoots.length > 0 then [.nullRoots db.nullRoots.length] else []) ++
  (if db.badParents.length > 0 then [.massViolation db.badParents.length] else []) ++
  (if db.badRoots.length > 0 then [.rootMismatch db.badRoots.length] else []) ++
  (if db.badGenesis.length > 0 then [.genesisMissing db.badGenesis.length] else [])

end LegacyDb

end SecureStore.Backfill
