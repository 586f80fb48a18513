/-
# Ledger operations

The operations of the inventory ledger service. An operation looks its
idempotency key up in the event log and reconstructs the earlier result when the
key is there; otherwise it runs one serializable transaction, which commits as a
whole or not at all. Row locks have no effect inside an atomic transaction and
are left out. The uuids an operation draws and the clock it reads are inputs.
-/

import SecureStore.Inventory.ReceiptNumber
import Mathlib.Tactic.Simps.Basic

namespace SecureStore.Inventory

open SecureStore.Foundation

/-- Statements inside one transaction; an error rolls all of them back. -/
abbrev Tx (α : Type) := StateT Ledger (Except ApiError) α

namespace Tx

/-- Evaluate a query. -/
def query {α : Type} (f : Ledger → Except ApiError α) : Tx α := fun s =>
  match f s with
  | .ok a => .ok (a, s)
  | .error e => .error e

/-- `if (c) throw e` -/
def throwIf (c : Prop) [Decidable c] (e : ApiError) : Tx Unit := fun s =>
  if c then .error e else .ok ((), s)

end Tx

/-- What one call gets from outside: the uuids it draws, and the order in which
the database returns rows to a query of it that asks for none. -/
structure Uuids where
  /-- The id of its event. -/
  event : Id
  /-- The id of a settlement's second event. -/
  releaseEvent : Id
  /-- The id of a deposited root or of the first child of a split. -/
  primary : Id
  /-- The id of the second child of a split. -/
  remainder : Id
  /-- The order of the rows of `byEvent`. -/
  scan : Scan Receipt

structure ActorCtx where
  tenantId : Id
  actorUserId : Option Id
  idempotencyKey : IdempotencyKey

structure DepositInput where
  tenantId : Id
  clientId : Id
  commodityId : Id
  warehouseId : Id
  quantity : ℚ
  grade : Option String
  dateOfDeposit : Timestamp
  expiryDate : Option Timestamp
  receiptNumber : Option (List Char)
  actorUserId : Option Id
  idempotencyKey : IdempotencyKey
  /-- `new Date().getFullYear()` -/
  currentYear : ℕ

structure HoldInput where
  tenantId : Id
  sourceReceiptId : Id
  quantity : ℚ
  heldStatus : HeldStatus
  txnType : TxnType
  txnId : Id
  actorUserId : Option Id
  idempotencyKey : IdempotencyKey

structure HoldResult where
  source : Receipt
  /-- `undefined` when a replay finds no held child. -/
  held : Option Receipt
  remainder : Option Receipt

structure ReleasePartialInput where
  tenantId : Id
  heldReceiptId : Id
  releaseQuantity : ℚ
  releaseRequestId : Id
  actorUserId : Option Id
  idempotencyKey : IdempotencyKey

structure ReleasePartialResult where
  /-- `undefined` when a replay finds no ACTIVE child. -/
  released : Option Receipt
  /-- `undefined` when a replay finds no HELD_LIEN child. -/
  remainingHeld : Option Receipt

structure SeizeInput where
  tenantId : Id
  heldLoanReceiptId : Id
  financierUserId : Id
  actorUserId : Option Id
  idempotencyKey : IdempotencyKey
  partialQuantity : Option ℚ

structure SeizeResult where
  /-- `undefined` when a replay finds no SEIZED child. -/
  seized : Option Receipt
  remainder : Option Receipt

namespace Ledger

def loadOrThrow (id tenantId : Id) (s : Ledger) : Except ApiError Receipt :=
  match s.receipts.find id with
  | some r => if r.tenantId = tenantId then .ok r else .error (.receiptNotFound id)
  | none => .error (.receiptNotFound id)

/-- The receipts an event created. -/
def createdBy (e : InventoryEvent) (s : Ledger) : List Receipt :=
  s.receipts.rows.filter fun r => r.sourceEventId = some e.id

/-- `findMany({ where: { sourceEventId: e.id } })`, which asks for no order. -/
def byEvent (scan : Scan Receipt) (e : InventoryEvent) (s : Ledger) : List Receipt :=
  scan.order (s.createdBy e)

def affected (e : InventoryEvent) (s : Ledger) : Except ApiError Receipt :=
  s.loadOrThrow e.fromReceiptId e.tenantId

end Ledger

/-- Look the key up; on a prior event reconstruct, else work. A unique violation
while working looks the key up once more. -/
def runIdempotent {α : Type} (key : IdempotencyKey)
    (reconstruct : InventoryEvent → Ledger → Except ApiError α) (work : Tx α) : Tx α := fun s =>
  match s.events.find key with
  | some prior => Tx.query (reconstruct prior) s
  | none =>
      match work s with
      | .ok result => .ok result
      | .error .uniqueViolation =>
          match s.events.find key with
          | some ev => Tx.query (reconstruct ev) s
          | none => .error .uniqueViolation
      | .error e => .error e

/-- A receipt as its columns keep it. -/
@[simps]
def Numeric.storeReceipt (num : Numeric) (r : Receipt) : Receipt :=
  { r with quantity := num.numeric18_3 r.quantity }

/-- An event as its columns keep it. -/
@[simps]
def Numeric.storeEvent (num : Numeric) (e : InventoryEvent) : InventoryEvent :=
  { e with quantity := num.numeric18_3 e.quantity }

section Statements

variable (num : Numeric)

/-- `tx.receipt.create`: the id and the receipt number are unique. -/
def createReceipt (r : Receipt) : Tx Receipt := fun s =>
  let stored := num.storeReceipt r
  if stored.receiptNumber ∈ s.receipts.rows.map Receipt.receiptNumber then
    .error .uniqueViolation
  else
    match s.receipts.insert stored with
    | some receipts => .ok (stored, { s with receipts })
    | none => .error .uniqueViolation

/-- `tx.receipt.update`: fails on a missing row. -/
def updateReceipt (id : Id) (f : Receipt → Receipt)
    (hf : ∀ r, Keyed.key (f r) = Keyed.key r := by intro r; rfl) : Tx Receipt := fun s =>
  match s.receipts.find id with
  | some r => .ok (f r, { s with receipts := s.receipts.modify id f hf })
  | none => .error .recordNotFound

/-- `tx.inventoryEvent.create`: the id and the idempotency key are unique. -/
def event (e : InventoryEvent) : Tx InventoryEvent := fun s =>
  let stored := num.storeEvent e
  if stored.id ∈ s.events.rows.map InventoryEvent.id then
    .error .uniqueViolation
  else
    match s.events.insert stored with
    | some events => .ok (stored, { s with events })
    | none => .error .uniqueViolation

/-- A child of a receipt: it inherits tenant, commodity, grade, warehouse, root
and dates. -/
@[simps]
def childOf (src : Receipt) (id : Id) (receiptNumber : List Char) (status : ReceiptStatus)
    (quantity : ℚ) (clientId : Id) (approvalStatus : ApprovalStatus)
    (sourceTxnType : Option TxnType) (sourceTxnId : Option Id) (eventId : Id) : Receipt where
  id := id
  receiptNumber := receiptNumber
  status := status
  tenantId := src.tenantId
  commodityId := src.commodityId
  quantity := quantity
  grade := src.grade
  warehouseId := src.warehouseId
  clientId := clientId
  approvalStatus := approvalStatus
  parentReceiptId := some src.id
  rootReceiptId := src.rootReceiptId
  sourceTxnType := sourceTxnType
  sourceTxnId := sourceTxnId
  sourceEventId := some eventId
  dateOfDeposit := src.dateOfDeposit
  expiryDate := src.expiryDate

/-- What a split does to its source. -/
@[simps]
def supersede (r : Receipt) : Receipt := { r with status := .split, isParent := true }

/-- What a split gives its first child. -/
structure Primary where
  status : ReceiptStatus
  approvalStatus : ApprovalStatus
  clientId : Id
  sourceTxnType : Option TxnType
  sourceTxnId : Option Id

/-- The remainder of a split, created when it is positive. -/
def createRemainder (uuids : Uuids) (source : Receipt) (remQty : ℚ) (base : List Char)
    (taken : List (List Char)) (eventId : Id) : Tx (Option Receipt) :=
  if 0 < remQty then
    let remSuffix := nextSuffix taken
    some <$> createReceipt num
      (childOf source uuids.remainder (base ++ '-' :: remSuffix) .active remQty
        source.clientId .approved none none eventId)
  else pure none

/-- Split a source into a primary child and an ACTIVE remainder, if any. -/
def partition (uuids : Uuids) (source : Receipt) (primaryQty : ℚ) (primary : Primary)
    (eventId : Id) : Tx (Receipt × Option Receipt) := do
  let base := baseReceiptNumber source.receiptNumber
  let taken ← Tx.query fun s => .ok (existingChildSuffixes s.receipts.rows base)
  let primarySuffix := nextSuffix taken
  let primaryRow ← createReceipt num
    (childOf source uuids.primary (base ++ '-' :: primarySuffix) primary.status primaryQty
      primary.clientId primary.approvalStatus primary.sourceTxnType primary.sourceTxnId eventId)
  let remQty := num.minus source.quantity primaryQty
  let remainder ← createRemainder num uuids source remQty base (taken ++ [primarySuffix]) eventId
  let _ ← updateReceipt source.id supersede
  pure (primaryRow, remainder)

/-- Load one receipt, check it, log an event about it and update it. -/
def amendReceipt (tenantId receiptId : Id) (check : Receipt → Except ApiError Unit)
    (entry : Receipt → InventoryEvent) (update : Receipt → Receipt)
    (hf : ∀ r, Keyed.key (update r) = Keyed.key r := by intro r; rfl) : Tx Receipt := do
  let r ← Tx.query (Ledger.loadOrThrow receiptId tenantId)
  Tx.query fun _ => check r
  let _ ← event num (entry r)
  updateReceipt r.id update hf

/-- `if (c) throw e`, outside a transaction. -/
def rejectIf (c : Prop) [Decidable c] (e : ApiError) : Except ApiError Unit :=
  if c then .error e else .ok ()

def assertHeld (r : Receipt) : Except ApiError Unit :=
  rejectIf (¬ r.status.Held) (.notHeld r.id r.status)

/-- An event about a receipt; the members below fill in what they record. -/
@[simps]
def eventFrom (uuid tenantId : Id) (r : Receipt) (eventType : InventoryEventType)
    (txnType : Option TxnType) (txnId : Option Id) (quantity : ℚ) (actorUserId : Option Id)
    (idempotencyKey : IdempotencyKey) (reversalOfEventId : Option Id := none) :
    InventoryEvent where
  id := uuid
  tenantId := tenantId
  rootReceiptId := r.rootReceiptId
  fromReceiptId := r.id
  eventType := eventType
  txnType := txnType
  txnId := txnId
  quantity := quantity
  actorUserId := actorUserId
  idempotencyKey := idempotencyKey
  reversalOfEventId := reversalOfEventId

end Statements

/-- The uppercase hexadecimal digit of a number below 16. -/
def hexDigit (n : ℕ) : Char :=
  if n < 10 then Char.ofNat (48 + n) else Char.ofNat (55 + n)

/-- `id.slice(0, 8).toUpperCase()` -/
def idHead (id : Id) : List Char :=
  (List.range 8).map fun i => hexDigit (id / 16 ^ (31 - i) % 16)

section Operations

variable (num : Numeric) (uuids : Uuids)

/-- Mint a root, awaiting approval. -/
def deposit (input : DepositInput) : Tx Receipt := do
  Tx.throwIf (input.quantity ≤ 0) (.insufficientQuantity input.quantity 0)
  runIdempotent input.idempotencyKey Ledger.affected do
    let id := uuids.primary
    let number := input.receiptNumber.getD
      ("WR-".toList ++ Nat.toDigits 10 input.currentYear ++ '-' :: idHead id)
    let root ← createReceipt num
      { id := id
        receiptNumber := number
        status := .pendingApproval
        tenantId := input.tenantId
        commodityId := input.commodityId
        quantity := input.quantity
        grade := input.grade
        warehouseId := input.warehouseId
        clientId := input.clientId
        approvalStatus := .pending
        parentReceiptId := none
        rootReceiptId := id
        sourceTxnType := some .deposit
        sourceTxnId := none
        sourceEventId := none
        dateOfDeposit := input.dateOfDeposit
        expiryDate := input.expiryDate }
    let ev ← event num
      (eventFrom uuids.event input.tenantId root .deposit (some .deposit) none input.quantity
        input.actorUserId input.idempotencyKey)
    updateReceipt id fun r => { r with sourceEventId := some ev.id }

def approveReceipt (ctx : ActorCtx) (receiptId : Id) : Tx Receipt :=
  runIdempotent ctx.idempotencyKey Ledger.affected <|
    amendReceipt num ctx.tenantId receiptId
      (fun r => rejectIf (r.status ≠ .pendingApproval) (.notPendingApproval r.id r.status))
      (fun r => eventFrom uuids.event ctx.tenantId r .approved (some .deposit) none r.quantity
        ctx.actorUserId ctx.idempotencyKey)
      (fun r => { r with
        status := .active, approvalStatus := .approved, approvedById := ctx.actorUserId })

def rejectReceipt (ctx : ActorCtx) (receiptId : Id) (reason : String) : Tx Receipt :=
  runIdempotent ctx.idempotencyKey Ledger.affected <|
    amendReceipt num ctx.tenantId receiptId
      (fun r => rejectIf (r.status ≠ .pendingApproval) (.notPendingApproval r.id r.status))
      (fun r => eventFrom uuids.event ctx.tenantId r .rejected (some .deposit) none r.quantity
        ctx.actorUserId ctx.idempotencyKey)
      (fun r => { r with
        status := .cancelled, approvalStatus := .rejected, rejectionReason := some reason,
        approvedById := ctx.actorUserId })

/-- Split a requested volume off an ACTIVE leaf and hold it. -/
def hold (input : HoldInput) : Tx HoldResult :=
  runIdempotent input.idempotencyKey
    (fun e s => do
      let kids := s.byEvent uuids.scan e
      let source ← s.affected e
      pure
        { source := source
          held := kids.find? fun k => k.status.Held
          remainder := kids.find? fun k => k.status = .active })
    do
      let src ← Tx.query (Ledger.loadOrThrow input.sourceReceiptId input.tenantId)
      Tx.throwIf (src.status ≠ .active ∨ src.approvalStatus ≠ .approved)
        (.receiptNotTransactable src.id src.status src.approvalStatus)
      Tx.throwIf (src.isParent = true)
        (.receiptNotTransactable src.id .split src.approvalStatus)
      Tx.throwIf (input.quantity ≤ 0) (.insufficientQuantity input.quantity 0)
      Tx.throwIf (src.quantity < input.quantity)
        (.insufficientQuantity input.quantity src.quantity)
      let ev ← event num
        (eventFrom uuids.event input.tenantId src .holdPlaced (some input.txnType)
          (some input.txnId) input.quantity input.actorUserId input.idempotencyKey)
      let (primary, remainder) ← partition num uuids src input.quantity
        { status := input.heldStatus.status
          approvalStatus := .pending
          clientId := src.clientId
          sourceTxnType := some input.txnType
          sourceTxnId := some input.txnId }
        ev.id
      pure { source := supersede src, held := some primary, remainder := remainder }

def approveHold (ctx : ActorCtx) (heldReceiptId : Id) : Tx Receipt :=
  runIdempotent ctx.idempotencyKey Ledger.affected <|
    amendReceipt num ctx.tenantId heldReceiptId
      (fun r => do
        assertHeld r
        rejectIf (r.approvalStatus ≠ .pending) (.notAwaitingApproval r.id r.approvalStatus))
      (fun r => eventFrom uuids.event ctx.tenantId r .approved r.sourceTxnType r.sourceTxnId
        r.quantity ctx.actorUserId ctx.idempotencyKey)
      (fun r => { r with approvalStatus := .approved, approvedById := ctx.actorUserId })

/-- The transaction of `release`. -/
def releaseWork (ctx : ActorCtx) (heldReceiptId : Id) : Tx Receipt :=
  amendReceipt num ctx.tenantId heldReceiptId
    assertHeld
    (fun r => eventFrom uuids.event ctx.tenantId r .holdReleased r.sourceTxnType
      r.sourceTxnId r.quantity ctx.actorUserId ctx.idempotencyKey r.sourceEventId)
    (fun r => { r with status := .active, approvalStatus := .approved })

def release (ctx : ActorCtx) (heldReceiptId : Id) : Tx Receipt :=
  runIdempotent ctx.idempotencyKey Ledger.affected (releaseWork num uuids ctx heldReceiptId)

def consume (ctx : ActorCtx) (heldReceiptId : Id) : Tx Receipt :=
  runIdempotent ctx.idempotencyKey Ledger.affected <|
    amendReceipt num ctx.tenantId heldReceiptId
      assertHeld
      (fun r => eventFrom uuids.event ctx.tenantId r .consumed r.sourceTxnType r.sourceTxnId
        r.quantity ctx.actorUserId ctx.idempotencyKey)
      (fun r => { r with status := .withdrawn })

/-- Split a HELD_LIEN leaf into an ACTIVE part and a part that stays HELD_LIEN. -/
def releasePartial (input : ReleasePartialInput) : Tx ReleasePartialResult :=
  runIdempotent input.idempotencyKey
    (fun e s =>
      let kids := s.byEvent uuids.scan e
      .ok
        { released := kids.find? fun k => k.status = .active
          remainingHeld := kids.find? fun k => k.status = .heldLien })
    do
      let src ← Tx.query (Ledger.loadOrThrow input.heldReceiptId input.tenantId)
      Tx.throwIf (src.status ≠ .heldLien) (.cannotPartiallyRelease src.status)
      Tx.throwIf (input.releaseQuantity ≤ 0) (.insufficientQuantity input.releaseQuantity 0)
      Tx.throwIf (src.quantity ≤ input.releaseQuantity)
        (.insufficientQuantity input.releaseQuantity src.quantity)
      let ev ← event num
        (eventFrom uuids.event input.tenantId src .holdReleased (some .pledge)
          (some input.releaseRequestId) input.releaseQuantity input.actorUserId
          input.idempotencyKey)
      let base := baseReceiptNumber src.receiptNumber
      let taken ← Tx.query fun s => .ok (existingChildSuffixes s.receipts.rows base)
      let primarySuffix := nextSuffix taken
      let released ← createReceipt num
        (childOf src uuids.primary (base ++ '-' :: primarySuffix) .active input.releaseQuantity
          src.clientId .approved none none ev.id)
      let remSuffix := nextSuffix (taken ++ [primarySuffix])
      let remainingHeld ← createReceipt num
        (childOf src uuids.remainder (base ++ '-' :: remSuffix) .heldLien
          (num.minus src.quantity input.releaseQuantity) src.clientId src.approvalStatus
          src.sourceTxnType src.sourceTxnId ev.id)
      let _ ← updateReceipt src.id supersede
      pure { released := some released, remainingHeld := some remainingHeld }

def transitionPledgeToLien (ctx : ActorCtx) (heldReceiptId pledgeId : Id) : Tx Receipt :=
  runIdempotent ctx.idempotencyKey Ledger.affected <|
    amendReceipt num ctx.tenantId heldReceiptId
      (fun r => rejectIf (r.status ≠ .heldPledgePending) (.cannotTransitionToLien r.status))
      (fun r => eventFrom uuids.event ctx.tenantId r .pledgeAccepted (some .pledge)
        (some pledgeId) r.quantity ctx.actorUserId ctx.idempotencyKey)
      (fun r => { r with status := .heldLien })

/-- Loan default: the whole leaf changes status and owner, or a part is split off. -/
def seize (input : SeizeInput) : Tx SeizeResult :=
  runIdempotent input.idempotencyKey
    (fun e s => do
      let kids := s.byEvent uuids.scan e
      if kids ≠ [] then
        pure
          { seized := kids.find? fun k => k.status = .seized
            remainder := kids.find? fun k => k.status = .active }
      else
        let seized ← s.affected e
        pure { seized := some seized, remainder := none })
    do
      let r ← Tx.query (Ledger.loadOrThrow input.heldLoanReceiptId input.tenantId)
      Tx.throwIf (r.status ≠ .heldLoan) (.notHeldLoan r.id r.status)
      let ev ← event num
        (eventFrom uuids.event input.tenantId r .seized (some .loan) r.sourceTxnId r.quantity
          input.actorUserId input.idempotencyKey)
      match input.partialQuantity with
      | some pq => do
          Tx.throwIf (pq ≤ 0 ∨ r.quantity ≤ pq) (.insufficientQuantity pq r.quantity)
          let (primary, remainder) ← partition num uuids r pq
            { status := .seized
              approvalStatus := .approved
              clientId := input.financierUserId
              sourceTxnType := some .loan
              sourceTxnId := r.sourceTxnId }
            ev.id
          pure { seized := some primary, remainder := remainder }
      | none => do
          let seized ← updateReceipt r.id fun r =>
            { r with status := .seized, clientId := input.financierUserId }
          pure { seized := some seized, remainder := none }

def transferOwnership (ctx : ActorCtx) (receiptId newOwnerId : Id) (txnType : TxnType)
    (txnId : Id) : Tx Receipt :=
  runIdempotent ctx.idempotencyKey Ledger.affected <|
    amendReceipt num ctx.tenantId receiptId
      (fun _ => .ok ())
      (fun r => eventFrom uuids.event ctx.tenantId r .ownershipTransferred (some txnType)
        (some txnId) r.quantity ctx.actorUserId ctx.idempotencyKey)
      (fun r => { r with clientId := newOwnerId })

/-- The transaction of `transferAndRelease`: both events and the update together with
the caller's own work. -/
def transferAndReleaseWork {τ : Type} (ctx : ActorCtx) (heldReceiptId newOwnerId : Id)
    (txnType : TxnType) (txnId : Id) (withinTx : Receipt → Except ApiError τ) :
    Tx (Receipt × τ) := do
  let r ← Tx.query (Ledger.loadOrThrow heldReceiptId ctx.tenantId)
  Tx.query fun _ => assertHeld r
  let _ ← event num
    (eventFrom uuids.event ctx.tenantId r .ownershipTransferred (some txnType) (some txnId)
      r.quantity ctx.actorUserId ctx.idempotencyKey)
  let _ ← event num
    (eventFrom uuids.releaseEvent ctx.tenantId r .holdReleased (some txnType) (some txnId)
      r.quantity ctx.actorUserId (releaseKey ctx.idempotencyKey) r.sourceEventId)
  let updated ← updateReceipt r.id fun r =>
    { r with clientId := newOwnerId, status := .active, approvalStatus := .approved }
  let work ← Tx.query fun _ => withinTx updated
  pure (updated, work)

/-- Settle a held receipt to a new owner. -/
def transferAndRelease (ctx : ActorCtx) (heldReceiptId newOwnerId : Id) (txnType : TxnType)
    (txnId : Id) (withinTx : Receipt → Except ApiError Unit) : Tx Receipt :=
  runIdempotent ctx.idempotencyKey Ledger.affected <| Prod.fst <$>
    transferAndReleaseWork num uuids ctx heldReceiptId newOwnerId txnType txnId withinTx

def expire (ctx : ActorCtx) (receiptId : Id) : Tx Receipt :=
  runIdempotent ctx.idempotencyKey Ledger.affected <|
    amendReceipt num ctx.tenantId receiptId
      (fun r => rejectIf (r.status ≠ .active) (.notExpirable r.id r.status))
      (fun r => eventFrom uuids.event ctx.tenantId r .expired none none r.quantity
        ctx.actorUserId ctx.idempotencyKey)
      (fun r => { r with status := .expired })

end Operations

/-- A call of a ledger operation with its arguments. -/
inductive LedgerOp where
  | deposit (input : DepositInput)
  | approveReceipt (ctx : ActorCtx) (receiptId : Id)
  | rejectReceipt (ctx : ActorCtx) (receiptId : Id) (reason : String)
  | hold (input : HoldInput)
  | approveHold (ctx : ActorCtx) (heldReceiptId : Id)
  | release (ctx : ActorCtx) (heldReceiptId : Id)
  | consume (ctx : ActorCtx) (heldReceiptId : Id)
  | releasePartial (input : ReleasePartialInput)
  | transitionPledgeToLien (ctx : ActorCtx) (heldReceiptId pledgeId : Id)
  | seize (input : SeizeInput)
  | transferOwnership (ctx : ActorCtx) (receiptId newOwnerId : Id) (txnType : TxnType)
      (txnId : Id)
  | transferAndRelease (ctx : ActorCtx) (heldReceiptId newOwnerId : Id) (txnType : TxnType)
      (txnId : Id) (withinTx : Receipt → Except ApiError Unit)
  | expire (ctx : ActorCtx) (receiptId : Id)

/-- What a ledger operation returns. -/
inductive LedgerResult where
  | node (receipt : Receipt)
  | held (result : HoldResult)
  | partlyReleased (result : ReleasePartialResult)
  | seized (result : SeizeResult)

namespace LedgerOp

/-- The idempotency key of a call. -/
def idempotencyKey : LedgerOp → IdempotencyKey
  | deposit input => input.idempotencyKey
  | approveReceipt ctx _ => ctx.idempotencyKey
  | rejectReceipt ctx _ _ => ctx.idempotencyKey
  | hold input => input.idempotencyKey
  | approveHold ctx _ => ctx.idempotencyKey
  | release ctx _ => ctx.idempotencyKey
  | consume ctx _ => ctx.idempotencyKey
  | releasePartial input => input.idempotencyKey
  | transitionPledgeToLien ctx _ _ => ctx.idempotencyKey
  | seize input => input.idempotencyKey
  | transferOwnership ctx _ _ _ _ => ctx.idempotencyKey
  | transferAndRelease ctx _ _ _ _ _ => ctx.idempotencyKey
  | expire ctx _ => ctx.idempotencyKey

/-- Execute a call. -/
def call (num : Numeric) (uuids : Uuids) : LedgerOp → Tx LedgerResult
  | deposit input => .node <$> Inventory.deposit num uuids input
  | approveReceipt ctx id => .node <$> Inventory.approveReceipt num uuids ctx id
  | rejectReceipt ctx id reason => .node <$> Inventory.rejectReceipt num uuids ctx id reason
  | hold input => .held <$> Inventory.hold num uuids input
  | approveHold ctx id => .node <$> Inventory.approveHold num uuids ctx id
  | release ctx id => .node <$> Inventory.release num uuids ctx id
  | consume ctx id => .node <$> Inventory.consume num uuids ctx id
  | releasePartial input => .partlyReleased <$> Inventory.releasePartial num uuids input
  | transitionPledgeToLien ctx id pledgeId =>
      .node <$> Inventory.transitionPledgeToLien num uuids ctx id pledgeId
  | seize input => .seized <$> Inventory.seize num uuids input
  | transferOwnership ctx id newOwnerId txnType txnId =>
      .node <$> Inventory.transferOwnership num uuids ctx id newOwnerId txnType txnId
  | transferAndRelease ctx id newOwnerId txnType txnId withinTx =>
      .node <$> Inventory.transferAndRelease num uuids ctx id newOwnerId txnType txnId withinTx
  | expire ctx id => .node <$> Inventory.expire num uuids ctx id

end LedgerOp

/-- A call with the uuids it draws. -/
structure LedgerCall where
  uuids : Uuids
  op : LedgerOp

/-- The store after a call: committed, or as before when it aborted. -/
def LedgerCall.after (num : Numeric) (c : LedgerCall) (s : Ledger) : Ledger :=
  match c.op.call num c.uuids s with
  | .ok (_, s') => s'
  | .error _ => s

/-- The store after a run of calls. -/
def runCalls (num : Numeric) (calls : List LedgerCall) (s : Ledger) : Ledger :=
  calls.foldl (fun s c => c.after num s) s

end SecureStore.Inventory
