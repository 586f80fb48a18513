/-
# Receipts, events and the ledger state

The rows the ledger reads and writes, with the columns its operations use, and
the errors its operations raise. Receipts form trees through their parent
pointers; events are appended under a unique idempotency key.
-/

import SecureStore.Foundation.Decimal
import SecureStore.Foundation.Table

namespace SecureStore.Inventory

open SecureStore.Foundation

/-- A uuid as a 128-bit number. -/
abbrev Id := ℕ

/-- Milliseconds since the epoch. -/
abbrev Timestamp := ℤ

inductive ReceiptStatus where
  | active
  | pendingApproval
  | heldWithdrawal
  | heldLoan
  | heldTrade
  | heldPledgePending
  | heldLien
  | withdrawn
  | tradedOut
  | seized
  | expired
  | cancelled
  | split
  deriving DecidableEq, Repr

inductive ApprovalStatus where
  | pending
  | approved
  | rejected
  deriving DecidableEq, Repr

inductive TxnType where
  | deposit
  | withdrawal
  | loan
  | trade
  | adjustment
  | pledge
  deriving DecidableEq, Repr

inductive InventoryEventType where
  | deposit
  | approved
  | rejected
  | holdPlaced
  | holdReleased
  | pledgeAccepted
  | consumed
  | ownershipTransferred
  | seized
  | expired
  | cancelled
  | legacyReconciliation
  deriving DecidableEq, Repr

/-- The statuses a hold can place. -/
inductive HeldStatus where
  | heldWithdrawal
  | heldLoan
  | heldTrade
  | heldPledgePending
  | heldLien
  deriving DecidableEq, Repr

def HeldStatus.status : HeldStatus → ReceiptStatus
  | .heldWithdrawal => .heldWithdrawal
  | .heldLoan => .heldLoan
  | .heldTrade => .heldTrade
  | .heldPledgePending => .heldPledgePending
  | .heldLien => .heldLien

inductive ReceiptGroup where
  | active
  | liened
  | cancelled
  deriving DecidableEq, Repr

/-- `HELD_STATUSES` -/
def heldStatuses : List ReceiptStatus :=
  [.heldWithdrawal, .heldLoan, .heldTrade, .heldPledgePending, .heldLien]

/-- `CLOSED_STATUSES` -/
def closedStatuses : List ReceiptStatus :=
  [.withdrawn, .tradedOut, .seized, .expired, .cancelled, .split]

/-- One of the five `HELD_*` statuses. -/
def ReceiptStatus.Held (status : ReceiptStatus) : Prop := status ∈ heldStatuses

instance : DecidablePred ReceiptStatus.Held := fun _ => List.instDecidableMemOfLawfulBEq _ _

theorem HeldStatus.held (status : HeldStatus) : status.status.Held := by
  cases status <;> decide

/-- The parts between the colons of an idempotency key. -/
inductive KeyPart where
  | text (word : String)
  | uuid (id : Id)
  deriving DecidableEq, Repr

/-- An idempotency key, split at its colons. -/
abbrev IdempotencyKey := List KeyPart

/-- The key `${key}:release` of the second event of a settlement. -/
def releaseKey (key : IdempotencyKey) : IdempotencyKey := key ++ [.text "release"]

theorem releaseKey_ne (key : IdempotencyKey) : releaseKey key ≠ key := by
  intro h
  have := congrArg List.length h
  simp [releaseKey] at this

/-- A node of a receipt tree. -/
structure Receipt where
  id : Id
  receiptNumber : List Char
  status : ReceiptStatus
  tenantId : Id
  commodityId : Id
  quantity : ℚ
  grade : Option String
  warehouseId : Id
  clientId : Id
  approvalStatus : ApprovalStatus
  approvedById : Option Id := none
  rejectionReason : Option String := none
  parentReceiptId : Option Id
  rootReceiptId : Id
  isParent : Bool := false
  sourceTxnType : Option TxnType
  sourceTxnId : Option Id
  sourceEventId : Option Id
  dateOfDeposit : Timestamp
  expiryDate : Option Timestamp
  deriving DecidableEq, Repr

instance : Keyed Receipt Id := ⟨Receipt.id⟩

@[simp]
theorem key_receipt (r : Receipt) : Keyed.key r = r.id := rfl

/-- An entry of the append-only event log. -/
structure InventoryEvent where
  id : Id
  tenantId : Id
  rootReceiptId : Id
  fromReceiptId : Id
  eventType : InventoryEventType
  txnType : Option TxnType := none
  txnId : Option Id := none
  quantity : ℚ
  actorUserId : Option Id := none
  idempotencyKey : IdempotencyKey
  reversalOfEventId : Option Id := none
  deriving DecidableEq, Repr

instance : Keyed InventoryEvent IdempotencyKey := ⟨InventoryEvent.idempotencyKey⟩

@[simp]
theorem key_event (e : InventoryEvent) : Keyed.key e = e.idempotencyKey := rfl

/-- Errors that requests and ledger operations end with. -/
inductive ApiError where
  | notFound (code : String)
  | badRequest (code : String)
  | conflict (code : String)
  | forbidden (code : String)
  /-- `Receipt not found: ${id}` -/
  | receiptNotFound (id : Id)
  /-- `Receipt ${id} is not transactable (status=${status}, approval=${approval})` -/
  | receiptNotTransactable (id : Id) (status : ReceiptStatus) (approval : ApprovalStatus)
  /-- `Requested quantity ${requested} exceeds available ${available}` -/
  | insufficientQuantity (requested available : ℚ)
  /-- `Receipt ${id} is not PENDING_APPROVAL (status=${status})` -/
  | notPendingApproval (id : Id) (status : ReceiptStatus)
  /-- `Receipt ${id} is not held (status=${status})` -/
  | notHeld (id : Id) (status : ReceiptStatus)
  /-- `Hold ${id} is not awaiting approval (approval=${approval})` -/
  | notAwaitingApproval (id : Id) (approval : ApprovalStatus)
  /-- `Cannot partially release from status ${status}; expected HELD_LIEN` -/
  | cannotPartiallyRelease (status : ReceiptStatus)
  /-- `Cannot transition to lien from status ${status}; expected HELD_PLEDGE_PENDING` -/
  | cannotTransitionToLien (status : ReceiptStatus)
  /-- `Receipt ${id} is not HELD_LOAN (status=${status})` -/
  | notHeldLoan (id : Id) (status : ReceiptStatus)
  /-- `Only ACTIVE leaves expire (receipt ${id} status=${status})` -/
  | notExpirable (id : Id) (status : ReceiptStatus)
  /-- P2002: a unique constraint was violated. -/
  | uniqueViolation
  /-- P2025: the row to update is not there. -/
  | recordNotFound
  /-- A property of `undefined` was read. -/
  | typeError
  /-- A number that is not finite was given for a column. -/
  | invalidNumber
  deriving DecidableEq, Repr

/-- How quantities are computed and stored: subtraction of decimals, and what
the numeric(18,3) and numeric(20,4) columns keep of a value. -/
structure Numeric where
  minus : ℚ → ℚ → ℚ
  numeric18_3 : ℚ → ℚ
  numeric20_4 : ℚ → ℚ

namespace Numeric

/-- The decimal type's subtraction, which rounds to 20 significant digits, over
columns that store every value as given. -/
def decimalJs : Numeric where
  minus x y := roundSig 20 (x - y)
  numeric18_3 x := x
  numeric20_4 x := x

/-- Exact arithmetic throughout. -/
def exact : Numeric where
  minus x y := x - y
  numeric18_3 x := x
  numeric20_4 x := x

/-- The decimal type's subtraction over columns that round to their scale. -/
def postgres : Numeric where
  minus x y := roundSig 20 (x - y)
  numeric18_3 := roundScale 3
  numeric20_4 := roundScale 4

end Numeric

/-- The receipts and the event log. -/
structure Ledger where
  receipts : Table Receipt
  events : Table InventoryEvent

namespace Ledger

/-- The store before any operation. -/
def empty : Ledger := ⟨Table.empty, Table.empty⟩

@[simp]
theorem receipts_empty : empty.receipts = Table.empty := rfl

@[simp]
theorem events_empty : empty.events = Table.empty := rfl

end Ledger

/-- The group a receipt belongs to in the receipt table. -/
def deriveGroup (r : Receipt) : ReceiptGroup :=
  if r.status ∈ closedStatuses then .cancelled
  else if r.status = .pendingApproval ∨ r.status ∈ heldStatuses ∨
      r.approvalStatus = .pending then .liened
  else .active

/-- The statuses a list query filters by for a group. -/
def statusesForGroup : ReceiptGroup → List ReceiptStatus
  | .cancelled => closedStatuses
  | .liened => .pendingApproval :: heldStatuses
  | .active => [.active]

end SecureStore.Inventory
