/-
# The receipts page

The list and the detail of a client's receipts show with a held receipt the request that holds
it. That request is looked up by the receipt in the withdrawals, the loans and the trades, one
table after the other into one map, so that a later row overwrites an earlier one. What is
joined from commodities, warehouses and events is left out, and so are the amount and the date
of a request.
-/

import SecureStore.Services.System

namespace SecureStore.Services

open SecureStore.Foundation SecureStore.Inventory

/-- The `kind` of a request that is shown with a receipt. -/
inductive RequestKind where
  | withdrawal
  | loan
  | trade
  deriving DecidableEq, Repr

structure RequestInfo where
  kind : RequestKind
  id : Id
  reference : String
  status : String
  quantity : Option ℚ
  deriving DecidableEq

def Withdrawal.requestInfo (w : Withdrawal) : RequestInfo where
  kind := .withdrawal
  id := w.id
  reference := w.reference
  status := w.status.text
  quantity := some w.quantity

def Loan.requestInfo (l : Loan) : RequestInfo where
  kind := .loan
  id := l.id
  reference := l.reference
  status := l.status.text
  quantity := none

def Trade.requestInfo (t : Trade) : RequestInfo where
  kind := .trade
  id := t.id
  reference := t.reference
  status := t.status.text
  quantity := some t.quantity

/-- A row of the list. -/
structure ReceiptRow where
  id : Id
  receiptNumber : List Char
  warehouseId : Id
  quantity : ℚ
  quantityAvailable : ℚ
  status : ReceiptStatus
  approvalStatus : ApprovalStatus
  group : ReceiptGroup
  grade : Option String
  depositDate : Timestamp
  request : Option RequestInfo

/-- The filters of the list. The page is given by what it skips and takes, and the search by
the receipts whose number or commodity it finds. -/
structure ReceiptFilters where
  status : String
  skip : ℕ
  take : ℕ
  search : Receipt → Bool

namespace ReceiptsService

/-- `(ReceiptStatus as any)[s]` -/
def receiptStatusNamed : String → Option ReceiptStatus
  | "ACTIVE" => some .active
  | "PENDING_APPROVAL" => some .pendingApproval
  | "HELD_WITHDRAWAL" => some .heldWithdrawal
  | "HELD_LOAN" => some .heldLoan
  | "HELD_TRADE" => some .heldTrade
  | "HELD_PLEDGE_PENDING" => some .heldPledgePending
  | "HELD_LIEN" => some .heldLien
  | "WITHDRAWN" => some .withdrawn
  | "TRADED_OUT" => some .tradedOut
  | "SEIZED" => some .seized
  | "EXPIRED" => some .expired
  | "CANCELLED" => some .cancelled
  | "SPLIT" => some .split
  | _ => none

/-- What an upper-cased status filter admits: a tab of the page or one status. -/
def admits (s : String) (status : ReceiptStatus) : Prop :=
  if s ≠ "" ∧ s ≠ "ALL" then
    if s = "ACTIVE" then status ∈ statusesForGroup .active
    else if s = "CANCELLED" then status ∈ statusesForGroup .cancelled
    else if s = "LIENED" ∨ s = "PLEDGE" then status ∈ statusesForGroup .liened
    else match receiptStatusNamed s with
      | some named => status = named
      | none => status ≠ .split
  else status ≠ .split

instance (s : String) : DecidablePred (admits s) := fun status => by
  unfold admits
  split_ifs
  · infer_instance
  · infer_instance
  · infer_instance
  · cases receiptStatusNamed s <;> infer_instance
  · infer_instance

/-- The requests on the given receipts, by receipt. -/
def loadHeldRequests (db : Db) (tenantId : Id) (receiptIds : List Id) : Id → Option RequestInfo :=
  let withdrawals := db.withdrawals.rows.filter fun w =>
    w.tenantId = tenantId ∧ w.receiptId ∈ receiptIds
  let loans := db.loans.rows.filter fun l => l.tenantId = tenantId ∧ l.receiptId ∈ receiptIds
  let trades := db.trades.rows.filter fun t => t.tenantId = tenantId ∧ t.receiptId ∈ receiptIds
  setAll Trade.receiptId Trade.requestInfo trades
    (setAll Loan.receiptId Loan.requestInfo loans
      (setAll Withdrawal.receiptId Withdrawal.requestInfo withdrawals fun _ => none))

def receiptRow (requestByReceipt : Id → Option RequestInfo) (r : Receipt) : ReceiptRow where
  id := r.id
  receiptNumber := r.receiptNumber
  warehouseId := r.warehouseId
  quantity := r.quantity
  quantityAvailable := if r.status = .active then r.quantity else 0
  status := r.status
  approvalStatus := r.approvalStatus
  group := deriveGroup r
  grade := r.grade
  depositDate := r.dateOfDeposit
  request := requestByReceipt r.id

/-- The page of the list, with the number of all receipts that the filters admit. The newest
receipt comes first. -/
def getReceipts (toUpperCase : String → String) (db : Db) (tenantId : Id)
    (filters : ReceiptFilters) (forClientId : Option Id) : List ReceiptRow × ℕ :=
  let found := db.ledger.receipts.rows.filter fun r => r.tenantId = tenantId ∧
    admits (toUpperCase filters.status) r.status ∧ forClientId.all (· = r.clientId) ∧
      filters.search r = true
  let receipts := (found.reverse.drop filters.skip).take filters.take
  let heldIds := (receipts.filter fun r => r.status.Held).map Receipt.id
  let requestByReceipt := if heldIds = [] then fun _ => none
    else loadHeldRequests db tenantId heldIds
  (receipts.map (receiptRow requestByReceipt), found.length)

/-- The detail of a receipt, with the request that holds it. -/
def getReceiptDetail (db : Db) (tenantId id : Id) (forClientId : Option Id) :
    Except ApiError (Receipt × Option RequestInfo) :=
  match (db.ledger.receipts.find id).filter fun r =>
      r.tenantId = tenantId ∧ forClientId.all (· = r.clientId) with
  | none => .error (.notFound "Receipt not found")
  | some detail =>
      .ok (detail, if detail.status.Held then loadHeldRequests db tenantId [id] id else none)

end ReceiptsService

end SecureStore.Services
