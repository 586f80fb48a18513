/-
# The deposit desk

Warehouse managers file and edit deposits, tenant admins edit them too, and the
commodities that a warehouse accepts are linked and unlinked. Filing goes through the
ledger; an edit writes the receipt's row itself, by id, in a transaction of its own.
What the checks of scope, client and attachment say is an input, as these read tables
that no request here writes.
-/

import SecureStore.Deposits.Grading
import SecureStore.Foundation.Process
import SecureStore.Inventory.Ledger

namespace SecureStore.Deposits

open SecureStore.Foundation SecureStore.Inventory

structure Warehouse where
  id : Id
  tenantId : Id
  deriving DecidableEq, Repr

instance : Keyed Warehouse Id := ⟨Warehouse.id⟩

/-- A commodity that a warehouse accepts; the pair is unique. -/
structure WarehouseCommodity where
  warehouseId : Id
  commodityId : Id
  tenantId : Id
  deriving DecidableEq, Repr

instance : Keyed WarehouseCommodity (Id × Id) := ⟨fun l => (l.warehouseId, l.commodityId)⟩

@[simp]
theorem key_link (l : WarehouseCommodity) : Keyed.key l = (l.warehouseId, l.commodityId) := rfl

/-- The columns of a receipt that only its deposit and its edits write. -/
structure GradingColumns where
  gradingScores : Option GradingScores := none
  computedGrade : Option String := none
  totalDefectivePct : Option ℚ := none
  standardDeductionPct : Option ℚ := none
  deriving DecidableEq, Repr

structure Desk where
  ledger : Ledger
  commodities : Table Commodity
  warehouses : Table Warehouse
  links : Table WarehouseCommodity
  /-- The grading columns of each receipt. -/
  grading : Id → GradingColumns

inductive DeskError where
  | api (e : ApiError)
  /-- The measurements of a deposit are refused. -/
  | admission (e : GradingError)
  /-- The measurements of an edit are refused. -/
  | rescoring (e : GradingError)
  /-- `This deposit is already ${status} — only a tenant admin can edit it now.` -/
  | alreadyDecided (status : ReceiptStatus)
  /-- `This receipt has been superseded by child receipts and cannot be edited.` -/
  | superseded
  /-- `This receipt is ${status} (a terminal state) and cannot be edited.` -/
  | terminal (status : ReceiptStatus)
  /-- `A transaction is in flight against this receipt (${status}). Release the hold
  first, then edit.` -/
  | inFlight (status : ReceiptStatus)
  /-- `Cannot edit ${fields} on an ACTIVE receipt. Reject the deposit and refile if
  structural data needs to change.` -/
  | immutable (fields : List String)
  deriving DecidableEq, Repr

/-- What an edit writes; a field that is absent is not touched. -/
structure UpdateData where
  quantity : Option ℚ := none
  commodityId : Option Id := none
  warehouseId : Option Id := none
  grade : Option String := none
  dateOfDeposit : Option Timestamp := none
  gradingScores : Option GradingScores := none
  computedGrade : Option String := none
  totalDefectivePct : Option ℚ := none
  standardDeductionPct : Option ℚ := none
  deriving DecidableEq, Repr

/-- The steps of the requests of this module. -/
inductive DeskStep where
  | read
  | deposit
  | ledger
  | updateReceipt (id : Id) (data : UpdateData)
  | upsertLink
  | deleteLink

structure CreateDepositDto where
  tenantId : Id
  managerUserId : Id
  clientId : Id
  commodityId : Id
  warehouseId : Id
  quantity : ℚ
  measurements : List (Id × ℚ)
  grade : Option String
  /-- `dto.dateOfDeposit ? new Date(dto.dateOfDeposit) : new Date()` -/
  dateOfDeposit : Timestamp
  /-- What the checks of scope, client and attachment say. -/
  checked : Except ApiError Unit
  uuids : Uuids
  /-- `randomUUID()` of the idempotency key -/
  keyUuid : Id
  currentYear : ℕ

structure EditDepositDto where
  commodityId : Option Id := none
  warehouseId : Option Id := none
  quantity : Option ℚ := none
  measurements : Option (List (Id × ℚ)) := none
  grade : Option String := none
  dateOfDeposit : Option Timestamp := none

/-- The structural fields that an edit names. -/
def EditDepositDto.disallowed (dto : EditDepositDto) : List String :=
  (if dto.quantity ≠ none then ["quantity"] else []) ++
    (if dto.commodityId ≠ none then ["commodityId"] else []) ++
    (if dto.warehouseId ≠ none then ["warehouseId"] else [])

/-- What a deposit hands to the ledger. -/
@[simps]
def CreateDepositDto.input (dto : CreateDepositDto) (scores : GradingScores) :
    DepositInput where
  tenantId := dto.tenantId
  clientId := dto.clientId
  commodityId := dto.commodityId
  warehouseId := dto.warehouseId
  quantity := dto.quantity
  grade := dto.grade.or scores.computedGrade
  dateOfDeposit := dto.dateOfDeposit
  expiryDate := none
  receiptNumber := none
  actorUserId := some dto.managerUserId
  idempotencyKey := [.text "MANAGER_DEPOSIT", .uuid dto.keyUuid]
  currentYear := dto.currentYear

/-- A receipt as `loadDepositForEdit` includes it. -/
structure EditableDepositReceipt where
  receipt : Receipt
  columns : GradingColumns
  commodity : Commodity

namespace Desk

/-- `commodity.findFirst` -/
def findCommodity (s : Desk) (id tenantId : Id) : Option Commodity :=
  (s.commodities.find id).filter fun c => c.tenantId = tenantId

def findWarehouse (s : Desk) (id tenantId : Id) : Option Warehouse :=
  (s.warehouses.find id).filter fun w => w.tenantId = tenantId

/-- The commodity of a receipt is there by its foreign key. -/
def loadDepositForEdit (s : Desk) (tenantId receiptId : Id) : Option EditableDepositReceipt := do
  let receipt ← (s.ledger.receipts.find receiptId).filter fun r => r.tenantId = tenantId
  let commodity ← s.commodities.find receipt.commodityId
  pure ⟨receipt, s.grading receiptId, commodity⟩

/-- `ledger.deposit` with the grading scores of the root. -/
def deposit (num : Numeric) (uuids : Uuids) (input : DepositInput) (scores : GradingScores)
    (s : Desk) : Except DeskError (Receipt × Desk) :=
  match Inventory.deposit num uuids input s.ledger with
  | .error e => .error (.api e)
  | .ok (root, ledger) =>
      -- a replay returns a receipt that is there and creates none
      if s.ledger.receipts.find root.id = none then
        .ok (root, { s with
          ledger, grading := Function.update s.grading root.id { gradingScores := some scores } })
      else .ok (root, { s with ledger })

/-- A ledger operation that a request of another module calls. -/
def operate (num : Numeric) (call : LedgerCall) (s : Desk) : Except DeskError (Unit × Desk) :=
  match call.op.call num call.uuids s.ledger with
  | .error e => .error (.api e)
  | .ok (_, ledger) => .ok ((), { s with ledger })

end Desk

/-- A receipt's row after an edit. -/
@[simps]
def UpdateData.rewrite (num : Numeric) (data : UpdateData) (r : Receipt) : Receipt :=
  { r with
    quantity := (data.quantity.map num.numeric18_3).getD r.quantity
    commodityId := data.commodityId.getD r.commodityId
    warehouseId := data.warehouseId.getD r.warehouseId
    grade := data.grade.or r.grade
    dateOfDeposit := data.dateOfDeposit.getD r.dateOfDeposit }

theorem UpdateData.key_rewrite (num : Numeric) (data : UpdateData) (r : Receipt) :
    Keyed.key (data.rewrite num r) = Keyed.key r := rfl

/-- A receipt's grading columns after an edit. -/
@[simps]
def UpdateData.regrade (data : UpdateData) (columns : GradingColumns) : GradingColumns where
  gradingScores := data.gradingScores.or columns.gradingScores
  computedGrade := data.computedGrade.or columns.computedGrade
  totalDefectivePct := data.totalDefectivePct.or columns.totalDefectivePct
  standardDeductionPct := data.standardDeductionPct.or columns.standardDeductionPct

/-- `tx.receipt.update` of an edit: by id only. -/
def Desk.updateReceipt (num : Numeric) (id : Id) (data : UpdateData) (s : Desk) :
    Except DeskError (Unit × Desk) :=
  match s.ledger.receipts.find id with
  | none => .error (.api .recordNotFound)
  | some _ =>
      .ok ((), { s with
        ledger := { s.ledger with receipts :=
          s.ledger.receipts.modify id (data.rewrite num) (data.key_rewrite num) }
        grading := Function.update s.grading id (data.regrade (s.grading id)) })

/-- `warehouseCommodity.upsert` -/
def Desk.upsertLink (link : WarehouseCommodity) (s : Desk) : Desk :=
  { s with links := (s.links.insert link).getD s.links }

def Desk.deleteLink (warehouseId commodityId : Id) (s : Desk) : Desk :=
  { s with links := s.links.remove (warehouseId, commodityId) }

/-- The next value of a column, when it is there and differs from the current one. -/
def setIfChanged {α : Type} [DecidableEq α] (current next : Option α) : Option α :=
  if next = current then none else next

/-- The caller's grade, when it is not the empty string, wins over the computed one. -/
def nextGrade (receipt : Receipt) (dto : EditDepositDto) (scored : Option GradingScores) :
    Option String :=
  match scored with
  | some scores =>
      if dto.grade = none ∨ dto.grade = some "" then scores.computedGrade else dto.grade
  | none => dto.grade.or receipt.grade

/-- The fields an edit changes. The stored quantity and the stored scores are objects,
which never equal the incoming values. -/
def updateData (receipt : Receipt) (columns : GradingColumns) (dto : EditDepositDto)
    (scored : Option GradingScores) : UpdateData where
  quantity := dto.quantity
  commodityId := setIfChanged (some receipt.commodityId) dto.commodityId
  warehouseId := setIfChanged (some receipt.warehouseId) dto.warehouseId
  grade := setIfChanged receipt.grade (nextGrade receipt dto scored)
  dateOfDeposit := setIfChanged (some receipt.dateOfDeposit) dto.dateOfDeposit
  gradingScores := scored
  computedGrade := scored.bind fun x => setIfChanged columns.computedGrade x.computedGrade
  totalDefectivePct := scored.bind fun x =>
    setIfChanged columns.totalDefectivePct (some x.totalDefectivePct)
  standardDeductionPct := scored.bind fun x =>
    setIfChanged columns.standardDeductionPct (some x.standardDeductionPct)

/-- A step of a request, and a request. -/
abbrev DeskApi (α : Type) := Attempt DeskStep Desk DeskError α

section Requests

variable (num : Numeric) (plus : ℚ → ℚ → ℚ)

def createDeposit (dto : CreateDepositDto) : DeskApi Unit := do
  Attempt.ofExcept (dto.checked.mapError .api)
  let wc ← Attempt.read .read fun s : Desk => s.links.find (dto.warehouseId, dto.commodityId)
  Attempt.throwIf (wc = none)
    (.api (.badRequest "This commodity is not accepted at the selected warehouse"))
  let found ← Attempt.read .read fun s : Desk => s.findCommodity dto.commodityId dto.tenantId
  let commodity ← Attempt.orThrow found (.api (.notFound "Commodity not found"))
  let scores ← Attempt.ofExcept
    ((gradeMeasurements plus commodity dto.measurements).mapError .admission)
  let _ ← Attempt.write .deposit (Desk.deposit num dto.uuids (dto.input scores) scores)
  pure ()

/-- The commodity of the receipt after the edit. -/
def destCommodity (tenantId : Id) (loaded : EditableDepositReceipt) (dto : EditDepositDto) :
    DeskApi Commodity :=
  match dto.commodityId with
  | none => pure loaded.commodity
  | some commodityId =>
      if commodityId = loaded.receipt.commodityId then pure loaded.commodity
      else do
        let found ← Attempt.read .read fun s : Desk => s.findCommodity commodityId tenantId
        Attempt.orThrow found (.api (.badRequest "commodityId is not valid for this tenant."))

/-- A warehouse that the receipt moves to has to accept the commodity. -/
def assertAccepted (loaded : EditableDepositReceipt) (dto : EditDepositDto)
    (commodity : Commodity) : DeskApi Unit :=
  match dto.warehouseId with
  | none => pure ()
  | some warehouseId =>
      if warehouseId = loaded.receipt.warehouseId then pure ()
      else do
        let wc ← Attempt.read .read fun s : Desk => s.links.find (warehouseId, commodity.id)
        Attempt.throwIf (wc = none)
          (.api (.badRequest "The destination warehouse does not accept this commodity."))

/-- Scores of the edited measurements, when there are any. -/
def rescore (commodity : Commodity) (dto : EditDepositDto) :
    Except DeskError (Option GradingScores) :=
  match dto.measurements with
  | none => .ok none
  | some measurements =>
      ((gradeMeasurements plus commodity measurements).mapError .rescoring).map some

def applyDepositEdit (tenantId : Id) (loaded : EditableDepositReceipt) (dto : EditDepositDto) :
    DeskApi Unit := do
  let commodity ← destCommodity tenantId loaded dto
  assertAccepted loaded dto commodity
  let scored ← Attempt.ofExcept (rescore plus commodity dto)
  let data := updateData loaded.receipt loaded.columns dto scored
  -- nothing changed: no row of the audit log either
  if data = {} then pure ()
  else
    Attempt.write (.updateReceipt loaded.receipt.id data)
      (Desk.updateReceipt num loaded.receipt.id data)

/-- The manager's edit; `scope` is what `assertWarehouseScope` says of each warehouse. -/
def editDeposit (tenantId receiptId : Id) (scope : Id → Except ApiError Unit)
    (dto : EditDepositDto) : DeskApi Unit := do
  let found ← Attempt.read .read fun s : Desk => s.loadDepositForEdit tenantId receiptId
  let loaded ← Attempt.orThrow found (.api (.notFound "Deposit not found"))
  Attempt.throwIf (loaded.receipt.status ≠ .pendingApproval)
    (.alreadyDecided loaded.receipt.status)
  Attempt.ofExcept ((scope loaded.receipt.warehouseId).mapError .api)
  Attempt.ofExcept (match dto.warehouseId with
    | none => .ok ()
    | some warehouseId =>
        if warehouseId = loaded.receipt.warehouseId then .ok ()
        else (scope warehouseId).mapError .api)
  applyDepositEdit num plus tenantId loaded dto

/-- The admin's edit. -/
def editDepositAsAdmin (tenantId receiptId : Id) (dto : EditDepositDto) : DeskApi Unit := do
  let found ← Attempt.read .read fun s : Desk => s.loadDepositForEdit tenantId receiptId
  let loaded ← Attempt.orThrow found (.api (.notFound "Deposit not found"))
  Attempt.throwIf (loaded.receipt.status = .split) .superseded
  Attempt.throwIf (loaded.receipt.status ∈ closedStatuses) (.terminal loaded.receipt.status)
  Attempt.throwIf (loaded.receipt.status ∈ heldStatuses) (.inFlight loaded.receipt.status)
  Attempt.throwIf (loaded.receipt.status = .active ∧ dto.disallowed ≠ [])
    (.immutable dto.disallowed)
  applyDepositEdit num plus tenantId loaded dto

def addCommodity (tenantId warehouseId commodityId : Id) : DeskApi Unit := do
  let warehouse ← Attempt.read .read fun s : Desk => s.findWarehouse warehouseId tenantId
  let commodity ← Attempt.read .read fun s : Desk => s.findCommodity commodityId tenantId
  Attempt.throwIf (warehouse = none) (.api (.notFound "Warehouse not found"))
  Attempt.throwIf (commodity = none) (.api (.notFound "Commodity not found"))
  Attempt.write .upsertLink fun s =>
    .ok ((), s.upsertLink ⟨warehouseId, commodityId, tenantId⟩)

/-- The ACTIVE receipts of a commodity in a warehouse. -/
def Desk.activeReceipts (s : Desk) (tenantId warehouseId commodityId : Id) : ℕ :=
  s.ledger.receipts.rows.countP fun r =>
    r.warehouseId = warehouseId ∧ r.commodityId = commodityId ∧ r.tenantId = tenantId ∧
      r.status = .active

def removeCommodity (tenantId warehouseId commodityId : Id) : DeskApi Unit := do
  let found ← Attempt.read .read fun s : Desk =>
    (s.links.find (warehouseId, commodityId)).filter fun l => l.tenantId = tenantId
  let _ ← Attempt.orThrow found
    (.api (.notFound "Commodity not linked to this warehouse"))
  let hasActiveReceipts ← Attempt.read .read fun s : Desk =>
    s.activeReceipts tenantId warehouseId commodityId
  Attempt.throwIf (0 < hasActiveReceipts)
    (.api (.badRequest
      "Cannot remove commodity: there are active receipts for it in this warehouse"))
  Attempt.write .deleteLink fun s => .ok ((), s.deleteLink warehouseId commodityId)

def applyToWarehouses (tenantId commodityId : Id) (warehouseIds : List Id) : DeskApi Unit := do
  let found ← Attempt.read .read fun s : Desk => s.findCommodity commodityId tenantId
  let _ ← Attempt.orThrow found (.api (.notFound "Commodity not found"))
  let targetIds ← Attempt.read .read fun s : Desk =>
    if warehouseIds ≠ [] then warehouseIds
    else (s.warehouses.rows.filter fun w => w.tenantId = tenantId).map Warehouse.id
  Attempt.forEach targetIds fun warehouseId =>
    Attempt.write .upsertLink fun s =>
      .ok ((), s.upsertLink ⟨warehouseId, commodityId, tenantId⟩)

/-- The requests that change receipts or links; a ledger operation stands for the
requests of other modules. -/
inductive Request where
  | createDeposit (dto : CreateDepositDto)
  | editDeposit (tenantId receiptId : Id) (scope : Id → Except ApiError Unit)
      (dto : EditDepositDto)
  | editDepositAsAdmin (tenantId receiptId : Id) (dto : EditDepositDto)
  | addCommodity (tenantId warehouseId commodityId : Id)
  | removeCommodity (tenantId warehouseId commodityId : Id)
  | applyToWarehouses (tenantId commodityId : Id) (warehouseIds : List Id)
  | ledger (call : LedgerCall)

/-- The tenant, the receipt and the fields of an edit. -/
def Request.edit : Request → Option (Id × Id × EditDepositDto)
  | .editDeposit tenantId receiptId _ dto => some (tenantId, receiptId, dto)
  | .editDepositAsAdmin tenantId receiptId dto => some (tenantId, receiptId, dto)
  | _ => none

/-- The tenant and the commodity of a request that links. -/
def Request.links : Request → Option (Id × Id)
  | .addCommodity tenantId _ commodityId => some (tenantId, commodityId)
  | .applyToWarehouses tenantId commodityId _ => some (tenantId, commodityId)
  | _ => none

/-- The steps of a request. -/
def Request.run : Request → DeskApi Unit
  | .createDeposit dto => Deposits.createDeposit num plus dto
  | .editDeposit tenantId receiptId scope dto =>
      Deposits.editDeposit num plus tenantId receiptId scope dto
  | .editDepositAsAdmin tenantId receiptId dto =>
      Deposits.editDepositAsAdmin num plus tenantId receiptId dto
  | .addCommodity tenantId warehouseId commodityId =>
      Deposits.addCommodity tenantId warehouseId commodityId
  | .removeCommodity tenantId warehouseId commodityId =>
      Deposits.removeCommodity tenantId warehouseId commodityId
  | .applyToWarehouses tenantId commodityId warehouseIds =>
      Deposits.applyToWarehouses tenantId commodityId warehouseIds
  | .ledger call => Attempt.write .ledger (Desk.operate num call)

/-- The state after a whole request. -/
def Request.after (request : Request) (s : Desk) : Desk :=
  ((request.run num plus).exec s).2

/-- The state after a sequence of whole requests. -/
def runRequests (requests : List Request) (s : Desk) : Desk :=
  requests.foldl (fun s request => request.after num plus s) s

/-- A condition on every request of a sequence, in the state it finds. -/
def Meets (condition : Request → Desk → Prop) : List Request → Desk → Prop
  | [], _ => True
  | request :: rest, s =>
      condition request s ∧ Meets condition rest (request.after num plus s)

end Requests

/-- The desk before its first request: commodities and warehouses, and nothing filed. -/
def Desk.opening (commodities : Table Commodity) (warehouses : Table Warehouse) : Desk where
  ledger := Ledger.empty
  commodities := commodities
  warehouses := warehouses
  links := Table.empty
  grading _ := {}

/-! ## A sample desk -/

def maize : Commodity :=
  ⟨20, 7, 2, [⟨30, "Moisture", false, [("Grade 1", 12), ("Grade 2", 15)]⟩]⟩

def sorghum : Commodity :=
  ⟨21, 7, 2, [⟨31, "Foreign Matter", true, [("Grade 1", 1), ("Grade 2", 3)]⟩]⟩

def sampleCommodities : Table Commodity := ⟨[maize, sorghum], by decide⟩

def sampleWarehouses : Table Warehouse := ⟨[⟨40, 7⟩], by decide⟩

def sampleOpening : Desk := .opening sampleCommodities sampleWarehouses

/-- Ten units of maize of the first grade. -/
def sampleDto : CreateDepositDto where
  tenantId := 7
  managerUserId := 90
  clientId := 9
  commodityId := 20
  warehouseId := 40
  quantity := 10
  measurements := [(30, 11)]
  grade := none
  dateOfDeposit := 0
  checked := .ok ()
  uuids := ⟨101, 0, 1, 2, .stored⟩
  keyUuid := 60
  currentYear := 2025

/-- The warehouse accepts maize, and the deposit is filed. -/
def sampleFiling : List Request := [.addCommodity 7 40 20, .createDeposit sampleDto]

def sampleEdit (dto : EditDepositDto) : Request := .editDeposit 7 1 (fun _ => .ok ()) dto

def sampleApproval : Request :=
  .ledger ⟨⟨102, 0, 0, 0, .stored⟩,
    .approveReceipt ⟨7, some 91, [.text "RECEIPT", .uuid 1, .text "approve"]⟩ 1⟩

/-- The desk after a sequence of requests, with exact sums and the columns of the
database. -/
def sampleDesk (requests : List Request) : Desk :=
  runRequests .postgres (fun x y => x + y) requests sampleOpening

end SecureStore.Deposits
