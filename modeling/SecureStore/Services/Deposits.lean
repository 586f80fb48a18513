/-
# Deposits and their approval

A warehouse manager deposits; a tenant admin approves or rejects the root. The
checks of the deposit form (the commodity, the warehouse and the grading of the
sample) read tables that no other request touches, so their outcome is an input.
-/

import SecureStore.Services.Database

namespace SecureStore.Services

open SecureStore.Foundation SecureStore.Inventory

structure CreateDeposit where
  uuids : Uuids
  /-- `randomUUID()` of the idempotency key -/
  keyUuid : Id
  checked : Except ApiError Unit
  tenantId : Id
  clientId : Id
  commodityId : Id
  warehouseId : Id
  quantity : ℚ
  grade : Option String
  dateOfDeposit : Timestamp
  managerUserId : Id
  currentYear : ℕ

section Requests

variable (num : Numeric)

def createDeposit (dto : CreateDeposit) : Api Unit := do
  Api.authorise dto.checked
  let input : DepositInput :=
    { tenantId := dto.tenantId
      clientId := dto.clientId
      commodityId := dto.commodityId
      warehouseId := dto.warehouseId
      quantity := dto.quantity
      grade := dto.grade
      dateOfDeposit := dto.dateOfDeposit
      expiryDate := none
      receiptNumber := none
      actorUserId := some dto.managerUserId
      idempotencyKey := [.text "MANAGER_DEPOSIT", .uuid dto.keyUuid]
      currentYear := dto.currentYear }
  let _ ← Api.ledger .createDeposit (.deposit input) (Inventory.deposit num dto.uuids input)
  pure ()

def approveReceipt (uuids : Uuids) (tenantId receiptId adminId : Id) : Api Unit := do
  let ctx : ActorCtx :=
    { tenantId := tenantId
      actorUserId := some adminId
      idempotencyKey := [.text "RECEIPT", .uuid receiptId, .text "approve"] }
  let _ ← Api.ledger (.approveReceipt receiptId) (.approveReceipt ctx receiptId)
    (Inventory.approveReceipt num uuids ctx receiptId)
  pure ()

def rejectReceipt (uuids : Uuids) (tenantId receiptId adminId : Id) (rejectionReason : String) :
    Api Unit := do
  Api.throwIf (rejectionReason.trimAscii.isEmpty = true)
    (.badRequest "rejectionReason is required")
  let ctx : ActorCtx :=
    { tenantId := tenantId
      actorUserId := some adminId
      idempotencyKey := [.text "RECEIPT", .uuid receiptId, .text "reject"] }
  let _ ← Api.ledger (.rejectReceipt receiptId) (.rejectReceipt ctx receiptId rejectionReason)
    (Inventory.rejectReceipt num uuids ctx receiptId rejectionReason)
  pure ()

end Requests

end SecureStore.Services
