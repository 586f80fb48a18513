/-
# Withdrawals

A client requests a withdrawal of part of an ACTIVE leaf; confirming the payment
holds the volume, an admin approves, a warehouse manager completes the dispatch,
and an admin may reject until then. A cron rejects requests whose payment never
came. Fees come from policies that no other request touches: the outcome of
their resolution is an input.
-/

import SecureStore.Services.Database

namespace SecureStore.Services

open SecureStore.Foundation SecureStore.Inventory

def WithdrawalStatus.text : WithdrawalStatus → String
  | .pendingPayment => "PENDING_PAYMENT"
  | .paidPendingApproval => "PAID_PENDING_APPROVAL"
  | .approved => "APPROVED"
  | .rejected => "REJECTED"
  | .completed => "COMPLETED"

/-- `HANDLING_FEE` -/
def handlingFee : ℚ := 10000

/-- `PENDING_PAYMENT_TTL_MINUTES` -/
def pendingPaymentTtlMinutes : ℤ := 30

def pendingPaymentCutoff (now : Timestamp) : Timestamp :=
  now - pendingPaymentTtlMinutes * 60 * 1000

structure CreateWithdrawal where
  withdrawalId : Id
  reference : String
  now : Timestamp
  auth : Except ApiError Unit
  /-- The provisional storage fee, when a policy resolves. -/
  storageFee : Except ApiError ℚ
  tenantId : Id
  clientId : Id
  receiptId : Id
  quantity : ℚ
  reason : Option String
  plannedDate : Timestamp

structure EditWithdrawal where
  tenantId : Id
  withdrawalId : Id
  actorUserId : Id
  actorRoles : List Role
  reason : Option String
  plannedDate : Option Timestamp

/-- A PENDING_PAYMENT row on a receipt that still reserves volume. -/
def Withdrawal.Reserves (w : Withdrawal) (tenantId receiptId : Id) (cutoff : Timestamp) : Prop :=
  w.tenantId = tenantId ∧ w.receiptId = receiptId ∧ w.status = .pendingPayment ∧
    cutoff < w.createdAt

instance (w : Withdrawal) (tenantId receiptId : Id) (cutoff : Timestamp) :
    Decidable (w.Reserves tenantId receiptId cutoff) := by
  unfold Withdrawal.Reserves
  infer_instance

/-- What other live requests leave of a receipt's quantity. -/
def availableForWithdrawal (db : Db) (tenantId receiptId : Id) (receiptQuantity : ℚ)
    (cutoff : Timestamp) : ℚ :=
  receiptQuantity - ((db.withdrawals.rows.filter fun w =>
    w.Reserves tenantId receiptId cutoff).map Withdrawal.quantity).sum

def loadWithdrawal (tenantId id : Id) : Api Withdrawal := do
  let w ← Api.query fun db => (db.withdrawals.find id).filter fun w => w.tenantId = tenantId
  Api.orThrow w (.notFound "Withdrawal not found")

/-- `withdrawal.update` -/
def updateWithdrawal (by_ : Issuer) (id : Id) (f : Withdrawal → Withdrawal)
    (hf : ∀ r, Keyed.key (f r) = Keyed.key r := by intro r; rfl) : Api Unit :=
  Api.write by_ fun db =>
    (updateRow db.withdrawals id f hf).map fun withdrawals => ((), { db with withdrawals })

/-- The key `WITHDRAWAL:${id}:${word}`. -/
def withdrawalKey (id : Id) (word : String) : IdempotencyKey :=
  [.text "WITHDRAWAL", .uuid id, .text word]

section Requests

variable (num : Numeric)

/-- The row points at the selected receipt, which stays ACTIVE: the hold comes
with the payment. -/
def createWithdrawalRequest (dto : CreateWithdrawal) : Api Unit := do
  Api.throwIf (dto.quantity ≤ 0) (.badRequest "Quantity must be greater than zero")
  Api.authorise dto.auth
  let sourceReceipt ← Api.query fun db =>
    (db.ledger.receipts.find dto.receiptId).filter fun r => r.tenantId = dto.tenantId
  let sourceReceipt ← Api.orThrow sourceReceipt (.notFound "Receipt not found")
  Api.throwIf (sourceReceipt.status ≠ .active) (.conflict "Receipt is not in an active state")
  Api.throwIf (sourceReceipt.approvalStatus ≠ .approved)
    (.conflict "Receipt has not been approved by an admin")
  Api.throwIf (sourceReceipt.isParent = true)
    (.conflict "This receipt has been superseded by child receipts")
  let cutoff := pendingPaymentCutoff dto.now
  let existing ← Api.query fun db => db.withdrawals.rows.find? fun w =>
    w.clientId = dto.clientId ∧ w.Reserves dto.tenantId sourceReceipt.id cutoff
  Api.throwIf (existing ≠ none) (.conflict "PENDING_WITHDRAWAL_EXISTS")
  let available ← Api.query fun db =>
    availableForWithdrawal db dto.tenantId sourceReceipt.id sourceReceipt.quantity cutoff
  Api.throwIf (available < dto.quantity) (.conflict "INSUFFICIENT_AVAILABLE_QUANTITY")
  let storageFee ← Attempt.ofExcept dto.storageFee
  Api.write (.createWithdrawal dto.withdrawalId) fun db =>
    match db.withdrawals.find dto.withdrawalId with
    | some _ => .ok ((), db)
    | none => (createRow db.withdrawals
        { id := dto.withdrawalId
          reference := dto.reference
          tenantId := dto.tenantId
          receiptId := sourceReceipt.id
          clientId := dto.clientId
          quantity := dto.quantity
          reason := dto.reason
          plannedDate := dto.plannedDate
          status := .pendingPayment
          storageFee := storageFee
          handlingFee := handlingFee
          totalFee := storageFee + handlingFee
          createdAt := dto.now }
        (fun x => x.reference = dto.reference)).map fun withdrawals =>
          ((), { db with withdrawals })

def confirmPayment (uuids : Uuids) (tenantId withdrawalId actorUserId : Id)
    (actorRoles : List Role) : Api Unit := do
  let w ← loadWithdrawal tenantId withdrawalId
  requireParty tenantId actorUserId actorRoles w.clientId w.receiptId
    (.forbidden ("Only the withdrawal owner, a tenant admin, or a warehouse manager " ++
      "assigned to the holding warehouse can confirm payment"))
  Api.throwIf (w.status ≠ .pendingPayment)
    (.badRequest ("Withdrawal is not awaiting payment (status: " ++ w.status.text ++ ")"))
  let holdResult ← Api.hold num (.confirmPayment w.id) uuids
    { tenantId := tenantId
      sourceReceiptId := w.receiptId
      quantity := w.quantity
      heldStatus := .heldWithdrawal
      txnType := .withdrawal
      txnId := w.id
      actorUserId := some actorUserId
      idempotencyKey := withdrawalKey w.id "hold" }
  let held ← Api.heldOf holdResult
  updateWithdrawal (.confirmPayment w.id) withdrawalId fun r =>
    { r with status := .paidPendingApproval, receiptId := held.id }

def approveWithdrawal (uuids : Uuids) (tenantId withdrawalId : Id) (actorUserId : Option Id) :
    Api Unit := do
  let w ← loadWithdrawal tenantId withdrawalId
  Api.throwIf (w.status ≠ .paidPendingApproval)
    (.badRequest ("Withdrawal is not awaiting approval (status: " ++ w.status.text ++ ")"))
  let _ ← Api.approveHold num (.approveWithdrawal w.id) uuids
    { tenantId := tenantId
      actorUserId := actorUserId
      idempotencyKey := withdrawalKey w.id "approveHold" } w.receiptId
  updateWithdrawal (.approveWithdrawal w.id) withdrawalId fun r =>
    { r with status := .approved, approvedById := actorUserId }

/-- The linked receipt decides whether there is a hold to release. -/
def releaseLinked (uuids : Uuids) (tenantId : Id) (w : Withdrawal) (actorUserId : Option Id) :
    Api Unit := do
  let linkedReceipt ← Api.query fun db => db.ledger.receipts.find w.receiptId
  match linkedReceipt with
  | none => pure ()
  | some r =>
      if r.status.Held then do
        let _ ← Api.release num (.rejectWithdrawal w.id) uuids
          { tenantId := tenantId
            actorUserId := actorUserId
            idempotencyKey := withdrawalKey w.id "release" } w.receiptId
        pure ()
      else pure ()

def rejectWithdrawal (uuids : Uuids) (tenantId withdrawalId : Id) (actorUserId : Option Id)
    (reason : Option String) : Api Unit := do
  let w ← loadWithdrawal tenantId withdrawalId
  Api.throwIf (w.status = .completed) (.badRequest "Withdrawal is already completed")
  releaseLinked num uuids tenantId w actorUserId
  if w.status = .rejected then pure ()
  else updateWithdrawal (.rejectWithdrawal w.id) withdrawalId fun r =>
    { r with status := .rejected, rejectionReason := reason }

/-- Completion consumes the held node and bills the final fee. -/
def completeWithdrawal (uuids : Uuids) (storageFee : Except ApiError ℚ)
    (tenantId withdrawalId : Id) (actorUserId : Option Id) : Api Unit := do
  let w ← loadWithdrawal tenantId withdrawalId
  Api.throwIf (w.status ≠ .approved)
    (.badRequest
      ("Withdrawal must be APPROVED before completion (status: " ++ w.status.text ++ ")"))
  let _ ← Api.consume num (.completeWithdrawal w.id) uuids
    { tenantId := tenantId
      actorUserId := actorUserId
      idempotencyKey := withdrawalKey w.id "consume" } w.receiptId
  let heldReceipt ← Api.query fun db => db.ledger.receipts.find w.receiptId
  let _ ← Api.orThrow heldReceipt .recordNotFound
  let finalStorageFee ← Attempt.ofExcept storageFee
  updateWithdrawal (.completeWithdrawal w.id) withdrawalId fun r =>
    { r with
      status := .completed, storageFee := finalStorageFee,
      totalFee := finalStorageFee + w.handlingFee }

/-- Edit the reason and the planned date. -/
def editWithdrawal (dto : EditWithdrawal) : Api Unit := do
  let w ← loadWithdrawal dto.tenantId dto.withdrawalId
  Api.throwIf (w.status = .completed ∨ w.status = .rejected)
    (.conflict "This withdrawal cannot be edited.")
  requireParty dto.tenantId dto.actorUserId dto.actorRoles w.clientId w.receiptId
    (.forbidden "Only the withdrawal owner, an admin, or an assigned WM can edit this withdrawal.")
  Api.throwIf (¬ (.tenantAdmin ∈ dto.actorRoles ∨ .globalAdmin ∈ dto.actorRoles) ∧
      w.status ≠ .pendingPayment)
    (.conflict ("This withdrawal is already " ++ w.status.text ++
      " — only a tenant admin can edit it now."))
  let reason := edited (dto.reason.map some) w.reason
  let plannedDate := edited dto.plannedDate w.plannedDate
  if reason = none ∧ plannedDate = none then pure ()
  else updateWithdrawal (.editWithdrawal w.id) w.id fun r =>
    { r with reason := reason.getD r.reason, plannedDate := plannedDate.getD r.plannedDate }

/-- The cleanup cron: the update checks the status once more. -/
def expirePendingPayment (now : Timestamp) : Api Unit := do
  let cutoff := pendingPaymentCutoff now
  let expired ← Api.query fun db => db.withdrawals.rows.filter fun w =>
    w.status = .pendingPayment ∧ w.createdAt < cutoff
  if expired = [] then pure ()
  else Api.write .expirePendingPayment fun db =>
    .ok ((), { db with
      withdrawals := db.withdrawals.modifyWhere
        (fun w => w.id ∈ expired.map Withdrawal.id ∧ w.status = .pendingPayment)
        fun r =>
          { r with
            status := .rejected
            rejectionReason :=
              some "Auto-expired: payment confirmation was not received in time." } })

end Requests

end SecureStore.Services
