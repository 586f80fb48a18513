/-
# Pledges

A client pledges volume of a receipt to a financier and may cancel while the
pledge is pending; the financier accepts, which puts the held leaf under a lien,
or rejects; a cron expires pledges past their deadline. Each decision checks the
status it read, moves the ledger, and then writes the status unconditionally.
-/

import SecureStore.Services.Database

namespace SecureStore.Services

open SecureStore.Foundation SecureStore.Inventory

/-- `DEFAULT_PLEDGE_TTL_DAYS` -/
def defaultPledgeTtlDays : ℤ := 7

/-- The `available` part of a receipt's encumbrance: its ACTIVE leaves. -/
def availableOf (db : Db) (root : Receipt) : ℚ :=
  ((db.ledger.receipts.rows.filter fun r => r.tenantId = root.tenantId ∧
    (r.rootReceiptId = root.id ∨ r.id = root.id) ∧ r.status = .active).map Receipt.quantity).sum

/-- `getReceiptEncumbrance`, of which the callers here use `available`. -/
def getReceiptEncumbrance (callerUserId receiptId : Id) : Api ℚ := do
  let root ← Api.query fun db => db.ledger.receipts.find receiptId
  let root ← Api.orThrow root (.notFound "Receipt not found")
  Api.throwIf (root.clientId ≠ callerUserId) (.notFound "Receipt not found")
  Api.query fun db => availableOf db root

structure CreatePledge where
  uuids : Uuids
  pledgeId : Id
  now : Timestamp
  callerUserId : Id
  receiptId : Id
  quantity : ℚ
  financierId : Id
  note : Option String

structure AcceptPledge where
  uuids : Uuids
  lienId : Id
  now : Timestamp
  otp : Except ApiError Unit
  callerUserId : Id
  pledgeId : Id
  note : Option String

/-- An ACTIVE link of the financier to a warehouse, with the financier's row. -/
def findWarehouseLink (db : Db) (tenantId financierOrgId warehouseId : Id) :
    Option FinancierOrg := do
  let link ← db.directory.warehouseLinks.rows.find? fun l => l.tenantId = tenantId ∧
    l.financierOrgId = financierOrgId ∧ l.warehouseId = warehouseId ∧ l.status = .active
  db.directory.financierOrgs.find link.financierOrgId

/-- `ledger.release` of a pledge's held leaf, when the pledge has one. -/
def releaseHeld (num : Numeric) (by_ : Issuer) (uuids : Uuids) (p : Pledge)
    (actorUserId : Option Id) (decision : String) : Api Unit :=
  match p.heldReceiptId with
  | none => pure ()
  | some heldReceiptId => do
      let _ ← Api.release num by_ uuids
        { tenantId := p.tenantId
          actorUserId := actorUserId
          idempotencyKey := [.text "pledge", .text decision, .uuid p.id] } heldReceiptId
      pure ()

/-- `pledge.update` -/
def updatePledge (by_ : Issuer) (id : Id) (f : Pledge → Pledge)
    (hf : ∀ r, Keyed.key (f r) = Keyed.key r := by intro r; rfl) : Api Unit :=
  Api.write by_ fun db =>
    (updateRow db.pledges id f hf).map fun pledges => ((), { db with pledges })

section Requests

variable (num : Numeric)

def createPledge (dto : CreatePledge) : Api Unit := do
  let caller ← Api.query fun db => db.directory.users.find dto.callerUserId
  let caller ← Api.orThrow caller (.notFound "User not found")
  let receipt ← Api.query fun db => (db.ledger.receipts.find dto.receiptId).filter fun r =>
    r.clientId = dto.callerUserId ∧ r.tenantId = caller.tenantId
  let receipt ← Api.orThrow receipt (.notFound "RECEIPT_NOT_PLEDGEABLE")
  Api.throwIf (receipt.status ≠ .active ∧ receipt.status ≠ .split ∧
      receipt.status ≠ .pendingApproval) (.badRequest "RECEIPT_NOT_PLEDGEABLE")
  Api.throwIf (dto.quantity ≤ 0) (.badRequest "QUANTITY_INVALID")
  let available ← getReceiptEncumbrance dto.callerUserId receipt.id
  Api.throwIf (available < dto.quantity) (.badRequest "INSUFFICIENT_AVAILABLE_VOLUME")
  let org ← Api.query fun db =>
    findWarehouseLink db caller.tenantId dto.financierId receipt.warehouseId
  let org ← Api.orThrow org (.badRequest "FINANCIER_NOT_ONBOARDED")
  Api.throwIf (org.status ≠ .active) (.badRequest "FINANCIER_NOT_ONBOARDED")
  let ttlDays := org.pledgeTtlDays.getD defaultPledgeTtlDays
  let expiresAt := dto.now + ttlDays * 24 * 60 * 60 * 1000
  let holdResult ← Api.hold num (.createPledge dto.pledgeId) dto.uuids
    { tenantId := receipt.tenantId
      sourceReceiptId := receipt.id
      quantity := dto.quantity
      heldStatus := .heldPledgePending
      txnType := .pledge
      txnId := dto.pledgeId
      actorUserId := some dto.callerUserId
      idempotencyKey := [.text "pledge", .text "create", .uuid dto.pledgeId] }
  let held ← Api.heldOf holdResult
  Api.write (.createPledge dto.pledgeId) fun db =>
    (createRow db.pledges
      { id := dto.pledgeId
        tenantId := caller.tenantId
        receiptId := receipt.id
        heldReceiptId := some held.id
        clientId := dto.callerUserId
        financierOrgId := dto.financierId
        warehouseId := receipt.warehouseId
        quantity := num.numeric20_4 dto.quantity
        status := .pending
        clientNote := dto.note
        expiresAt := expiresAt }
      (fun x => x.heldReceiptId = some held.id)).map fun pledges => ((), { db with pledges })

/-- Client cancels their pledge. -/
def cancelPledge (uuids : Uuids) (callerUserId pledgeId : Id) : Api Unit := do
  let p ← Api.query fun db => (db.pledges.find pledgeId).filter fun p => p.clientId = callerUserId
  let p ← Api.orThrow p (.notFound "Pledge not found")
  Api.throwIf (p.status ≠ .pending) (.badRequest "PLEDGE_NOT_PENDING")
  releaseHeld num (.cancelPledge p.id) uuids p (some callerUserId) "cancel"
  updatePledge (.cancelPledge p.id) p.id fun r => { r with status := .cancelled }

/-- The pledge as its financier finds it. -/
def getFinancierPledge (financierOrgId pledgeId : Id) : Api Pledge := do
  let p ← Api.query fun db =>
    (db.pledges.find pledgeId).filter fun p => p.financierOrgId = financierOrgId
  Api.orThrow p (.notFound "Pledge not found")

def getFinancierPledgeDetail (callerUserId pledgeId : Id) : Api Unit := do
  let financierOrg ← requireFinancierOrg callerUserId
  let _ ← getFinancierPledge financierOrg.id pledgeId
  pure ()

/-- `$transaction`: create the lien and flip the pledge. -/
def createLien (dto : AcceptPledge) (p : Pledge) (heldReceiptId : Id) : Api Unit :=
  Api.write (.acceptPledge p.id) fun db => do
    let liens ← createRow db.liens
      { id := dto.lienId
        tenantId := p.tenantId
        pledgeId := p.id
        receiptId := heldReceiptId
        clientId := p.clientId
        financierOrgId := p.financierOrgId
        quantity := num.numeric20_4 p.quantity
        remainingQuantity := num.numeric20_4 p.quantity
        status := .active }
      fun x => x.pledgeId = p.id
    let pledges ← updateRow db.pledges p.id fun r =>
      { r with
        status := .accepted, decidedById := some dto.callerUserId, decisionReason := dto.note }
    pure ((), { db with liens, pledges })

/-- Accept a pledge: the leaf goes under lien, then the lien is recorded. -/
def acceptPledge (dto : AcceptPledge) : Api Unit := do
  let financierOrg ← requireFinancierOrg dto.callerUserId
  let p ← getFinancierPledge financierOrg.id dto.pledgeId
  Api.throwIf (p.status ≠ .pending) (.badRequest "PLEDGE_NOT_PENDING")
  Api.throwIf (p.expiresAt < dto.now) (.badRequest "PLEDGE_EXPIRED")
  let heldReceiptId ← Api.orThrow p.heldReceiptId (.badRequest "PLEDGE_INTERNAL_STATE_ERROR")
  Api.authorise dto.otp
  let _ ← Api.transitionPledgeToLien num (.acceptPledge p.id) dto.uuids
    { tenantId := p.tenantId
      actorUserId := some dto.callerUserId
      idempotencyKey := [.text "pledge", .text "accept", .uuid p.id] } heldReceiptId p.id
  createLien num dto p heldReceiptId
  getFinancierPledgeDetail dto.callerUserId p.id

def rejectPledge (uuids : Uuids) (callerUserId pledgeId : Id) (reason : String) : Api Unit := do
  let financierOrg ← requireFinancierOrg callerUserId
  let p ← getFinancierPledge financierOrg.id pledgeId
  Api.throwIf (p.status ≠ .pending) (.badRequest "PLEDGE_NOT_PENDING")
  releaseHeld num (.rejectPledge p.id) uuids p (some callerUserId) "reject"
  updatePledge (.rejectPledge p.id) p.id fun r =>
    { r with
      status := .rejected, decisionReason := some reason, decidedById := some callerUserId }
  getFinancierPledgeDetail callerUserId p.id

/-- One pledge of the cron's batch. -/
def expirePledge (uuids : Uuids) (p : Pledge) : Api Unit := do
  releaseHeld num (.expirePledge p.id) uuids p none "expire"
  updatePledge (.expirePledge p.id) p.id fun r => { r with status := .expired }

/-- Expire all PENDING pledges past their deadline; one bad pledge does not block
the rest. -/
def expireStalePledges (uuids : Id → Uuids) (now : Timestamp) : Api Unit := do
  let stale ← Api.query fun db =>
    db.pledges.rows.filter fun p => p.status = .pending ∧ p.expiresAt ≤ now
  Attempt.forEach stale fun p =>
    (expirePledge num (uuids p.id) p).recover fun _ => pure ()

end Requests

end SecureStore.Services
