/-
# Loans

A loan holds a whole ACTIVE leaf; approval approves the hold, rejection and
repayment release it. The interest and the instalments of a loan are display
values that nothing here reads, and are left out.
-/

import SecureStore.Services.Database

namespace SecureStore.Services

open SecureStore.Foundation SecureStore.Inventory

def LoanStatus.text : LoanStatus → String
  | .pending => "PENDING"
  | .approved => "APPROVED"
  | .active => "ACTIVE"
  | .repaid => "REPAID"
  | .defaulted => "DEFAULTED"
  | .rejected => "REJECTED"
  | .cancelled => "CANCELLED"

structure CreateLoan where
  uuids : Uuids
  loanId : Id
  reference : String
  auth : Except ApiError Unit
  tenantId : Id
  receiptId : Id
  financierId : Id
  amount : ℚ
  notes : Option String
  clientId : Id
  actorUserId : Option Id

structure EditLoan where
  tenantId : Id
  loanId : Id
  actorUserId : Id
  actorRoles : List Role
  amount : Option ℚ
  financierId : Option Id
  notes : Option String

def loadLoan (tenantId id : Id) : Api Loan := do
  let loan ← Api.query fun db => (db.loans.find id).filter fun l => l.tenantId = tenantId
  Api.orThrow loan (.notFound "Loan not found")

/-- `loan.update` -/
def updateLoan (by_ : Issuer) (id : Id) (f : Loan → Loan)
    (hf : ∀ r, Keyed.key (f r) = Keyed.key r := by intro r; rfl) : Api Unit :=
  Api.write by_ fun db =>
    (updateRow db.loans id f hf).map fun loans => ((), { db with loans })

/-- The key `LOAN:${id}:${word}`. -/
def loanKey (id : Id) (word : String) : IdempotencyKey := [.text "LOAN", .uuid id, .text word]

def findFinancier (tenantId financierId : Id) : Api (Option Financier) :=
  Api.query fun db => (db.directory.financiers.find financierId).filter fun f =>
    f.tenantId = tenantId

section Requests

variable (num : Numeric)

def createLoan (dto : CreateLoan) : Api Unit := do
  Api.authorise dto.auth
  let receipt ← Api.query fun db =>
    (db.ledger.receipts.find dto.receiptId).filter fun r => r.tenantId = dto.tenantId
  let receipt ← Api.orThrow receipt (.notFound "Receipt not found")
  let financier ← findFinancier dto.tenantId dto.financierId
  let financier ← Api.orThrow financier (.notFound "Financier not found")
  Api.throwIf (dto.amount ≤ 0) (.badRequest "Loan amount must be greater than zero")
  let holdResult ← Api.hold num (.createLoan dto.loanId) dto.uuids
    { tenantId := dto.tenantId
      sourceReceiptId := receipt.id
      quantity := receipt.quantity
      heldStatus := .heldLoan
      txnType := .loan
      txnId := dto.loanId
      actorUserId := some (dto.actorUserId.getD dto.clientId)
      idempotencyKey := loanKey dto.loanId "hold" }
  let held ← Api.heldOf holdResult
  Api.write (.createLoan dto.loanId) fun db =>
    match db.loans.find dto.loanId with
    | some _ => .ok ((), db)
    | none => (createRow db.loans
        { id := dto.loanId
          reference := dto.reference
          tenantId := dto.tenantId
          receiptId := held.id
          clientId := dto.clientId
          financierId := financier.id
          amount := dto.amount
          status := .pending
          notes := dto.notes }
        (fun x => x.reference = dto.reference)).map fun loans => ((), { db with loans })

def approveLoan (uuids : Uuids) (tenantId loanId : Id) (actorUserId : Option Id) : Api Unit := do
  let loan ← loadLoan tenantId loanId
  Api.throwIf (loan.status ≠ .pending)
    (.badRequest ("Loan is not pending (status: " ++ loan.status.text ++ ")"))
  let _ ← Api.approveHold num (.approveLoan loan.id) uuids
    { tenantId := tenantId
      actorUserId := actorUserId
      idempotencyKey := loanKey loan.id "approveHold" } loan.receiptId
  updateLoan (.approveLoan loan.id) loanId fun r => { r with status := .active }

def rejectLoan (uuids : Uuids) (tenantId loanId : Id) (actorUserId : Option Id) : Api Unit := do
  let loan ← loadLoan tenantId loanId
  Api.throwIf (loan.status ≠ .pending)
    (.badRequest ("Loan is not pending (status: " ++ loan.status.text ++ ")"))
  let _ ← Api.release num (.rejectLoan loan.id) uuids
    { tenantId := tenantId
      actorUserId := actorUserId
      idempotencyKey := loanKey loan.id "release" } loan.receiptId
  updateLoan (.rejectLoan loan.id) loanId fun r => { r with status := .rejected }

def repayLoan (uuids : Uuids) (tenantId loanId : Id) (actorUserId : Option Id) : Api Unit := do
  let loan ← loadLoan tenantId loanId
  Api.throwIf (loan.status ≠ .active)
    (.badRequest ("Loan is not active (status: " ++ loan.status.text ++ ")"))
  let _ ← Api.release num (.repayLoan loan.id) uuids
    { tenantId := tenantId
      actorUserId := actorUserId
      idempotencyKey := loanKey loan.id "repay-release" } loan.receiptId
  updateLoan (.repayLoan loan.id) loanId fun r => { r with status := .repaid }

/-- The lookup of a changed financier. -/
def checkFinancier (tenantId : Id) (financierId : Option Id) : Api Unit :=
  match financierId with
  | none => pure ()
  | some id => do
      let financier ← findFinancier tenantId id
      let _ ← Api.orThrow financier (.badRequest "financierId is invalid for this tenant.")
      pure ()

/-- The fields of an edit that only a pending loan takes. -/
def disallowed (dto : EditLoan) : List String :=
  (if dto.amount ≠ none then ["amount"] else []) ++
    (if dto.financierId ≠ none then ["financierId"] else [])

/-- Edit the amount and the financier of a pending loan, or the notes. -/
def editLoan (dto : EditLoan) : Api Unit := do
  let loan ← loadLoan dto.tenantId dto.loanId
  Api.throwIf (loan.status ∈ [.repaid, .defaulted, .rejected, .cancelled])
    (.conflict ("This loan is " ++ loan.status.text.map Char.toLower ++
      " and cannot be edited."))
  requireParty dto.tenantId dto.actorUserId dto.actorRoles loan.clientId loan.receiptId
    (.forbidden "Only the loan owner, an admin, or an assigned WM can edit this loan.")
  Api.throwIf (¬ (.tenantAdmin ∈ dto.actorRoles ∨ .globalAdmin ∈ dto.actorRoles) ∧
      loan.status ≠ .pending)
    (.conflict ("This loan is already " ++ loan.status.text ++
      " — only a tenant admin can edit it now."))
  Api.throwIf (loan.status ≠ .pending ∧ disallowed dto ≠ [])
    (.badRequest ("Cannot edit " ++ ", ".intercalate (disallowed dto) ++ " on a " ++
      loan.status.text ++
      " loan. Notes can still be updated; for material changes, cancel and refile."))
  let financierId := edited dto.financierId loan.financierId
  checkFinancier dto.tenantId financierId
  let amount := edited dto.amount loan.amount
  let notes := edited (dto.notes.map some) loan.notes
  if financierId = none ∧ amount = none ∧ notes = none then pure ()
  else updateLoan (.editLoan loan.id) loan.id fun r =>
    { r with
      financierId := financierId.getD r.financierId
      amount := amount.getD r.amount
      notes := notes.getD r.notes }

end Requests

end SecureStore.Services
