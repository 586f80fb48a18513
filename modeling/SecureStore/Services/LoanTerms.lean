/-
# The terms of a loan

The interest and the instalments of a loan, computed when it is filed and again when an
edit changes its amount or its financier. An edit computes from the row it loaded and
writes the fields that differ from that row, by id alone. The rates of a financier and
the terms of a loan are columns of rows that the other requests leave alone, so they stand
beside the database. Numbers are exact.
-/

import SecureStore.Services.Loans

namespace SecureStore.Services.Terms

open SecureStore.Foundation SecureStore.Inventory

/-- What a financier offers. -/
structure Rates where
  interestRate : ℚ
  maxTenure : ℤ
  deriving DecidableEq

structure LoanTerms where
  interestRate : ℚ
  tenureMonths : ℤ
  totalInterest : ℚ
  monthlyPayment : ℚ
  deriving DecidableEq

structure TermsDb where
  db : Db
  /-- The rates of each financier. -/
  rates : Id → Rates
  /-- The terms of each loan. -/
  terms : Id → LoanTerms

/-- What an edit writes; a field that is absent is not touched. -/
structure EditData where
  financierId : Option Id := none
  amount : Option ℚ := none
  notes : Option (Option String) := none
  interestRate : Option ℚ := none
  tenureMonths : Option ℤ := none
  totalInterest : Option ℚ := none
  monthlyPayment : Option ℚ := none
  deriving DecidableEq

/-- What one step is. An edit is told with the row it loaded. -/
inductive TermsLabel where
  | base (label : Label)
  | create (loanId : Id)
  | edit (loan : Loan) (terms : LoanTerms) (data : EditData)
  | setRates (financierId : Id)

abbrev TermsApi (α : Type) := Attempt TermsLabel TermsDb ApiError α

/-- A step of the other services. -/
def onDb {α : Type} (p : Api α) : TermsApi α :=
  Attempt.zoom .base TermsDb.db (fun db s => { s with db }) id p

/-- `totalInterest` and `monthlyPayment` of a principal. -/
@[simps]
def computeTerms (principal interestRate : ℚ) (tenureMonths : ℤ) : LoanTerms where
  interestRate := interestRate
  tenureMonths := tenureMonths
  totalInterest := principal * interestRate / 100
  monthlyPayment := (principal + principal * interestRate / 100) / tenureMonths

/-- A financier of the tenant, with its rates. -/
def findFinancier (tenantId financierId : Id) : TermsApi (Option (Financier × Rates)) :=
  Attempt.read (.base .read) fun s : TermsDb =>
    ((s.db.directory.financiers.find financierId).filter fun f => f.tenantId = tenantId).map
      fun f => (f, s.rates f.id)

/-- `loan.upsert` with its terms -/
def TermsDb.createLoan (dto : CreateLoan) (financierId heldId : Id) (terms : LoanTerms)
    (s : TermsDb) : Except ApiError (Unit × TermsDb) :=
  match s.db.loans.find dto.loanId with
  | some _ => .ok ((), s)
  | none => (createRow s.db.loans
      { id := dto.loanId
        reference := dto.reference
        tenantId := dto.tenantId
        receiptId := heldId
        clientId := dto.clientId
        financierId := financierId
        amount := dto.amount
        status := .pending
        notes := dto.notes }
      (fun x => x.reference = dto.reference)).map fun loans =>
        ((), { s with
          db := { s.db with loans }, terms := Function.update s.terms dto.loanId terms })

def createLoan (num : Numeric) (dto : CreateLoan) : TermsApi Unit := do
  onDb (Api.authorise dto.auth)
  let receipt ← onDb (Api.query fun db =>
    (db.ledger.receipts.find dto.receiptId).filter fun r => r.tenantId = dto.tenantId)
  let receipt ← Attempt.orThrow receipt (.notFound "Receipt not found")
  let financier ← findFinancier dto.tenantId dto.financierId
  let financier ← Attempt.orThrow financier (.notFound "Financier not found")
  Attempt.throwIf (dto.amount ≤ 0) (.badRequest "Loan amount must be greater than zero")
  let terms := computeTerms dto.amount financier.2.interestRate financier.2.maxTenure
  let holdResult ← onDb (Api.hold num (.createLoan dto.loanId) dto.uuids
    { tenantId := dto.tenantId
      sourceReceiptId := receipt.id
      quantity := receipt.quantity
      heldStatus := .heldLoan
      txnType := .loan
      txnId := dto.loanId
      actorUserId := some (dto.actorUserId.getD dto.clientId)
      idempotencyKey := loanKey dto.loanId "hold" })
  let held ← onDb (Api.heldOf holdResult)
  Attempt.write (.create dto.loanId)
    (TermsDb.createLoan dto financier.1.id held.id terms)

/-- The financier that an edit changes to. -/
def nextFinancier (tenantId : Id) (financierId : Option Id) :
    TermsApi (Option (Financier × Rates)) :=
  match financierId with
  | none => pure none
  | some id => do
      let found ← findFinancier tenantId id
      let financier ← Attempt.orThrow found
        (.badRequest "financierId is invalid for this tenant.")
      pure (some financier)

/-- The fields that an edit changes, with the terms computed anew when the amount or the
financier changes. -/
def editData (loan : Loan) (terms : LoanTerms) (dto : EditLoan)
    (next : Option (Financier × Rates)) : EditData :=
  let data : EditData :=
    { financierId := edited dto.financierId loan.financierId
      amount := edited dto.amount loan.amount
      notes := edited (dto.notes.map some) loan.notes }
  if data.amount ≠ none ∨ data.financierId ≠ none then
    let computed := computeTerms (data.amount.getD loan.amount)
      ((next.map fun f => f.2.interestRate).getD terms.interestRate)
      ((next.map fun f => f.2.maxTenure).getD terms.tenureMonths)
    { data with
      interestRate := edited (some computed.interestRate) terms.interestRate
      tenureMonths := edited (some computed.tenureMonths) terms.tenureMonths
      totalInterest := edited (some computed.totalInterest) terms.totalInterest
      monthlyPayment := edited (some computed.monthlyPayment) terms.monthlyPayment }
  else data

/-- A loan's row after an edit. -/
@[simps]
def EditData.rewrite (data : EditData) (loan : Loan) : Loan :=
  { loan with
    financierId := data.financierId.getD loan.financierId
    amount := data.amount.getD loan.amount
    notes := data.notes.getD loan.notes }

theorem EditData.key_rewrite (data : EditData) (loan : Loan) :
    Keyed.key (data.rewrite loan) = Keyed.key loan := rfl

/-- A loan's terms after an edit. -/
@[simps]
def EditData.reprice (data : EditData) (terms : LoanTerms) : LoanTerms where
  interestRate := data.interestRate.getD terms.interestRate
  tenureMonths := data.tenureMonths.getD terms.tenureMonths
  totalInterest := data.totalInterest.getD terms.totalInterest
  monthlyPayment := data.monthlyPayment.getD terms.monthlyPayment

/-- `tx.loan.update` of an edit: by id only. -/
def TermsDb.editLoan (id : Id) (data : EditData) (s : TermsDb) :
    Except ApiError (Unit × TermsDb) :=
  (updateRow s.db.loans id data.rewrite data.key_rewrite).map fun loans =>
    ((), { s with
      db := { s.db with loans }
      terms := Function.update s.terms id (data.reprice (s.terms id)) })

/-- Edit the amount and the financier of a pending loan, or the notes. -/
def editLoan (dto : EditLoan) : TermsApi Unit := do
  let found ← Attempt.read (.base .read) fun s : TermsDb =>
    ((s.db.loans.find dto.loanId).filter fun l => l.tenantId = dto.tenantId).map
      fun l => (l, s.terms l.id)
  let (loan, terms) ← Attempt.orThrow found (.notFound "Loan not found")
  Attempt.throwIf (loan.status ∈ [.repaid, .defaulted, .rejected, .cancelled])
    (.conflict ("This loan is " ++ loan.status.text.map Char.toLower ++
      " and cannot be edited."))
  onDb (requireParty dto.tenantId dto.actorUserId dto.actorRoles loan.clientId loan.receiptId
    (.forbidden "Only the loan owner, an admin, or an assigned WM can edit this loan."))
  Attempt.throwIf (¬ (.tenantAdmin ∈ dto.actorRoles ∨ .globalAdmin ∈ dto.actorRoles) ∧
      loan.status ≠ .pending)
    (.conflict ("This loan is already " ++ loan.status.text ++
      " — only a tenant admin can edit it now."))
  Attempt.throwIf (loan.status ≠ .pending ∧ disallowed dto ≠ [])
    (.badRequest ("Cannot edit " ++ ", ".intercalate (disallowed dto) ++ " on a " ++
      loan.status.text ++
      " loan. Notes can still be updated; for material changes, cancel and refile."))
  let next ← nextFinancier dto.tenantId (edited dto.financierId loan.financierId)
  let data := editData loan terms dto next
  if data = {} then pure ()
  else Attempt.write (.edit loan terms data) (TermsDb.editLoan loan.id data)

/-- The rates of a financier change. -/
def setRates (financierId : Id) (rates : Rates) : TermsApi Unit :=
  Attempt.write (.setRates financierId) fun s =>
    .ok ((), { s with rates := Function.update s.rates financierId rates })

/-- The requests about loans and their terms. -/
inductive TermsRequest where
  | createLoan (dto : CreateLoan)
  | editLoan (dto : EditLoan)
  | approveLoan (uuids : Uuids) (tenantId loanId : Id) (actorUserId : Option Id)
  | rejectLoan (uuids : Uuids) (tenantId loanId : Id) (actorUserId : Option Id)
  | repayLoan (uuids : Uuids) (tenantId loanId : Id) (actorUserId : Option Id)
  | setRates (financierId : Id) (rates : Rates)

def TermsRequest.run (num : Numeric) : TermsRequest → TermsApi Unit
  | createLoan dto => Terms.createLoan num dto
  | editLoan dto => Terms.editLoan dto
  | approveLoan uuids tenantId loanId actorUserId =>
      onDb (Services.approveLoan num uuids tenantId loanId actorUserId)
  | rejectLoan uuids tenantId loanId actorUserId =>
      onDb (Services.rejectLoan num uuids tenantId loanId actorUserId)
  | repayLoan uuids tenantId loanId actorUserId =>
      onDb (Services.repayLoan num uuids tenantId loanId actorUserId)
  | setRates financierId rates => Terms.setRates financierId rates

end SecureStore.Services.Terms
