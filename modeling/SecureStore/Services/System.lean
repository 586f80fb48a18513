/-
# The requests of the platform

Every request that moves receipts through the ledger, or pledges, liens,
withdrawals, loans or trades, with its arguments and the values it draws, and the
process it runs. A run of the platform interleaves the steps of its requests; a
request that stops for good has crashed. The direct edits of a deposit, which
rewrite a receipt without the ledger, are requests of the desk (`Deposits/Desk`)
and not of these runs.
-/

import SecureStore.Services.Deposits
import SecureStore.Services.Loans
import SecureStore.Services.Pledges
import SecureStore.Services.ReleaseRequests
import SecureStore.Services.Trades
import SecureStore.Services.Withdrawals

namespace SecureStore.Services

open SecureStore.Foundation SecureStore.Inventory

inductive Request where
  | createDeposit (dto : CreateDeposit)
  | approveReceipt (uuids : Uuids) (tenantId receiptId adminId : Id)
  | rejectReceipt (uuids : Uuids) (tenantId receiptId adminId : Id) (rejectionReason : String)
  | createPledge (dto : CreatePledge)
  | cancelPledge (uuids : Uuids) (callerUserId pledgeId : Id)
  | acceptPledge (dto : AcceptPledge)
  | rejectPledge (uuids : Uuids) (callerUserId pledgeId : Id) (reason : String)
  | expireStalePledges (uuids : Id → Uuids) (now : Timestamp)
  | createReleaseRequest (dto : CreateReleaseRequest)
  | cancelReleaseRequest (callerUserId requestId : Id)
  | approveReleaseRequest (dto : ApproveReleaseRequest)
  | rejectReleaseRequest (callerUserId requestId : Id) (reason : String)
  | forceReleaseLien (dto : ForceReleaseLien)
  | createWithdrawalRequest (dto : CreateWithdrawal)
  | confirmPayment (uuids : Uuids) (tenantId withdrawalId actorUserId : Id)
      (actorRoles : List Role)
  | approveWithdrawal (uuids : Uuids) (tenantId withdrawalId : Id) (actorUserId : Option Id)
  | rejectWithdrawal (uuids : Uuids) (tenantId withdrawalId : Id) (actorUserId : Option Id)
      (reason : Option String)
  | completeWithdrawal (uuids : Uuids) (storageFee : Except ApiError ℚ)
      (tenantId withdrawalId : Id) (actorUserId : Option Id)
  | editWithdrawal (dto : EditWithdrawal)
  | expirePendingPayment (now : Timestamp)
  | createLoan (dto : CreateLoan)
  | approveLoan (uuids : Uuids) (tenantId loanId : Id) (actorUserId : Option Id)
  | rejectLoan (uuids : Uuids) (tenantId loanId : Id) (actorUserId : Option Id)
  | repayLoan (uuids : Uuids) (tenantId loanId : Id) (actorUserId : Option Id)
  | editLoan (dto : EditLoan)
  | createTrade (dto : CreateTrade)
  | settleTrade (uuids : Uuids) (tenantId tradeId buyerId : Id)
  | cancelTrade (uuids : Uuids) (tenantId tradeId : Id)

namespace Request

/-- The process a request runs. -/
def run (num : Numeric) : Request → Api Unit
  | createDeposit dto => Services.createDeposit num dto
  | approveReceipt uuids tenantId receiptId adminId =>
      Services.approveReceipt num uuids tenantId receiptId adminId
  | rejectReceipt uuids tenantId receiptId adminId rejectionReason =>
      Services.rejectReceipt num uuids tenantId receiptId adminId rejectionReason
  | createPledge dto => Services.createPledge num dto
  | cancelPledge uuids callerUserId pledgeId =>
      Services.cancelPledge num uuids callerUserId pledgeId
  | acceptPledge dto => Services.acceptPledge num dto
  | rejectPledge uuids callerUserId pledgeId reason =>
      Services.rejectPledge num uuids callerUserId pledgeId reason
  | expireStalePledges uuids now => Services.expireStalePledges num uuids now
  | createReleaseRequest dto => Services.createReleaseRequest num dto
  | cancelReleaseRequest callerUserId requestId =>
      Services.cancelReleaseRequest callerUserId requestId
  | approveReleaseRequest dto => Services.approveReleaseRequest num dto
  | rejectReleaseRequest callerUserId requestId reason =>
      Services.rejectReleaseRequest callerUserId requestId reason
  | forceReleaseLien dto => Services.forceReleaseLien num dto
  | createWithdrawalRequest dto => Services.createWithdrawalRequest dto
  | confirmPayment uuids tenantId withdrawalId actorUserId actorRoles =>
      Services.confirmPayment num uuids tenantId withdrawalId actorUserId actorRoles
  | approveWithdrawal uuids tenantId withdrawalId actorUserId =>
      Services.approveWithdrawal num uuids tenantId withdrawalId actorUserId
  | rejectWithdrawal uuids tenantId withdrawalId actorUserId reason =>
      Services.rejectWithdrawal num uuids tenantId withdrawalId actorUserId reason
  | completeWithdrawal uuids storageFee tenantId withdrawalId actorUserId =>
      Services.completeWithdrawal num uuids storageFee tenantId withdrawalId actorUserId
  | editWithdrawal dto => Services.editWithdrawal dto
  | expirePendingPayment now => Services.expirePendingPayment now
  | createLoan dto => Services.createLoan num dto
  | approveLoan uuids tenantId loanId actorUserId =>
      Services.approveLoan num uuids tenantId loanId actorUserId
  | rejectLoan uuids tenantId loanId actorUserId =>
      Services.rejectLoan num uuids tenantId loanId actorUserId
  | repayLoan uuids tenantId loanId actorUserId =>
      Services.repayLoan num uuids tenantId loanId actorUserId
  | editLoan dto => Services.editLoan dto
  | createTrade dto => Services.createTrade num dto
  | settleTrade uuids tenantId tradeId buyerId =>
      Services.settleTrade num uuids tenantId tradeId buyerId
  | cancelTrade uuids tenantId tradeId => Services.cancelTrade num uuids tenantId tradeId

end Request

/-- Requests executed one at a time, each to its end. -/
def runRequests (num : Numeric) (requests : List Request) (db : Db) : Db :=
  requests.foldl (fun db request => ((request.run num).exec db).2) db

/-- Tenant 1 with client 10, admin 11 and warehouse 50, and financier 20 of
organisation 30, which is linked to the warehouse. -/
def sampleDirectory : Directory where
  users := ⟨[⟨10, 1, none⟩, ⟨11, 1, none⟩, ⟨20, 1, some 30⟩], by decide⟩
  financierOrgs := ⟨[⟨30, .active, none⟩], by decide⟩
  warehouseLinks := ⟨[⟨31, 1, 30, 50, .active⟩], by decide⟩
  managerAssignments := Table.empty
  financiers := ⟨[⟨20, 1⟩], by decide⟩

/-- Four ids in a row. -/
def sampleUuids (n : ℕ) : Uuids := ⟨n, n + 1, n + 2, n + 3, .stored⟩

/-- Ten units, deposited as receipt 102 and approved. -/
def sampleStock : List Request :=
  [.createDeposit
      { uuids := sampleUuids 100, keyUuid := 104, checked := .ok (), tenantId := 1
        clientId := 10, commodityId := 60, warehouseId := 50, quantity := 10, grade := none
        dateOfDeposit := 0, managerUserId := 12, currentYear := 2026 },
    .approveReceipt (sampleUuids 110) 1 102 11]

/-- Pledge 7 of six units, held as receipt 122. -/
def samplePledge : Request :=
  .createPledge
    { uuids := sampleUuids 120, pledgeId := 7, now := 0, callerUserId := 10, receiptId := 102
      quantity := 6, financierId := 30, note := none }

/-- The acceptance of pledge 7, which creates lien 8. -/
def sampleAcceptance : Request :=
  .acceptPledge
    { uuids := sampleUuids 130, lienId := 8, now := 0, otp := .ok (), callerUserId := 20
      pledgeId := 7, note := none }

/-- The cancellation of pledge 7. -/
def sampleCancellation : Request := .cancelPledge (sampleUuids 140) 10 7

/-- Withdrawal 9 of four units of receipt 102, up to its completion. -/
def sampleWithdrawal : List Request :=
  [.createWithdrawalRequest
      { withdrawalId := 9, reference := "WD-2026-1", now := 0, auth := .ok ()
        storageFee := .ok 0, tenantId := 1, clientId := 10, receiptId := 102, quantity := 4
        reason := none, plannedDate := 0 },
    .confirmPayment (sampleUuids 150) 1 9 10 [],
    .approveWithdrawal (sampleUuids 160) 1 9 (some 11),
    .completeWithdrawal (sampleUuids 170) (.ok 0) 1 9 (some 12)]

end SecureStore.Services
