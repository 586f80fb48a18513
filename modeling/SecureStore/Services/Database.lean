/-
# The database of the services

The tables that the pledge, release, lien, withdrawal, loan and trade services
read and write, with the columns they use, next to the ledger. A request is an
attempt whose steps are single reads, single writes and whole ledger operations;
each step is labelled with the request that took it. Notifications and response
projections are left out: they write none of these tables. The clock, the uuids
and the references a request draws, and whether its one-time password or
transaction authorisation is accepted, are inputs of the request.
-/

import SecureStore.Foundation.Interleaving
import SecureStore.Inventory.Effect

namespace SecureStore.Services

open SecureStore.Foundation SecureStore.Inventory

inductive FinancierOrgStatus where
  | active
  | suspended
  | offboarded
  deriving DecidableEq, Repr

inductive WarehouseLinkStatus where
  | pending
  | active
  | offboarded
  deriving DecidableEq, Repr

inductive PledgeStatus where
  | pending
  | accepted
  | rejected
  | expired
  | cancelled
  deriving DecidableEq, Repr

inductive LienStatus where
  | active
  | partiallyReleased
  | released
  | forceReleased
  deriving DecidableEq, Repr

inductive ReleaseRequestStatus where
  | pending
  | approved
  | rejected
  | cancelled
  deriving DecidableEq, Repr

inductive WithdrawalStatus where
  | pendingPayment
  | paidPendingApproval
  | approved
  | rejected
  | completed
  deriving DecidableEq, Repr

inductive LoanStatus where
  | pending
  | approved
  | active
  | repaid
  | defaulted
  | rejected
  | cancelled
  deriving DecidableEq, Repr

inductive TradeStatus where
  | listed
  | pendingSettlement
  | settled
  | cancelled
  deriving DecidableEq, Repr

structure User where
  id : Id
  tenantId : Id
  financierOrgId : Option Id
  deriving DecidableEq

structure FinancierOrg where
  id : Id
  status : FinancierOrgStatus
  pledgeTtlDays : Option ℤ
  deriving DecidableEq

structure WarehouseLink where
  id : Id
  tenantId : Id
  financierOrgId : Id
  warehouseId : Id
  status : WarehouseLinkStatus
  deriving DecidableEq

/-- A row of `warehouse_manager_assignments`. -/
structure ManagerAssignment where
  id : Id
  tenantId : Id
  managerId : Id
  warehouseId : Id
  unassignedAt : Option Timestamp
  deriving DecidableEq

structure Financier where
  id : Id
  tenantId : Id
  deriving DecidableEq

/-- A warehouse, and whether its `status` is ACTIVE. -/
structure Warehouse where
  id : Id
  tenantId : Id
  active : Bool
  deriving DecidableEq

structure ClientProfile where
  id : Id
  tenantId : Id
  userId : Id
  deriving DecidableEq

structure Pledge where
  id : Id
  tenantId : Id
  receiptId : Id
  heldReceiptId : Option Id
  clientId : Id
  financierOrgId : Id
  warehouseId : Id
  quantity : ℚ
  status : PledgeStatus
  clientNote : Option String
  decisionReason : Option String := none
  decidedById : Option Id := none
  expiresAt : Timestamp
  deriving DecidableEq

structure Lien where
  id : Id
  tenantId : Id
  pledgeId : Id
  receiptId : Id
  clientId : Id
  financierOrgId : Id
  quantity : ℚ
  remainingQuantity : ℚ
  status : LienStatus
  releasedAt : Option Timestamp := none
  deriving DecidableEq

structure ReleaseRequest where
  id : Id
  tenantId : Id
  clientId : Id
  financierOrgId : Id
  requestedDate : Timestamp
  note : Option String
  status : ReleaseRequestStatus
  decisionReason : Option String := none
  decidedById : Option Id := none
  deriving DecidableEq

structure ReleaseRequestLine where
  id : Id
  releaseRequestId : Id
  lienId : Id
  receiptId : Id
  quantity : ℚ
  deriving DecidableEq

structure ForceRelease where
  id : Id
  tenantId : Id
  lienId : Id
  adminId : Id
  reason : String
  courtOrderDocUrl : String
  deriving DecidableEq

structure Withdrawal where
  id : Id
  reference : String
  tenantId : Id
  receiptId : Id
  clientId : Id
  quantity : ℚ
  reason : Option String
  plannedDate : Timestamp
  status : WithdrawalStatus
  storageFee : ℚ
  handlingFee : ℚ
  totalFee : ℚ
  approvedById : Option Id := none
  rejectionReason : Option String := none
  createdAt : Timestamp
  deriving DecidableEq

structure Loan where
  id : Id
  reference : String
  tenantId : Id
  receiptId : Id
  clientId : Id
  financierId : Id
  amount : ℚ
  status : LoanStatus
  notes : Option String
  deriving DecidableEq

structure Trade where
  id : Id
  reference : String
  tenantId : Id
  receiptId : Id
  sellerId : Id
  buyerId : Option Id := none
  quantity : ℚ
  status : TradeStatus
  deriving DecidableEq

instance : Keyed User Id := ⟨User.id⟩
instance : Keyed FinancierOrg Id := ⟨FinancierOrg.id⟩
instance : Keyed WarehouseLink Id := ⟨WarehouseLink.id⟩
instance : Keyed ManagerAssignment Id := ⟨ManagerAssignment.id⟩
instance : Keyed Financier Id := ⟨Financier.id⟩
instance : Keyed Warehouse Id := ⟨Warehouse.id⟩
instance : Keyed ClientProfile Id := ⟨ClientProfile.id⟩
instance : Keyed Pledge Id := ⟨Pledge.id⟩
instance : Keyed Lien Id := ⟨Lien.id⟩
instance : Keyed ReleaseRequest Id := ⟨ReleaseRequest.id⟩
instance : Keyed ReleaseRequestLine Id := ⟨ReleaseRequestLine.id⟩
instance : Keyed ForceRelease Id := ⟨ForceRelease.id⟩
instance : Keyed Withdrawal Id := ⟨Withdrawal.id⟩
instance : Keyed Loan Id := ⟨Loan.id⟩
instance : Keyed Trade Id := ⟨Trade.id⟩

@[simp] theorem key_financierOrg (r : FinancierOrg) : Keyed.key r = r.id := rfl
@[simp] theorem key_warehouseLink (r : WarehouseLink) : Keyed.key r = r.id := rfl
@[simp] theorem key_pledge (r : Pledge) : Keyed.key r = r.id := rfl
@[simp] theorem key_lien (r : Lien) : Keyed.key r = r.id := rfl
@[simp] theorem key_releaseRequest (r : ReleaseRequest) : Keyed.key r = r.id := rfl
@[simp] theorem key_releaseRequestLine (r : ReleaseRequestLine) : Keyed.key r = r.id := rfl
@[simp] theorem key_forceRelease (r : ForceRelease) : Keyed.key r = r.id := rfl
@[simp] theorem key_withdrawal (r : Withdrawal) : Keyed.key r = r.id := rfl
@[simp] theorem key_loan (r : Loan) : Keyed.key r = r.id := rfl
@[simp] theorem key_trade (r : Trade) : Keyed.key r = r.id := rfl

/-- The roles of an account that the requests below ask for. -/
inductive Role where
  | globalAdmin
  | tenantAdmin
  | warehouseManager
  | other (name : String)
  deriving DecidableEq

/-- Who is on the platform: accounts, organisations, warehouses and their links. Only
onboarding and offboarding write these tables. -/
structure Directory where
  users : Table User
  financierOrgs : Table FinancierOrg
  warehouseLinks : Table WarehouseLink
  managerAssignments : Table ManagerAssignment
  financiers : Table Financier
  warehouses : Table Warehouse := Table.empty
  clientProfiles : Table ClientProfile := Table.empty

structure Db where
  directory : Directory
  ledger : Ledger
  pledges : Table Pledge
  liens : Table Lien
  releaseRequests : Table ReleaseRequest
  releaseRequestLines : Table ReleaseRequestLine
  forceReleases : Table ForceRelease
  withdrawals : Table Withdrawal
  loans : Table Loan
  trades : Table Trade

/-- The empty store of a platform with the given directory. -/
def Db.initial (directory : Directory) : Db where
  directory := directory
  ledger := Ledger.empty
  pledges := Table.empty
  liens := Table.empty
  releaseRequests := Table.empty
  releaseRequestLines := Table.empty
  forceReleases := Table.empty
  withdrawals := Table.empty
  loans := Table.empty
  trades := Table.empty

/-- The request that takes a step, with the row it is about. -/
inductive Issuer where
  | createDeposit
  | approveReceipt (receiptId : Id)
  | rejectReceipt (receiptId : Id)
  | createPledge (pledgeId : Id)
  | cancelPledge (pledgeId : Id)
  | acceptPledge (pledgeId : Id)
  | rejectPledge (pledgeId : Id)
  | expirePledge (pledgeId : Id)
  | createReleaseRequest (requestId : Id)
  | cancelReleaseRequest (requestId : Id)
  | approveReleaseRequest (requestId : Id)
  | approveReleaseLine (requestId lineId lienId : Id)
  | rejectReleaseRequest (requestId : Id)
  | forceReleaseLien (lienId : Id)
  | createWithdrawal (withdrawalId : Id)
  | confirmPayment (withdrawalId : Id)
  | approveWithdrawal (withdrawalId : Id)
  | rejectWithdrawal (withdrawalId : Id)
  | completeWithdrawal (withdrawalId : Id)
  | editWithdrawal (withdrawalId : Id)
  | expirePendingPayment
  | createLoan (loanId : Id)
  | approveLoan (loanId : Id)
  | rejectLoan (loanId : Id)
  | repayLoan (loanId : Id)
  | editLoan (loanId : Id)
  | createTrade (tradeId : Id)
  | settleTrade (tradeId : Id)
  | cancelTrade (tradeId : Id)
  | onboardWarehouse (linkId : Id)
  | decideWarehouseLink (linkId : Id)
  | offboardWarehouse (linkId : Id)
  | changeFinancierOrg (orgId : Id)
  deriving DecidableEq

/-- What one step is: a read, a ledger operation or a write of rows. A read that looks up
whether a ledger operation was made before names the operation. -/
inductive Label where
  | read (lookup : Option LedgerOp := none)
  | ledger (by_ : Issuer) (op : LedgerOp)
  | write (by_ : Issuer)

/-- A request over the database. -/
abbrev Api (α : Type) := Attempt Label Db ApiError α

namespace Api

/-- A query on its own. -/
def query {α : Type} (f : Db → α) : Api α := Attempt.read .read f

/-- A write, or a `$transaction` of writes. -/
def write {α : Type} (by_ : Issuer) (f : Db → Except ApiError (α × Db)) : Api α :=
  Attempt.write (.write by_) f

/-- A transaction of the ledger on the store. -/
def within {α : Type} (tx : Tx α) (db : Db) : Except ApiError (α × Db) :=
  match tx db.ledger with
  | .ok (a, ledger) => .ok (a, { db with ledger })
  | .error e => .error e

theorem within_ok {α : Type} {tx : Tx α} {a : α} {db db' : Db} (h : within tx db = .ok (a, db')) :
    ∃ ledger, tx db.ledger = .ok (a, ledger) ∧ db' = { db with ledger } := by
  unfold within at h
  split at h
  · rename_i a' ledger htx
    cases h
    exact ⟨ledger, htx, rfl⟩
  · cases h

/-- A ledger operation. -/
def ledger {α : Type} (by_ : Issuer) (op : LedgerOp) (tx : Tx α) : Api α :=
  Attempt.write (.ledger by_ op) (within tx)

/-- `if (c) throw e` -/
def throwIf (c : Prop) [Decidable c] (e : ApiError) : Api Unit := Attempt.throwIf c e

/-- `if (!x) throw e` -/
def orThrow {α : Type} (o : Option α) (e : ApiError) : Api α := Attempt.orThrow o e

/-- Whether an authorisation is accepted. -/
def authorise (outcome : Except ApiError Unit) : Api Unit := Attempt.ofExcept outcome

section Ledger

variable (num : Numeric) (by_ : Issuer) (uuids : Uuids)

def hold (input : HoldInput) : Api HoldResult :=
  ledger by_ (.hold input) (Inventory.hold num uuids input)

def approveHold (ctx : ActorCtx) (heldReceiptId : Id) : Api Receipt :=
  ledger by_ (.approveHold ctx heldReceiptId) (Inventory.approveHold num uuids ctx heldReceiptId)

def release (ctx : ActorCtx) (heldReceiptId : Id) : Api Receipt :=
  ledger by_ (.release ctx heldReceiptId) (Inventory.release num uuids ctx heldReceiptId)

def consume (ctx : ActorCtx) (heldReceiptId : Id) : Api Receipt :=
  ledger by_ (.consume ctx heldReceiptId) (Inventory.consume num uuids ctx heldReceiptId)

def releasePartial (input : ReleasePartialInput) : Api ReleasePartialResult :=
  ledger by_ (.releasePartial input) (Inventory.releasePartial num uuids input)

def transitionPledgeToLien (ctx : ActorCtx) (heldReceiptId pledgeId : Id) : Api Receipt :=
  ledger by_ (.transitionPledgeToLien ctx heldReceiptId pledgeId)
    (Inventory.transitionPledgeToLien num uuids ctx heldReceiptId pledgeId)

end Ledger

/-- Look the key of an operation up; on a prior event read the receipt it is about. -/
def replayOr (op : LedgerOp) (missing : Api Receipt) : Api Receipt := do
  let prior ← Attempt.read (.read (some op)) fun db => db.ledger.events.find op.idempotencyKey
  match prior with
  | some e => do
      let receipt ← query (fun db => db.ledger.affected e)
      Attempt.ofExcept receipt
  | none => missing

/-- `runIdempotent` in its database calls: the lookup of the key, the transaction, and after a
unique violation the lookup once more. -/
def runIdempotent (by_ : Issuer) (op : LedgerOp) (work : Db → Except ApiError (Receipt × Db)) :
    Api Receipt :=
  replayOr op <| (Attempt.write (.ledger by_ op) work).recover fun e =>
    match e with
    | .uniqueViolation => replayOr op (Attempt.throw e)
    | _ => Attempt.throw e

section Alone

variable {by_ : Issuer} {op : LedgerOp} {db db' : Db} {r : Receipt}

/-- A lookup that finds the key returns what it rebuilds. -/
theorem replayOr_exec_prior {e : InventoryEvent} {missing : Api Receipt}
    (hprior : db.ledger.events.find op.idempotencyKey = some e) :
    (replayOr op missing).exec db = (db.ledger.affected e, db) := by
  unfold replayOr
  rw [Attempt.exec_bind_ok (Attempt.exec_read _ _ db), hprior]
  rfl

theorem replayOr_exec_free {missing : Api Receipt}
    (hfree : db.ledger.events.find op.idempotencyKey = none) :
    (replayOr op missing).exec db = missing.exec db := by
  unfold replayOr
  rw [Attempt.exec_bind_ok (Attempt.exec_read _ _ db), hfree]

/-- Under a new key, with nothing in between, a ledger call is its transaction. -/
theorem runIdempotent_exec_free {work : Db → Except ApiError (Receipt × Db)}
    (hfree : db.ledger.events.find op.idempotencyKey = none) :
    (runIdempotent by_ op work).exec db =
      (Attempt.write (Label.ledger by_ op) work : Api Receipt).exec db := by
  unfold runIdempotent
  rw [replayOr_exec_free hfree, Attempt.exec_recover, Attempt.exec_write]
  cases work db with
  | ok result => rfl
  | error e =>
      cases e with
      | uniqueViolation => exact replayOr_exec_free hfree
      | _ => rfl

/-- A ledger call in its database calls does in one go what the call does in one step. -/
theorem runIdempotent_exec (work : Tx Receipt) :
    (runIdempotent by_ op (within work)).exec db =
      (ledger by_ op
        (Inventory.runIdempotent op.idempotencyKey Ledger.affected work)).exec db := by
  unfold ledger
  rw [Attempt.exec_write]
  cases hprior : db.ledger.events.find op.idempotencyKey with
  | none =>
      rw [runIdempotent_exec_free hprior, Attempt.exec_write]
      simp only [within, Inventory.runIdempotent, hprior]
      cases work db.ledger with
      | ok result => rfl
      | error e => cases e <;> rfl
  | some e =>
      rw [runIdempotent, replayOr_exec_prior hprior]
      simp only [within, Inventory.runIdempotent, hprior, Tx.query]
      cases db.ledger.affected e <;> rfl

end Alone

/-- `held.id`: reading a property of `undefined` throws. -/
def heldOf (result : HoldResult) : Api Receipt := orThrow result.held .typeError

end Api

/-- `row.update`: fails on a missing row. -/
def updateRow {ρ κ : Type} [Keyed ρ κ] [DecidableEq κ] (t : Table ρ) (k : κ) (f : ρ → ρ)
    (hf : ∀ r, Keyed.key (f r) = Keyed.key r := by intro r; rfl) : Except ApiError (Table ρ) :=
  match t.find k with
  | some _ => .ok (t.modify k f hf)
  | none => .error .recordNotFound

/-- `row.create`: fails on a taken key, or on a violated unique column. -/
def createRow {ρ κ : Type} [Keyed ρ κ] [DecidableEq κ] (t : Table ρ) (r : ρ)
    (taken : ρ → Prop := fun _ => False) [DecidablePred taken] : Except ApiError (Table ρ) :=
  if ∃ x ∈ t.rows, taken x then .error .uniqueViolation
  else
    match t.insert r with
    | some t' => .ok t'
    | none => .error .uniqueViolation

section Rows

variable {ρ κ : Type} [Keyed ρ κ] [DecidableEq κ] {t t' : Table ρ}

theorem updateRow_ok {k : κ} {f : ρ → ρ} {hf : ∀ r, Keyed.key (f r) = Keyed.key r} :
    updateRow t k f hf = .ok t' ↔ ∃ r, t.find k = some r ∧ t' = t.modify k f hf := by
  unfold updateRow
  cases t.find k with
  | none => simp
  | some r => simp [eq_comm]

/-- The rows after an update: the rewritten row and the others. -/
theorem mem_updateRow {k : κ} {f : ρ → ρ} {hf : ∀ r, Keyed.key (f r) = Keyed.key r}
    (h : updateRow t k f hf = .ok t') {r' : ρ} (hr' : r' ∈ t') :
    (∃ r, t.find k = some r ∧ r' = f r) ∨ (r' ∈ t ∧ Keyed.key r' ≠ k) := by
  obtain ⟨-, -, rfl⟩ := updateRow_ok.mp h
  exact Table.mem_modify.mp hr'

theorem createRow_ok {r : ρ} {taken : ρ → Prop} [DecidablePred taken] :
    createRow t r taken = .ok t' ↔ (∀ x ∈ t, ¬ taken x) ∧ t.insert r = some t' := by
  unfold createRow
  split
  · rename_i hexists
    obtain ⟨x, hx, htaken⟩ := hexists
    simp only [reduceCtorEq, false_iff, not_and]
    exact fun hfree => absurd htaken (hfree x hx)
  · rename_i hfree
    have hnone : ∀ x ∈ t, ¬ taken x := fun x hx htaken => hfree ⟨x, hx, htaken⟩
    cases t.insert r with
    | none => simp
    | some t₁ =>
        simp only [Except.ok.injEq, Option.some_inj, iff_and_self]
        exact fun _ => hnone

/-- An update is refused when there is no row. -/
theorem updateRow_refused {k : κ} {f : ρ → ρ} {hf : ∀ r, Keyed.key (f r) = Keyed.key r}
    {e : ApiError} (h : updateRow t k f hf = .error e) : t.find k = none := by
  unfold updateRow at h
  cases hfind : t.find k with
  | none => rfl
  | some r =>
      rw [hfind] at h
      cases h

/-- A row is refused when its key or one of its unique columns is taken. -/
theorem createRow_refused {r : ρ} {taken : ρ → Prop} [DecidablePred taken] {e : ApiError}
    (h : createRow t r taken = .error e) :
    t.find (Keyed.key r) ≠ none ∨ ∃ x ∈ t, taken x := by
  by_cases hfree : ∃ x ∈ t, taken x
  · exact .inr hfree
  · left
    intro hkey
    obtain ⟨t', hinsert⟩ := Table.insert_of_find_none hkey
    have hcreated : createRow t r taken = .ok t' :=
      createRow_ok.mpr ⟨fun x hx htaken => hfree ⟨x, hx, htaken⟩, hinsert⟩
    rw [hcreated] at h
    cases h

theorem map_ok {ε α β : Type} {x : Except ε α} {f : α → β} {b : β} :
    x.map f = .ok b ↔ ∃ a, x = .ok a ∧ f a = b := by
  cases x <;> simp [Except.map]

theorem map_error {ε α β : Type} {x : Except ε α} {f : α → β} {e : ε} :
    x.map f = .error e ↔ x = .error e := by
  cases x <;> simp [Except.map]

theorem bind_error {ε α β : Type} {x : Except ε α} {f : α → Except ε β} {e : ε} :
    (x >>= f) = .error e ↔ x = .error e ∨ ∃ a, x = .ok a ∧ f a = .error e := by
  cases x <;> simp [bind, Except.bind]

theorem bind_ok {ε α β : Type} {x : Except ε α} {f : α → Except ε β} {b : β} :
    (x >>= f) = .ok b ↔ ∃ a, x = .ok a ∧ f a = .ok b := by
  cases x <;> simp [bind, Except.bind]

end Rows

/-- The value to write for a field of an edit: one that is given and differs. -/
def edited {α : Type} [DecidableEq α] (given : Option α) (present : α) : Option α :=
  given.filter fun value => value ≠ present

/-- The caller's organisation, unless it is suspended. -/
def requireFinancierOrg (callerUserId : Id) : Api FinancierOrg := do
  let org ← Api.query fun db => do
    let user ← db.directory.users.find callerUserId
    let orgId ← user.financierOrgId
    db.directory.financierOrgs.find orgId
  let org ← Api.orThrow org
    (.forbidden "This account is not associated with a FinancierOrg")
  Api.throwIf (org.status = .suspended) (.forbidden "FINANCIER_ORG_SUSPENDED")
  pure org

/-- A tenant admin, the owner of a row, or a warehouse manager assigned to the
warehouse of the row's receipt. -/
def requireParty (tenantId actorUserId : Id) (actorRoles : List Role) (clientId receiptId : Id)
    (e : ApiError) : Api Unit :=
  if .tenantAdmin ∈ actorRoles ∨ .globalAdmin ∈ actorRoles ∨ clientId = actorUserId then pure ()
  else if .warehouseManager ∈ actorRoles then do
    let heldReceipt ← Api.query fun db => db.ledger.receipts.find receiptId
    let heldReceipt ← Api.orThrow heldReceipt e
    let assignment ← Api.query fun db => db.directory.managerAssignments.rows.find? fun a =>
      a.tenantId = tenantId ∧ a.managerId = actorUserId ∧
        a.warehouseId = heldReceipt.warehouseId ∧ a.unassignedAt = none
    Api.throwIf (assignment = none) e
  else Attempt.throw e

end SecureStore.Services
