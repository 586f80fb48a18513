/-
# Acting for a client

A client asks for a withdrawal, a loan or a trade on a receipt, or a warehouse
manager does so for the client. The manager's request checks that the client and
the receipt are in scope, each on its own, and no path compares the receipt's
client with the client it acts for. Each path succeeds exactly when its guards
hold, so that it acts on the client's own receipt exactly when the guards happen
to leave no other.
-/

import SecureStore.Access.Guards
import SecureStore.Foundation.Alone
import SecureStore.Inventory.Progress
import SecureStore.Services.System

namespace SecureStore.Access

open SecureStore.Foundation SecureStore.Inventory SecureStore.Services

/-- `ADMIN_ROLES` -/
def adminRoles : List String := ["TENANT_ADMIN", "GLOBAL_ADMIN"]

/-- Who makes a request, and the role of the X-Active-Role header. -/
structure Caller where
  user : RequestUser
  activeRole : Option String
  deriving DecidableEq

/-- The warehouses of a manager's assignments. An undefined manager id filters nothing. -/
def assignedWarehouses (db : Db) (managerId : Option Id) (tenantId : Id) : List Id :=
  (db.directory.managerAssignments.rows.filter fun a =>
    a.tenantId = tenantId ∧ (managerId = none ∨ managerId = some a.managerId) ∧
      a.unassignedAt = none).map ManagerAssignment.warehouseId

/-- The warehouses a caller may see; `none` for all of them. -/
def Caller.scope (caller : Caller) (tenantId : Id) (db : Db) : Option (List Id) :=
  if (effectiveRoles caller.user.roles caller.activeRole).any (· ∈ adminRoles) then none
  else some (assignedWarehouses db caller.user.id tenantId)

/-- `whScope.warehouseIds`, which a request asks for once. -/
def warehouseIds (caller : Caller) (tenantId : Id) : Api (Option (List Id)) :=
  Api.query (caller.scope tenantId)

/-- A client of the tenant who, under a scope, has a receipt in one of its warehouses. -/
def ClientInScope (db : Db) (scope : Option (List Id)) (tenantId clientUserId : Id) : Prop :=
  ∃ p ∈ db.directory.clientProfiles.rows, p.tenantId = tenantId ∧ p.userId = clientUserId ∧
    ∀ ids ∈ scope, ∃ r ∈ db.ledger.receipts.rows, r.clientId = clientUserId ∧ r.warehouseId ∈ ids

instance (db : Db) (scope : Option (List Id)) (tenantId clientUserId : Id) :
    Decidable (ClientInScope db scope tenantId clientUserId) := by
  unfold ClientInScope
  infer_instance

/-- A receipt of the tenant that, under a scope, is in one of its warehouses. -/
def ReceiptInScope (db : Db) (scope : Option (List Id)) (tenantId receiptId : Id) : Prop :=
  ∃ r ∈ db.ledger.receipts.rows, r.id = receiptId ∧ r.tenantId = tenantId ∧
    ∀ ids ∈ scope, r.warehouseId ∈ ids

instance (db : Db) (scope : Option (List Id)) (tenantId receiptId : Id) :
    Decidable (ReceiptInScope db scope tenantId receiptId) := by
  unfold ReceiptInScope
  infer_instance

def assertClientInScope (scope : Option (List Id)) (tenantId clientUserId : Id) : Api Unit := do
  let found ← Api.query fun db => decide (ClientInScope db scope tenantId clientUserId)
  Api.throwIf (found = false) (.forbidden "Client not in your warehouse scope or not found")

def assertReceiptInScope (scope : Option (List Id)) (tenantId receiptId : Id) : Api Unit := do
  let found ← Api.query fun db => decide (ReceiptInScope db scope tenantId receiptId)
  Api.throwIf (found = false) (.forbidden "Receipt not in your warehouse scope or not found")

/-- The scope checks in front of every request for a client. -/
def onBehalf (caller : Caller) (tenantId clientUserId receiptId : Id) (create : Api Unit) :
    Api Unit := do
  let scope ← warehouseIds caller tenantId
  assertClientInScope scope tenantId clientUserId
  assertReceiptInScope scope tenantId receiptId
  create

section Requests

variable (num : Numeric) (caller : Caller) (managerUserId : Id)

def createWithdrawalOnBehalf (dto : CreateWithdrawal) : Api Unit :=
  onBehalf caller dto.tenantId dto.clientId dto.receiptId (createWithdrawalRequest dto)

def createLoanOnBehalf (dto : CreateLoan) : Api Unit :=
  onBehalf caller dto.tenantId dto.clientId dto.receiptId
    (createLoan num { dto with actorUserId := some managerUserId })

def createTradeOnBehalf (dto : CreateTrade) : Api Unit :=
  onBehalf caller dto.tenantId dto.sellerId dto.receiptId
    (createTrade num { dto with actorUserId := some managerUserId })

end Requests

/-- The ways to act on a receipt. -/
inductive Creation where
  | withdrawal (dto : CreateWithdrawal)
  | loan (dto : CreateLoan)
  | trade (dto : CreateTrade)

/-- A creation, by its client or on behalf of its client. -/
inductive Entry where
  | direct (creation : Creation)
  | onBehalf (caller : Caller) (managerUserId : Id) (creation : Creation)

namespace Creation

def tenantId : Creation → Id
  | withdrawal dto => dto.tenantId
  | loan dto => dto.tenantId
  | trade dto => dto.tenantId

/-- The client that is acted for. -/
def clientId : Creation → Id
  | withdrawal dto => dto.clientId
  | loan dto => dto.clientId
  | trade dto => dto.sellerId

def receiptId : Creation → Id
  | withdrawal dto => dto.receiptId
  | loan dto => dto.receiptId
  | trade dto => dto.receiptId

/-- The ids that the request draws are new. -/
def Fresh (db : Db) : Creation → Prop
  | withdrawal dto => db.withdrawals.find dto.withdrawalId = none
  | loan dto => db.loans.find dto.loanId = none ∧ dto.uuids.Fresh db.ledger ∧
      db.ledger.events.find (loanKey dto.loanId "hold") = none
  | trade dto => db.trades.find dto.tradeId = none ∧ dto.uuids.Fresh db.ledger ∧
      db.ledger.events.find (tradeKey dto.tradeId "hold") = none

/-- What the request asks of the receipt. -/
def Accepts (db : Db) (r : Receipt) : Creation → Prop
  | withdrawal dto => 0 < dto.quantity ∧
      (∀ w ∈ db.withdrawals.rows, ¬ (w.clientId = dto.clientId ∧
        w.Reserves dto.tenantId r.id (pendingPaymentCutoff dto.now))) ∧
      dto.quantity ≤ availableForWithdrawal db dto.tenantId r.id r.quantity
        (pendingPaymentCutoff dto.now)
  | loan _ => 0 < r.quantity
  | trade _ => 0 < r.quantity

/-- What the request asks of its other arguments. -/
def Valid (db : Db) : Creation → Prop
  | withdrawal dto => dto.auth = .ok () ∧ (∃ fee, dto.storageFee = .ok fee) ∧
      ∀ w ∈ db.withdrawals, w.reference ≠ dto.reference
  | loan dto => dto.auth = .ok () ∧ 0 < dto.amount ∧
      (∃ f, db.directory.financiers.find dto.financierId = some f ∧
        f.tenantId = dto.tenantId) ∧
      ∀ l ∈ db.loans, l.reference ≠ dto.reference
  | trade dto => dto.auth = .ok () ∧ ∀ t ∈ db.trades, t.reference ≠ dto.reference

/-- The guards of a request: its arguments are valid, and its receipt is an approved
ACTIVE leaf of the tenant that it accepts. -/
def Admitted (db : Db) (c : Creation) : Prop :=
  c.Valid db ∧ ∃ r, Loaded db.ledger c.receiptId c.tenantId r ∧ r.status = .active ∧
    r.approvalStatus = .approved ∧ r.isParent = false ∧ c.Accepts db r

/-- The source receipt belongs to the client that is acted for. -/
def Owned (db : Db) (c : Creation) : Prop :=
  ∀ r, db.ledger.receipts.find c.receiptId = some r → r.clientId = c.clientId

end Creation

namespace Entry

def creation : Entry → Creation
  | direct c => c
  | onBehalf _ _ c => c

/-- The process an entry runs. -/
def run (num : Numeric) : Entry → Api Unit
  | direct (.withdrawal dto) => createWithdrawalRequest dto
  | direct (.loan dto) => createLoan num dto
  | direct (.trade dto) => createTrade num dto
  | onBehalf caller _ (.withdrawal dto) => createWithdrawalOnBehalf caller dto
  | onBehalf caller managerUserId (.loan dto) => createLoanOnBehalf num caller managerUserId dto
  | onBehalf caller managerUserId (.trade dto) => createTradeOnBehalf num caller managerUserId dto

/-- The guards of an entry. -/
def Admitted (db : Db) : Entry → Prop
  | direct c => c.Admitted db
  | onBehalf caller _ c =>
      ClientInScope db (caller.scope c.tenantId db) c.tenantId c.clientId ∧
        ReceiptInScope db (caller.scope c.tenantId db) c.tenantId c.receiptId ∧ c.Admitted db

end Entry

section Success

variable {num : Numeric} {db : Db}

/-- A ledger call that is made has to succeed. -/
theorem succeeds_ledger {α β : Type} {by_ : Issuer} {op : LedgerOp} {tx : Tx α}
    {g : α → Api β} :
    (Api.ledger by_ op tx >>= g).Succeeds db ↔
      ∃ a ledger, tx db.ledger = .ok (a, ledger) ∧ (g a).Succeeds { db with ledger } := by
  unfold Api.ledger
  rw [succeeds_write]
  unfold Api.within
  cases tx db.ledger with
  | error e => simp
  | ok result =>
      obtain ⟨a, ledger⟩ := result
      simp

/-- A row under a new key is created exactly when its unique column is free. -/
theorem succeeds_createRow {ρ κ : Type} [Keyed ρ κ] [DecidableEq κ] {t : Table ρ} {r : ρ}
    {taken : ρ → Prop} [DecidablePred taken] (hkey : t.find (Keyed.key r) = none)
    {wrap : Table ρ → Unit × Db} :
    (∃ u db', (createRow t r taken).map wrap = .ok (u, db')) ↔ ∀ x ∈ t, ¬ taken x := by
  constructor
  · rintro ⟨u, db', h⟩
    obtain ⟨t', hcreated, -⟩ := map_ok.mp h
    exact (createRow_ok.mp hcreated).1
  · intro hfree
    obtain ⟨t', hinsert⟩ := Table.insert_of_find_none hkey
    exact ⟨_, _, map_ok.mpr ⟨t', createRow_ok.mpr ⟨hfree, hinsert⟩, rfl⟩⟩

theorem loaded_iff {s : Ledger} {id tenantId : Id} {r : Receipt} :
    (s.receipts.find id).filter (fun r => r.tenantId = tenantId) = some r ↔
      Loaded s id tenantId r := by
  simp [Option.filter_eq_some_iff, Loaded]

/-- The guards of a withdrawal request decide. -/
theorem createWithdrawalRequest_succeeds {dto : CreateWithdrawal}
    (hfresh : (Creation.withdrawal dto).Fresh db) :
    (createWithdrawalRequest dto).Succeeds db ↔ (Creation.withdrawal dto).Admitted db := by
  have hnew : db.withdrawals.find dto.withdrawalId = none := hfresh
  simp only [createWithdrawalRequest, Api.throwIf, Api.authorise, Api.query, Api.orThrow,
    Api.write, succeeds_throwIf, succeeds_ofExcept, succeeds_read, succeeds_orThrow,
    succeeds_write_last, hnew, loaded_iff, not_not, not_lt, not_le, List.find?_eq_none,
    decide_eq_true_eq, Bool.not_eq_true]
  constructor
  · rintro ⟨hpositive, _, hauth, r, hloaded, hactive, happroved, hleaf, hnone, havailable, fee,
      hfee, hcreated⟩
    have hreference := (succeeds_createRow hnew).mp hcreated
    exact ⟨⟨hauth, ⟨fee, hfee⟩, hreference⟩, r, hloaded, hactive, happroved, hleaf, hpositive,
      hnone, havailable⟩
  · rintro ⟨⟨hauth, ⟨fee, hfee⟩, hreference⟩, r, hloaded, hactive, happroved, hleaf, hpositive,
      hnone, havailable⟩
    exact ⟨hpositive, (), hauth, r, hloaded, hactive, happroved, hleaf, hnone, havailable, fee,
      hfee, (succeeds_createRow hnew).mpr hreference⟩

/-- Volume is held, and a row is created for what was held. -/
theorem hold_then_succeeds {input : HoldInput} {uuids : Uuids} {by_ : Issuer}
    {g : Receipt → Api Unit} {free : Prop} (hfresh : uuids.Fresh db.ledger)
    (hkey : db.ledger.events.find input.idempotencyKey = none)
    (hcreate : ∀ result held ledger, hold num uuids input db.ledger = .ok (result, ledger) →
      result.held = some held → ((g held).Succeeds { db with ledger } ↔ free)) :
    (Api.hold num by_ uuids input >>= fun result => Api.heldOf result >>= g).Succeeds db ↔
      (∃ src, Holdable db.ledger input src) ∧ free := by
  unfold Api.hold Api.heldOf Api.orThrow
  simp only [succeeds_ledger, succeeds_orThrow]
  constructor
  · rintro ⟨result, ledger, hhold, held, hheld, hcreated⟩
    exact ⟨(hold_succeeds_iff hfresh hkey).mp ⟨result, ledger, hhold, held, hheld⟩,
      (hcreate result held ledger hhold hheld).mp hcreated⟩
  · rintro ⟨hholdable, hfree⟩
    obtain ⟨result, ledger, hhold, held, hheld⟩ := (hold_succeeds_iff hfresh hkey).mpr hholdable
    exact ⟨result, ledger, hhold, held, hheld, (hcreate result held ledger hhold hheld).mpr hfree⟩

/-- A whole receipt is held, and a row is created for what was held. -/
theorem holdWhole_succeeds {input : HoldInput} {uuids : Uuids} {by_ : Issuer} {r : Receipt}
    {g : Receipt → Api Unit} {free : Prop} (hloaded : Loaded db.ledger input.sourceReceiptId
      input.tenantId r) (hquantity : input.quantity = r.quantity) (hfresh : uuids.Fresh db.ledger)
    (hkey : db.ledger.events.find input.idempotencyKey = none)
    (hcreate : ∀ held ledger, (g held).Succeeds { db with ledger } ↔ free) :
    (Api.hold num by_ uuids input >>= fun result => Api.heldOf result >>= g).Succeeds db ↔
      (r.status = .active ∧ r.approvalStatus = .approved ∧ r.isParent = false ∧
        0 < r.quantity) ∧ free := by
  rw [hold_then_succeeds hfresh hkey fun _ held ledger _ _ => hcreate held ledger]
  apply and_congr_left'
  constructor
  · rintro ⟨src, hsrc⟩
    obtain rfl : src = r := Option.some_inj.mp (hsrc.loaded.1.symm.trans hloaded.1)
    exact ⟨hsrc.active, hsrc.approved, hsrc.leaf, hquantity ▸ hsrc.positive⟩
  · rintro ⟨hactive, happroved, hleaf, hpositive⟩
    exact ⟨r, hloaded, hactive, happroved, hleaf, hquantity ▸ hpositive, hquantity.le⟩

/-- A row that is not there yet is created, unless its reference is taken. -/
theorem createOnce_succeeds {ρ κ : Type} [Keyed ρ κ] [DecidableEq κ] {by_ : Issuer} {key : κ}
    {f : Db → Except ApiError (Unit × Db)} {t : Table ρ} {r : ρ} {taken : ρ → Prop}
    [DecidablePred taken] {wrap : Table ρ → Unit × Db} (hnew : t.find key = none)
    (hf : f db = (createRow t r taken).map wrap) (hkey : Keyed.key r = key) :
    (Api.write by_ f).Succeeds db ↔ ∀ x ∈ t, ¬ taken x := by
  rw [Api.write, succeeds_write_last, hf]
  exact succeeds_createRow (hkey ▸ hnew)

theorem loaded_self {s : Ledger} {id tenantId : Id} {r : Receipt} (h : Loaded s id tenantId r) :
    Loaded s r.id tenantId r :=
  ⟨Table.find_of_mem (Table.mem_of_find h.1), h.2⟩

/-- The guards of a loan decide. -/
theorem createLoan_succeeds {dto : CreateLoan} (hfresh : (Creation.loan dto).Fresh db) :
    (createLoan num dto).Succeeds db ↔ (Creation.loan dto).Admitted db := by
  obtain ⟨hnew, huuids, hkey⟩ := hfresh
  simp only [createLoan, findFinancier, Api.throwIf, Api.authorise, Api.query, Api.orThrow,
    succeeds_throwIf, succeeds_ofExcept, succeeds_read, succeeds_orThrow, loaded_iff, not_le]
  constructor
  · rintro ⟨_, hauth, r, hloaded, f, hfinancier, hamount, hrest⟩
    obtain ⟨⟨hactive, happroved, hleaf, hpositive⟩, hreference⟩ : (r.status = .active ∧
        r.approvalStatus = .approved ∧ r.isParent = false ∧ 0 < r.quantity) ∧
        ∀ l ∈ db.loans, l.reference ≠ dto.reference := by
      refine (holdWhole_succeeds (loaded_self hloaded) rfl huuids hkey fun _ _ => ?_).mp hrest
      exact createOnce_succeeds hnew (by simp only [hnew]; rfl) (by rfl)
    exact ⟨⟨hauth, hamount, ⟨f, by simpa [Option.filter_eq_some_iff] using hfinancier⟩,
      hreference⟩, r, hloaded, hactive, happroved, hleaf, hpositive⟩
  · rintro ⟨⟨hauth, hamount, ⟨f, hfinancier⟩, hreference⟩, r, hloaded, hactive, happroved, hleaf,
      hpositive⟩
    refine ⟨(), hauth, r, hloaded, f, by simpa [Option.filter_eq_some_iff] using hfinancier,
      hamount, ?_⟩
    refine (holdWhole_succeeds (loaded_self hloaded) rfl huuids hkey fun _ _ => ?_).mpr
      ⟨⟨hactive, happroved, hleaf, hpositive⟩, hreference⟩
    exact createOnce_succeeds hnew (by simp only [hnew]; rfl) (by rfl)

/-- The guards of a trade decide. -/
theorem createTrade_succeeds {dto : CreateTrade} (hfresh : (Creation.trade dto).Fresh db) :
    (createTrade num dto).Succeeds db ↔ (Creation.trade dto).Admitted db := by
  obtain ⟨hnew, huuids, hkey⟩ := hfresh
  simp only [createTrade, Api.authorise, Api.query, Api.orThrow, succeeds_ofExcept, succeeds_read,
    succeeds_orThrow, loaded_iff]
  constructor
  · rintro ⟨_, hauth, r, hloaded, hrest⟩
    obtain ⟨⟨hactive, happroved, hleaf, hpositive⟩, hreference⟩ : (r.status = .active ∧
        r.approvalStatus = .approved ∧ r.isParent = false ∧ 0 < r.quantity) ∧
        ∀ t ∈ db.trades, t.reference ≠ dto.reference := by
      refine (holdWhole_succeeds (loaded_self hloaded) rfl huuids hkey fun _ _ => ?_).mp hrest
      exact createOnce_succeeds hnew (by simp only [hnew]; rfl) (by rfl)
    exact ⟨⟨hauth, hreference⟩, r, hloaded, hactive, happroved, hleaf, hpositive⟩
  · rintro ⟨⟨hauth, hreference⟩, r, hloaded, hactive, happroved, hleaf, hpositive⟩
    refine ⟨(), hauth, r, hloaded, ?_⟩
    refine (holdWhole_succeeds (loaded_self hloaded) rfl huuids hkey fun _ _ => ?_).mpr
      ⟨⟨hactive, happroved, hleaf, hpositive⟩, hreference⟩
    exact createOnce_succeeds hnew (by simp only [hnew]; rfl) (by rfl)

/-- The scope checks stand in front of the request. -/
theorem onBehalf_succeeds {caller : Caller} {tenantId clientUserId receiptId : Id}
    {create : Api Unit} :
    (onBehalf caller tenantId clientUserId receiptId create).Succeeds db ↔
      ClientInScope db (caller.scope tenantId db) tenantId clientUserId ∧
        ReceiptInScope db (caller.scope tenantId db) tenantId receiptId ∧
          create.Succeeds db := by
  simp only [onBehalf, warehouseIds, assertClientInScope, assertReceiptInScope, Api.query,
    Api.throwIf, Attempt.bind_assoc, succeeds_read, succeeds_throwIf, decide_eq_false_iff_not,
    not_not]

/-- An entry succeeds exactly when its guards hold. -/
theorem entry_succeeds {entry : Entry} (hfresh : entry.creation.Fresh db) :
    (entry.run num).Succeeds db ↔ entry.Admitted db := by
  cases entry with
  | direct c =>
      cases c with
      | withdrawal dto => exact createWithdrawalRequest_succeeds hfresh
      | loan dto => exact createLoan_succeeds hfresh
      | trade dto => exact createTrade_succeeds hfresh
  | onBehalf caller managerUserId c =>
      have hscoped : ∀ {create : Api Unit}, (create.Succeeds db ↔ c.Admitted db) →
          ((SecureStore.Access.onBehalf caller c.tenantId c.clientId c.receiptId create).Succeeds
            db ↔ (Entry.onBehalf caller managerUserId c).Admitted db) := by
        intro create hcreate
        rw [onBehalf_succeeds, hcreate]
        exact Iff.rfl
      cases c with
      | withdrawal dto => exact hscoped (createWithdrawalRequest_succeeds hfresh)
      | loan dto =>
          have hloan : (createLoan num { dto with actorUserId := some managerUserId }).Succeeds db ↔
              (Creation.loan dto).Admitted db := createLoan_succeeds hfresh
          exact hscoped hloan
      | trade dto =>
          have htrade : (createTrade num { dto with actorUserId := some managerUserId }).Succeeds
              db ↔ (Creation.trade dto).Admitted db := createTrade_succeeds hfresh
          exact hscoped htrade

/-- A call acts on its client's own receipt, if it succeeds, exactly when the receipt it
names is the client's or its guards refuse it. -/
theorem creations_owned (num : Numeric) (db : Db) (entry : Entry)
    (hfresh : entry.creation.Fresh db) :
    ((entry.run num).Succeeds db → entry.creation.Owned db) ↔
      (entry.creation.Owned db ∨ ¬ entry.Admitted db) := by
  rw [entry_succeeds hfresh]
  constructor
  · intro h
    by_cases hadmitted : entry.Admitted db
    · exact .inl (h hadmitted)
    · exact .inr hadmitted
  · rintro (howned | hrefused) hadmitted
    · exact howned
    · exact absurd hadmitted hrefused

end Success

/-- Client 11 asks for four units of receipt 102, which is client 10's. -/
def foreignWithdrawal : CreateWithdrawal :=
  { withdrawalId := 9, reference := "W-1-1", now := 0, auth := .ok (), storageFee := .ok 0
    tenantId := 1, clientId := 11, receiptId := 102, quantity := 4, reason := none
    plannedDate := 0 }

/-- The request for another client's receipt succeeds. -/
theorem foreign_withdrawal_succeeds :
    ¬ ∀ (num : Numeric) (directory : Directory) (requests : List Request) (entry : Entry),
      entry.creation.Fresh (runRequests num requests (Db.initial directory)) →
        (entry.run num).Succeeds (runRequests num requests (Db.initial directory)) →
          entry.creation.Owned (runRequests num requests (Db.initial directory)) := by
  intro h
  let db := runRequests .postgres sampleStock (Db.initial sampleDirectory)
  have hfresh : db.withdrawals.find foreignWithdrawal.withdrawalId = none := by decide +kernel
  have hsucceeds : ((createWithdrawalRequest foreignWithdrawal).exec db).1 = .ok () := by
    decide +kernel
  have hforeign : (db.ledger.receipts.find 102).map Receipt.clientId = some 10 := by
    decide +kernel
  obtain ⟨r, hfind, hclient⟩ := Option.map_eq_some_iff.mp hforeign
  have howned := h .postgres sampleDirectory sampleStock (.direct (.withdrawal foreignWithdrawal))
    hfresh ⟨(), _, Prod.ext hsucceeds rfl⟩ r hfind
  rw [hclient] at howned
  exact absurd howned (by decide)

/-- The admin lists receipt 102 for client 10. -/
def sampleListing : Entry :=
  .onBehalf ⟨⟨some 12, none, some ["TENANT_ADMIN"], some 1⟩, none⟩ 12
    (.trade
      { uuids := sampleUuids 120, tradeId := 9, reference := "T-1-1", auth := .ok (), tenantId := 1
        receiptId := 102, sellerId := 10, actorUserId := none })

/-- The listing acts on the client's own receipt. -/
theorem creations_owned_sample :
    let db := runRequests .postgres sampleStock (Db.initial sampleDirectory)
    ((sampleListing.run .postgres).Succeeds db → sampleListing.creation.Owned db) ↔
      (sampleListing.creation.Owned db ∨ ¬ sampleListing.Admitted db) :=
  creations_owned .postgres (runRequests .postgres sampleStock (Db.initial sampleDirectory))
    sampleListing ⟨by decide +kernel, by decide +kernel, by decide +kernel⟩

end SecureStore.Access
