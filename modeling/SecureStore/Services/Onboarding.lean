/-
# Onboarding and offboarding

A financier asks to be linked to a warehouse, a tenant admin approves or rejects, and
the financier may leave the warehouse again; a global admin suspends, reactivates or
offboards the whole organisation. Leaving is refused while a lien is live.
-/

import SecureStore.Services.ReleaseRequests

namespace SecureStore.Services

open SecureStore.Foundation SecureStore.Inventory

/-- The caller's organisation and tenant, unless the organisation is suspended. -/
def requireFinancierOrgOf (callerUserId : Id) : Api (FinancierOrg × Id) := do
  let found ← Api.query fun db => do
    let user ← db.directory.users.find callerUserId
    let orgId ← user.financierOrgId
    let org ← db.directory.financierOrgs.find orgId
    pure (org, user.tenantId)
  let (org, tenantId) ← Api.orThrow found
    (.forbidden "This account is not associated with a FinancierOrg")
  Api.throwIf (org.status = .suspended) (.forbidden "FINANCIER_ORG_SUSPENDED")
  pure (org, tenantId)

/-- `status`, as messages print it. -/
def WarehouseLinkStatus.text : WarehouseLinkStatus → String
  | pending => "PENDING"
  | active => "ACTIVE"
  | offboarded => "OFFBOARDED"

/-- A write of `warehouse_links` -/
def writeLinks (by_ : Issuer)
    (f : Table WarehouseLink → Except ApiError (Table WarehouseLink)) : Api Unit :=
  Api.write by_ fun db => (f db.directory.warehouseLinks).map fun warehouseLinks =>
    ((), { db with directory := { db.directory with warehouseLinks } })

/-- `financierOrg.update` -/
def setOrgStatus (id : Id) (status : FinancierOrgStatus) : Api Unit :=
  Api.write (.changeFinancierOrg id) fun db =>
    (updateRow db.directory.financierOrgs id fun o => { o with status }).map
      fun financierOrgs => ((), { db with directory := { db.directory with financierOrgs } })

/-- Ask for a link; it waits for the tenant admin. -/
def onboardWarehouse (linkId callerUserId warehouseId : Id) : Api Unit := do
  let (org, tenantId) ← requireFinancierOrgOf callerUserId
  let warehouse ← Api.query fun db => (db.directory.warehouses.find warehouseId).filter fun w =>
    w.tenantId = tenantId ∧ w.active = true
  let _ ← Api.orThrow warehouse (.notFound "Warehouse not found (or not active) in this tenant")
  let clash ← Api.query fun db => db.directory.warehouseLinks.rows.find? fun l =>
    l.tenantId = tenantId ∧ l.financierOrgId = org.id ∧ l.warehouseId = warehouseId ∧
      (l.status = .pending ∨ l.status = .active)
  match clash with
  | some clash =>
      Attempt.throw (.conflict (if clash.status = .pending then "WAREHOUSE_LINK_ALREADY_PENDING"
        else "WAREHOUSE_LINK_ALREADY_ACTIVE"))
  | none =>
      writeLinks (.onboardWarehouse linkId) fun links => createRow links
        { id := linkId
          tenantId := tenantId
          financierOrgId := org.id
          warehouseId := warehouseId
          status := .pending }

/-- A tenant admin's decision on a link that waits for it. -/
def decideWarehouseLink (verb : String) (status : WarehouseLinkStatus) (tenantId linkId : Id) :
    Api Unit := do
  let link ← Api.query fun db =>
    (db.directory.warehouseLinks.find linkId).filter fun l => l.tenantId = tenantId
  let link ← Api.orThrow link (.notFound "Onboarding request not found")
  Api.throwIf (link.status ≠ .pending)
    (.badRequest ("Cannot " ++ verb ++ " a link in status " ++ link.status.text))
  writeLinks (.decideWarehouseLink linkId) fun links =>
    updateRow links linkId fun l => { l with status }

def approveWarehouseLink (tenantId linkId : Id) : Api Unit :=
  decideWarehouseLink "approve" .active tenantId linkId

/-- Rejection folds into OFFBOARDED. -/
def rejectWarehouseLink (tenantId linkId : Id) : Api Unit :=
  decideWarehouseLink "reject" .offboarded tenantId linkId

/-- The live liens of a financier on receipts in a warehouse. -/
def liveLiensIn (db : Db) (tenantId financierOrgId warehouseId : Id) : List Lien :=
  db.liens.rows.filter fun l => l.tenantId = tenantId ∧ l.financierOrgId = financierOrgId ∧
    l.status.Live ∧ (db.ledger.receipts.find l.receiptId).map Receipt.warehouseId =
      some warehouseId

/-- The financier leaves a warehouse. -/
def offboardWarehouse (callerUserId linkId : Id) : Api Unit := do
  let (org, tenantId) ← requireFinancierOrgOf callerUserId
  let link ← Api.query fun db => (db.directory.warehouseLinks.find linkId).filter fun l =>
    l.financierOrgId = org.id ∧ l.tenantId = tenantId
  let link ← Api.orThrow link (.notFound "Warehouse link not found")
  Api.throwIf (link.status ≠ .active)
    (.badRequest ("Cannot offboard a link in status " ++ link.status.text))
  let activeLiens ← Api.query fun db => (liveLiensIn db tenantId org.id link.warehouseId).length
  Api.throwIf (0 < activeLiens) (.conflict "ACTIVE_LIENS_EXIST")
  writeLinks (.offboardWarehouse linkId) fun links =>
    updateRow links linkId fun l => { l with status := .offboarded }

/-- The organisation of an admin's request. -/
def findFinancierOrg (id : Id) : Api FinancierOrg := do
  let org ← Api.query fun db => db.directory.financierOrgs.find id
  Api.orThrow org (.notFound "Financier not found")

def suspendFinancierOrg (id : Id) : Api Unit := do
  let org ← findFinancierOrg id
  Api.throwIf (org.status = .offboarded)
    (.badRequest "Cannot suspend an offboarded financier — offboarding is terminal.")
  if org.status = .suspended then pure () else setOrgStatus id .suspended

def reactivateFinancierOrg (id : Id) : Api Unit := do
  let org ← findFinancierOrg id
  Api.throwIf (org.status = .offboarded)
    (.badRequest ("Cannot reactivate an offboarded financier — offboarding is terminal. " ++
      "Create a new financier org instead."))
  if org.status = .active then pure () else setOrgStatus id .active

/-- Terminal: the organisation leaves the platform. -/
def offboardFinancierOrg (id : Id) : Api Unit := do
  let org ← findFinancierOrg id
  if org.status = .offboarded then pure ()
  else do
    let activeLiens ← Api.query fun db =>
      (db.liens.rows.filter fun l => l.financierOrgId = id ∧ l.status.Live).length
    Api.throwIf (0 < activeLiens) (.conflict "ACTIVE_LIENS_EXIST")
    setOrgStatus id .offboarded

/-- The requests that change who is on the platform. -/
inductive OnboardingRequest where
  | onboardWarehouse (linkId callerUserId warehouseId : Id)
  | approveWarehouseLink (tenantId linkId : Id)
  | rejectWarehouseLink (tenantId linkId : Id)
  | offboardWarehouse (callerUserId linkId : Id)
  | suspendFinancierOrg (id : Id)
  | reactivateFinancierOrg (id : Id)
  | offboardFinancierOrg (id : Id)

def OnboardingRequest.run : OnboardingRequest → Api Unit
  | onboardWarehouse linkId callerUserId warehouseId =>
      Services.onboardWarehouse linkId callerUserId warehouseId
  | approveWarehouseLink tenantId linkId => Services.approveWarehouseLink tenantId linkId
  | rejectWarehouseLink tenantId linkId => Services.rejectWarehouseLink tenantId linkId
  | offboardWarehouse callerUserId linkId => Services.offboardWarehouse callerUserId linkId
  | suspendFinancierOrg id => Services.suspendFinancierOrg id
  | reactivateFinancierOrg id => Services.reactivateFinancierOrg id
  | offboardFinancierOrg id => Services.offboardFinancierOrg id

end SecureStore.Services
