/-
# Managers and their warehouses

Assignments of managers to warehouses are never deleted: ending one dates it, and the table
admits one row for each warehouse and manager, dated or not. The requests that assign look at
the undated rows only. So a manager who was once unassigned from a warehouse can not be
assigned to it again.
-/

import SecureStore.Access.Guards
import SecureStore.Foundation.Calls

namespace SecureStore.Access

open SecureStore.Foundation SecureStore.Inventory SecureStore.Services

@[simp] theorem key_account (u : Account) : Keyed.key u = u.id := rfl
@[simp] theorem key_accessWarehouse (wh : Warehouse) : Keyed.key wh = wh.id := rfl
@[simp] theorem key_managerAssignment (a : ManagerAssignment) : Keyed.key a = a.id := rfl

inductive StaffError where
  | access (e : AccessError)
  | api (e : ApiError)
  /-- P2003: a foreign key constraint was violated. -/
  | foreignKeyViolation
  deriving DecidableEq

/-- A call of the services about managers and warehouses. -/
abbrev StaffApi := Except StaffError AccessDb

/-- Two assignments of one manager to one warehouse. -/
def Clashes (a a' : ManagerAssignment) : Prop :=
  a.warehouseId = a'.warehouseId ∧ a.managerId = a'.managerId

instance (a a' : ManagerAssignment) : Decidable (Clashes a a') :=
  inferInstanceAs (Decidable (_ ∧ _))

/-- An assignment of a manager to a warehouse that was not ended. -/
def Assigned (managerId warehouseId : Id) (a : ManagerAssignment) : Prop :=
  a.managerId = managerId ∧ a.warehouseId = warehouseId ∧ a.unassignedAt = none

instance (managerId warehouseId : Id) (a : ManagerAssignment) :
    Decidable (Assigned managerId warehouseId a) :=
  inferInstanceAs (Decidable (_ ∧ _))

/-- The login emails that are tried for a name: the bare one, and with 2 to 99 behind it. -/
def loginEmails (base : String) : List String :=
  (base ++ "@securestore.com") ::
    (List.range 98).map fun i => base ++ toString (i + 2) ++ "@securestore.com"

/-- A code unit that `\s` matches. -/
def whiteSpace (c : Char) : Bool :=
  (9 ≤ c.toNat ∧ c.toNat ≤ 13) ∨ c.toNat = 0x20 ∨ c.toNat = 0xA0 ∨ c.toNat = 0x1680 ∨
    (0x2000 ≤ c.toNat ∧ c.toNat ≤ 0x200A) ∨ c.toNat = 0x2028 ∨ c.toNat = 0x2029 ∨
      c.toNat = 0x202F ∨ c.toNat = 0x205F ∨ c.toNat = 0x3000 ∨ c.toNat = 0xFEFF

/-- `/^[^\s@]+@[^\s@]+\.[^\s@]+$/.test(email)` -/
def isEmail (email : String) : Bool :=
  let chars := email.toList
  match chars.dropWhile (· ≠ '@') with
  | '@' :: domain =>
      chars.all (fun c => !whiteSpace c) && chars.head? != some '@' && !domain.contains '@' &&
        domain.tail.dropLast.contains '.'
  | _ => false

/-- An assignment that is ended. -/
@[simps]
def endAt (now : Timestamp) (a : ManagerAssignment) : ManagerAssignment :=
  { a with unassignedAt := some now }

/-- A warehouse whose password has to be changed. -/
@[simps]
def forceRotation (wh : Warehouse) : Warehouse := { wh with mustChangePassword := true }

/-- A warehouse with new credentials, to be rotated at the first sign-in. -/
@[simps]
def withCredentials (email passwordHash : String) (wh : Warehouse) : Warehouse :=
  { wh with email := some email, passwordHash := some passwordHash, mustChangePassword := true }

section Calls

variable {τ : Type} (crypto : Crypto τ) (db : AccessDb)

/-- `warehouse.findFirst` of the tenant's -/
def AccessDb.findWarehouse (tenantId id : Id) : Option Warehouse :=
  (db.warehouses.find id).filter fun wh => wh.tenantId = tenantId

/-- How many of the ids are warehouses of the tenant. -/
def AccessDb.countWarehouses (tenantId : Id) (ids : List Id) : ℕ :=
  (db.warehouses.rows.filter fun wh => wh.id ∈ ids ∧ wh.tenantId = tenantId).length

/-- One row of `warehouseManagerAssignment.createMany` -/
def AccessDb.createAssignment (skipDuplicates : Bool) (a : ManagerAssignment) : StaffApi :=
  if skipDuplicates ∧ ∃ x ∈ db.managerAssignments.rows, Clashes a x then pure db
  else do
    Call.throwIf (db.warehouses.find a.warehouseId = none ∨ db.users.find a.managerId = none)
      .foreignKeyViolation
    let managerAssignments ← (createRow db.managerAssignments a (Clashes a)).mapError .api
    pure { db with managerAssignments }

/-- `warehouseManagerAssignment.createMany` -/
def AccessDb.createAssignments (skipDuplicates : Bool) (rows : List ManagerAssignment) :
    StaffApi :=
  rows.foldlM (fun db a => db.createAssignment skipDuplicates a) db

/-- The new assignments of pairs of a manager and a warehouse, each under the uuid drawn
for it. -/
def assignments (tenantId : Id) (uuid : ℕ → Id) (pairs : List (Id × Id)) :
    List ManagerAssignment :=
  pairs.mapIdx fun i pair =>
    { id := uuid i
      tenantId := tenantId
      managerId := pair.1
      warehouseId := pair.2
      unassignedAt := none }

/-- `base` is the name in lower case, without white space. -/
def createManager (tenantId userId : Id) (managerRole : Bool) (base tempPassword : String)
    (warehouseIds : List Id) (uuid : ℕ → Id) : StaffApi := do
  Call.throwIf (managerRole = false)
    (.access (.badRequest none "WAREHOUSE_MANAGER role not configured. Run seed."))
  let loginEmail ← Call.orThrow
    ((loginEmails base).find? fun email => ∀ u ∈ db.users.rows, u.email ≠ email)
    (.api (.conflict "Cannot generate a unique login email for this name combination"))
  Call.throwIf
    (warehouseIds ≠ [] ∧ db.countWarehouses tenantId warehouseIds ≠ warehouseIds.length)
    (.access (.badRequest none
      "One or more warehouse IDs are invalid or do not belong to this tenant"))
  let user : Account :=
    { id := userId
      email := loginEmail
      password := crypto.hash tempPassword
      status := .active
      tenantId := tenantId
      roles := ["WAREHOUSE_MANAGER"] }
  let users ← (createRow db.users user fun u => u.email = user.email).mapError .api
  { db with users }.createAssignments false
    (assignments tenantId uuid (warehouseIds.map fun id => (user.id, id)))

def createWarehouse (tenantId warehouseId : Id) (managerIds : List Id) (uuid : ℕ → Id) :
    StaffApi := do
  let warehouse : Warehouse :=
    { id := warehouseId
      tenantId := tenantId
      email := none
      passwordHash := none
      -- the default of the column
      mustChangePassword := true
      status := .active }
  let warehouses ← (createRow db.warehouses warehouse).mapError .api
  { db with warehouses }.createAssignments true
    (assignments tenantId uuid (managerIds.map fun id => (id, warehouse.id)))

def assignWarehouses (tenantId managerId : Id) (warehouseIds : List Id) (uuid : ℕ → Id) :
    StaffApi := do
  let _ ← Call.orThrow ((db.users.find managerId).filter fun u => u.tenantId = tenantId)
    (.access (.notFound "Manager not found"))
  Call.throwIf (db.countWarehouses tenantId warehouseIds ≠ warehouseIds.length)
    (.access (.badRequest none "One or more warehouse IDs are invalid"))
  let existing := db.managerAssignments.rows.filter fun a =>
    a.managerId = managerId ∧ a.tenantId = tenantId ∧ a.unassignedAt = none
  let existingIds := existing.map ManagerAssignment.warehouseId
  let newIds := warehouseIds.filter (· ∉ existingIds)
  db.createAssignments false
    (assignments tenantId uuid (newIds.map fun id => (managerId, id)))

def assignManagers (tenantId warehouseId : Id) (managerIds : List Id) (uuid : ℕ → Id) :
    StaffApi := do
  let _ ← Call.orThrow (db.findWarehouse tenantId warehouseId)
    (.access (.notFound "Warehouse not found"))
  let existing := db.managerAssignments.rows.filter fun a =>
    a.warehouseId = warehouseId ∧ a.tenantId = tenantId ∧ a.unassignedAt = none
  let existingIds := existing.map ManagerAssignment.managerId
  let newIds := managerIds.filter (· ∉ existingIds)
  if newIds ≠ [] then do
    let db ← db.createAssignments false
      (assignments tenantId uuid (newIds.map fun id => (id, warehouseId)))
    let warehouses ← (updateRow db.warehouses warehouseId forceRotation).mapError .api
    pure { db with warehouses }
  else pure db

def unassignWarehouse (tenantId managerId warehouseId : Id) (now : Timestamp) : StaffApi := do
  let assignment ← Call.orThrow
    (db.managerAssignments.rows.find? fun a =>
      Assigned managerId warehouseId a ∧ a.tenantId = tenantId)
    (.access (.notFound "Active assignment not found"))
  pure { db with managerAssignments := db.managerAssignments.modify assignment.id (endAt now) }

/-- The email comes trimmed and in lower case; the password is the one given or a drawn one. -/
def setWarehouseCredentials (tenantId warehouseId : Id) (email password : String) :
    StaffApi := do
  let _ ← Call.orThrow (db.findWarehouse tenantId warehouseId)
    (.access (.notFound "Warehouse not found"))
  Call.throwIf (isEmail email = false)
    (.access (.badRequest none "A valid email address is required."))
  Call.throwIf (∃ wh ∈ db.warehouses.rows, wh.email = some email ∧ wh.id ≠ warehouseId)
    (.access (.badRequest none "That email is already in use by another warehouse."))
  pure { db with
    warehouses := db.warehouses.modify warehouseId
      (withCredentials email (crypto.hash password)) }

end Calls

/-- A request about managers, warehouses and their credentials. -/
inductive StaffRequest (τ : Type) where
  | createManager (tenantId userId : Id) (managerRole : Bool) (base tempPassword : String)
      (warehouseIds : List Id) (uuid : ℕ → Id)
  | createWarehouse (tenantId warehouseId : Id) (managerIds : List Id) (uuid : ℕ → Id)
  | assignWarehouses (tenantId managerId : Id) (warehouseIds : List Id) (uuid : ℕ → Id)
  | assignManagers (tenantId warehouseId : Id) (managerIds : List Id) (uuid : ℕ → Id)
  | unassignWarehouse (tenantId managerId warehouseId : Id) (now : Timestamp)
  | setWarehouseCredentials (tenantId warehouseId : Id) (email password : String)
  | warehouseLogin (now : Timestamp) (email password : String)
  | changeWarehousePassword (now : Timestamp) (changeToken : τ) (newPassword : String)
  | selectManager (now : Timestamp) (selectToken : τ) (managerUserId : Id)

/-- The database after a request. -/
def StaffRequest.call {τ : Type} (crypto : Crypto τ) : StaffRequest τ → AccessDb → StaffApi
  | .createManager tenantId userId managerRole base tempPassword warehouseIds uuid, db =>
      Access.createManager crypto db tenantId userId managerRole base tempPassword warehouseIds
        uuid
  | .createWarehouse tenantId warehouseId managerIds uuid, db =>
      Access.createWarehouse db tenantId warehouseId managerIds uuid
  | .assignWarehouses tenantId managerId warehouseIds uuid, db =>
      Access.assignWarehouses db tenantId managerId warehouseIds uuid
  | .assignManagers tenantId warehouseId managerIds uuid, db =>
      Access.assignManagers db tenantId warehouseId managerIds uuid
  | .unassignWarehouse tenantId managerId warehouseId now, db =>
      Access.unassignWarehouse db tenantId managerId warehouseId now
  | .setWarehouseCredentials tenantId warehouseId email password, db =>
      Access.setWarehouseCredentials crypto db tenantId warehouseId email password
  | .warehouseLogin now email password, db =>
      ((Access.warehouseLogin crypto now email password db).mapError .access).map fun _ => db
  | .changeWarehousePassword now changeToken newPassword, db =>
      ((Access.changeWarehousePassword crypto now changeToken newPassword db).mapError
        .access).map Prod.snd
  | .selectManager now selectToken managerUserId, db =>
      ((Access.selectManager crypto now selectToken managerUserId db).mapError .access).map
        fun _ => db

/-- No manager has two assignments at one warehouse, ended ones included. -/
def Single (t : Table ManagerAssignment) : Prop :=
  ∀ a ∈ t, ∀ a' ∈ t, Clashes a a' → a = a'

/-- New assignments were added, each at a warehouse of its tenant. -/
structure Appended (db db' : AccessDb) (added : List ManagerAssignment) : Prop where
  rows : db'.managerAssignments.rows = db.managerAssignments.rows ++ added
  single : Single db.managerAssignments → Single db'.managerAssignments
  current : ∀ a ∈ added, a.unassignedAt = none
  known : ∀ a ∈ added, ∃ wh ∈ db'.warehouses, wh.id = a.warehouseId ∧ wh.tenantId = a.tenantId

/-- A warehouse with the password its managers chose. -/
@[simps]
def rotated (passwordHash : String) (wh : Warehouse) : Warehouse :=
  { wh with passwordHash := some passwordHash, mustChangePassword := false }

/-- What each request does to the assignments and the warehouses when it succeeds. -/
inductive StaffEffect {τ : Type} (crypto : Crypto τ) (db : AccessDb) :
    StaffRequest τ → AccessDb → Prop where
  | createManager {tenantId userId : Id} {managerRole : Bool} {base tempPassword : String}
      {warehouseIds : List Id} {uuid : ℕ → Id} {db' : AccessDb} (added : List ManagerAssignment)
      (appended : Appended db db' added) (same : db'.warehouses = db.warehouses) :
      StaffEffect crypto db
        (.createManager tenantId userId managerRole base tempPassword warehouseIds uuid) db'
  | createWarehouse {tenantId warehouseId : Id} {managerIds : List Id} {uuid : ℕ → Id}
      {db' : AccessDb} (wh : Warehouse) (added : List ManagerAssignment)
      (inserted : db.warehouses.insert wh = some db'.warehouses)
      (bare : wh.email = none ∧ wh.passwordHash = none ∧ wh.mustChangePassword = true)
      (appended : Appended db db' added) (here : ∀ a ∈ added, a.warehouseId = wh.id) :
      StaffEffect crypto db (.createWarehouse tenantId warehouseId managerIds uuid) db'
  | assignWarehouses {tenantId managerId : Id} {warehouseIds : List Id} {uuid : ℕ → Id}
      {db' : AccessDb} (added : List ManagerAssignment) (appended : Appended db db' added)
      (same : db'.warehouses = db.warehouses) :
      StaffEffect crypto db (.assignWarehouses tenantId managerId warehouseIds uuid) db'
  | assignManagers {tenantId warehouseId : Id} {managerIds : List Id} {uuid : ℕ → Id}
      {db' : AccessDb} (added : List ManagerAssignment) (appended : Appended db db' added)
      (here : ∀ a ∈ added, a.warehouseId = warehouseId)
      (raised : db'.warehouses = db.warehouses.modify warehouseId forceRotation) :
      StaffEffect crypto db (.assignManagers tenantId warehouseId managerIds uuid) db'
  | assignedBefore {tenantId warehouseId : Id} {managerIds : List Id} {uuid : ℕ → Id} :
      StaffEffect crypto db (.assignManagers tenantId warehouseId managerIds uuid) db
  | unassignWarehouse {tenantId managerId warehouseId : Id} {now : Timestamp}
      (a : ManagerAssignment) (found : a ∈ db.managerAssignments)
      (current : Assigned managerId warehouseId a) :
      StaffEffect crypto db (.unassignWarehouse tenantId managerId warehouseId now)
        { db with managerAssignments := db.managerAssignments.modify a.id (endAt now) }
  | setWarehouseCredentials {tenantId warehouseId : Id} {email password : String}
      {db' : AccessDb} (free : ∀ wh ∈ db.warehouses, wh.email = some email → wh.id = warehouseId)
      (kept : db'.managerAssignments = db.managerAssignments)
      (updated : db'.warehouses = db.warehouses.modify warehouseId
        (withCredentials email (crypto.hash password))) :
      StaffEffect crypto db (.setWarehouseCredentials tenantId warehouseId email password) db'
  | warehouseLogin {now : Timestamp} {email password : String} :
      StaffEffect crypto db (.warehouseLogin now email password) db
  | changeWarehousePassword {now : Timestamp} {changeToken : τ} {newPassword : String}
      {db' : AccessDb} (ids : Id × Id)
      (verified : verifyTyp crypto now changeToken typChangePwd = .ok ids)
      (kept : db'.managerAssignments = db.managerAssignments)
      (updated : db'.warehouses = db.warehouses.modify ids.1
        (rotated (crypto.hash newPassword))) :
      StaffEffect crypto db (.changeWarehousePassword now changeToken newPassword) db'
  | selectManager {now : Timestamp} {selectToken : τ} {managerUserId : Id} :
      StaffEffect crypto db (.selectManager now selectToken managerUserId) db

section Inversion

variable {τ : Type} {crypto : Crypto τ} {db db' : AccessDb} {skipDuplicates : Bool}

theorem findWarehouse_eq {tenantId id : Id} {wh : Warehouse} :
    db.findWarehouse tenantId id = some wh ↔
      wh ∈ db.warehouses ∧ wh.id = id ∧ wh.tenantId = tenantId := by
  unfold AccessDb.findWarehouse
  rw [Option.filter_eq_some_iff, Table.find_eq_some_iff, decide_eq_true_eq, and_assoc]
  rfl

/-- Ids without repetition that are all counted are all there. -/
theorem countWarehouses_all {tenantId : Id} {ids : List Id}
    (h : db.countWarehouses tenantId ids = ids.length) {id : Id} (hid : id ∈ ids) :
    ∃ wh ∈ db.warehouses, wh.id = id ∧ wh.tenantId = tenantId := by
  let found := (db.warehouses.rows.filter fun wh => wh.id ∈ ids ∧ wh.tenantId = tenantId).map
    Warehouse.id
  have hnodup : found.Nodup := db.warehouses.nodup.sublist (List.filter_sublist.map _)
  have hsub : found ⊆ ids := by
    intro x hx
    obtain ⟨wh, hwh, rfl⟩ := List.mem_map.mp hx
    exact (of_decide_eq_true (List.mem_filter.mp hwh).2).1
  have hlength : ids.length ≤ found.length := by
    rw [List.length_map]
    exact h.ge
  have hperm := (List.subperm_of_subset hnodup hsub).perm_of_length_le hlength
  obtain ⟨wh, hwh, rfl⟩ := List.mem_map.mp (hperm.mem_iff.mpr hid)
  obtain ⟨hmem, hcond⟩ := List.mem_filter.mp hwh
  exact ⟨wh, hmem, rfl, (of_decide_eq_true hcond).2⟩

theorem mem_assignments {tenantId : Id} {uuid : ℕ → Id} {pairs : List (Id × Id)}
    {a : ManagerAssignment} (ha : a ∈ assignments tenantId uuid pairs) :
    a.tenantId = tenantId ∧ a.unassignedAt = none ∧ (a.managerId, a.warehouseId) ∈ pairs := by
  obtain ⟨i, hi, rfl⟩ := List.mem_mapIdx.mp ha
  exact ⟨rfl, rfl, List.getElem_mem hi⟩

/-- A row of a bulk insert is skipped, or is put under a new pair. -/
theorem createAssignment_ok {a : ManagerAssignment}
    (h : db.createAssignment skipDuplicates a = .ok db') :
    db' = db ∨ ∃ t, db' = { db with managerAssignments := t } ∧
      (∀ x ∈ db.managerAssignments, ¬ Clashes a x) ∧ db.managerAssignments.insert a = some t := by
  unfold AccessDb.createAssignment at h
  split at h
  · exact .inl (Except.ok.inj h).symm
  · simp only [bind_ok, Call.mapError_ok] at h
    obtain ⟨_, -, t, hcreated, hdb⟩ := h
    obtain ⟨hfree, hinsert⟩ := createRow_ok.mp hcreated
    exact .inr ⟨t, (Except.ok.inj hdb).symm, hfree, hinsert⟩

/-- A row under a new pair keeps the pairs apart. -/
theorem Single.insert {t t' : Table ManagerAssignment} {a : ManagerAssignment} (h : Single t)
    (hfree : ∀ x ∈ t, ¬ Clashes a x) (hinsert : t.insert a = some t') : Single t' := by
  intro x hx y hy hclash
  rcases (Table.mem_insert hinsert).mp hx with hx | rfl
  · rcases (Table.mem_insert hinsert).mp hy with hy | rfl
    · exact h x hx y hy hclash
    · exact absurd ⟨hclash.1.symm, hclash.2.symm⟩ (hfree x hx)
  · rcases (Table.mem_insert hinsert).mp hy with hy | rfl
    · exact absurd hclash (hfree y hy)
    · rfl

/-- A bulk insert appends some of its rows, and keeps the pairs apart. -/
theorem createAssignments_ok {rows : List ManagerAssignment}
    (h : db.createAssignments skipDuplicates rows = .ok db') :
    ∃ added t, db' = { db with managerAssignments := t } ∧ (∀ a ∈ added, a ∈ rows) ∧
      t.rows = db.managerAssignments.rows ++ added ∧
        (Single db.managerAssignments → Single t) := by
  unfold AccessDb.createAssignments at h
  induction rows generalizing db with
  | nil =>
      obtain rfl := Except.ok.inj h
      exact ⟨[], db.managerAssignments, rfl, by simp, by simp, id⟩
  | cons a rows ih =>
      obtain ⟨db₁, hfirst, hrest⟩ := bind_ok.mp h
      obtain ⟨added, t, rfl, hsub, hrows, hsingle⟩ := ih hrest
      have hsub' : ∀ x ∈ added, x ∈ a :: rows := fun x hx => List.mem_cons_of_mem _ (hsub x hx)
      rcases createAssignment_ok hfirst with rfl | ⟨t₁, rfl, hfree, hinsert⟩
      · exact ⟨added, t, rfl, hsub', hrows, hsingle⟩
      · refine ⟨a :: added, t, rfl, ?_, ?_, fun hs => hsingle (hs.insert hfree hinsert)⟩
        · intro x hx
          rcases List.mem_cons.mp hx with rfl | hx
          · exact List.mem_cons_self
          · exact hsub' x hx
        · rw [hrows, (Table.insert_eq_some_iff.mp hinsert).2, List.append_assoc]
          rfl

variable (db) in
/-- New assignments, made in a database that keeps the old ones. -/
theorem appended_of_created {db₁ : AccessDb} {tenantId : Id} {uuid : ℕ → Id}
    {pairs : List (Id × Id)}
    (h : db₁.createAssignments skipDuplicates (assignments tenantId uuid pairs) = .ok db')
    (hsame : db₁.managerAssignments = db.managerAssignments)
    (hpairs : ∀ pair ∈ pairs, ∃ wh ∈ db₁.warehouses, wh.id = pair.2 ∧ wh.tenantId = tenantId) :
    ∃ added, Appended db db' added ∧ db'.warehouses = db₁.warehouses ∧
      ∀ a ∈ added, (a.managerId, a.warehouseId) ∈ pairs := by
  obtain ⟨added, t, rfl, hsub, hrows, hsingle⟩ := createAssignments_ok h
  rw [hsame] at hrows hsingle
  have hmem : ∀ a ∈ added, a.tenantId = tenantId ∧ a.unassignedAt = none ∧
      (a.managerId, a.warehouseId) ∈ pairs := fun a ha => mem_assignments (hsub a ha)
  refine ⟨added, ⟨hrows, hsingle, fun a ha => (hmem a ha).2.1, ?_⟩, rfl,
    fun a ha => (hmem a ha).2.2⟩
  intro a ha
  obtain ⟨wh, hwh, hid, htenant⟩ := hpairs _ (hmem a ha).2.2
  exact ⟨wh, hwh, hid, htenant.trans (hmem a ha).1.symm⟩

theorem createManager_effect {tenantId userId : Id} {managerRole : Bool}
    {base tempPassword : String} {warehouseIds : List Id} {uuid : ℕ → Id}
    (h : createManager crypto db tenantId userId managerRole base tempPassword warehouseIds uuid =
      .ok db') :
    StaffEffect crypto db
      (.createManager tenantId userId managerRole base tempPassword warehouseIds uuid) db' := by
  unfold createManager at h
  simp only [bind_ok, Call.throwIf_ok, Call.orThrow_ok, Call.mapError_ok, not_and_or,
    not_not] at h
  obtain ⟨_, -, email, -, _, hvalid, users, -, hcreated⟩ := h
  have hpairs : ∀ pair ∈ warehouseIds.map fun id => (userId, id),
      ∃ wh ∈ db.warehouses, wh.id = pair.2 ∧ wh.tenantId = tenantId := by
    intro pair hpair
    obtain ⟨id, hid, rfl⟩ := List.mem_map.mp hpair
    rcases hvalid with rfl | hcount
    · cases hid
    · exact countWarehouses_all hcount hid
  obtain ⟨added, happended, hsame, -⟩ := appended_of_created db hcreated rfl hpairs
  exact .createManager added happended hsame

theorem createWarehouse_effect {tenantId warehouseId : Id} {managerIds : List Id} {uuid : ℕ → Id}
    (h : createWarehouse db tenantId warehouseId managerIds uuid = .ok db') :
    StaffEffect crypto db (.createWarehouse tenantId warehouseId managerIds uuid) db' := by
  unfold createWarehouse at h
  simp only [bind_ok, Call.mapError_ok] at h
  obtain ⟨warehouses, hrow, hcreated⟩ := h
  obtain ⟨-, hinsert⟩ := createRow_ok.mp hrow
  have hpairs : ∀ pair ∈ managerIds.map fun id => (id, warehouseId),
      ∃ wh ∈ warehouses, wh.id = pair.2 ∧ wh.tenantId = tenantId := by
    intro pair hpair
    obtain ⟨id, -, rfl⟩ := List.mem_map.mp hpair
    exact ⟨_, (Table.mem_insert hinsert).mpr (.inr rfl), rfl, rfl⟩
  obtain ⟨added, happended, hsame, hadded⟩ := appended_of_created db hcreated rfl hpairs
  refine .createWarehouse _ added (hinsert.trans (congrArg some hsame.symm)) ⟨rfl, rfl, rfl⟩
    happended ?_
  intro a ha
  obtain ⟨id, -, heq⟩ := List.mem_map.mp (hadded a ha)
  exact (congrArg Prod.snd heq).symm

theorem assignWarehouses_effect {tenantId managerId : Id} {warehouseIds : List Id}
    {uuid : ℕ → Id} (h : assignWarehouses db tenantId managerId warehouseIds uuid = .ok db') :
    StaffEffect crypto db (.assignWarehouses tenantId managerId warehouseIds uuid) db' := by
  unfold assignWarehouses at h
  simp only [bind_ok, Call.orThrow_ok, Call.throwIf_ok, not_not] at h
  obtain ⟨_, -, _, hcount, hcreated⟩ := h
  obtain ⟨added, happended, hsame, -⟩ := appended_of_created db hcreated rfl (by
    intro pair hpair
    obtain ⟨id, hid, rfl⟩ := List.mem_map.mp hpair
    exact countWarehouses_all hcount (List.mem_filter.mp hid).1)
  exact .assignWarehouses added happended hsame

theorem assignManagers_effect {tenantId warehouseId : Id} {managerIds : List Id} {uuid : ℕ → Id}
    (h : assignManagers db tenantId warehouseId managerIds uuid = .ok db') :
    StaffEffect crypto db (.assignManagers tenantId warehouseId managerIds uuid) db' := by
  unfold assignManagers at h
  obtain ⟨wh, hfound, h⟩ := bind_ok.mp h
  obtain ⟨hwh, hid, htenant⟩ := findWarehouse_eq.mp (Call.orThrow_ok.mp hfound)
  dsimp only at h
  split at h
  · simp only [bind_ok, Call.mapError_ok] at h
    obtain ⟨db₁, hcreated, warehouses, hupdate, hdb⟩ := h
    obtain rfl := Except.ok.inj hdb
    obtain ⟨added, happended, hsame, hadded⟩ := appended_of_created db hcreated rfl (by
      intro pair hpair
      obtain ⟨id, -, rfl⟩ := List.mem_map.mp hpair
      exact ⟨wh, hwh, hid, htenant⟩)
    obtain ⟨-, -, rfl⟩ := updateRow_ok.mp hupdate
    refine .assignManagers added ⟨happended.rows, happended.single, happended.current, ?_⟩ ?_ ?_
    · intro a ha
      obtain ⟨wh', hwh', hid', htenant'⟩ := happended.known a ha
      obtain ⟨wh'', hmem, hkey, hcases⟩ := Table.exists_mem_modify forceRotation
        (fun _ => rfl) hwh' warehouseId
      refine ⟨wh'', hmem, hkey.trans hid', ?_⟩
      rcases hcases with ⟨-, rfl⟩ | ⟨-, rfl⟩ <;> exact htenant'
    · intro a ha
      obtain ⟨id, -, heq⟩ := List.mem_map.mp (hadded a ha)
      exact (congrArg Prod.snd heq).symm
    · rw [hsame]
  · obtain rfl := Except.ok.inj h
    exact .assignedBefore

/-- What a request that succeeds has done. -/
theorem call_effect {request : StaffRequest τ} (h : request.call crypto db = .ok db') :
    StaffEffect crypto db request db' := by
  cases request with
  | createManager => exact createManager_effect h
  | createWarehouse => exact createWarehouse_effect h
  | assignWarehouses => exact assignWarehouses_effect h
  | assignManagers => exact assignManagers_effect h
  | unassignWarehouse tenantId managerId warehouseId now =>
      obtain ⟨a, hfound, hdb⟩ := bind_ok.mp h
      obtain rfl := Except.ok.inj hdb
      have hfind := Call.orThrow_ok.mp hfound
      have hcurrent := List.find?_some hfind
      simp only [decide_eq_true_eq] at hcurrent
      exact .unassignWarehouse a (List.mem_of_find?_eq_some hfind) hcurrent.1
  | setWarehouseCredentials tenantId warehouseId email password =>
      simp only [StaffRequest.call, Access.setWarehouseCredentials, bind_ok, Call.orThrow_ok,
        Call.throwIf_ok, not_exists, not_and, not_not] at h
      obtain ⟨_, -, _, -, _, hfree, hdb⟩ := h
      obtain rfl := Except.ok.inj hdb
      exact .setWarehouseCredentials hfree rfl rfl
  | warehouseLogin now email password =>
      obtain ⟨_, -, rfl⟩ := map_ok.mp h
      exact .warehouseLogin
  | changeWarehousePassword now changeToken newPassword =>
      obtain ⟨⟨step, _⟩, hchanged, rfl⟩ := map_ok.mp h
      obtain ⟨ids, -, hverify, -, -, rfl, -⟩ :=
        changeWarehousePassword_ok.mp (Call.mapError_ok.mp hchanged)
      exact .changeWarehousePassword ids hverify rfl rfl
  | selectManager now selectToken managerUserId =>
      obtain ⟨_, -, rfl⟩ := map_ok.mp h
      exact .selectManager

end Inversion

/-- The assignments of a database without a repeated pair, each at a warehouse of its
tenant. -/
structure Staffed (db : AccessDb) : Prop where
  single : Single db.managerAssignments
  known : ∀ a ∈ db.managerAssignments,
    ∃ wh ∈ db.warehouses, wh.id = a.warehouseId ∧ wh.tenantId = a.tenantId

/-- A manager has left a warehouse: there is an ended assignment. -/
def Left (db : AccessDb) (managerId warehouseId : Id) : Prop :=
  ∃ a ∈ db.managerAssignments.rows, a.managerId = managerId ∧ a.warehouseId = warehouseId ∧
    a.unassignedAt ≠ none

instance (db : AccessDb) (managerId warehouseId : Id) : Decidable (Left db managerId warehouseId) :=
  List.decidableBEx _ _

/-- A request ends the assignment of a manager to a warehouse. -/
def StaffRequest.Unassigns {τ : Type} (managerId warehouseId : Id) : StaffRequest τ → Prop
  | .unassignWarehouse _ managerId' warehouseId' _ =>
      managerId' = managerId ∧ warehouseId' = warehouseId
  | _ => False

instance {τ : Type} (managerId warehouseId : Id) (request : StaffRequest τ) :
    Decidable (request.Unassigns managerId warehouseId) :=
  match request with
  | .unassignWarehouse _ managerId' warehouseId' _ =>
      inferInstanceAs (Decidable (managerId' = managerId ∧ warehouseId' = warehouseId))
  | .createManager .. | .createWarehouse .. | .assignWarehouses .. | .assignManagers ..
  | .setWarehouseCredentials .. | .warehouseLogin .. | .changeWarehousePassword ..
  | .selectManager .. => inferInstanceAs (Decidable False)

section Steps

variable {τ : Type} {crypto : Crypto τ} {db db' : AccessDb} {request : StaffRequest τ}
  {added : List ManagerAssignment} {managerId warehouseId : Id}

/-- A warehouse stays a warehouse of its tenant. -/
theorem StaffEffect.warehouse_stays (h : StaffEffect crypto db request db') {wh : Warehouse}
    (hwh : wh ∈ db.warehouses) :
    ∃ wh' ∈ db'.warehouses, wh'.id = wh.id ∧ wh'.tenantId = wh.tenantId := by
  have modified : ∀ {f : Warehouse → Warehouse} (hf : ∀ wh, Keyed.key (f wh) = Keyed.key wh)
      (id : Id), (∀ wh, (f wh).tenantId = wh.tenantId) →
      ∃ wh' ∈ db.warehouses.modify id f hf, wh'.id = wh.id ∧ wh'.tenantId = wh.tenantId := by
    intro f hf id htenant
    obtain ⟨wh', hmem, hkey, ⟨-, rfl⟩ | ⟨-, rfl⟩⟩ := Table.exists_mem_modify f hf hwh id
    · exact ⟨_, hmem, hkey, htenant wh⟩
    · exact ⟨_, hmem, rfl, rfl⟩
  cases h with
  | createManager added appended same => exact ⟨wh, same ▸ hwh, rfl, rfl⟩
  | assignWarehouses added appended same => exact ⟨wh, same ▸ hwh, rfl, rfl⟩
  | createWarehouse new added inserted =>
      exact ⟨wh, (Table.mem_insert inserted).mpr (.inl hwh), rfl, rfl⟩
  | assignManagers added appended here raised =>
      rw [raised]
      apply modified
      exact fun _ => rfl
  | setWarehouseCredentials free kept updated =>
      rw [updated]
      apply modified
      exact fun _ => rfl
  | changeWarehousePassword ids verified kept updated =>
      rw [updated]
      apply modified
      exact fun _ => rfl
  | _ => exact ⟨wh, hwh, rfl, rfl⟩

/-- New assignments leave nobody. -/
theorem Appended.left_iff (h : Appended db db' added) :
    Left db' managerId warehouseId ↔ Left db managerId warehouseId := by
  unfold Left
  rw [h.rows]
  constructor
  · rintro ⟨a, ha, hids⟩
    rcases List.mem_append.mp ha with hold | hnew
    · exact ⟨a, hold, hids⟩
    · exact absurd (h.current a hnew) hids.2.2
  · rintro ⟨a, ha, hids⟩
    exact ⟨a, List.mem_append_left _ ha, hids⟩

theorem Staffed.appended (h : Staffed db) (hstays : ∀ wh ∈ db.warehouses,
      ∃ wh' ∈ db'.warehouses, wh'.id = wh.id ∧ wh'.tenantId = wh.tenantId)
    (happended : Appended db db' added) : Staffed db' where
  single := happended.single h.single
  known := by
    intro a ha
    rw [Table.mem_def, happended.rows] at ha
    rcases List.mem_append.mp ha with hold | hnew
    · obtain ⟨wh, hwh, hid, htenant⟩ := h.known a hold
      obtain ⟨wh', hwh', hid', htenant'⟩ := hstays wh hwh
      exact ⟨wh', hwh', hid'.trans hid, htenant'.trans htenant⟩
    · exact happended.known a hnew

/-- With the same assignments only the warehouses have to stay. -/
theorem Staffed.kept (h : Staffed db) (hstays : ∀ wh ∈ db.warehouses,
      ∃ wh' ∈ db'.warehouses, wh'.id = wh.id ∧ wh'.tenantId = wh.tenantId)
    (hsame : db'.managerAssignments = db.managerAssignments) : Staffed db' := by
  have hnone : Appended db db' [] :=
    ⟨by rw [hsame, List.append_nil], fun hs => hsame ▸ hs, by simp, by simp⟩
  exact h.appended hstays hnone

theorem Staffed.step (h : Staffed db) (heffect : StaffEffect crypto db request db') :
    Staffed db' := by
  have hstays : ∀ wh ∈ db.warehouses,
      ∃ wh' ∈ db'.warehouses, wh'.id = wh.id ∧ wh'.tenantId = wh.tenantId :=
    fun _ hwh => heffect.warehouse_stays hwh
  cases heffect with
  | createManager added appended same => exact h.appended hstays appended
  | createWarehouse wh added inserted bare appended here => exact h.appended hstays appended
  | assignWarehouses added appended same => exact h.appended hstays appended
  | assignManagers added appended here raised => exact h.appended hstays appended
  | @unassignWarehouse _ _ _ now a found current =>
      -- ending an assignment changes neither its pair nor its tenant
      have back : ∀ x ∈ db.managerAssignments.modify a.id (endAt now), ∃ x₀ ∈ db.managerAssignments,
          x.id = x₀.id ∧ x.warehouseId = x₀.warehouseId ∧ x.managerId = x₀.managerId ∧
            x.tenantId = x₀.tenantId := by
        intro x hx
        obtain ⟨x₀, hx₀, -, ⟨-, rfl⟩ | ⟨-, rfl⟩⟩ :=
          Table.exists_of_mem_modify (endAt now) (fun _ => rfl) hx
        · exact ⟨_, hx₀, rfl, rfl, rfl, rfl⟩
        · exact ⟨_, hx₀, rfl, rfl, rfl, rfl⟩
      constructor
      · intro x hx y hy hclash
        obtain ⟨x₀, hx₀, hid, hwarehouse, hmanager, -⟩ := back x hx
        obtain ⟨y₀, hy₀, hid', hwarehouse', hmanager', -⟩ := back y hy
        have hclash₀ : Clashes x₀ y₀ :=
          ⟨hwarehouse.symm.trans (hclash.1.trans hwarehouse'),
            hmanager.symm.trans (hclash.2.trans hmanager')⟩
        obtain rfl := h.single x₀ hx₀ y₀ hy₀ hclash₀
        exact Table.eq_of_key_eq hx hy (hid.trans hid'.symm)
      · intro x hx
        obtain ⟨x₀, hx₀, -, hwarehouse, -, htenant⟩ := back x hx
        rw [hwarehouse, htenant]
        exact h.known x₀ hx₀
  | setWarehouseCredentials free kept => exact h.kept hstays kept
  | changeWarehousePassword ids verified kept => exact h.kept hstays kept
  | _ => exact h.kept hstays rfl

/-- A manager has left a warehouse exactly if it had before, or is unassigned now. -/
theorem StaffEffect.left_iff (h : StaffEffect crypto db request db') :
    Left db' managerId warehouseId ↔
      Left db managerId warehouseId ∨ request.Unassigns managerId warehouseId := by
  cases h with
  | createManager added appended => simpa [StaffRequest.Unassigns] using appended.left_iff
  | createWarehouse wh added inserted bare appended =>
      simpa [StaffRequest.Unassigns] using appended.left_iff
  | assignWarehouses added appended => simpa [StaffRequest.Unassigns] using appended.left_iff
  | assignManagers added appended => simpa [StaffRequest.Unassigns] using appended.left_iff
  | @unassignWarehouse tenantId managerId' warehouseId' now a found current =>
      have hended : endAt now a ∈ db.managerAssignments.modify a.id (endAt now) :=
        Table.mem_modify_self (endAt now) (fun _ => rfl) found
      constructor
      · rintro ⟨x, hx, hmanager, hwarehouse, hended⟩
        obtain ⟨x₀, hx₀, -, ⟨hid, rfl⟩ | ⟨-, rfl⟩⟩ :=
          Table.exists_of_mem_modify (endAt now) (fun _ => rfl) hx
        · obtain rfl : x₀ = a := Table.eq_of_key_eq hx₀ found hid
          exact .inr ⟨current.1.symm.trans hmanager, current.2.1.symm.trans hwarehouse⟩
        · exact .inl ⟨x, hx₀, hmanager, hwarehouse, hended⟩
      · rintro (⟨x, hx, hmanager, hwarehouse, hleft⟩ | ⟨rfl, rfl⟩)
        · -- the row that is ended now was current
          have hother : x.id ≠ a.id := by
            intro hid
            obtain rfl : x = a := Table.eq_of_key_eq hx found hid
            exact hleft current.2.2
          have hstill := Table.mem_modify_other (endAt now) (fun _ => rfl) hx hother
          exact ⟨x, hstill, hmanager, hwarehouse, hleft⟩
        · exact ⟨_, hended, current.1, current.2.1, by simp⟩
  | setWarehouseCredentials free kept => simp [StaffRequest.Unassigns, Left, kept]
  | changeWarehousePassword ids verified kept => simp [StaffRequest.Unassigns, Left, kept]
  | _ => simp [StaffRequest.Unassigns]

end Steps

/-- There is exactly one assignment of a manager to a warehouse that was not ended. -/
def OneAssigned (db : AccessDb) (managerId warehouseId : Id) : Prop :=
  ∃! a, a ∈ db.managerAssignments ∧ Assigned managerId warehouseId a

/-- Each of the two requests that assign a manager to a warehouse goes through, and leaves one
assignment. -/
structure Restorable (db : AccessDb) (tenantId managerId warehouseId : Id) (uuid : ℕ → Id) :
    Prop where
  assignWarehouses : ∃ db', assignWarehouses db tenantId managerId [warehouseId] uuid = .ok db' ∧
    OneAssigned db' managerId warehouseId
  assignManagers : ∃ db', assignManagers db tenantId warehouseId [managerId] uuid = .ok db' ∧
    OneAssigned db' managerId warehouseId

/-- A manager and a warehouse of one tenant, and an unused id. -/
structure Colleagues (db : AccessDb) (tenantId managerId warehouseId : Id) (uuid : ℕ → Id) :
    Prop where
  manager : ∃ u ∈ db.users.rows, u.id = managerId ∧ u.tenantId = tenantId
  warehouse : ∃ wh ∈ db.warehouses.rows, wh.id = warehouseId ∧ wh.tenantId = tenantId
  fresh : db.managerAssignments.find (uuid 0) = none

section Restoring

variable {db db' : AccessDb} {tenantId managerId warehouseId : Id} {uuid : ℕ → Id}

/-- A current assignment is one under the tenant of its warehouse. -/
theorem Staffed.tenant (h : Staffed db) (hpair : Colleagues db tenantId managerId warehouseId uuid)
    {a : ManagerAssignment} (ha : a ∈ db.managerAssignments)
    (hcurrent : Assigned managerId warehouseId a) : a.tenantId = tenantId := by
  obtain ⟨wh, hwh, hid, htenant⟩ := h.known a ha
  obtain ⟨wh', hwh', hid', htenant'⟩ := hpair.warehouse
  have hsame : wh = wh' :=
    Table.eq_of_key_eq hwh hwh' (hid.trans (hcurrent.2.1.trans hid'.symm))
  rw [← htenant, hsame, htenant']

theorem Colleagues.found_manager (h : Colleagues db tenantId managerId warehouseId uuid) :
    ∃ u, (db.users.find managerId).filter (fun u => u.tenantId = tenantId) = some u := by
  obtain ⟨u, hu, rfl, htenant⟩ := h.manager
  refine ⟨u, Option.filter_eq_some_iff.mpr ⟨Table.find_of_mem hu, ?_⟩⟩
  exact decide_eq_true htenant

theorem Colleagues.counted (h : Colleagues db tenantId managerId warehouseId uuid) :
    db.countWarehouses tenantId [warehouseId] = 1 := by
  obtain ⟨wh, hwh, rfl, htenant⟩ := h.warehouse
  have hfilter : (db.warehouses.rows.filter fun x => x.id ∈ [wh.id] ∧ x.tenantId = tenantId) =
      db.warehouses.rows.filter fun x => Keyed.key x = Keyed.key wh := by
    apply List.filter_congr
    intro x hx
    by_cases hid : x.id = wh.id
    · obtain rfl : x = wh := Table.eq_of_key_eq hx hwh hid
      simp [htenant]
    · simp [hid]
  unfold AccessDb.countWarehouses
  rw [hfilter, Table.filter_key hwh]
  rfl

/-- A new pair is assigned, and an old one refused. -/
theorem Colleagues.createAssignments (h : Colleagues db tenantId managerId warehouseId uuid) :
    (∃ a t, Assigned managerId warehouseId a ∧ db.managerAssignments.insert a = some t ∧
        (∀ x ∈ db.managerAssignments, ¬ Clashes a x) ∧
        db.createAssignments false (assignments tenantId uuid [(managerId, warehouseId)]) =
          .ok { db with managerAssignments := t }) ∨
      ((∃ x ∈ db.managerAssignments, x.managerId = managerId ∧ x.warehouseId = warehouseId) ∧
        db.createAssignments false (assignments tenantId uuid [(managerId, warehouseId)]) =
          .error (.api .uniqueViolation)) := by
  obtain ⟨u, hu, huid, -⟩ := h.manager
  obtain ⟨wh, hwh, hwid, -⟩ := h.warehouse
  have hknown : ¬ (db.warehouses.find warehouseId = none ∨ db.users.find managerId = none) := by
    have hfindu : db.users.find managerId = some u := huid ▸ Table.find_of_mem hu
    have hfindw : db.warehouses.find warehouseId = some wh := hwid ▸ Table.find_of_mem hwh
    simp [hfindu, hfindw]
  let a : ManagerAssignment :=
    { id := uuid 0, tenantId := tenantId, managerId := managerId, warehouseId := warehouseId
      unassignedAt := none }
  have hcall : db.createAssignments false (assignments tenantId uuid [(managerId, warehouseId)]) =
      (((createRow db.managerAssignments a (Clashes a)).mapError .api).bind fun t =>
        .ok { db with managerAssignments := t }) := by
    simp [AccessDb.createAssignments, assignments, AccessDb.createAssignment, Call.throwIf, hknown,
      bind, Except.bind, pure, Except.pure, a]
    cases createRow db.managerAssignments a (Clashes a) <;> rfl
  rw [hcall]
  by_cases hclash : ∃ x ∈ db.managerAssignments.rows, Clashes a x
  · right
    have hrefused : createRow db.managerAssignments a (Clashes a) = .error .uniqueViolation :=
      if_pos hclash
    obtain ⟨x, hx, hwarehouse, hmanager⟩ := hclash
    refine ⟨⟨x, hx, hmanager.symm, hwarehouse.symm⟩, ?_⟩
    rw [hrefused]
    rfl
  · left
    obtain ⟨t, hinsert⟩ := Table.insert_of_find_none (r := a) h.fresh
    have hfree : ∀ x ∈ db.managerAssignments, ¬ Clashes a x := fun x hx hc => hclash ⟨x, hx, hc⟩
    refine ⟨a, t, ⟨rfl, rfl, rfl⟩, hinsert, hfree, ?_⟩
    rw [createRow_ok.mpr ⟨hfree, hinsert⟩]
    rfl

/-- Assigning an assigned manager changes nothing; else the pair is created. -/
theorem assignWarehouses_single (hstaff : Staffed db)
    (h : Colleagues db tenantId managerId warehouseId uuid) :
    assignWarehouses db tenantId managerId [warehouseId] uuid =
      if ∃ a ∈ db.managerAssignments.rows, Assigned managerId warehouseId a then .ok db
      else db.createAssignments false (assignments tenantId uuid [(managerId, warehouseId)]) := by
  obtain ⟨u, hmanager⟩ := h.found_manager
  let existingIds := (db.managerAssignments.rows.filter fun a =>
    a.managerId = managerId ∧ a.tenantId = tenantId ∧ a.unassignedAt = none).map
      ManagerAssignment.warehouseId
  have hcall : assignWarehouses db tenantId managerId [warehouseId] uuid =
      db.createAssignments false (assignments tenantId uuid
        (([warehouseId].filter (· ∉ existingIds)).map fun id => (managerId, id))) := by
    unfold assignWarehouses
    rw [hmanager, h.counted]
    rfl
  rw [hcall]
  split
  · rename_i hassigned
    obtain ⟨a, ha, hcurrent⟩ := hassigned
    have hexisting : warehouseId ∈ existingIds := by
      refine List.mem_map.mpr ⟨a, List.mem_filter.mpr ⟨ha, ?_⟩, hcurrent.2.1⟩
      exact decide_eq_true ⟨hcurrent.1, hstaff.tenant h ha hcurrent, hcurrent.2.2⟩
    rw [List.filter_cons_of_neg (by simpa using hexisting)]
    rfl
  · rename_i hassigned
    have hnone : warehouseId ∉ existingIds := by
      intro hmem
      obtain ⟨a, ha, hwarehouse⟩ := List.mem_map.mp hmem
      obtain ⟨hrow, hcond⟩ := List.mem_filter.mp ha
      obtain ⟨hmanager, -, hactive⟩ := of_decide_eq_true hcond
      exact hassigned ⟨a, hrow, hmanager, hwarehouse, hactive⟩
    rw [List.filter_cons_of_pos (by simpa using hnone)]
    rfl

theorem assignManagers_single (hstaff : Staffed db)
    (h : Colleagues db tenantId managerId warehouseId uuid) :
    assignManagers db tenantId warehouseId [managerId] uuid =
      if ∃ a ∈ db.managerAssignments.rows, Assigned managerId warehouseId a then .ok db
      else (do
        let db ← db.createAssignments false
          (assignments tenantId uuid [(managerId, warehouseId)])
        let warehouses ← (updateRow db.warehouses warehouseId forceRotation).mapError .api
        pure { db with warehouses }) := by
  obtain ⟨wh, hwarehouse⟩ := h.warehouse
  have hfound : db.findWarehouse tenantId warehouseId = some wh := findWarehouse_eq.mpr hwarehouse
  let existingIds := (db.managerAssignments.rows.filter fun a =>
    a.warehouseId = warehouseId ∧ a.tenantId = tenantId ∧ a.unassignedAt = none).map
      ManagerAssignment.managerId
  have hcall : assignManagers db tenantId warehouseId [managerId] uuid =
      if [managerId].filter (· ∉ existingIds) ≠ [] then (do
        let db ← db.createAssignments false (assignments tenantId uuid
          (([managerId].filter (· ∉ existingIds)).map fun id => (id, warehouseId)))
        let warehouses ← (updateRow db.warehouses warehouseId forceRotation).mapError .api
        pure { db with warehouses })
      else .ok db := by
    unfold assignManagers
    rw [hfound]
    rfl
  rw [hcall]
  by_cases hassigned : ∃ a ∈ db.managerAssignments.rows, Assigned managerId warehouseId a
  · rw [if_pos hassigned]
    obtain ⟨a, ha, hcurrent⟩ := hassigned
    have hexisting : managerId ∈ existingIds := by
      refine List.mem_map.mpr ⟨a, List.mem_filter.mpr ⟨ha, ?_⟩, hcurrent.1⟩
      exact decide_eq_true ⟨hcurrent.2.1, hstaff.tenant h ha hcurrent, hcurrent.2.2⟩
    rw [List.filter_cons_of_neg (by simpa using hexisting)]
    rfl
  · rw [if_neg hassigned]
    have hnone : managerId ∉ existingIds := by
      intro hmem
      obtain ⟨a, ha, hmanager⟩ := List.mem_map.mp hmem
      obtain ⟨hrow, hcond⟩ := List.mem_filter.mp ha
      obtain ⟨hwarehouse, -, hactive⟩ := of_decide_eq_true hcond
      exact hassigned ⟨a, hrow, hmanager, hwarehouse, hactive⟩
    rw [List.filter_cons_of_pos (by simpa using hnone)]
    rfl

/-- A new assignment is the only one. -/
theorem oneAssigned_insert {t : Table ManagerAssignment} {a : ManagerAssignment}
    (hcurrent : Assigned managerId warehouseId a)
    (hfree : ∀ x ∈ db.managerAssignments, ¬ Clashes a x)
    (hinsert : db.managerAssignments.insert a = some t) (hdb : db'.managerAssignments = t) :
    OneAssigned db' managerId warehouseId := by
  subst hdb
  refine ⟨a, ⟨(Table.mem_insert hinsert).mpr (.inr rfl), hcurrent⟩, ?_⟩
  rintro x ⟨hx, hmanager, hwarehouse, -⟩
  rcases (Table.mem_insert hinsert).mp hx with hold | rfl
  · exact absurd ⟨hcurrent.2.1.trans hwarehouse.symm, hcurrent.1.trans hmanager.symm⟩
      (hfree x hold)
  · rfl

/-- A manager can be assigned to a warehouse exactly if it has not left it. -/
theorem Staffed.restorable_iff (hstaff : Staffed db)
    (h : Colleagues db tenantId managerId warehouseId uuid) :
    Restorable db tenantId managerId warehouseId uuid ↔ ¬ Left db managerId warehouseId := by
  have hwarehouses := assignWarehouses_single hstaff h
  have hmanagers := assignManagers_single hstaff h
  by_cases hassigned : ∃ a ∈ db.managerAssignments.rows, Assigned managerId warehouseId a
  · rw [if_pos hassigned] at hwarehouses hmanagers
    obtain ⟨a, ha, hcurrent⟩ := hassigned
    have sole : ∀ x ∈ db.managerAssignments, x.managerId = managerId →
        x.warehouseId = warehouseId → x = a := by
      intro x hx hmanager hwarehouse
      exact hstaff.single x hx a ha
        ⟨hwarehouse.trans hcurrent.2.1.symm, hmanager.trans hcurrent.1.symm⟩
    have hone : OneAssigned db managerId warehouseId :=
      ⟨a, ⟨ha, hcurrent⟩, fun x hx => sole x hx.1 hx.2.1 hx.2.2.1⟩
    constructor
    · rintro - ⟨x, hx, hmanager, hwarehouse, hended⟩
      obtain rfl := sole x hx hmanager hwarehouse
      exact hended hcurrent.2.2
    · intro _
      exact ⟨⟨db, hwarehouses, hone⟩, ⟨db, hmanagers, hone⟩⟩
  · rw [if_neg hassigned] at hwarehouses hmanagers
    rcases h.createAssignments with
      ⟨a, t, hcurrent, hinsert, hfree, hcreated⟩ | ⟨⟨x, hx, hpair⟩, hrefused⟩
    · rw [hcreated] at hwarehouses hmanagers
      constructor
      · rintro - ⟨x, hx, hmanager, hwarehouse, -⟩
        exact hfree x hx ⟨hcurrent.2.1.trans hwarehouse.symm, hcurrent.1.trans hmanager.symm⟩
      · intro _
        obtain ⟨wh, hwh, rfl, -⟩ := h.warehouse
        have hraised : updateRow db.warehouses wh.id forceRotation =
            .ok (db.warehouses.modify wh.id forceRotation) :=
          updateRow_ok.mpr ⟨wh, Table.find_of_mem hwh, rfl⟩
        let db₁ : AccessDb := { db with
          managerAssignments := t, warehouses := db.warehouses.modify wh.id forceRotation }
        have hassigned₁ : assignManagers db tenantId wh.id [managerId] uuid = .ok db₁ := by
          rw [hmanagers]
          simp [bind, Except.bind, hraised, Except.mapError, pure, Except.pure, db₁]
        exact ⟨⟨_, hwarehouses, oneAssigned_insert hcurrent hfree hinsert rfl⟩,
          ⟨db₁, hassigned₁, oneAssigned_insert hcurrent hfree hinsert rfl⟩⟩
    · constructor
      · rintro ⟨⟨db', hok, -⟩, -⟩
        rw [hwarehouses, hrefused] at hok
        cases hok
      · intro hleft
        have hended : x.unassignedAt ≠ none :=
          fun hnone => hassigned ⟨x, hx, hpair.1, hpair.2, hnone⟩
        exact absurd ⟨x, hx, hpair.1, hpair.2, hended⟩ hleft

end Restoring

theorem staffed_empty {db : AccessDb} (h : db.managerAssignments = Table.empty) : Staffed db := by
  constructor
  · intro a ha
    rw [h] at ha
    exact absurd ha (Table.not_mem_empty a)
  · intro a ha
    rw [h] at ha
    exact absurd ha (Table.not_mem_empty a)

/-- Those who have left in a run are those whom a request of it unassigned. -/
theorem left_run {τ : Type} {crypto : Crypto τ} {s db : AccessDb}
    {trail : List (Transition (StaffRequest τ) AccessDb)}
    (hstart : s.managerAssignments = Table.empty)
    (run : Succession (StaffRequest.call crypto) s trail db) :
    Staffed db ∧ ∀ managerId warehouseId, Left db managerId warehouseId ↔
      ∃ t ∈ trail, t.label.Unassigns managerId warehouseId := by
  refine run.along (P := fun trail db => Staffed db ∧ ∀ managerId warehouseId,
    Left db managerId warehouseId ↔ ∃ t ∈ trail, t.label.Unassigns managerId warehouseId)
    ⟨staffed_empty hstart, ?_⟩ ?_
  · intro managerId warehouseId
    simp [Left, hstart, Table.empty]
  · intro trail request db db' hdb hcall
    have heffect := call_effect hcall
    refine ⟨hdb.1.step heffect, ?_⟩
    intro managerId warehouseId
    rw [heffect.left_iff, hdb.2 managerId warehouseId]
    simp [List.mem_append, or_and_right, exists_or]

/-- After every run of requests that starts without assignments, a manager of a tenant can be
assigned to a warehouse of it, and has then one assignment there, if and only if no request of
the run unassigned the manager from it. -/
theorem assignments_restorable_iff {τ : Type} (crypto : Crypto τ) {s db : AccessDb}
    {trail : List (Transition (StaffRequest τ) AccessDb)}
    (hstart : s.managerAssignments = Table.empty)
    (run : Succession (StaffRequest.call crypto) s trail db)
    {tenantId managerId warehouseId : Id} {uuid : ℕ → Id}
    (hpair : Colleagues db tenantId managerId warehouseId uuid) :
    Restorable db tenantId managerId warehouseId uuid ↔
      ∀ t ∈ trail, ¬ t.label.Unassigns managerId warehouseId := by
  obtain ⟨hstaff, hleft⟩ := left_run hstart run
  rw [hstaff.restorable_iff hpair, hleft managerId warehouseId]
  simp

/-- Manager 12 and warehouse 50 of tenant 1, who have nothing to do with each other. -/
def unassigned : AccessDb := { sampleAccess .active with managerAssignments := Table.empty }

/-- Manager 12 is assigned to warehouse 50. -/
def sampleAssignment : List (StaffRequest (Claims × Timestamp)) :=
  [.assignWarehouses 1 12 [50] fun i => 70 + i]

/-- The theorem at an assignment that was not ended. -/
theorem assignments_restorable_iff_sample :
    Restorable (perform (StaffRequest.call plainCrypto) sampleAssignment unassigned).2 1 12 50
        (fun i => 80 + i) ↔
      ∀ t ∈ (perform (StaffRequest.call plainCrypto) sampleAssignment unassigned).1,
        ¬ t.label.Unassigns 12 50 := by
  have hpair : Colleagues (perform (StaffRequest.call plainCrypto) sampleAssignment unassigned).2
      1 12 50 fun i => 80 + i := by
    constructor <;> decide +kernel
  exact assignments_restorable_iff plainCrypto rfl (succession_perform _ _ _) hpair

/-- Once unassigned from warehouse 50, manager 12 can not be assigned to it again. -/
theorem reassignment_refused :
    ¬ ∀ (τ : Type) (crypto : Crypto τ) (s db : AccessDb)
        (trail : List (Transition (StaffRequest τ) AccessDb)),
      s.managerAssignments = Table.empty → Succession (StaffRequest.call crypto) s trail db →
        ∀ (tenantId managerId warehouseId : Id) (uuid : ℕ → Id),
          Colleagues db tenantId managerId warehouseId uuid →
            Restorable db tenantId managerId warehouseId uuid := by
  intro hclaim
  let requests := sampleAssignment ++ [.unassignWarehouse 1 12 50 1000]
  have hpair : Colleagues (perform (StaffRequest.call plainCrypto) requests unassigned).2
      1 12 50 fun i => 80 + i := by
    constructor <;> decide +kernel
  obtain ⟨⟨db', hok, -⟩, -⟩ := hclaim _ plainCrypto unassigned _ _ rfl
    (succession_perform (StaffRequest.call plainCrypto) requests unassigned) 1 12 50 _ hpair
  have hrefused : (assignWarehouses
      (perform (StaffRequest.call plainCrypto) requests unassigned).2 1 12 [50]
        fun i => 80 + i).toOption.isNone = true := by
    decide +kernel
  rw [hok] at hrefused
  cases hrefused

end SecureStore.Access
