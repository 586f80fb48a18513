/-
# Signing in

The two sign-in protocols: a personal account with its password, and a warehouse
with its shared password, after which a manager is picked. All tokens are signed
under one secret and told apart by their claims. The token and the password
libraries are parameters; of the first, the program relies on this: a signed token
verifies to its claims until it expires. Emails come trimmed and in lower case.
-/

import SecureStore.Services.Database

namespace SecureStore.Access

open SecureStore.Foundation SecureStore.Inventory SecureStore.Services

inductive TenantStatus where
  | active
  | suspended
  deriving DecidableEq

inductive TenantType where
  | internal
  | external
  deriving DecidableEq

inductive UserStatus where
  | active
  | inactive
  | suspended
  | deactivated
  deriving DecidableEq

inductive WarehouseStatus where
  | active
  | inactive
  | maintenance
  deriving DecidableEq

structure Tenant where
  id : Id
  type : TenantType
  status : TenantStatus
  deriving DecidableEq

/-- A row of `users` with the names of its roles. -/
structure Account where
  id : Id
  email : String
  /-- The hash of the password. -/
  password : String
  status : UserStatus
  tenantId : Id
  roles : List String
  deriving DecidableEq

structure Warehouse where
  id : Id
  tenantId : Id
  email : Option String
  passwordHash : Option String
  mustChangePassword : Bool
  status : WarehouseStatus
  deriving DecidableEq

instance : Keyed Tenant Id := ⟨Tenant.id⟩
instance : Keyed Account Id := ⟨Account.id⟩
instance : Keyed Warehouse Id := ⟨Warehouse.id⟩

/-- The tables that signing in reads and writes. -/
structure AccessDb where
  tenants : Table Tenant
  users : Table Account
  warehouses : Table Warehouse
  managerAssignments : Table ManagerAssignment

inductive AccessError where
  | badRequest (code : Option String) (message : String)
  | unauthorized (code : Option String) (message : String)
  | notFound (message : String)
  /-- P2025: the row to update is not there. -/
  | recordNotFound
  deriving DecidableEq

/-- The claims of a token; one that is left out is `undefined`. -/
structure Claims where
  typ : Option String := none
  sub : Option Id := none
  email : Option String := none
  roles : Option (List String) := none
  tenantId : Option Id := none
  warehouseId : Option Id := none
  deriving DecidableEq

/-- The token and the password library. The clock of tokens counts seconds. -/
structure Crypto (τ : Type) where
  sign : Claims → (expiresAt : Timestamp) → τ
  verify : (now : Timestamp) → τ → Option Claims
  compare : (password passwordHash : String) → Bool
  hash : (password : String) → String
  verify_sign : ∀ claims expiresAt now,
    verify now (sign claims expiresAt) = if now < expiresAt then some claims else none

/-- `if (c) throw e` -/
def refuseIf (c : Prop) [Decidable c] (e : AccessError) : Except AccessError Unit :=
  if c then .error e else .ok ()

/-- `if (!x) throw e` -/
def orRefuse {α : Type} (o : Option α) (e : AccessError) : Except AccessError α :=
  match o with
  | some a => .ok a
  | none => .error e

@[simp]
theorem refuseIf_ok {c : Prop} [Decidable c] {e : AccessError} {u : Unit} :
    refuseIf c e = .ok u ↔ ¬ c := by
  unfold refuseIf
  split <;> simp [*]

@[simp]
theorem orRefuse_ok {α : Type} {o : Option α} {e : AccessError} {a : α} :
    orRefuse o e = .ok a ↔ o = some a := by
  cases o <;> simp [orRefuse]

/-- `TYP_CHANGE_PWD` -/
def typChangePwd : String := "wh-change-password"

/-- `TYP_SELECT_MGR` -/
def typSelectMgr : String := "wh-select-manager"

/-- `TYP_ACCESS` -/
def typAccess : String := "access"

/-- `INTERMEDIATE_TTL`, ten minutes -/
def intermediateTtl : Timestamp := 10 * 60

/-- `ACCESS_TTL`, a day -/
def accessTtl : Timestamp := 24 * 60 * 60

/-- What a full sign-in returns. -/
structure Session (τ : Type) where
  accessToken : τ
  userId : Id
  email : String
  roles : List String
  tenantId : Id
  warehouseId : Option Id := none

/-- What the steps of the warehouse protocol return before the last. -/
inductive WarehouseStep (τ : Type) where
  | mustChangePassword (warehouseId : Id) (changeToken : τ)
  | selectManager (warehouseId : Id) (managers : List Id) (selectToken : τ)

/-- A code unit that `.` does not match: a line terminator. -/
def lineTerminator (c : Char) : Bool :=
  c.toNat = 10 ∨ c.toNat = 13 ∨ c.toNat = 0x2028 ∨ c.toNat = 0x2029

/-- The UTF-16 code units of a character. -/
def codeUnits (c : Char) : ℕ := if c.toNat < 0x10000 then 1 else 2

/-- `/^(?=.*[a-z])(?=.*[A-Z])(?=.*\d).{8,}$/.test(p)` -/
def isStrongPassword (p : String) : Bool :=
  p.toList.any (fun c => 'a' ≤ c ∧ c ≤ 'z') && p.toList.any (fun c => 'A' ≤ c ∧ c ≤ 'Z') &&
    p.toList.any (fun c => '0' ≤ c ∧ c ≤ '9') && p.toList.all (fun c => !lineTerminator c) &&
    8 ≤ (p.toList.map codeUnits).sum

section Calls

variable {τ : Type} (crypto : Crypto τ) (now : Timestamp)

/-- Sign in with a personal account. -/
def login (email password : String) (db : AccessDb) : Except AccessError (Session τ) := do
  let user ← orRefuse (db.users.rows.find? fun u => u.email = email)
    (.badRequest none "Invalid email or password")
  refuseIf (crypto.compare password user.password = false)
    (.badRequest none "Invalid email or password")
  refuseIf (user.status ≠ .active)
    (.badRequest (some "USER_INACTIVE")
      "Your account has been disabled. Please contact an administrator.")
  let roles := user.roles
  let isPlatformUser := "FINANCIER" ∈ roles ∨ "GLOBAL_ADMIN" ∈ roles
  let isClient := "CLIENT" ∈ roles
  let tenantIsExternalAndSuspended :=
    (db.tenants.find user.tenantId).any fun t => t.type = .external ∧ t.status = .suspended
  refuseIf (¬ isPlatformUser ∧ ¬ isClient ∧ tenantIsExternalAndSuspended)
    (.badRequest (some "TENANT_SUSPENDED")
      "Your organisation is currently suspended. Please contact your platform administrator.")
  let token := crypto.sign
    { sub := some user.id
      email := some user.email
      roles := some roles
      tenantId := some user.tenantId } (now + accessTtl)
  pure
    { accessToken := token
      userId := user.id
      email := user.email
      roles := roles
      tenantId := user.tenantId }

/-- The assigned, active managers of a warehouse. -/
def isRostered (db : AccessDb) (warehouseId tenantId : Id) (a : ManagerAssignment) : Bool :=
  a.warehouseId = warehouseId ∧ a.tenantId = tenantId ∧ a.unassignedAt = none ∧
    (db.users.find a.managerId).any fun m =>
      m.status = .active ∧ "WAREHOUSE_MANAGER" ∈ m.roles

def selectStepResponse (warehouseId tenantId : Id) (db : AccessDb) : WarehouseStep τ :=
  let assignments := db.managerAssignments.rows.filter (isRostered db warehouseId tenantId)
  let selectToken := crypto.sign
    { typ := some typSelectMgr, warehouseId := some warehouseId, tenantId := some tenantId }
    (now + intermediateTtl)
  .selectManager warehouseId (assignments.map ManagerAssignment.managerId) selectToken

/-- Sign in with the shared password of a warehouse. -/
def warehouseLogin (email password : String) (db : AccessDb) :
    Except AccessError (WarehouseStep τ) := do
  let wh ← orRefuse (db.warehouses.rows.find? fun w => w.email = some email)
    (.unauthorized none "Invalid warehouse credentials.")
  let passwordHash ← orRefuse (wh.passwordHash.filter fun hash => hash ≠ "")
    (.unauthorized none "Invalid warehouse credentials.")
  refuseIf (wh.status ≠ .active)
    (.unauthorized none "This warehouse is not active. Contact a tenant administrator.")
  refuseIf (crypto.compare password passwordHash = false)
    (.unauthorized none "Invalid warehouse credentials.")
  if wh.mustChangePassword then
    let changeToken := crypto.sign
      { typ := some typChangePwd, warehouseId := some wh.id, tenantId := some wh.tenantId }
      (now + intermediateTtl)
    pure (.mustChangePassword wh.id changeToken)
  else pure (selectStepResponse crypto now wh.id wh.tenantId db)

/-- An intermediate token is checked against the step it is presented to. -/
def verifyTyp (token : τ) (expected : String) : Except AccessError (Id × Id) := do
  let payload ← orRefuse (crypto.verify now token)
    (.unauthorized none "Token is invalid or has expired.")
  refuseIf (payload.typ ≠ some expected)
    (.unauthorized none "Token is not valid for this step.")
  let warehouseId ← orRefuse payload.warehouseId
    (.unauthorized none "Token is missing required claims.")
  let tenantId ← orRefuse payload.tenantId
    (.unauthorized none "Token is missing required claims.")
  pure (warehouseId, tenantId)

/-- Set a new warehouse password and go on to the roster. -/
def changeWarehousePassword (changeToken : τ) (newPassword : String) (db : AccessDb) :
    Except AccessError (WarehouseStep τ × AccessDb) := do
  let (warehouseId, _) ← verifyTyp crypto now changeToken typChangePwd
  refuseIf (isStrongPassword newPassword = false)
    (.badRequest none ("Password must be at least 8 characters with at least one " ++
      "uppercase letter, one lowercase letter, and one digit."))
  let updated ← orRefuse (db.warehouses.find warehouseId) .recordNotFound
  let db := { db with
    warehouses := db.warehouses.modify warehouseId fun w =>
      { w with passwordHash := some (crypto.hash newPassword), mustChangePassword := false } }
  pure (selectStepResponse crypto now updated.id updated.tenantId db, db)

/-- Pick a manager of the roster and sign in as that manager. -/
def selectManager (selectToken : τ) (managerUserId : Id) (db : AccessDb) :
    Except AccessError (Session τ) := do
  let (warehouseId, tenantId) ← verifyTyp crypto now selectToken typSelectMgr
  let assignment ← orRefuse
    (db.managerAssignments.rows.find? fun a =>
      a.managerId = managerUserId ∧ isRostered db warehouseId tenantId a)
    (.unauthorized none "You are not currently assigned to this warehouse.")
  -- the manager is there: the roster asked for it
  let manager ← orRefuse (db.users.find assignment.managerId) .recordNotFound
  let accessToken := crypto.sign
    { typ := some typAccess
      sub := some manager.id
      email := some manager.email
      roles := some manager.roles
      tenantId := some manager.tenantId
      warehouseId := some warehouseId } (now + accessTtl)
  pure
    { accessToken := accessToken
      userId := manager.id
      email := manager.email
      roles := manager.roles
      tenantId := manager.tenantId
      warehouseId := some warehouseId }

end Calls

section Inversion

variable {τ : Type} {crypto : Crypto τ} {now : Timestamp} {db db' : AccessDb}

/-- The staff of a suspended external tenant, for whom personal sign-in is closed. -/
def SuspendedStaff (db : AccessDb) (user : Account) : Prop :=
  ¬ ("FINANCIER" ∈ user.roles ∨ "GLOBAL_ADMIN" ∈ user.roles) ∧ ¬ "CLIENT" ∈ user.roles ∧
    (db.tenants.find user.tenantId).any fun t => t.type = .external ∧ t.status = .suspended

theorem login_ok {email password : String} {session : Session τ}
    (h : login crypto now email password db = .ok session) :
    ∃ user ∈ db.users, user.email = email ∧ user.status = .active ∧ ¬ SuspendedStaff db user ∧
      session =
        { accessToken := crypto.sign
            { sub := some user.id, email := some user.email, roles := some user.roles
              tenantId := some user.tenantId } (now + accessTtl)
          userId := user.id
          email := user.email
          roles := user.roles
          tenantId := user.tenantId } := by
  unfold login at h
  simp only [bind_ok, orRefuse_ok, refuseIf_ok] at h
  obtain ⟨user, hfind, _, -, _, hactive, _, hopen, hsession⟩ := h
  have hemail := List.find?_some hfind
  exact ⟨user, List.mem_of_find?_eq_some hfind, by simpa using hemail, not_not.mp hactive, hopen,
    (Except.ok.inj hsession).symm⟩

/-- The door of a warehouse: the credentials of an active one. -/
def Door (crypto : Crypto τ) (db : AccessDb) (email password : String) (wh : Warehouse) : Prop :=
  (db.warehouses.rows.find? fun w => w.email = some email) = some wh ∧ wh.status = .active ∧
    ∃ passwordHash, wh.passwordHash = some passwordHash ∧ passwordHash ≠ "" ∧
      crypto.compare password passwordHash = true

theorem warehouseLogin_ok {email password : String} {step : WarehouseStep τ} :
    warehouseLogin crypto now email password db = .ok step ↔
      ∃ wh, Door crypto db email password wh ∧
        step = if wh.mustChangePassword then
            .mustChangePassword wh.id (crypto.sign
              { typ := some typChangePwd, warehouseId := some wh.id
                tenantId := some wh.tenantId } (now + intermediateTtl))
          else selectStepResponse crypto now wh.id wh.tenantId db := by
  unfold warehouseLogin Door
  simp only [bind_ok, orRefuse_ok, refuseIf_ok, Option.filter_eq_some_iff, decide_eq_true_eq,
    not_not, Bool.not_eq_false]
  constructor
  · rintro ⟨wh, hfind, passwordHash, ⟨hhash, hset⟩, _, hactive, _, hcompare, hstep⟩
    refine ⟨wh, ⟨hfind, hactive, passwordHash, hhash, hset, hcompare⟩, ?_⟩
    split at hstep <;> rename_i hmust <;> simp only [hmust] <;> exact (Except.ok.inj hstep).symm
  · rintro ⟨wh, ⟨hfind, hactive, passwordHash, hhash, hset, hcompare⟩, rfl⟩
    refine ⟨wh, hfind, passwordHash, ⟨hhash, hset⟩, (), hactive, (), hcompare, ?_⟩
    split <;> rfl

theorem verifyTyp_ok {token : τ} {expected : String} {ids : Id × Id} :
    verifyTyp crypto now token expected = .ok ids ↔
      ∃ claims, crypto.verify now token = some claims ∧ claims.typ = some expected ∧
        claims.warehouseId = some ids.1 ∧ claims.tenantId = some ids.2 := by
  unfold verifyTyp
  simp only [bind_ok, orRefuse_ok, refuseIf_ok, not_not]
  constructor
  · rintro ⟨claims, hverify, _, htyp, warehouseId, hwarehouse, tenantId, htenant, hids⟩
    cases hids
    exact ⟨claims, hverify, htyp, hwarehouse, htenant⟩
  · rintro ⟨claims, hverify, htyp, hwarehouse, htenant⟩
    exact ⟨claims, hverify, (), htyp, _, hwarehouse, _, htenant, rfl⟩

/-- The token of a step is good for it until it expires. -/
theorem verifyTyp_sign {claims : Claims} {expiresAt : Timestamp} {expected : String}
    {ids : Id × Id} :
    verifyTyp crypto now (crypto.sign claims expiresAt) expected = .ok ids ↔
      now < expiresAt ∧ claims.typ = some expected ∧ claims.warehouseId = some ids.1 ∧
        claims.tenantId = some ids.2 := by
  rw [verifyTyp_ok, crypto.verify_sign]
  by_cases hlive : now < expiresAt
  · simp [hlive]
  · simp [hlive]

variable (crypto) in
theorem verifyTyp_claims {expected : String} {warehouseId tenantId : Id}
    {expiresAt : Timestamp} (hlive : now < expiresAt) :
    verifyTyp crypto now (crypto.sign
      { typ := some expected, warehouseId := some warehouseId, tenantId := some tenantId }
      expiresAt) expected = .ok (warehouseId, tenantId) :=
  verifyTyp_sign.mpr ⟨hlive, rfl, rfl, rfl⟩

/-- A warehouse with a new password. -/
def AccessDb.withPassword (crypto : Crypto τ) (db : AccessDb) (warehouseId : Id)
    (newPassword : String) : AccessDb :=
  { db with
    warehouses := db.warehouses.modify warehouseId fun w =>
      { w with passwordHash := some (crypto.hash newPassword), mustChangePassword := false } }

theorem changeWarehousePassword_ok {changeToken : τ} {newPassword : String}
    {step : WarehouseStep τ} :
    changeWarehousePassword crypto now changeToken newPassword db = .ok (step, db') ↔
      ∃ ids updated, verifyTyp crypto now changeToken typChangePwd = .ok ids ∧
        isStrongPassword newPassword = true ∧ db.warehouses.find ids.1 = some updated ∧
          db' = db.withPassword crypto ids.1 newPassword ∧
            step = selectStepResponse crypto now updated.id updated.tenantId db' := by
  unfold changeWarehousePassword
  simp only [bind_ok, orRefuse_ok, refuseIf_ok, Bool.not_eq_false]
  constructor
  · rintro ⟨ids, hverify, _, hstrong, updated, hfind, hstep⟩
    cases hstep
    exact ⟨ids, updated, hverify, hstrong, hfind, rfl, rfl⟩
  · rintro ⟨ids, updated, hverify, hstrong, hfind, rfl, rfl⟩
    exact ⟨ids, hverify, (), hstrong, updated, hfind, rfl⟩

/-- A user whom the roster of a warehouse lists. -/
def Rostered (db : AccessDb) (warehouseId tenantId : Id) (manager : Account) : Prop :=
  db.users.find manager.id = some manager ∧
    ∃ a ∈ db.managerAssignments.rows, a.managerId = manager.id ∧
      isRostered db warehouseId tenantId a = true

theorem selectManager_ok {selectToken : τ} {managerUserId : Id} {session : Session τ} :
    selectManager crypto now selectToken managerUserId db = .ok session ↔
      ∃ ids manager, verifyTyp crypto now selectToken typSelectMgr = .ok ids ∧
        Rostered db ids.1 ids.2 manager ∧ manager.id = managerUserId ∧
          session =
            { accessToken := crypto.sign
                { typ := some typAccess, sub := some manager.id, email := some manager.email
                  roles := some manager.roles, tenantId := some manager.tenantId
                  warehouseId := some ids.1 } (now + accessTtl)
              userId := manager.id
              email := manager.email
              roles := manager.roles
              tenantId := manager.tenantId
              warehouseId := some ids.1 } := by
  unfold selectManager Rostered
  simp only [bind_ok, orRefuse_ok]
  constructor
  · rintro ⟨ids, hverify, a, ha, manager, hfind, hsession⟩
    have hid : manager.id = a.managerId := Table.key_of_find hfind
    have hsome := List.find?_some ha
    simp only [decide_eq_true_eq] at hsome
    refine ⟨ids, manager, hverify, ⟨?_, a, List.mem_of_find?_eq_some ha, hid.symm, hsome.2⟩, ?_,
      (Except.ok.inj hsession).symm⟩
    · rw [hid]
      exact hfind
    · exact hid.trans hsome.1
  · rintro ⟨ids, manager, hverify, ⟨hfind, a, ha, hmanager, hroster⟩, rfl, rfl⟩
    -- some assignment is found, and it is one of this manager
    have hsome : (db.managerAssignments.rows.find? fun a =>
        a.managerId = manager.id ∧ isRostered db ids.1 ids.2 a).isSome := by
      rw [List.find?_isSome]
      exact ⟨a, ha, by simp [hmanager, hroster]⟩
    obtain ⟨a', ha'⟩ := Option.isSome_iff_exists.mp hsome
    have hid := List.find?_some ha'
    simp only [decide_eq_true_eq] at hid
    exact ⟨ids, hverify, a', ha', manager, hid.1 ▸ hfind, rfl⟩

end Inversion

end SecureStore.Access
