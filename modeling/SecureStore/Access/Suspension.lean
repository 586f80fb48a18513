/-
# Suspended tenants and their staff

A suspended external tenant's staff is refused at the personal sign-in. The warehouse
protocol never looks at the tenant: whoever has the warehouse's password and is on its
roster gets a session, and these are exactly the sessions the suspension misses.
-/

import SecureStore.Access.Guards

namespace SecureStore.Access

open SecureStore.Foundation SecureStore.Inventory SecureStore.Services

/-- An external tenant that is suspended. -/
def Suspended (db : AccessDb) (tenantId : Id) : Prop :=
  ∃ t, db.tenants.find tenantId = some t ∧ t.type = .external ∧ t.status = .suspended

/-- The roles of staff who hold no role that is exempt from a suspension. -/
def StaffOnly (roles : List String) : Prop :=
  ("WAREHOUSE_MANAGER" ∈ roles ∨ "TENANT_ADMIN" ∈ roles) ∧
    "CLIENT" ∉ roles ∧ "FINANCIER" ∉ roles ∧ "GLOBAL_ADMIN" ∉ roles

/-- A session for the staff of a tenant. -/
def Session.ForStaff {τ : Type} (session : Session τ) (tenantId : Id) : Prop :=
  session.tenantId = tenantId ∧ StaffOnly session.roles

/-- A whole sign-in: at an account, or at a warehouse with a manager to be picked and,
where one is asked for, a new password. -/
inductive SignIn where
  | account (email password : String)
  | warehouse (email password : String) (newPassword : Option String) (managerUserId : Id)

/-- When the calls of a sign-in are made, and what other requests do to the tables
between them. -/
structure Meanwhile where
  login : Timestamp
  change : Timestamp
  select : Timestamp
  afterLogin : AccessDb → AccessDb
  afterChange : AccessDb → AccessDb

section Calls

variable {τ : Type} (crypto : Crypto τ) (m : Meanwhile) (db : AccessDb)

/-- The calls after the password of the warehouse is accepted. -/
def SignIn.pick (newPassword : Option String) (managerUserId : Id) :
    WarehouseStep τ → Option (Session τ)
  | .selectManager _ _ selectToken =>
      (selectManager crypto m.select selectToken managerUserId (m.afterLogin db)).toOption
  | .mustChangePassword _ changeToken => do
      let newPassword ← newPassword
      match changeWarehousePassword crypto m.change changeToken newPassword (m.afterLogin db) with
      | .ok (.selectManager _ _ selectToken, db') =>
          (selectManager crypto m.select selectToken managerUserId (m.afterChange db')).toOption
      | _ => none

/-- The session that a sign-in started on these tables ends with. -/
def SignIn.run : SignIn → Option (Session τ)
  | account email password => (Access.login crypto m.login email password db).toOption
  | warehouse email password newPassword managerUserId => do
      let step ← (warehouseLogin crypto m.login email password db).toOption
      pick crypto m db newPassword managerUserId step

/-- The roster that a manager of warehouse wh is picked from, once all tokens and the new
password are accepted. -/
def Roster (wh : Warehouse) (newPassword : Option String) (manager : Account) : Prop :=
  if wh.mustChangePassword then
    ∃ password updated, newPassword = some password ∧ isStrongPassword password = true ∧
      m.change < m.login + intermediateTtl ∧ m.select < m.change + intermediateTtl ∧
      (m.afterLogin db).warehouses.find wh.id = some updated ∧
      Rostered (m.afterChange ((m.afterLogin db).withPassword crypto wh.id password)) updated.id
        updated.tenantId manager
  else m.select < m.login + intermediateTtl ∧
    Rostered (m.afterLogin db) wh.id wh.tenantId manager

/-- A sign-in at the door of a warehouse by staff of the tenant. -/
def SignIn.ByStaff (tenantId : Id) : SignIn → Prop
  | account _ _ => False
  | warehouse email password newPassword managerUserId =>
      ∃ wh manager, Door crypto db email password wh ∧ Roster crypto m db wh newPassword manager ∧
        manager.id = managerUserId ∧ manager.tenantId = tenantId ∧ StaffOnly manager.roles

end Calls

section Sessions

variable {τ : Type} {crypto : Crypto τ} {m : Meanwhile} {db : AccessDb}

theorem toOption_eq_some_iff {ε α : Type} {x : Except ε α} {a : α} :
    x.toOption = some a ↔ x = .ok a := by
  cases x <;> simp [Except.toOption]

/-- The personal sign-in refuses the staff of a suspended tenant. -/
theorem login_not_staff {now : Timestamp} {email password : String} {tenantId : Id}
    {session : Session τ} (hsuspended : Suspended db tenantId)
    (hlogin : login crypto now email password db = .ok session) :
    ¬ session.ForStaff tenantId := by
  obtain ⟨user, -, -, -, hopen, rfl⟩ := login_ok hlogin
  rintro ⟨rfl, -, hclient, hfinancier, hadmin⟩
  obtain ⟨t, hfind, htype, hstatus⟩ := hsuspended
  apply hopen
  refine ⟨fun hplatform => hplatform.elim hfinancier hadmin, hclient, ?_⟩
  rw [hfind]
  simp [htype, hstatus]

/-- The choice of a manager ends with a session for the tenant's staff exactly if the token
is still good and the manager is on the roster and staff of the tenant. -/
theorem selectManager_staff {now issued : Timestamp} {warehouseId warehouseTenantId : Id}
    {managerUserId tenantId : Id} :
    (∃ session, selectManager crypto now
        (crypto.sign { typ := some typSelectMgr, warehouseId := some warehouseId
                       tenantId := some warehouseTenantId } (issued + intermediateTtl))
        managerUserId db = .ok session ∧ session.ForStaff tenantId) ↔
      now < issued + intermediateTtl ∧ ∃ manager,
        Rostered db warehouseId warehouseTenantId manager ∧ manager.id = managerUserId ∧
          manager.tenantId = tenantId ∧ StaffOnly manager.roles := by
  constructor
  · rintro ⟨session, hselect, hstaff⟩
    obtain ⟨ids, manager, hverify, hroster, hid, rfl⟩ := selectManager_ok.mp hselect
    obtain ⟨hlive, -, hwarehouse, htenant⟩ := verifyTyp_sign.mp hverify
    obtain rfl := Option.some_inj.mp hwarehouse
    obtain rfl := Option.some_inj.mp htenant
    exact ⟨hlive, manager, hroster, hid, hstaff⟩
  · rintro ⟨hlive, manager, hroster, hid, hstaff⟩
    have hselect := selectManager_ok.mpr
      ⟨_, manager, verifyTyp_claims crypto hlive, hroster, hid, rfl⟩
    exact ⟨_, hselect, hstaff⟩

/-- What follows the password of warehouse wh ends with a session for the tenant's staff
exactly if the manager can be picked from the roster and is staff of the tenant. -/
theorem pick_staff {wh : Warehouse} {newPassword : Option String} {managerUserId tenantId : Id} :
    (∃ session, SignIn.pick crypto m db newPassword managerUserId
        (if wh.mustChangePassword then
            .mustChangePassword wh.id (crypto.sign
              { typ := some typChangePwd, warehouseId := some wh.id
                tenantId := some wh.tenantId } (m.login + intermediateTtl))
          else selectStepResponse crypto m.login wh.id wh.tenantId db) = some session ∧
        session.ForStaff tenantId) ↔
      ∃ manager, Roster crypto m db wh newPassword manager ∧ manager.id = managerUserId ∧
        manager.tenantId = tenantId ∧ StaffOnly manager.roles := by
  unfold Roster
  by_cases hmust : wh.mustChangePassword = true
  · simp only [hmust, if_true, SignIn.pick, Option.bind_eq_some_iff, Option.bind_eq_bind]
    constructor
    · rintro ⟨session, ⟨password, hpassword, hchange⟩, hstaff⟩
      split at hchange
      · rename_i warehouseId managers selectToken db' hok
        obtain ⟨ids, updated, hverify, hstrong, hfind, rfl, hstep⟩ :=
          changeWarehousePassword_ok.mp hok
        obtain ⟨hlive, -, hwarehouse, htenant⟩ := verifyTyp_sign.mp hverify
        have hid : ids.1 = wh.id := (Option.some_inj.mp hwarehouse).symm
        rw [hid] at hfind hchange hstep
        cases hstep
        have hselect := toOption_eq_some_iff.mp hchange
        obtain ⟨hlive', manager, hroster, hmanager⟩ :=
          selectManager_staff.mp ⟨session, hselect, hstaff⟩
        exact ⟨manager,
          ⟨password, updated, hpassword, hstrong, hlive, hlive', hfind, hroster⟩, hmanager⟩
      · cases hchange
    · rintro ⟨manager, ⟨password, updated, hpassword, hstrong, hlive, hlive', hfind, hroster⟩,
        hmanager⟩
      obtain ⟨session, hselect, hstaff⟩ :=
        selectManager_staff.mpr ⟨hlive', manager, hroster, hmanager⟩
      refine ⟨session, ⟨password, hpassword, ?_⟩, hstaff⟩
      rw [changeWarehousePassword_ok.mpr ⟨(wh.id, wh.tenantId), updated,
        verifyTyp_claims crypto hlive, hstrong, hfind, rfl, rfl⟩]
      exact toOption_eq_some_iff.mpr hselect
  · simp only [hmust, Bool.false_eq_true, if_false, SignIn.pick, selectStepResponse,
      toOption_eq_some_iff]
    rw [selectManager_staff]
    constructor
    · rintro ⟨hlive, manager, hroster, hmanager⟩
      exact ⟨manager, ⟨hlive, hroster⟩, hmanager⟩
    · rintro ⟨manager, ⟨hlive, hroster⟩, hmanager⟩
      exact ⟨hlive, manager, hroster, hmanager⟩

end Sessions

/-- A sign-in that starts while the external tenant is suspended ends with no session for
its staff exactly if it is not made by that staff at the door of a warehouse. -/
theorem suspension_iff {τ : Type} (crypto : Crypto τ) (m : Meanwhile) {db : AccessDb}
    {tenantId : Id} (hsuspended : Suspended db tenantId) (signIn : SignIn) :
    (∀ session, signIn.run crypto m db = some session → ¬ session.ForStaff tenantId) ↔
      ¬ signIn.ByStaff crypto m db tenantId := by
  cases signIn with
  | account email password =>
      refine iff_of_true ?_ id
      intro session hrun
      exact login_not_staff hsuspended (toOption_eq_some_iff.mp hrun)
  | warehouse email password newPassword managerUserId =>
      rw [← not_iff_not, not_not]
      simp only [not_forall, not_not, SignIn.run, SignIn.ByStaff, Option.bind_eq_bind,
        Option.bind_eq_some_iff, toOption_eq_some_iff, exists_prop]
      constructor
      · rintro ⟨session, ⟨step, hlogin, hpick⟩, hstaff⟩
        obtain ⟨wh, hdoor, rfl⟩ := warehouseLogin_ok.mp hlogin
        obtain ⟨manager, hmanager⟩ := pick_staff.mp ⟨session, hpick, hstaff⟩
        exact ⟨wh, manager, hdoor, hmanager⟩
      · rintro ⟨wh, manager, hdoor, hmanager⟩
        obtain ⟨session, hpick, hstaff⟩ := pick_staff.mpr ⟨manager, hmanager⟩
        exact ⟨session, ⟨_, warehouseLogin_ok.mpr ⟨wh, hdoor, rfl⟩, hpick⟩, hstaff⟩

/-- Three calls in a row with nothing in between. -/
def atOnce : Meanwhile := ⟨0, 1, 2, id, id⟩

theorem sampleAccess_suspended : Suspended (sampleAccess .suspended) 1 := ⟨_, rfl, rfl, rfl⟩

/-- Manager 12 of the suspended tenant 1 signs in at warehouse 50. -/
theorem suspended_staff_signed_in :
    ¬ ∀ (τ : Type) (crypto : Crypto τ) (m : Meanwhile) (db : AccessDb) (tenantId : Id),
      Suspended db tenantId → ∀ (signIn : SignIn) (session : Session τ),
        signIn.run crypto m db = some session → ¬ session.ForStaff tenantId := by
  intro hclaim
  have hnone := hclaim _ plainCrypto atOnce _ 1 sampleAccess_suspended
    (.warehouse "wh@tenant" "Warehouse1" none 12) _ rfl
  apply hnone
  unfold Session.ForStaff StaffOnly
  decide +kernel

/-- The same manager is refused at the personal sign-in. -/
theorem suspension_sample :
    (∀ session, SignIn.run plainCrypto atOnce (sampleAccess .suspended)
        (.account "wm@tenant" "Manager1") = some session → ¬ session.ForStaff 1) ↔
      ¬ SignIn.ByStaff plainCrypto atOnce (sampleAccess .suspended) 1
        (.account "wm@tenant" "Manager1") :=
  suspension_iff plainCrypto atOnce sampleAccess_suspended _

end SecureStore.Access
