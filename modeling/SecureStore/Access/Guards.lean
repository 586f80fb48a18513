/-
# Guards and scopes

What a bearer token gives access to. The strategy behind the guard accepts every
token that verifies and passes its claims on; roles and scopes are computed from
them. A token without roles and without a subject is scoped to `undefined`, the
same value that stands for the unrestricted view of a privileged caller.
-/

import SecureStore.Access.SignIn

namespace SecureStore.Access

open SecureStore.Foundation SecureStore.Inventory SecureStore.Services

/-- The caller of a request, as the strategy reads it off the claims. -/
structure RequestUser where
  id : Option Id
  email : Option String
  roles : Option (List String)
  tenantId : Option Id
  deriving DecidableEq

/-- `JwtStrategy.validate` -/
def validate (payload : Claims) : RequestUser where
  id := payload.sub
  email := payload.email
  roles := payload.roles
  tenantId := payload.tenantId

/-- The caller that the guard lets pass. -/
def jwtAuthGuard {τ : Type} (crypto : Crypto τ) (now : Timestamp) (bearer : Option τ) :
    Option RequestUser :=
  (bearer.bind (crypto.verify now)).map validate

/-- `PRIVILEGED_ROLES` -/
def privilegedRoles : List String := ["TENANT_ADMIN", "GLOBAL_ADMIN", "WAREHOUSE_MANAGER"]

/-- The role of the X-Active-Role header, if the caller has it, and all roles otherwise. -/
def effectiveRoles (actualRoles : Option (List String)) (activeRole : Option String) :
    List String :=
  match actualRoles with
  | none => []
  | some roles =>
      match activeRole with
      | some role => if role ≠ "" ∧ role ∈ roles then [role] else roles
      | none => roles

/-- The client to filter by, `none` for an unrestricted view. -/
def forClientScope (roles : Option (List String)) (userId : Option Id)
    (activeRole : Option String) : Option Id :=
  if (effectiveRoles roles activeRole).any (· ∈ privilegedRoles) then none else userId

/-- The `ClientScopeId` of a request. -/
def clientScopeId (user : RequestUser) (activeRole : Option String) : Option Id :=
  forClientScope user.roles user.id activeRole

section Scopes

variable {roles : List String} {activeRole : Option String}

theorem effectiveRoles_subset : effectiveRoles (some roles) activeRole ⊆ roles := by
  intro role hrole
  unfold effectiveRoles at hrole
  cases activeRole with
  | none => exact hrole
  | some active =>
      by_cases hactive : active ≠ "" ∧ active ∈ roles
      · simp only [if_pos hactive, List.mem_singleton] at hrole
        exact hrole ▸ hactive.2
      · simpa only [if_neg hactive] using hrole

/-- A caller with an id is unrestricted only by a privileged role. -/
theorem scope_privileged {id : Id}
    (hscope : forClientScope (some roles) (some id) activeRole = none) :
    ∃ role ∈ roles, role ∈ privilegedRoles := by
  unfold forClientScope at hscope
  split at hscope
  · rename_i hany
    obtain ⟨role, hrole, hprivileged⟩ := List.any_eq_true.mp hany
    exact ⟨role, effectiveRoles_subset hrole, by simpa using hprivileged⟩
  · cases hscope

end Scopes

/-- A call of a sign-in endpoint. -/
inductive SignInCall (τ : Type) where
  | login (email password : String)
  | warehouseLogin (email password : String)
  | changeWarehousePassword (changeToken : τ) (newPassword : String)
  | selectManager (selectToken : τ) (managerUserId : Id)

/-- What a token was signed for. -/
inductive TokenKind where
  | login
  | changePassword
  | selectManager
  | session
  deriving DecidableEq

/-- The endpoints that accept a token. -/
inductive Endpoint where
  | changePassword
  | selectManager
  | guarded
  deriving DecidableEq

namespace TokenKind

/-- A token for one step of the warehouse protocol. -/
def Intermediate (kind : TokenKind) : Prop := kind = .changePassword ∨ kind = .selectManager

instance : DecidablePred Intermediate := fun _ => inferInstanceAs (Decidable (_ ∨ _))

/-- The endpoint a token gives access to. -/
def gate : TokenKind → Endpoint
  | login => .guarded
  | changePassword => .changePassword
  | selectManager => .selectManager
  | session => .guarded

/-- The claims of a token of a kind. -/
def Carries : TokenKind → Claims → Prop
  | login, claims => claims.typ = none ∧ claims.sub ≠ none ∧ claims.roles ≠ none
  | changePassword, claims => claims.typ = some typChangePwd
  | selectManager, claims => claims.typ = some typSelectMgr
  | session, claims => claims.typ = some typAccess ∧ claims.sub ≠ none ∧ claims.roles ≠ none

end TokenKind

section Runs

variable {τ : Type} (crypto : Crypto τ)

/-- The token of a step of the warehouse protocol. -/
def WarehouseStep.minted : WarehouseStep τ → TokenKind × τ
  | mustChangePassword _ changeToken => (.changePassword, changeToken)
  | selectManager _ _ selectToken => (.selectManager, selectToken)

/-- The tokens a call signs and the tables it leaves. -/
def SignInCall.run (now : Timestamp) (db : AccessDb) :
    SignInCall τ → List (TokenKind × τ) × AccessDb
  | login email password =>
      match Access.login crypto now email password db with
      | .ok session => ([(.login, session.accessToken)], db)
      | .error _ => ([], db)
  | warehouseLogin email password =>
      match Access.warehouseLogin crypto now email password db with
      | .ok step => ([step.minted], db)
      | .error _ => ([], db)
  | changeWarehousePassword changeToken newPassword =>
      match Access.changeWarehousePassword crypto now changeToken newPassword db with
      | .ok (step, db') => ([step.minted], db')
      | .error _ => ([], db)
  | selectManager selectToken managerUserId =>
      match Access.selectManager crypto now selectToken managerUserId db with
      | .ok session => ([(.session, session.accessToken)], db)
      | .error _ => ([], db)

/-- Runs of sign-in calls at any times, between which other requests may rewrite the
tables, with the tokens signed so far. -/
inductive SignInRun (s : AccessDb) : List (TokenKind × τ) → AccessDb → Prop where
  | start : SignInRun s [] s
  | call {minted : List (TokenKind × τ)} {s' : AccessDb} (prior : SignInRun s minted s')
      (now : Timestamp) (request : SignInCall τ) :
      SignInRun s (minted ++ (request.run crypto now s').1) (request.run crypto now s').2
  | other {minted : List (TokenKind × τ)} {s' : AccessDb} (prior : SignInRun s minted s')
      (s'' : AccessDb) : SignInRun s minted s''

end Runs

/-- An endpoint accepts a token. -/
def Endpoint.Honours {τ : Type} (crypto : Crypto τ) (now : Timestamp) (token : τ) :
    Endpoint → Prop
  | changePassword => ∃ ids, verifyTyp crypto now token typChangePwd = .ok ids
  | selectManager => ∃ ids, verifyTyp crypto now token typSelectMgr = .ok ids
  | guarded => ∃ user, jwtAuthGuard crypto now (some token) = some user

/-- A token opens what it was signed for: the guard passes access tokens only, an
intermediate token is honoured by its own endpoint only, and the view of a caller is
unrestricted by a privileged role only. -/
structure Separated {τ : Type} (crypto : Crypto τ) (now : Timestamp) (kind : TokenKind)
    (token : τ) : Prop where
  access : ∀ user, jwtAuthGuard crypto now (some token) = some user →
    kind = .login ∨ kind = .session
  step : kind.Intermediate → ∀ endpoint : Endpoint, endpoint.Honours crypto now token →
    endpoint = kind.gate
  scope : ∀ user activeRole, jwtAuthGuard crypto now (some token) = some user →
    clientScopeId user activeRole = none →
      ∃ roles, user.roles = some roles ∧ ∃ role ∈ roles, role ∈ privilegedRoles

section Separation

variable {τ : Type} {crypto : Crypto τ} {now : Timestamp} {db : AccessDb}

/-- A call signs tokens with the claims of their kind. -/
theorem SignInCall.run_carries {request : SignInCall τ} {kind : TokenKind} {token : τ}
    (hmem : (kind, token) ∈ (request.run crypto now db).1) :
    ∃ claims expiresAt, token = crypto.sign claims expiresAt ∧ kind.Carries claims := by
  cases request with
  | login email password =>
      simp only [run] at hmem
      split at hmem
      · rename_i session hlogin
        obtain ⟨user, -, -, -, -, rfl⟩ := login_ok hlogin
        cases List.mem_singleton.mp hmem
        exact ⟨_, _, rfl, rfl, nofun, nofun⟩
      · cases hmem
  | warehouseLogin email password =>
      simp only [run] at hmem
      split at hmem
      · rename_i step hlogin
        obtain ⟨wh, -, rfl⟩ := warehouseLogin_ok.mp hlogin
        have hminted := List.mem_singleton.mp hmem
        split at hminted
        · cases hminted
          exact ⟨_, _, rfl, rfl⟩
        · cases hminted
          exact ⟨_, _, rfl, rfl⟩
      · cases hmem
  | changeWarehousePassword changeToken newPassword =>
      simp only [run] at hmem
      split at hmem
      · rename_i step db' hchange
        obtain ⟨ids, updated, -, -, -, -, rfl⟩ := changeWarehousePassword_ok.mp hchange
        cases List.mem_singleton.mp hmem
        exact ⟨_, _, rfl, rfl⟩
      · cases hmem
  | selectManager selectToken managerUserId =>
      simp only [run] at hmem
      split at hmem
      · rename_i session hselect
        obtain ⟨ids, manager, -, -, -, rfl⟩ := selectManager_ok.mp hselect
        cases List.mem_singleton.mp hmem
        exact ⟨_, _, rfl, rfl, nofun, nofun⟩
      · cases hmem

/-- Every token of a run was signed with the claims of its kind. -/
theorem SignInRun.carries {s s' : AccessDb} {minted : List (TokenKind × τ)}
    (hrun : SignInRun crypto s minted s') {kind : TokenKind} {token : τ}
    (hmem : (kind, token) ∈ minted) :
    ∃ claims expiresAt, token = crypto.sign claims expiresAt ∧ kind.Carries claims := by
  induction hrun with
  | start => cases hmem
  | call prior now request ih =>
      rcases List.mem_append.mp hmem with hold | hnew
      · exact ih hold
      · exact SignInCall.run_carries hnew
  | other prior s'' ih => exact ih hmem

theorem jwtAuthGuard_sign {claims : Claims} {expiresAt : Timestamp} {user : RequestUser} :
    jwtAuthGuard crypto now (some (crypto.sign claims expiresAt)) = some user ↔
      now < expiresAt ∧ validate claims = user := by
  unfold jwtAuthGuard
  rw [Option.bind_some, crypto.verify_sign]
  split <;> simp [*]

end Separation

/-- In every run, a token opens no more than what it was signed for exactly if it is not an
intermediate token that has not expired. -/
theorem token_separation_iff {τ : Type} (crypto : Crypto τ) {s s' : AccessDb}
    {minted : List (TokenKind × τ)} (hrun : SignInRun crypto s minted s') {kind : TokenKind}
    {token : τ} (hmem : (kind, token) ∈ minted) (now : Timestamp) :
    Separated crypto now kind token ↔
      ¬ (kind.Intermediate ∧ ∃ claims, crypto.verify now token = some claims) := by
  obtain ⟨claims, expiresAt, rfl, hcarries⟩ := hrun.carries hmem
  constructor
  · rintro hseparated ⟨hintermediate, claims', hverify⟩
    -- the guard lets every token pass that verifies
    have hguard : jwtAuthGuard crypto now (some (crypto.sign claims expiresAt)) =
        some (validate claims') := by
      rw [jwtAuthGuard, Option.bind_some, hverify, Option.map_some]
    have haccess := hseparated.access _ hguard
    rcases hintermediate with rfl | rfl
    · simp at haccess
    · simp at haccess
  · intro hadmits
    rw [crypto.verify_sign] at hadmits
    have hkind : ∀ user,
        jwtAuthGuard crypto now (some (crypto.sign claims expiresAt)) = some user →
          kind = .login ∨ kind = .session := by
      intro user hguard
      obtain ⟨hlive, -⟩ := jwtAuthGuard_sign.mp hguard
      rw [if_pos hlive] at hadmits
      cases kind with
      | login => exact .inl rfl
      | session => exact .inr rfl
      | changePassword => exact absurd ⟨.inl rfl, _, rfl⟩ hadmits
      | selectManager => exact absurd ⟨.inr rfl, _, rfl⟩ hadmits
    constructor
    · exact hkind
    · intro hintermediate endpoint hhonours
      -- an intermediate token has expired, and no endpoint accepts it
      have hexpired : ¬ now < expiresAt := by
        intro hlive
        rw [if_pos hlive] at hadmits
        exact hadmits ⟨hintermediate, _, rfl⟩
      cases endpoint with
      | changePassword =>
          obtain ⟨ids, hverify⟩ := hhonours
          exact absurd (verifyTyp_sign.mp hverify).1 hexpired
      | selectManager =>
          obtain ⟨ids, hverify⟩ := hhonours
          exact absurd (verifyTyp_sign.mp hverify).1 hexpired
      | guarded =>
          obtain ⟨user, hguard⟩ := hhonours
          exact absurd (jwtAuthGuard_sign.mp hguard).1 hexpired
    · intro user activeRole hguard hscope
      have hids : claims.sub ≠ none ∧ claims.roles ≠ none := by
        rcases hkind user hguard with rfl | rfl
        · exact hcarries.2
        · exact hcarries.2
      obtain ⟨id, hid⟩ := Option.ne_none_iff_exists'.mp hids.1
      obtain ⟨roles, hroles⟩ := Option.ne_none_iff_exists'.mp hids.2
      obtain ⟨-, rfl⟩ := jwtAuthGuard_sign.mp hguard
      unfold clientScopeId validate at hscope
      rw [hid, hroles] at hscope
      exact ⟨roles, hroles, scope_privileged hscope⟩

/-- Tokens as their claims and expiry, and passwords as they are. -/
def plainCrypto : Crypto (Claims × Timestamp) where
  sign claims expiresAt := (claims, expiresAt)
  verify now token := if now < token.2 then some token.1 else none
  compare password passwordHash := password = passwordHash
  hash password := password
  verify_sign _ _ _ := rfl

/-- Manager 12 of warehouse 50, of external tenant 1 with the given status. -/
def sampleAccess (status : TenantStatus) : AccessDb where
  tenants := ⟨[⟨1, .external, status⟩], by simp⟩
  users := ⟨[⟨12, "wm@tenant", "Manager1", .active, 1, ["WAREHOUSE_MANAGER"]⟩], by simp⟩
  warehouses := ⟨[⟨50, 1, some "wh@tenant", some "Warehouse1", false, .active⟩], by simp⟩
  managerAssignments := ⟨[⟨70, 1, 12, 50, none⟩], by simp⟩

/-- The token that the sign-in at warehouse 50 hands out for the choice of a manager. -/
def sampleSelectToken : Claims × Timestamp :=
  ({ typ := some typSelectMgr, warehouseId := some 50, tenantId := some 1 }, intermediateTtl)

theorem sampleSelectToken_minted : SignInRun plainCrypto (sampleAccess .active)
    [(.selectManager, sampleSelectToken)] (sampleAccess .active) :=
  .call .start 0 (.warehouseLogin "wh@tenant" "Warehouse1")

/-- The token for the choice of a manager passes the guard, without a role and with an
unrestricted view. -/
theorem intermediate_token_unrestricted :
    ¬ ∀ (τ : Type) (crypto : Crypto τ) (s s' : AccessDb) (minted : List (TokenKind × τ)),
      SignInRun crypto s minted s' → ∀ (kind : TokenKind) (token : τ), (kind, token) ∈ minted →
        ∀ now : Timestamp, Separated crypto now kind token := by
  intro hclaim
  have hseparated := hclaim _ _ _ _ _ sampleSelectToken_minted .selectManager sampleSelectToken
    (List.mem_singleton.mpr rfl) 0
  obtain ⟨roles, hroles, -⟩ := hseparated.scope _ none rfl rfl
  cases hroles

/-- The token for the choice of a manager is separated once it has expired. -/
theorem token_separation_sample :
    Separated plainCrypto intermediateTtl .selectManager sampleSelectToken ↔
      ¬ (TokenKind.Intermediate .selectManager ∧
        ∃ claims, plainCrypto.verify intermediateTtl sampleSelectToken = some claims) :=
  token_separation_iff plainCrypto sampleSelectToken_minted (List.mem_singleton.mpr rfl)
    intermediateTtl

end SecureStore.Access
