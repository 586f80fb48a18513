/-
# Inheriting a warehouse

Managers share the password of their warehouse. Whoever is newly assigned inherits it, and the
flag `mustChangePassword` is to force a rotation at the next sign-in, so that what the prior
team knew no longer opens the warehouse. Of the requests that assign managers only one raises
the flag.
-/

import SecureStore.Access.Assignments

namespace SecureStore.Access

open SecureStore.Foundation SecureStore.Inventory SecureStore.Services

/-- The shared password of a warehouse leads straight to its roster. -/
def SignInOpen (db : AccessDb) (warehouseId : Id) : Prop :=
  ∃ wh ∈ db.warehouses.find warehouseId, wh.mustChangePassword = false ∧ wh.status = .active ∧
    wh.email ≠ none ∧ wh.passwordHash.any (· ≠ "") = true

instance (db : AccessDb) (warehouseId : Id) : Decidable (SignInOpen db warehouseId) :=
  match h : db.warehouses.find warehouseId with
  | none => isFalse (by simp [SignInOpen, h])
  | some wh => decidable_of_iff (wh.mustChangePassword = false ∧ wh.status = .active ∧
      wh.email ≠ none ∧ wh.passwordHash.any (· ≠ "") = true) (by simp [SignInOpen, h])

/-- A request made a new assignment to a warehouse. -/
def Inherits {ι : Type} (t : Transition ι AccessDb) (warehouseId : Id) : Prop :=
  ∃ a ∈ t.after.managerAssignments.rows, a.warehouseId = warehouseId ∧ a.unassignedAt = none ∧
    a ∉ t.before.managerAssignments.rows

instance {ι : Type} (t : Transition ι AccessDb) (warehouseId : Id) :
    Decidable (Inherits t warehouseId) :=
  List.decidableBEx _ _

/-- The request that raises the flag of the warehouse whose managers it assigns. -/
def StaffRequest.ForcesRotation {τ : Type} : StaffRequest τ → Prop
  | .assignManagers .. => True
  | _ => False

instance {τ : Type} (request : StaffRequest τ) : Decidable request.ForcesRotation :=
  match request with
  | .assignManagers .. => inferInstanceAs (Decidable True)
  | .createManager .. | .createWarehouse .. | .assignWarehouses .. | .unassignWarehouse ..
  | .setWarehouseCredentials .. | .warehouseLogin .. | .changeWarehousePassword ..
  | .selectManager .. => inferInstanceAs (Decidable False)

section Requests

variable {τ : Type} (crypto : Crypto τ)

/-- A change of the password of a warehouse. -/
def StaffRequest.Rotates (warehouseId : Id) : StaffRequest τ → Prop
  | .changeWarehousePassword now changeToken _ =>
      ∃ tenantId, verifyTyp crypto now changeToken typChangePwd = .ok (warehouseId, tenantId)
  | _ => False

/-- However a run goes on after a request, as long as the password of a warehouse is not
changed, no sign-in with a password from before the request leads to its roster. -/
def ClosedUntilRotated (t : Transition (StaffRequest τ) AccessDb) (warehouseId : Id) : Prop :=
  ∀ trail db, Succession (StaffRequest.call crypto) t.after trail db →
    (∀ t' ∈ trail, ¬ t'.label.Rotates crypto warehouseId) →
      ∀ now email password managers selectToken,
        (∃ wh ∈ t.before.warehouses.find warehouseId, ∃ passwordHash ∈ wh.passwordHash,
          crypto.compare password passwordHash = true) →
        warehouseLogin crypto now email password db ≠
          .ok (.selectManager warehouseId managers selectToken)

/-- No two warehouses have one email, and every stored hash is the hash of a password. -/
structure Credentialed (db : AccessDb) : Prop where
  emails : ∀ wh ∈ db.warehouses, ∀ wh' ∈ db.warehouses, wh.email ≠ none →
    wh.email = wh'.email → wh = wh'
  hashes : ∀ wh ∈ db.warehouses, ∀ passwordHash ∈ wh.passwordHash,
    ∃ password, passwordHash = crypto.hash password

end Requests

section Steps

variable {τ : Type} {crypto : Crypto τ} {db db' : AccessDb} {request : StaffRequest τ}
  {warehouseId : Id}

theorem signInOpen_congr (h : db'.warehouses.find warehouseId = db.warehouses.find warehouseId) :
    SignInOpen db' warehouseId ↔ SignInOpen db warehouseId := by
  unfold SignInOpen
  rw [h]

/-- A warehouse whose flag is up is not open. -/
theorem not_signInOpen {wh : Warehouse} (hfind : db.warehouses.find warehouseId = some wh)
    (hflag : wh.mustChangePassword = true) : ¬ SignInOpen db warehouseId := by
  rintro ⟨wh', hwh', hdown, -⟩
  rw [hfind] at hwh'
  cases hwh'
  rw [hflag] at hdown
  cases hdown

/-- After an update that raises the flag of a warehouse, it is not open. -/
theorem not_signInOpen_modify {f : Warehouse → Warehouse}
    {hf : ∀ wh, Keyed.key (f wh) = Keyed.key wh} (hflag : ∀ wh, (f wh).mustChangePassword = true)
    (hdb : db'.warehouses = db.warehouses.modify warehouseId f hf) :
    ¬ SignInOpen db' warehouseId := by
  cases hfind : db.warehouses.find warehouseId with
  | none =>
      rintro ⟨wh, hwh, -⟩
      rw [hdb, Table.find_modify, if_pos rfl, hfind] at hwh
      cases hwh
  | some wh =>
      have hfind' : db'.warehouses.find warehouseId = some (f wh) := by
        rw [hdb]
        exact Table.find_modify_self hfind
      exact not_signInOpen hfind' (hflag wh)

/-- Only a change of its password opens a warehouse. -/
theorem StaffEffect.shut (h : StaffEffect crypto db request db')
    (hrotates : ¬ request.Rotates crypto warehouseId) (hshut : ¬ SignInOpen db warehouseId) :
    ¬ SignInOpen db' warehouseId := by
  -- an update that raises the flag of some warehouse
  have raised : ∀ {db' : AccessDb} {id : Id} {f : Warehouse → Warehouse}
      {hf : ∀ wh, Keyed.key (f wh) = Keyed.key wh}, (∀ wh, (f wh).mustChangePassword = true) →
      db'.warehouses = db.warehouses.modify id f hf → ¬ SignInOpen db' warehouseId := by
    intro db' id f hf hflag hdb
    by_cases hid : warehouseId = id
    · subst hid
      exact not_signInOpen_modify hflag hdb
    · have hfind : db'.warehouses.find warehouseId = db.warehouses.find warehouseId := by
        rw [hdb]
        exact Table.find_modify_of_ne hid
      exact mt (signInOpen_congr hfind).mp hshut
  cases h with
  | createManager added appended same =>
      exact mt (signInOpen_congr (by rw [same])).mp hshut
  | assignWarehouses added appended same =>
      exact mt (signInOpen_congr (by rw [same])).mp hshut
  | createWarehouse wh added inserted bare =>
      by_cases hid : warehouseId = wh.id
      · subst hid
        exact not_signInOpen (Table.find_insert_self inserted) bare.2.2
      · have hfind : db'.warehouses.find warehouseId = db.warehouses.find warehouseId := by
          rw [Table.find_insert inserted]
          exact if_neg hid
        exact mt (signInOpen_congr hfind).mp hshut
  | assignManagers added appended here hraised => exact raised (fun _ => rfl) hraised
  | setWarehouseCredentials free kept updated => exact raised (fun _ => rfl) updated
  | changeWarehousePassword ids verified kept updated =>
      have hid : warehouseId ≠ ids.1 := fun hid => hrotates ⟨ids.2, hid ▸ verified⟩
      have hfind : db'.warehouses.find warehouseId = db.warehouses.find warehouseId := by
        rw [updated]
        exact Table.find_modify_of_ne hid
      exact mt (signInOpen_congr hfind).mp hshut
  | _ => exact hshut

/-- Only an open warehouse shows its roster at the sign-in. -/
theorem signInOpen_of_login {now : Timestamp} {email password : String} {managers : List Id}
    {selectToken : τ} (h : warehouseLogin crypto now email password db =
      .ok (.selectManager warehouseId managers selectToken)) : SignInOpen db warehouseId := by
  obtain ⟨wh, ⟨hfound, hactive, passwordHash, hhash, hset, -⟩, hstep⟩ := warehouseLogin_ok.mp h
  have hwh : wh ∈ db.warehouses := List.mem_of_find?_eq_some hfound
  have hemail := List.find?_some hfound
  simp only [decide_eq_true_eq] at hemail
  split at hstep
  · cases hstep
  · rename_i hflag
    obtain ⟨rfl, -, -⟩ := WarehouseStep.selectManager.inj hstep
    refine ⟨wh, Table.find_of_mem hwh, by simpa using hflag, hactive, by simp [hemail], ?_⟩
    simp [hhash, hset]

/-- An open warehouse shows its roster to who knows its password. -/
theorem login_of_signInOpen (hcompare : ∀ password,
      crypto.compare password (crypto.hash password) = true)
    (hdb : Credentialed crypto db) (hopen : SignInOpen db warehouseId) (now : Timestamp) :
    ∃ wh ∈ db.warehouses.find warehouseId, ∃ passwordHash ∈ wh.passwordHash, ∃ email password,
      crypto.compare password passwordHash = true ∧
        warehouseLogin crypto now email password db =
          .ok (selectStepResponse crypto now warehouseId wh.tenantId db) := by
  obtain ⟨wh, hfind, hflag, hactive, hemail, hset⟩ := hopen
  obtain ⟨hwh, rfl⟩ := Table.find_eq_some_iff.mp hfind
  obtain ⟨email, hemail⟩ := Option.ne_none_iff_exists'.mp hemail
  obtain ⟨passwordHash, hhash, hne⟩ := (Option.any_eq_true _ _).mp hset
  obtain ⟨password, rfl⟩ := hdb.hashes wh hwh passwordHash hhash
  refine ⟨wh, hfind, _, hhash, email, password, hcompare password, ?_⟩
  -- the email is of this warehouse alone
  have hfound : (db.warehouses.rows.find? fun x => x.email = some email) = some wh := by
    cases hsearch : db.warehouses.rows.find? fun x => x.email = some email with
    | none =>
        have hall := List.find?_eq_none.mp hsearch wh hwh
        simp [hemail] at hall
    | some x =>
        have hx := List.find?_some hsearch
        simp only [decide_eq_true_eq] at hx
        have hsame := hdb.emails wh hwh x (List.mem_of_find?_eq_some hsearch) (by simp [hemail])
          (hemail.trans hx.symm)
        rw [hsame]
  apply warehouseLogin_ok.mpr
  refine ⟨wh, ⟨hfound, hactive, _, hhash, by simpa using hne, hcompare password⟩, ?_⟩
  rw [hflag]
  rfl

/-- What happens to a warehouse that is inherited: it is new, it has to be rotated now, or it
stays as it was. -/
theorem StaffEffect.inherits (h : StaffEffect crypto db request db')
    (hinherits : Inherits ⟨db, request, db'⟩ warehouseId) :
    (db.warehouses.find warehouseId = none ∧ ¬ SignInOpen db' warehouseId) ∨
      (request.ForcesRotation ∧ ¬ SignInOpen db' warehouseId) ∨
        (¬ request.ForcesRotation ∧ db'.warehouses = db.warehouses) := by
  obtain ⟨a, ha, hwarehouse, hcurrent, hnew⟩ := hinherits
  -- what is appended holds the new assignment
  have mem_added : ∀ {added : List ManagerAssignment}, Appended db db' added → a ∈ added := by
    intro added happended
    have hmem : a ∈ db'.managerAssignments.rows := ha
    rw [happended.rows] at hmem
    exact (List.mem_append.mp hmem).resolve_left hnew
  cases h with
  | createManager added appended same => exact .inr (.inr ⟨id, same⟩)
  | assignWarehouses added appended same => exact .inr (.inr ⟨id, same⟩)
  | createWarehouse wh added inserted bare appended here =>
      left
      obtain rfl : warehouseId = wh.id := hwarehouse.symm.trans (here a (mem_added appended))
      exact ⟨(Table.insert_eq_some_iff.mp inserted).1,
        not_signInOpen (Table.find_insert_self inserted) bare.2.2⟩
  | @assignManagers _ id _ _ _ added appended here hraised =>
      right
      left
      obtain rfl : warehouseId = id := hwarehouse.symm.trans (here a (mem_added appended))
      exact ⟨trivial, not_signInOpen_modify (fun _ => rfl) hraised⟩
  | @unassignWarehouse _ _ _ now ended found current =>
      obtain ⟨x, hx, -, ⟨-, rfl⟩ | ⟨-, rfl⟩⟩ :=
        Table.exists_of_mem_modify (endAt now) (fun _ => rfl) ha
      · cases hcurrent
      · exact absurd hx hnew
  | setWarehouseCredentials free kept => exact absurd (kept ▸ ha) hnew
  | changeWarehousePassword ids verified kept => exact absurd (kept ▸ ha) hnew
  | _ => exact absurd ha hnew

/-- A request that makes an assignment closes the warehouse until its password is rotated
exactly if it raises the flag itself, or the password was not good for a sign-in before. -/
theorem StaffEffect.closedUntilRotated_iff (hcompare : ∀ password,
      crypto.compare password (crypto.hash password) = true)
    (hdb : Credentialed crypto db) (h : StaffEffect crypto db request db')
    (hinherits : Inherits ⟨db, request, db'⟩ warehouseId) :
    ClosedUntilRotated crypto ⟨db, request, db'⟩ warehouseId ↔
      request.ForcesRotation ∨ ¬ SignInOpen db warehouseId := by
  -- what is shut after the request stays shut
  have closed : ¬ SignInOpen db' warehouseId →
      ClosedUntilRotated crypto ⟨db, request, db'⟩ warehouseId := by
    intro hshut trail last run hrotates now email password managers selectToken _ hlogin
    have hstep : ∀ {request : StaffRequest τ} {db db' : AccessDb},
        ¬ request.Rotates crypto warehouseId → ¬ SignInOpen db warehouseId →
          request.call crypto db = .ok db' → ¬ SignInOpen db' warehouseId :=
      fun hrequest hs hcall => (call_effect hcall).shut hrequest hs
    have hlast : ¬ SignInOpen last warehouseId := run.invariant _ hrotates hshut hstep
    exact hlast (signInOpen_of_login hlogin)
  rcases h.inherits hinherits with ⟨hnone, hshut⟩ | ⟨hforces, hshut⟩ | ⟨hforces, hsame⟩
  · have hbefore : ¬ SignInOpen db warehouseId := by
      rintro ⟨wh, hwh, -⟩
      rw [hnone] at hwh
      cases hwh
    exact ⟨fun _ => .inr hbefore, fun _ => closed hshut⟩
  · exact ⟨fun _ => .inl hforces, fun _ => closed hshut⟩
  · have hiff : SignInOpen db' warehouseId ↔ SignInOpen db warehouseId :=
      signInOpen_congr (by rw [hsame])
    constructor
    · intro hclosed
      right
      intro hopen
      -- the sign-in right after the request
      have hdb' : Credentialed crypto db' := by
        constructor
        · rw [hsame]
          exact hdb.emails
        · rw [hsame]
          exact hdb.hashes
      obtain ⟨wh, hwh, passwordHash, hhash, email, password, hgood, hlogin⟩ :=
        login_of_signInOpen hcompare hdb' (hiff.mpr hopen) 0
      rw [hsame] at hwh
      exact hclosed [] db' .start (by simp) 0 email password _ _
        ⟨wh, hwh, passwordHash, hhash, hgood⟩ hlogin
    · rintro (hraises | hshut)
      · exact absurd hraises hforces
      · exact closed (mt hiff.mp hshut)

end Steps

section Runs

variable {τ : Type} {crypto : Crypto τ} {db db' : AccessDb} {request : StaffRequest τ}

theorem Credentialed.same (h : Credentialed crypto db) (hsame : db'.warehouses = db.warehouses) :
    Credentialed crypto db' := by
  constructor
  · rw [hsame]
    exact h.emails
  · rw [hsame]
    exact h.hashes

/-- An update that stores hashes only, and takes no email of another warehouse. -/
theorem Credentialed.modify (h : Credentialed crypto db) {id : Id} {f : Warehouse → Warehouse}
    {hf : ∀ wh, Keyed.key (f wh) = Keyed.key wh}
    (hdb : db'.warehouses = db.warehouses.modify id f hf)
    (hemail : ∀ wh, (f wh).email = wh.email ∨
      ∃ email, (f wh).email = some email ∧
        ∀ wh' ∈ db.warehouses, wh'.email = some email → wh'.id = id)
    (hhash : ∀ wh, (f wh).passwordHash = wh.passwordHash ∨
      ∃ password, (f wh).passwordHash = some (crypto.hash password)) : Credentialed crypto db' := by
  -- the rewritten row and another one have two emails
  have apart : ∀ wh ∈ db.warehouses, wh.id = id → ∀ wh' ∈ db.warehouses, wh'.id ≠ id →
      (f wh).email ≠ none → (f wh).email ≠ wh'.email := by
    intro wh hwh hid wh' hwh' hother hsome hsame
    rcases hemail wh with hkept | ⟨email, htaken, hfree⟩
    · rw [hkept] at hsome hsame
      exact hother (h.emails wh hwh wh' hwh' hsome hsame ▸ hid)
    · exact hother (hfree wh' hwh' (hsame.symm.trans htaken))
  constructor
  · rw [hdb]
    intro x hx y hy hsome hsame
    obtain ⟨x₀, hx₀, -, hxcases⟩ := Table.exists_of_mem_modify f hf hx
    obtain ⟨y₀, hy₀, -, hycases⟩ := Table.exists_of_mem_modify f hf hy
    rcases hxcases with ⟨hxid, rfl⟩ | ⟨hxid, rfl⟩
    · rcases hycases with ⟨hyid, rfl⟩ | ⟨hyid, rfl⟩
      · exact congrArg f (Table.eq_of_key_eq hx₀ hy₀ (hxid.trans hyid.symm))
      · exact absurd hsame (apart x₀ hx₀ hxid y hy₀ hyid hsome)
    · rcases hycases with ⟨hyid, rfl⟩ | ⟨hyid, rfl⟩
      · exact absurd hsame.symm (apart y₀ hy₀ hyid x hx₀ hxid (hsame ▸ hsome))
      · exact h.emails x hx₀ y hy₀ hsome hsame
  · rw [hdb]
    intro x hx passwordHash hstored
    obtain ⟨x₀, hx₀, -, ⟨-, rfl⟩ | ⟨-, rfl⟩⟩ := Table.exists_of_mem_modify f hf hx
    · rcases hhash x₀ with hkept | ⟨password, hnew⟩
      · rw [hkept] at hstored
        exact h.hashes x₀ hx₀ passwordHash hstored
      · rw [hnew] at hstored
        exact ⟨password, (Option.some_inj.mp hstored).symm⟩
    · exact h.hashes x hx₀ passwordHash hstored

theorem Credentialed.insert (h : Credentialed crypto db) {wh : Warehouse}
    (hinsert : db.warehouses.insert wh = some db'.warehouses) (hemail : wh.email = none)
    (hhash : wh.passwordHash = none) : Credentialed crypto db' := by
  constructor
  · intro x hx y hy hsome hsame
    rcases (Table.mem_insert hinsert).mp hx with hx | rfl
    · rcases (Table.mem_insert hinsert).mp hy with hy | rfl
      · exact h.emails x hx y hy hsome hsame
      · exact absurd (hsame.trans hemail) hsome
    · exact absurd hemail hsome
  · intro x hx passwordHash hstored
    rcases (Table.mem_insert hinsert).mp hx with hx | rfl
    · exact h.hashes x hx passwordHash hstored
    · rw [hhash] at hstored
      cases hstored

theorem Credentialed.step (h : Credentialed crypto db)
    (heffect : StaffEffect crypto db request db') : Credentialed crypto db' := by
  cases heffect with
  | createManager added appended same => exact h.same same
  | assignWarehouses added appended same => exact h.same same
  | createWarehouse wh added inserted bare => exact h.insert inserted bare.1 bare.2.1
  | assignManagers added appended here raised =>
      exact h.modify raised (fun _ => .inl rfl) fun _ => .inl rfl
  | @setWarehouseCredentials _ _ email password _ free kept updated =>
      exact h.modify updated (fun _ => .inr ⟨email, rfl, free⟩) fun _ => .inr ⟨password, rfl⟩
  | @changeWarehousePassword _ _ newPassword _ ids verified kept updated =>
      exact h.modify updated (fun _ => .inl rfl) fun _ => .inr ⟨newPassword, rfl⟩
  | _ => exact h.same rfl

/-- Every transition of a run is an effect in a database with proper credentials. -/
theorem credentialed_run {s db : AccessDb} {trail : List (Transition (StaffRequest τ) AccessDb)}
    (hstart : Credentialed crypto s) (run : Succession (StaffRequest.call crypto) s trail db) :
    Credentialed crypto db ∧ ∀ t ∈ trail, Credentialed crypto t.before ∧
      StaffEffect crypto t.before t.label t.after := by
  refine run.along (P := fun trail db => Credentialed crypto db ∧
    ∀ t ∈ trail, Credentialed crypto t.before ∧ StaffEffect crypto t.before t.label t.after)
    ⟨hstart, by simp⟩ ?_
  intro trail request db db' hdb hcall
  have heffect := call_effect hcall
  refine ⟨hdb.1.step heffect, ?_⟩
  simp only [List.forall_mem_append, List.forall_mem_singleton]
  exact ⟨hdb.2, hdb.1, heffect⟩

end Runs

/-- In every run, each request that makes an assignment closes the warehouse to the passwords
from before until it is rotated, if and only if each such request is the one that raises the
flag, or comes upon a warehouse that no password opens. -/
theorem inheritances_rotate_iff {τ : Type} (crypto : Crypto τ)
    (hcompare : ∀ password, crypto.compare password (crypto.hash password) = true)
    {s db : AccessDb} {trail : List (Transition (StaffRequest τ) AccessDb)}
    (hstart : Credentialed crypto s) (run : Succession (StaffRequest.call crypto) s trail db) :
    (∀ t ∈ trail, ∀ warehouseId, Inherits t warehouseId →
        ClosedUntilRotated crypto t warehouseId) ↔
      ∀ t ∈ trail, ∀ warehouseId, Inherits t warehouseId →
        t.label.ForcesRotation ∨ ¬ SignInOpen t.before warehouseId := by
  obtain ⟨-, heffects⟩ := credentialed_run hstart run
  constructor
  · intro hclosed t ht warehouseId hinherits
    obtain ⟨hdb, heffect⟩ := heffects t ht
    exact (heffect.closedUntilRotated_iff hcompare hdb hinherits).mp
      (hclosed t ht warehouseId hinherits)
  · intro hforces t ht warehouseId hinherits
    obtain ⟨hdb, heffect⟩ := heffects t ht
    exact (heffect.closedUntilRotated_iff hcompare hdb hinherits).mpr
      (hforces t ht warehouseId hinherits)

theorem plainCrypto_compare (password : String) :
    plainCrypto.compare password (plainCrypto.hash password) = true :=
  decide_eq_true rfl

theorem unassigned_credentialed : Credentialed plainCrypto unassigned := by
  constructor
  · intro wh hwh wh' hwh' _ _
    rw [List.mem_singleton.mp hwh, List.mem_singleton.mp hwh']
  · intro wh _ passwordHash _
    exact ⟨passwordHash, rfl⟩

/-- The theorem at the assignment of manager 12 by the request that raises the flag. -/
theorem inheritances_rotate_iff_sample :
    (∀ t ∈ (perform (StaffRequest.call plainCrypto) [.assignManagers 1 50 [12] fun i => 70 + i]
        unassigned).1, ∀ warehouseId, Inherits t warehouseId →
          ClosedUntilRotated plainCrypto t warehouseId) ↔
      ∀ t ∈ (perform (StaffRequest.call plainCrypto) [.assignManagers 1 50 [12] fun i => 70 + i]
        unassigned).1, ∀ warehouseId, Inherits t warehouseId →
          t.label.ForcesRotation ∨ ¬ SignInOpen t.before warehouseId :=
  inheritances_rotate_iff plainCrypto plainCrypto_compare unassigned_credentialed
    (succession_perform _ _ _)

/-- Once manager 12 is assigned by the other request, the old password of warehouse 50 still
leads to its roster. -/
theorem old_password_still_opens :
    ¬ ∀ (τ : Type) (crypto : Crypto τ),
      (∀ password, crypto.compare password (crypto.hash password) = true) →
      ∀ (s db : AccessDb) (trail : List (Transition (StaffRequest τ) AccessDb)),
        Credentialed crypto s → Succession (StaffRequest.call crypto) s trail db →
          ∀ t ∈ trail, ∀ warehouseId, Inherits t warehouseId →
            ClosedUntilRotated crypto t warehouseId := by
  intro hclaim
  have hrun := succession_perform (StaffRequest.call plainCrypto) sampleAssignment unassigned
  have hall := hclaim _ plainCrypto plainCrypto_compare _ _ _ unassigned_credentialed hrun
  have hopened : ∃ t ∈ (perform (StaffRequest.call plainCrypto) sampleAssignment unassigned).1,
      Inherits t 50 ∧ SignInOpen t.after 50 := by
    decide +kernel
  obtain ⟨t, ht, hinherits, hopen⟩ := hopened
  obtain ⟨hdb, heffect⟩ := (credentialed_run unassigned_credentialed hrun).2 t ht
  have hclosed := (heffect.closedUntilRotated_iff plainCrypto_compare hdb hinherits).mp
    (hall t ht 50 hinherits)
  have hshut : ¬ ((∃ t ∈ (perform (StaffRequest.call plainCrypto) sampleAssignment unassigned).1,
      (t.label.ForcesRotation ∨ ¬ SignInOpen t.before 50))) := by
    decide +kernel
  exact hshut ⟨t, ht, hclosed⟩

end SecureStore.Access
