/-
# One relationship per warehouse

Whether a financier has at most one link to a warehouse that is pending or active, and
whether a link that was offboarded stays so. A request looks for a live link before it
creates one, and no index stands behind it; a decision and an offboarding check the status
on the row they loaded and overwrite it by id. Both promises hold in every run in which
what was checked still holds when it is written.
-/

import SecureStore.Services.Onboarding
import SecureStore.Services.System

namespace SecureStore.Services

open SecureStore.Foundation SecureStore.Inventory

/-- PENDING or ACTIVE. -/
def WarehouseLink.Live (l : WarehouseLink) : Prop := l.status = .pending ∨ l.status = .active

instance (l : WarehouseLink) : Decidable l.Live := inferInstanceAs (Decidable (_ ∨ _))

/-- Two links of one financier and warehouse. -/
def WarehouseLink.SamePair (l l' : WarehouseLink) : Prop :=
  l.financierOrgId = l'.financierOrgId ∧ l.warehouseId = l'.warehouseId

instance (l l' : WarehouseLink) : Decidable (l.SamePair l') :=
  inferInstanceAs (Decidable (_ ∧ _))

/-- At most one live link per financier and warehouse. -/
def OneRelationship (s : Db) : Prop :=
  ∀ l ∈ s.directory.warehouseLinks.rows, ∀ l' ∈ s.directory.warehouseLinks.rows,
    l.Live → l'.Live → l.SamePair l' → l.id = l'.id

instance (s : Db) : Decidable (OneRelationship s) :=
  @List.decidableBAll _ _ (fun _ => List.decidableBAll _ _) _

/-- A link that has become OFFBOARDED still is. -/
def StaysOffboarded (s s' : Db) : Prop :=
  ∀ id l, s.directory.warehouseLinks.find id = some l → l.status = .offboarded →
    ∃ l', s'.directory.warehouseLinks.find id = some l' ∧ l'.status = .offboarded

theorem StaysOffboarded.refl (s : Db) : StaysOffboarded s s :=
  fun _ l hfind hstatus => ⟨l, hfind, hstatus⟩

theorem StaysOffboarded.trans {s s' s'' : Db} (h : StaysOffboarded s s')
    (h' : StaysOffboarded s' s'') : StaysOffboarded s s'' := by
  intro id l hfind hstatus
  obtain ⟨l', hfind', hstatus'⟩ := h id l hfind hstatus
  exact h' id l' hfind' hstatus'

/-- The organisation of a caller. -/
def orgIdOf (users : Table User) (callerUserId : Id) : Option Id := do
  let user ← users.find callerUserId
  user.financierOrgId

/-- What a request checked still holds when it writes: an onboarding finds no live link of
its financier and warehouse, and an approval does not find its link offboarded. -/
def StillOpen (step : OnboardingRequest × Label) (s : Db) : Prop :=
  match step with
  | (.onboardWarehouse _ callerUserId warehouseId, .write _) =>
      ∀ l ∈ s.directory.warehouseLinks.rows,
        l.Live → orgIdOf s.directory.users callerUserId = some l.financierOrgId →
          l.warehouseId ≠ warehouseId
  | (.approveWarehouseLink _ linkId, .write _) =>
      ∀ l ∈ s.directory.warehouseLinks.find linkId, l.status ≠ .offboarded
  | _ => True

instance (step : OnboardingRequest × Label) (s : Db) : Decidable (StillOpen step s) :=
  match step with
  | (.onboardWarehouse _ callerUserId warehouseId, .write _) =>
      inferInstanceAs (Decidable (∀ l ∈ s.directory.warehouseLinks.rows,
        l.Live → orgIdOf s.directory.users callerUserId = some l.financierOrgId →
          l.warehouseId ≠ warehouseId))
  | (.approveWarehouseLink _ linkId, .write _) =>
      inferInstanceAs (Decidable (∀ l ∈ s.directory.warehouseLinks.find linkId,
        l.status ≠ .offboarded))
  | (.onboardWarehouse .., .read _) | (.onboardWarehouse .., .ledger ..)
  | (.approveWarehouseLink .., .read _) | (.approveWarehouseLink .., .ledger ..)
  | (.rejectWarehouseLink .., _) | (.offboardWarehouse .., _) | (.suspendFinancierOrg .., _)
  | (.reactivateFinancierOrg .., _) | (.offboardFinancierOrg .., _) =>
      inferInstanceAs (Decidable True)

/-- Requests about relationships; the users stay as they are. -/
def relationships (users : Table User) : Contract (OnboardingRequest × Label) Db where
  inv s := s.directory.users = users ∧ OneRelationship s
  rely := StaysOffboarded
  admits := StillOpen
  guar _ := StaysOffboarded
  debt _ := False
  rely_refl := .refl
  rely_trans := .trans
  guar_refl _ := .refl
  guar_rely _ h := h

section Requests

variable {users : Table User} {request : OnboardingRequest} {s s' : Db}

/-- A write of one link's status keeps one relationship, if it does not bring an offboarded
link back. -/
theorem OneRelationship.setStatus {links : Table WarehouseLink} {linkId : Id}
    {status : WarehouseLinkStatus} (h : OneRelationship s)
    (hwrite : updateRow s.directory.warehouseLinks linkId (fun l => { l with status }) =
      .ok links)
    (hback : status = .offboarded ∨
      ∀ l ∈ s.directory.warehouseLinks.find linkId, l.status ≠ .offboarded) :
    OneRelationship { s with directory := { s.directory with warehouseLinks := links } } ∧
      StaysOffboarded s
        { s with directory := { s.directory with warehouseLinks := links } } := by
  obtain ⟨x, hfind, rfl⟩ := updateRow_ok.mp hwrite
  -- every live link afterwards comes from a live link of the same pair and id
  have horigin : ∀ l ∈ s.directory.warehouseLinks.modify linkId (fun l => { l with status }),
      l.Live → ∃ l₀ ∈ s.directory.warehouseLinks.rows, l₀.Live ∧ l₀.SamePair l ∧ l₀.id = l.id := by
    intro l hl hlive
    rcases Table.mem_modify.mp hl with ⟨l₀, hfind₀, rfl⟩ | ⟨hold, -⟩
    · refine ⟨l₀, Table.mem_of_find hfind₀, ?_, ⟨rfl, rfl⟩, rfl⟩
      rcases hback with rfl | hopen
      · rcases hlive with hlive | hlive <;> cases hlive
      · have hstatus := hopen l₀ hfind₀
        unfold WarehouseLink.Live
        cases hl₀ : l₀.status <;> simp_all
    · exact ⟨l, hold, hlive, ⟨rfl, rfl⟩, rfl⟩
  constructor
  · intro l hl l' hl' hlive hlive' hpair
    obtain ⟨a, ha, halive, hapair, haid⟩ := horigin l hl hlive
    obtain ⟨b, hb, hblive, hbpair, hbid⟩ := horigin l' hl' hlive'
    have hab : a.SamePair b :=
      ⟨hapair.1.trans (hpair.1.trans hbpair.1.symm),
        hapair.2.trans (hpair.2.trans hbpair.2.symm)⟩
    exact haid.symm.trans ((h a ha b hb halive hblive hab).trans hbid)
  · intro id l hl hstatus
    by_cases hid : id = linkId
    · subst hid
      have hself : (s.directory.warehouseLinks.modify id fun l => { l with status }).find id =
          some { l with status } := Table.find_modify_self hl
      refine ⟨_, hself, ?_⟩
      rcases hback with rfl | hopen
      · rfl
      · exact absurd hstatus (hopen l hl)
    · have hother : (s.directory.warehouseLinks.modify linkId fun l => { l with status }).find id =
          s.directory.warehouseLinks.find id := Table.find_modify_of_ne hid
      exact ⟨l, hother.trans hl, hstatus⟩

/-- A new link of a pair that has no live one. -/
theorem OneRelationship.create {links : Table WarehouseLink} {l : WarehouseLink}
    (h : OneRelationship s) (hwrite : createRow s.directory.warehouseLinks l = .ok links)
    (hfree : ∀ l' ∈ s.directory.warehouseLinks.rows, l'.Live → ¬ l'.SamePair l) :
    OneRelationship { s with directory := { s.directory with warehouseLinks := links } } ∧
      StaysOffboarded s
        { s with directory := { s.directory with warehouseLinks := links } } := by
  have hinsert := (createRow_ok.mp hwrite).2
  constructor
  · intro a ha b hb halive hblive hpair
    rcases (Table.mem_insert hinsert).mp ha with hold | rfl
    · rcases (Table.mem_insert hinsert).mp hb with hold' | rfl
      · exact h a hold b hold' halive hblive hpair
      · exact absurd hpair (hfree a hold halive)
    · rcases (Table.mem_insert hinsert).mp hb with hold' | rfl
      · exact absurd ⟨hpair.1.symm, hpair.2.symm⟩ (hfree b hold' hblive)
      · rfl
  · intro id l' hl' hstatus
    exact ⟨l', Table.find_insert_of_find hinsert hl', hstatus⟩

/-- A step that writes links, at the end of a request. -/
theorem safe_writeLinks {by_ : Issuer}
    {f : Table WarehouseLink → Except ApiError (Table WarehouseLink)}
    (h : ∀ s' links, s'.directory.users = users → OneRelationship s' →
      StillOpen (request, .write by_) s' → f s'.directory.warehouseLinks = .ok links →
        OneRelationship { s' with directory := { s'.directory with warehouseLinks := links } } ∧
          StaysOffboarded s'
            { s' with directory := { s'.directory with warehouseLinks := links } }) :
    ((relationships users).named request).Safe (writeLinks by_ f) s := by
  apply Contract.safe_write_last
  intro s' _ s'' _ hinv hadmits hok
  obtain ⟨links, hlinks, hpair⟩ := map_ok.mp hok
  obtain ⟨-, rfl⟩ := Prod.mk.inj hpair
  obtain ⟨hone, hstays⟩ := h s' links hinv.1 hinv.2 hadmits hlinks
  exact ⟨⟨hinv.1, hone⟩, hstays, id⟩

theorem safe_setOrgStatus {id : Id} {status : FinancierOrgStatus} :
    ((relationships users).named request).Safe (setOrgStatus id status) s := by
  apply Contract.safe_write_last
  intro s' _ s'' _ hinv _ hok
  obtain ⟨orgs, -, hpair⟩ := map_ok.mp hok
  obtain ⟨-, rfl⟩ := Prod.mk.inj hpair
  exact ⟨hinv, .refl s', fun hdebt => hdebt⟩

/-- The organisation that is found is the caller's. -/
theorem safe_requireFinancierOrgOf {callerUserId : Id} {g : FinancierOrg × Id → Api Unit}
    (h : ∀ s' org tenantId, orgIdOf users callerUserId = some org.id →
      ((relationships users).named request).Safe (g (org, tenantId)) s') :
    ((relationships users).named request).Safe
      (requireFinancierOrgOf callerUserId >>= g : Api Unit) s := by
  unfold requireFinancierOrgOf
  rw [Attempt.bind_assoc]
  apply Contract.safe_read
  intro s' _ hinv
  rw [Attempt.bind_assoc]
  apply Contract.safe_orThrow
  rintro ⟨org, tenantId⟩ hfound
  simp only [Option.bind_eq_bind, Option.bind_eq_some_iff] at hfound
  obtain ⟨user, huser, orgId, horgId, org', horg, hpair⟩ := hfound
  obtain ⟨rfl, -⟩ := Prod.mk.inj (Option.some_inj.mp hpair)
  rw [Attempt.bind_assoc]
  apply Contract.safe_throwIf
  intro _
  apply h
  have hkey : org'.id = orgId := Table.key_of_find horg
  rw [hinv.1] at huser
  simp [orgIdOf, huser, horgId, hkey]

/-- An admin's decision writes a status that no offboarded link gets back, unless it is the
approval, which the run admits only on a link that is not. -/
theorem safe_decideWarehouseLink {verb : String} {status : WarehouseLinkStatus}
    {tenantId linkId : Id}
    (hback : status = .offboarded ∨
      ∀ s', StillOpen (request, .write (.decideWarehouseLink linkId)) s' →
      ∀ l ∈ s'.directory.warehouseLinks.find linkId, l.status ≠ .offboarded) :
    ((relationships users).named request).Safe (decideWarehouseLink verb status tenantId linkId)
      s := by
  unfold decideWarehouseLink
  apply Contract.safe_read
  intro s' _ _
  apply Contract.safe_orThrow
  intro link _
  apply Contract.safe_throwIf
  intro _
  apply safe_writeLinks
  intro s'' links _ hone hopen hok
  exact hone.setStatus hok (hback.imp_right fun h => h s'' hopen)

/-- Every request keeps its part of the contract. -/
theorem safe_relationship (request : OnboardingRequest) :
    ((relationships users).named request).Safe request.run s := by
  cases request with
  | onboardWarehouse linkId callerUserId warehouseId =>
      apply safe_requireFinancierOrgOf
      intro s' org tenantId horg
      apply Contract.safe_read
      intro s' _ _
      apply Contract.safe_orThrow
      intro warehouse _
      apply Contract.safe_read
      intro s' _ _
      split
      · trivial
      · apply safe_writeLinks
        intro s'' links husers hone hopen hok
        apply hone.create hok
        intro l hl hlive hpair
        refine hopen l hl hlive ?_ hpair.2
        rw [husers, horg]
        exact congrArg some hpair.1.symm
  | approveWarehouseLink tenantId linkId =>
      exact safe_decideWarehouseLink (.inr fun s' hopen => hopen)
  | rejectWarehouseLink tenantId linkId => exact safe_decideWarehouseLink (.inl rfl)
  | offboardWarehouse callerUserId linkId =>
      apply safe_requireFinancierOrgOf
      intro s' org tenantId _
      apply Contract.safe_read
      intro s' _ _
      apply Contract.safe_orThrow
      intro link _
      apply Contract.safe_throwIf
      intro _
      apply Contract.safe_read
      intro s' _ _
      apply Contract.safe_throwIf
      intro _
      apply safe_writeLinks
      intro s'' links _ hone _ hok
      exact hone.setStatus hok (.inl rfl)
  | suspendFinancierOrg id =>
      apply Contract.safe_find
      intro s' org _ _ _
      apply Contract.safe_throwIf
      intro _
      split
      · trivial
      · exact safe_setOrgStatus
  | reactivateFinancierOrg id =>
      apply Contract.safe_find
      intro s' org _ _ _
      apply Contract.safe_throwIf
      intro _
      split
      · trivial
      · exact safe_setOrgStatus
  | offboardFinancierOrg id =>
      apply Contract.safe_find
      intro s' org _ _ _
      split
      · trivial
      · apply Contract.safe_read
        intro s' _ _
        apply Contract.safe_throwIf
        intro _
        exact safe_setOrgStatus

end Requests

/-- In every interleaving in which each onboarding and each approval still finds what it
checked when it writes, a financier has at most one live link to a warehouse in every
state, and an offboarded link stays offboarded. -/
theorem one_relationship (requests : List OnboardingRequest) {s s' : Db}
    {trace : List (Transition (OnboardingRequest × Label) Db)}
    {pool : List (Process (OnboardingRequest × Label) Db (Except ApiError Unit))}
    (hrun : Run s (requests.map fun request => Process.tag request request.run) trace s' pool)
    (hstart : OneRelationship s) (hopen : ∀ t ∈ trace, StillOpen t.label t.before) :
    OneRelationship s' ∧ StaysOffboarded s s' ∧
      ∀ t ∈ trace, OneRelationship t.after ∧ StaysOffboarded t.before s' ∧
        StaysOffboarded t.after s' := by
  let c := relationships s.directory.users
  have hholds : c.Holds s (requests.map fun request => Process.tag request request.run) := by
    refine ⟨⟨rfl, hstart⟩, ?_, fun hdebt => hdebt.elim⟩
    intro p hp
    obtain ⟨request, -, rfl⟩ := List.mem_map.mp hp
    exact Contract.Keeps.tag (safe_relationship request)
  have hrun := hholds.run hrun hopen
  refine ⟨hrun.final.inv.2, hrun.rely, ?_⟩
  intro t ht
  obtain ⟨-, hguar, hinv, -, hlate⟩ := hrun.each t ht
  have hstep : StaysOffboarded t.before t.after := hguar
  have hlater : StaysOffboarded t.after s' := hlate
  exact ⟨hinv.2, hstep.trans hlater, hlater⟩

/-- Warehouse 50 of tenant 1, not linked to organisation 30 of caller 20 yet. -/
def unlinkedStore : Db :=
  Db.initial { sampleDirectory with
    warehouseLinks := Table.empty, warehouses := ⟨[⟨50, 1, true⟩], by decide⟩ }

/-- Two onboardings and the approval of the first under a schedule. -/
def onboardingRace (schedule : List ℕ) :
    List (Transition (OnboardingRequest × Label) Db) × Db ×
      List (Process (OnboardingRequest × Label) Db (Except ApiError Unit)) :=
  interleave schedule unlinkedStore
    ([.onboardWarehouse 31 20 50, .onboardWarehouse 32 20 50, .approveWarehouseLink 1 31].map
      fun request => Process.tag request request.run)

/-- The second onboarding comes after the first and is refused. -/
theorem one_relationship_sample :
    OneRelationship (onboardingRace [0, 0, 0, 0, 2, 2, 1, 1, 1, 1]).2.1 ∧
      (onboardingRace [0, 0, 0, 0, 2, 2, 1, 1, 1, 1]).2.1.directory.warehouseLinks.rows.map
        WarehouseLink.status = [.active] := by
  constructor
  · exact (one_relationship
      [.onboardWarehouse 31 20 50, .onboardWarehouse 32 20 50, .approveWarehouseLink 1 31]
      (run_interleave [0, 0, 0, 0, 2, 2, 1, 1, 1, 1] unlinkedStore _) (by decide +kernel)
      (by decide +kernel)).1
  · decide +kernel

/-- Both onboardings look for a live link before either creates one. -/
theorem two_onboardings_two_links :
    ¬ ∀ (requests : List OnboardingRequest) (s s' : Db)
        (trace : List (Transition (OnboardingRequest × Label) Db))
        (pool : List (Process (OnboardingRequest × Label) Db (Except ApiError Unit))),
        OneRelationship s →
        Run s (requests.map fun request => Process.tag request request.run) trace s' pool →
          OneRelationship s' ∧ ∀ t ∈ trace, StaysOffboarded t.after s' := by
  intro hclaim
  have hone : OneRelationship (onboardingRace [0, 0, 0, 1, 1, 1, 0, 1]).2.1 :=
    (hclaim _ unlinkedStore _ _ _ (by decide +kernel) (run_interleave _ _ _)).1
  exact absurd hone (by decide +kernel)

end SecureStore.Services
