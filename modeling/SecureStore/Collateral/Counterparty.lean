/-
# The counterparty of a live lien

Whoever holds a live lien should still be on the platform and linked to the warehouse of
the collateral. Pledging checks this and leaving is refused while a lien is live, but the
acceptance in between checks neither. Requests here run one at a time, each to its end.
-/

import SecureStore.Collateral.Requests
import SecureStore.Services.Onboarding

namespace SecureStore.Services

open SecureStore.Foundation SecureStore.Inventory

/-! ## Joining and leaving -/

section Onboarding

variable {s : Db} {by_ : Issuer}

/-- Only the directory changes, and whoever holds a live lien stays linked. -/
def Rehouses (s s' : Db) : Prop :=
  ∃ d, s' = { s with directory := d } ∧ ∀ p ∈ s.pledges,
    (∃ l ∈ s.liens, l.status.Live ∧ l.pledgeId = p.id) → p.Linked s.directory → p.Linked d

theorem Rehouses.refl (s : Db) : Rehouses s s := ⟨s.directory, rfl, fun _ _ _ h => h⟩

/-- New rows of the links, among them every ACTIVE one that a live lien needs. -/
theorem writeLinks_ends
    {f : Table WarehouseLink → Except ApiError (Table WarehouseLink)}
    (hkept : ∀ links, f s.directory.warehouseLinks = .ok links → ∀ p ∈ s.pledges,
      (∃ l ∈ s.liens, l.status.Live ∧ l.pledgeId = p.id) →
        ∀ link ∈ s.directory.warehouseLinks, link.tenantId = p.tenantId →
          link.financierOrgId = p.financierOrgId → link.warehouseId = p.warehouseId →
            link.status = .active → link ∈ links) :
    Ends (fun _ => Rehouses s) (writeLinks by_ f) s := by
  apply ensures_write_last (fun _ _ => ⟨trivial, .refl s⟩)
  intro _ s' hok
  obtain ⟨links, hlinks, hresult⟩ := map_ok.mp hok
  cases hresult
  refine ⟨trivial, _, rfl, ?_⟩
  rintro p hp hlien ⟨horg, link, hlink, htenant, hlinkOrg, hwarehouse, hactive⟩
  exact ⟨horg, link, hkept links hlinks p hp hlien link hlink htenant hlinkOrg hwarehouse hactive,
    htenant, hlinkOrg, hwarehouse, hactive⟩

/-- An update of one link keeps the others. -/
theorem link_kept {links links' : Table WarehouseLink} {id : Id} {f : WarehouseLink → WarehouseLink}
    {hf : ∀ r, Keyed.key (f r) = Keyed.key r} (hupdate : updateRow links id f hf = .ok links')
    {link : WarehouseLink} (hlink : link ∈ links) (hne : link.id ≠ id) : link ∈ links' := by
  obtain ⟨-, -, rfl⟩ := updateRow_ok.mp hupdate
  exact Table.mem_modify.mpr (.inr ⟨hlink, hne⟩)

theorem requireFinancierOrgOf_ends {callerUserId : Id} {post : Except ApiError Unit → Db → Prop}
    {g : FinancierOrg × Id → Api Unit} (herr : ∀ e, post (.error e) s)
    (h : ∀ found, Ends post (g found) s) :
    Ends post (requireFinancierOrgOf callerUserId >>= g) s := by
  have hstop : ∀ e, Continues (fun _ => True) post g (.error e) s := herr
  apply ensures_bind
  apply ensures_read trivial
  apply ensures_orThrow (fun _ => hstop _)
  intro found _
  apply ensures_throwIf (fun _ => hstop _)
  intro _
  exact h _

theorem onboardWarehouse_ends (linkId callerUserId warehouseId : Id) :
    Ends (fun _ => Rehouses s) (onboardWarehouse linkId callerUserId warehouseId) s := by
  apply requireFinancierOrgOf_ends (fun _ => .refl s)
  intro found
  apply ensures_read trivial
  apply ensures_orThrow (fun _ => .refl s)
  intro warehouse _
  apply ensures_read trivial
  split
  · exact .refl s
  · apply writeLinks_ends
    intro links hcreate p _ _ link hlink _ _ _ _
    exact (Table.mem_insert (createRow_ok.mp hcreate).2).mpr (.inl hlink)

/-- The link that is decided on is not one that anyone relies on yet. -/
theorem decideWarehouseLink_ends (verb : String) (status : WarehouseLinkStatus)
    (tenantId linkId : Id) :
    Ends (fun _ => Rehouses s) (decideWarehouseLink verb status tenantId linkId) s := by
  apply ensures_read trivial
  apply ensures_orThrow (fun _ => .refl s)
  intro found hfound
  apply ensures_throwIf (fun _ => .refl s)
  intro hpending
  apply writeLinks_ends
  intro links hupdate p _ _ link hlink _ _ _ hactive
  apply link_kept hupdate hlink
  intro hid
  have hfind := (Option.filter_eq_some_iff.mp hfound).1
  rw [← hid] at hfind
  obtain rfl : link = found := Option.some_inj.mp ((Table.find_of_mem hlink).symm.trans hfind)
  rw [not_not.mp hpending] at hactive
  cases hactive

theorem offboardWarehouse_ends (hs : Placed s) (callerUserId linkId : Id) :
    Ends (fun _ => Rehouses s) (offboardWarehouse callerUserId linkId) s := by
  apply requireFinancierOrgOf_ends (fun _ => .refl s)
  rintro ⟨org, tenantId⟩
  apply ensures_read trivial
  apply ensures_orThrow (fun _ => .refl s)
  intro found hfound
  apply ensures_throwIf (fun _ => .refl s)
  intro _
  apply ensures_read trivial
  apply ensures_throwIf (fun _ => .refl s)
  intro hnone
  apply writeLinks_ends
  rintro links hupdate p hp ⟨l, hl, hlive, hpledge⟩ link hlink htenant horg hwarehouse hactive
  apply link_kept hupdate hlink
  intro hid
  -- a live lien under the link would have been counted
  obtain ⟨hfind, hcaller⟩ := Option.filter_eq_some_iff.mp hfound
  rw [← hid] at hfind
  obtain rfl : link = found := Option.some_inj.mp ((Table.find_of_mem hlink).symm.trans hfind)
  obtain ⟨hcallerOrg, hcallerTenant⟩ := of_decide_eq_true hcaller
  obtain ⟨p', hp', hid', htenant', horg', r, hr, hrWarehouse⟩ := hs.liens l hl
  obtain rfl : p' = p := Table.eq_of_key_eq hp' hp (hid'.trans hpledge)
  have hcounted : l ∈ liveLiensIn s tenantId org.id link.warehouseId := by
    apply List.mem_filter.mpr ⟨hl, ?_⟩
    rw [hr]
    simp only [Option.map_some, decide_eq_true_eq]
    exact ⟨htenant'.symm.trans (htenant.symm.trans hcallerTenant),
      horg'.symm.trans (horg.symm.trans hcallerOrg), hlive,
      congrArg some (hrWarehouse.trans hwarehouse.symm)⟩
  exact hnone (List.length_pos_of_mem hcounted)

/-- A change of an organisation that no live lien belongs to, or that keeps it on the
platform. -/
theorem setOrgStatus_ends {id : Id} {status : FinancierOrgStatus}
    (hkept : status = .offboarded → ∀ p ∈ s.pledges,
      (∃ l ∈ s.liens, l.status.Live ∧ l.pledgeId = p.id) → p.financierOrgId ≠ id) :
    Ends (fun _ => Rehouses s) (setOrgStatus id status) s := by
  apply ensures_write_last (fun _ _ => ⟨trivial, .refl s⟩)
  intro _ s' hok
  obtain ⟨orgs, hupdate, hresult⟩ := map_ok.mp hok
  cases hresult
  obtain ⟨o, hfind, rfl⟩ := updateRow_ok.mp hupdate
  refine ⟨trivial, _, rfl, ?_⟩
  rintro p hp hlien ⟨⟨o', hfind', hon⟩, hlinks⟩
  refine ⟨?_, hlinks⟩
  by_cases hid : p.financierOrgId = id
  · have hself : (s.directory.financierOrgs.modify id (fun o => { o with status })
        fun _ => rfl).find p.financierOrgId = some { o with status } := by
      rw [hid]
      exact Table.find_modify_self hfind
    exact ⟨_, hself, fun hoff => hkept hoff p hp hlien hid⟩
  · have hother : (s.directory.financierOrgs.modify id (fun o => { o with status })
        fun _ => rfl).find p.financierOrgId = some o' :=
      (Table.find_modify_of_ne hid).trans hfind'
    exact ⟨o', hother, hon⟩

theorem offboardFinancierOrg_ends (hs : Placed s) (id : Id) :
    Ends (fun _ => Rehouses s) (offboardFinancierOrg id) s := by
  apply ensures_find trivial (fun _ => .refl s)
  intro org _
  split
  · exact .refl s
  apply ensures_read trivial
  apply ensures_throwIf (fun _ => .refl s)
  intro hnone
  apply setOrgStatus_ends
  rintro - p hp ⟨l, hl, hlive, hpledge⟩ horg
  obtain ⟨p', hp', hid', -, horg', -⟩ := hs.liens l hl
  obtain rfl : p' = p := Table.eq_of_key_eq hp' hp (hid'.trans hpledge)
  have hcounted : l ∈ s.liens.rows.filter fun l => l.financierOrgId = id ∧ l.status.Live := by
    apply List.mem_filter.mpr ⟨hl, ?_⟩
    simp only [decide_eq_true_eq]
    exact ⟨horg'.symm.trans horg, hlive⟩
  exact hnone (List.length_pos_of_mem hcounted)

theorem OnboardingRequest.ends (request : OnboardingRequest) (hs : Placed s) :
    Ends (fun _ => Rehouses s) request.run s := by
  cases request with
  | onboardWarehouse linkId callerUserId warehouseId =>
      exact onboardWarehouse_ends linkId callerUserId warehouseId
  | approveWarehouseLink tenantId linkId => exact decideWarehouseLink_ends _ _ tenantId linkId
  | rejectWarehouseLink tenantId linkId => exact decideWarehouseLink_ends _ _ tenantId linkId
  | offboardWarehouse callerUserId linkId => exact offboardWarehouse_ends hs callerUserId linkId
  | suspendFinancierOrg id =>
      apply ensures_find trivial (fun _ => .refl s)
      intro org _
      apply ensures_throwIf (fun _ => .refl s)
      intro _
      split
      · exact .refl s
      · exact setOrgStatus_ends nofun
  | reactivateFinancierOrg id =>
      apply ensures_find trivial (fun _ => .refl s)
      intro org _
      apply ensures_throwIf (fun _ => .refl s)
      intro _
      split
      · exact .refl s
      · exact setOrgStatus_ends nofun
  | offboardFinancierOrg id => exact offboardFinancierOrg_ends hs id

end Onboarding

/-! ## Whole runs -/

/-- A request to the platform, onboarding included. -/
inductive PlatformRequest where
  | request (request : Request)
  | onboarding (request : OnboardingRequest)

def PlatformRequest.run (num : Numeric) : PlatformRequest → Api Unit
  | request r => r.run num
  | onboarding r => r.run

/-- Requests executed one at a time, each to its end. -/
def runPlatform (num : Numeric) (requests : List PlatformRequest) (db : Db) : Db :=
  requests.foldl (fun db request => ((request.run num).exec db).2) db

/-- Every live lien belongs to an organisation that is on the platform and linked to the
warehouse of the lien's receipt. -/
def LiveCounterparties (db : Db) : Prop :=
  ∀ l ∈ db.liens, l.status.Live → ∃ r, db.ledger.receipts.find l.receiptId = some r ∧
    Linked db.directory l.tenantId l.financierOrgId r.warehouseId

/-- The same by the pledges of the liens. -/
structure Covered (db : Db) : Prop where
  custody : Custody db
  placed : Placed db
  live : ∀ l ∈ db.liens, l.status.Live → ∀ p ∈ db.pledges, p.id = l.pledgeId →
    p.Linked db.directory

theorem Covered.counterparties {db : Db} (h : Covered db) : LiveCounterparties db := by
  intro l hl hlive
  obtain ⟨p, hp, hid, htenant, horg, r, hr, hwarehouse⟩ := h.placed.liens l hl
  refine ⟨r, hr, ?_⟩
  have hlinked := h.live l hl hlive p hp hid
  rw [Pledge.Linked, htenant, horg, ← hwarehouse] at hlinked
  exact hlinked

theorem Covered.continued {s s' : Db} (h : Covered s) (hc : Custody s') (hs' : Placed s')
    (hcontinued : Continued s s') : Covered s' := by
  refine ⟨hc, hs', ?_⟩
  intro l' hl' hlive p' hp' hid'
  obtain ⟨p, hp, hid, hcase⟩ := hcontinued.liens l' hl' hlive
  obtain ⟨q, hq, hqid, hqtenant, hqorg, hqwarehouse, -⟩ := hcontinued.pledges p hp
  obtain rfl : q = p' := Table.eq_of_key_eq hq hp' (hqid.trans (hid.trans hid'.symm))
  have hlinked : p.Linked s.directory := by
    rcases hcase with hlinked | ⟨l, hl, hlive₀, hpledge⟩
    · exact hlinked
    · exact h.live l hl hlive₀ p hp hpledge.symm
  rw [Pledge.Linked, hcontinued.directory, hqtenant, hqorg, hqwarehouse]
  exact hlinked

theorem Covered.rehouses {s s' : Db} (h : Covered s) (hrehouses : Rehouses s s') : Covered s' := by
  obtain ⟨d, rfl, hkept⟩ := hrehouses
  refine ⟨{ h.custody with }, { h.placed with }, ?_⟩
  intro l hl hlive p hp hid
  exact hkept p hp ⟨l, hl, hlive, hid.symm⟩ (h.live l hl hlive p hp hid)

/-- What a request to the platform is asked for. -/
def PlatformRequest.Countersigned : PlatformRequest → Db → Prop
  | request r, db => r.Countersigned db
  | onboarding _, _ => True

/-- One request, run to its end, keeps every live lien covered. -/
theorem Covered.step {num : Numeric} {s : Db} (h : Covered s) (request : PlatformRequest)
    (hlinked : request.Countersigned s) : Covered ((request.run num).exec s).2 := by
  cases request with
  | request r =>
      have hends : Ends (fun _ s' => Custody s' ∧ Keeps s s') (r.run num) s :=
        r.ends h.custody h.placed hlinked
      obtain ⟨hc, hs', hcontinued⟩ := hends.exec
      exact h.continued hc hs' hcontinued
  | onboarding r => exact h.rehouses (r.ends h.placed).exec

/-- The requests of a run, each asked in the state it finds. -/
def Asks (num : Numeric) : List PlatformRequest → Db → Prop
  | [], _ => True
  | request :: rest, db =>
      request.Countersigned db ∧ Asks num rest ((request.run num).exec db).2

theorem Covered.run {num : Numeric} {s : Db} (h : Covered s) (requests : List PlatformRequest)
    (hasks : Asks num requests s) : Covered (runPlatform num requests s) := by
  induction requests generalizing s with
  | nil => exact h
  | cons request rest ih => exact ih (h.step request hasks.1) hasks.2

/-- Requests executed one at a time keep the counterparty of every live lien, as long as
whoever accepts a pledge is still on the platform and linked. -/
theorem live_counterparties (num : Numeric) (directory : Directory)
    (requests : List PlatformRequest) (hasks : Asks num requests (Db.initial directory)) :
    LiveCounterparties (runPlatform num requests (Db.initial directory)) := by
  have hstart : Covered (Db.initial directory) := by
    refine ⟨custody_initial directory, placed_initial directory, ?_⟩
    intro l hl
    cases hl
  exact (hstart.run requests hasks).counterparties

/-- The financier of pledge 7 leaves the warehouse. -/
def sampleOffboarding : PlatformRequest := .onboarding (.offboardWarehouse 20 31)

/-- Pledge 7, and what happens to it. -/
def pledgedThen (requests : List PlatformRequest) : List PlatformRequest :=
  (sampleStock ++ [samplePledge]).map .request ++ requests

/-- While the pledge is pending there is no lien to count, so the financier may leave the
warehouse, and accept afterwards. -/
theorem lien_without_link :
    ¬ ∀ (num : Numeric) (directory : Directory) (requests : List PlatformRequest),
      LiveCounterparties (runPlatform num requests (Db.initial directory)) := by
  intro hclaim
  have hlive := hclaim .postgres sampleDirectory
    (pledgedThen [sampleOffboarding, .request sampleAcceptance])
  have hlien : ((runPlatform .postgres (pledgedThen [sampleOffboarding, .request sampleAcceptance])
      (Db.initial sampleDirectory)).liens.find 8).map Lien.status = some .active := by
    decide +kernel
  have hlinks : ∀ link ∈ (runPlatform .postgres
      (pledgedThen [sampleOffboarding, .request sampleAcceptance])
      (Db.initial sampleDirectory)).directory.warehouseLinks.rows, link.status ≠ .active := by
    decide +kernel
  obtain ⟨l, hfind, hstatus⟩ := Option.map_eq_some_iff.mp hlien
  obtain ⟨r, -, -, link, hlink, -, -, -, hactive⟩ :=
    hlive l (Table.mem_of_find hfind) (.inl hstatus)
  exact hlinks link hlink hactive

/-- The financier accepts, and is then refused to leave. -/
theorem live_counterparties_sample :
    LiveCounterparties (runPlatform .postgres
      (pledgedThen [.request sampleAcceptance, sampleOffboarding])
        (Db.initial sampleDirectory)) := by
  have hlinked : sampleAcceptance.Countersigned
      (runPlatform .postgres (pledgedThen []) (Db.initial sampleDirectory)) := by
    rintro p ⟨hfind, -⟩
    have hpledge : ((runPlatform .postgres (pledgedThen [])
        (Db.initial sampleDirectory)).pledges.find 7).map
        (fun p => (p.tenantId, p.financierOrgId, p.warehouseId)) = some (1, 30, 50) := by
      decide +kernel
    rw [show (runPlatform .postgres (pledgedThen []) (Db.initial sampleDirectory)).pledges.find 7 =
      some p from hfind] at hpledge
    obtain ⟨htenant, horg, hwarehouse⟩ : p.tenantId = 1 ∧ p.financierOrgId = 30 ∧
        p.warehouseId = 50 := by
      simpa using hpledge
    rw [Pledge.Linked, htenant, horg, hwarehouse]
    have hactive : ((runPlatform .postgres (pledgedThen [])
        (Db.initial sampleDirectory)).directory.financierOrgs.find 30).map FinancierOrg.status =
          some .active := by
      decide +kernel
    obtain ⟨o, ho, hstatus⟩ := Option.map_eq_some_iff.mp hactive
    have hlink : ∃ link ∈ (runPlatform .postgres (pledgedThen [])
        (Db.initial sampleDirectory)).directory.warehouseLinks.rows, link.tenantId = 1 ∧
          link.financierOrgId = 30 ∧ link.warehouseId = 50 ∧ link.status = .active := by
      decide +kernel
    refine ⟨⟨o, ho, ?_⟩, hlink⟩
    rw [hstatus]
    decide
  exact live_counterparties .postgres sampleDirectory _
    ⟨trivial, trivial, trivial, hlinked, trivial, trivial⟩

end SecureStore.Services
