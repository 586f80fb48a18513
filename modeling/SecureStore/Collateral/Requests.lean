/-
# Requests keep pledged volume in its place

Each request is followed from the state it starts in to the state it ends in, with
nothing in between. Only an acceptance makes a lien, and only of a pledge that passed its
checks; every other live lien was live before.
-/

import SecureStore.Collateral.Placement

namespace SecureStore.Services

open SecureStore.Foundation SecureStore.Inventory

/-- Judgements about requests that run to their end. -/
abbrev Ends (post : Except ApiError Unit → Db → Prop) (p : Api Unit) (s : Db) : Prop :=
  Process.Ensures (fun _ => True) post p s

section Requests

variable {num : Numeric} {s : Db} {by_ : Issuer}

/-- The rows of the pledges after an update that leaves them where they are. -/
theorem samePledge_modify (pledges : Table Pledge) (id : Id) {f : Pledge → Pledge}
    (hf : ∀ r, Keyed.key (f r) = Keyed.key r) (hsame : ∀ p, SamePledge p (f p)) :
    (∀ p ∈ pledges, ∃ p' ∈ pledges.modify id f hf, SamePledge p p') ∧
      ∀ p' ∈ pledges.modify id f hf, ∃ p ∈ pledges, SamePledge p p' := by
  constructor
  · intro p hp
    by_cases hid : p.id = id
    · refine ⟨f p, Table.mem_modify.mpr (.inl ⟨p, ?_, rfl⟩), hsame p⟩
      exact hid ▸ Table.find_of_mem hp
    · exact ⟨p, Table.mem_modify.mpr (.inr ⟨hp, hid⟩), .refl p⟩
  · intro p' hp'
    rcases Table.mem_modify.mp hp' with ⟨p, hp, rfl⟩ | ⟨hp, -⟩
    · exact ⟨p, Table.mem_of_find hp, hsame p⟩
    · exact ⟨p', hp, .refl p'⟩

/-- A decision writes the pledge's row and leaves the liens alone. -/
theorem updatePledge_spares (hs : Placed s) {id : Id} {f : Pledge → Pledge}
    {hf : ∀ r, Keyed.key (f r) = Keyed.key r} (hsame : ∀ p, SamePledge p (f p)) :
    Ends (fun _ s' => Placed s' ∧ Spares s s') (updatePledge by_ id f hf) s := by
  apply ensures_write_last
  · intro e _
    exact ⟨trivial, hs, .refl s⟩
  · intro _ s' hok
    obtain ⟨pledges, hupdate, hresult⟩ := map_ok.mp hok
    cases hresult
    obtain ⟨-, -, rfl⟩ := updateRow_ok.mp hupdate
    obtain ⟨hkept, hsame'⟩ := samePledge_modify s.pledges id hf hsame
    exact ⟨trivial, hs.rows hkept hsame' hs.liens, rfl, rfl, hkept⟩

/-- Releasing a pledge's held leaf leaves the rows alone. -/
theorem releaseHeld_spares (hs : Placed s) {uuids : Uuids} {p : Pledge} {actorUserId : Option Id}
    {decision : String} (hdecision : decision ≠ "create") :
    Ends (fun _ s' => Placed s' ∧ Spares s s')
      (releaseHeld num by_ uuids p actorUserId decision) s := by
  unfold releaseHeld
  split
  · exact ⟨hs, .refl s⟩
  · apply ensures_ledger rfl
    · intro e
      exact ⟨trivial, hs, .refl s⟩
    · intro r ledger houtcome
      refine ⟨trivial, hs.release houtcome ?_, rfl, rfl, fun p hp => ⟨p, hp, .refl p⟩⟩
      intro id hkey
      simp [createKey] at hkey
      exact hdecision hkey.1

/-- A release and a decision that is written after it. -/
theorem decide_spares (hs : Placed s) {uuids : Uuids} {p : Pledge} {actorUserId : Option Id}
    {decision : String} (hdecision : decision ≠ "create") {f : Pledge → Pledge}
    {hf : ∀ r, Keyed.key (f r) = Keyed.key r} (hsame : ∀ p, SamePledge p (f p)) :
    Ends (fun _ s' => Placed s' ∧ Spares s s') (do
      releaseHeld num by_ uuids p actorUserId decision
      updatePledge by_ p.id f hf) s := by
  apply ensures_bind
  apply (releaseHeld_spares hs hdecision).weaken
  rintro (e | _) s₁ ⟨hs₁, h₁⟩
  · exact ⟨hs₁, h₁⟩
  · have hupdate : Ends _ (updatePledge by_ p.id f hf) s₁ := updatePledge_spares hs₁ hsame
    apply hupdate.weaken
    rintro _ s₂ ⟨hs₂, h₂⟩
    exact ⟨hs₂, h₁.trans h₂⟩

/-- The user belongs to the organisation. -/
def MemberOf (d : Directory) (userId financierOrgId : Id) : Prop :=
  ∃ user, d.users.find userId = some user ∧ user.financierOrgId = some financierOrgId

/-- Reading on behalf of a financier changes nothing. -/
theorem ensures_requireFinancierOrg {crash : Db → Prop} {callerUserId : Id}
    {post : Except ApiError Unit → Db → Prop} {g : FinancierOrg → Api Unit} (hs : crash s)
    (herr : ∀ e, post (.error e) s)
    (h : ∀ org, MemberOf s.directory callerUserId org.id → Process.Ensures crash post (g org) s) :
    Process.Ensures crash post (requireFinancierOrg callerUserId >>= g : Api Unit) s := by
  apply ensures_bind
  apply ensures_read hs
  apply ensures_orThrow
  · intro _
    exact herr _
  · intro org horg
    obtain ⟨user, huser, horg⟩ := Option.bind_eq_some_iff.mp horg
    obtain ⟨orgId, hmember, hfind⟩ := Option.bind_eq_some_iff.mp horg
    have hid : org.id = orgId := Table.key_of_find hfind
    apply ensures_throwIf
    · intro _
      exact herr _
    · intro _
      exact h org ⟨user, huser, hid ▸ hmember⟩

theorem ensures_getFinancierPledgeDetail {crash : Db → Prop} {callerUserId pledgeId : Id}
    {post : Except ApiError Unit → Db → Prop} (hs : crash s) (h : ∀ r, post r s) :
    Process.Ensures crash post (getFinancierPledgeDetail callerUserId pledgeId) s := by
  apply ensures_requireFinancierOrg hs (fun e => h _)
  intro org _
  apply ensures_find hs
  · intro _
    exact h _
  · intro _ _
    exact h _

theorem requireFinancierOrg_ends {callerUserId : Id} {post : Except ApiError Unit → Db → Prop}
    {g : FinancierOrg → Api Unit} (herr : ∀ e, post (.error e) s)
    (h : ∀ org, MemberOf s.directory callerUserId org.id → Ends post (g org) s) :
    Ends post (requireFinancierOrg callerUserId >>= g) s :=
  ensures_requireFinancierOrg trivial herr h

theorem getFinancierPledgeDetail_ends {callerUserId pledgeId : Id}
    {post : Except ApiError Unit → Db → Prop} (h : ∀ r, post r s) :
    Ends post (getFinancierPledgeDetail callerUserId pledgeId) s :=
  ensures_getFinancierPledgeDetail trivial h

theorem getFinancierReleaseRequestDetail_ends {callerUserId requestId : Id}
    {post : Except ApiError Unit → Db → Prop} (h : ∀ r, post r s) :
    Ends post (getFinancierReleaseRequestDetail callerUserId requestId) s := by
  apply requireFinancierOrg_ends (fun e => h _)
  intro org _
  apply ensures_read trivial
  apply ensures_orThrow
  · intro _
    exact h _
  · intro _ _
    exact h _

/-- What every request comes to when it runs to its end. -/
def Keeps (s s' : Db) : Prop := Placed s' ∧ Continued s s'

theorem keeps_of_spares {s' : Db} (hs : Placed s) (h : Placed s' ∧ Spares s s') : Keeps s s' :=
  ⟨h.1, h.2.continued hs⟩

theorem cancelPledge_ends (hs : Placed s) (uuids : Uuids) (callerUserId pledgeId : Id) :
    Ends (fun _ => Keeps s) (cancelPledge num uuids callerUserId pledgeId) s := by
  have hstop : Keeps s s := keeps_of_spares hs ⟨hs, .refl s⟩
  apply ensures_read trivial
  apply ensures_orThrow (fun _ => hstop)
  intro p _
  apply ensures_throwIf (fun _ => hstop)
  intro _
  apply Process.Ensures.weaken
  · apply decide_spares hs (by decide)
    exact fun _ => ⟨rfl, rfl, rfl, rfl, rfl⟩
  · exact fun _ s' h => keeps_of_spares hs h

theorem rejectPledge_ends (hs : Placed s) (uuids : Uuids) (callerUserId pledgeId : Id)
    (reason : String) :
    Ends (fun _ => Keeps s) (rejectPledge num uuids callerUserId pledgeId reason) s := by
  have hstop : Keeps s s := keeps_of_spares hs ⟨hs, .refl s⟩
  apply requireFinancierOrg_ends (fun _ => hstop)
  intro org _
  apply ensures_find trivial (fun _ => hstop)
  intro p _
  apply ensures_throwIf (fun _ => hstop)
  intro _
  apply ensures_bind
  apply Process.Ensures.weaken (releaseHeld_spares hs (by decide))
  rintro (e | _) s₁ ⟨hs₁, h₁⟩
  · exact keeps_of_spares hs ⟨hs₁, h₁⟩
  apply ensures_bind
  apply Process.Ensures.weaken
  · apply updatePledge_spares hs₁
    exact fun _ => ⟨rfl, rfl, rfl, rfl, rfl⟩
  rintro (e | _) s₂ ⟨hs₂, h₂⟩
  · exact keeps_of_spares hs ⟨hs₂, h₁.trans h₂⟩
  · exact getFinancierPledgeDetail_ends fun _ => keeps_of_spares hs ⟨hs₂, h₁.trans h₂⟩

theorem expireStalePledges_ends (hs : Placed s) (uuids : Id → Uuids) (now : Timestamp) :
    Ends (fun _ => Keeps s) (expireStalePledges num uuids now) s := by
  apply ensures_read trivial
  apply ensures_forEach (fun _ s' => Placed s' ∧ Spares s s')
  · rintro p _ s₁ ⟨hs₁, h₁⟩
    apply ensures_recover
    apply Process.Ensures.weaken
    · apply decide_spares hs₁ (by decide)
      exact fun _ => ⟨rfl, rfl, rfl, rfl, rfl⟩
    rintro (e | _) s₂ ⟨hs₂, h₂⟩
    · exact ⟨hs₂, h₁.trans h₂⟩
    · exact ⟨hs₂, h₁.trans h₂⟩
  · exact fun s' h => keeps_of_spares hs h
  · exact ⟨hs, .refl s⟩

theorem getReceiptEncumbrance_ends {callerUserId receiptId : Id}
    {post : Except ApiError Unit → Db → Prop} {g : ℚ → Api Unit} (herr : ∀ e, post (.error e) s)
    (h : ∀ available, Ends post (g available) s) :
    Ends post (getReceiptEncumbrance callerUserId receiptId >>= g) s := by
  have hstop : ∀ e, Continues (fun _ => True) post g (.error e) s := herr
  apply ensures_bind
  apply ensures_read trivial
  apply ensures_orThrow (fun _ => hstop _)
  intro root _
  apply ensures_throwIf (fun _ => hstop _)
  intro _
  apply ensures_read_last trivial
  exact h _

theorem createPledge_ends (hs : Placed s) (dto : CreatePledge) :
    Ends (fun _ => Keeps s) (createPledge num dto) s := by
  have hstop : Keeps s s := keeps_of_spares hs ⟨hs, .refl s⟩
  apply ensures_read trivial
  apply ensures_orThrow (fun _ => hstop)
  intro caller _
  apply ensures_read trivial
  apply ensures_orThrow (fun _ => hstop)
  intro receipt hreceipt
  apply ensures_throwIf (fun _ => hstop)
  intro _
  apply ensures_throwIf (fun _ => hstop)
  intro _
  apply getReceiptEncumbrance_ends (fun _ => hstop)
  intro available
  apply ensures_throwIf (fun _ => hstop)
  intro _
  apply ensures_read trivial
  apply ensures_orThrow (fun _ => hstop)
  intro org _
  apply ensures_throwIf (fun _ => hstop)
  intro _
  apply ensures_ledger rfl (fun _ => ⟨trivial, hstop⟩)
  intro result ledger houtcome
  refine ⟨trivial, ?_⟩
  have hfind : s.ledger.receipts.find receipt.id = some receipt :=
    Table.find_of_mem (Table.mem_of_find (Option.filter_eq_some_iff.mp hreceipt).1)
  cases houtcome with
  | replayed e prior reconstructs same =>
      -- a key that is used has its pledge, so the row is refused
      subst same
      obtain ⟨p, hp, hid⟩ := hs.logged dto.pledgeId (used_of_find prior)
      apply ensures_orThrow (fun _ => hstop)
      intro held _
      apply ensures_write_last (fun _ _ => ⟨trivial, hstop⟩)
      intro _ s' hok
      obtain ⟨pledges, hcreate, -⟩ := map_ok.mp hok
      have hfree := (Table.insert_eq_some_iff.mp (createRow_ok.mp hcreate).2).1
      exact absurd hid (Table.find_eq_none_iff.mp hfree p hp)
  | committed free events change effect commits =>
      obtain ⟨held, hheld⟩ : ∃ held, result.held = some held := by
        cases effect
        exact ⟨_, rfl⟩
      have hfresh : s.ledger.receipts.find held.id = none := by
        cases effect
        cases hheld
        exact commits.created_fresh List.mem_cons_self
      have hidle : s.pledges.find dto.pledgeId = none := by
        rw [Table.find_eq_none_iff]
        intro p hp hid
        have hused := hs.recorded p hp
        rw [show p.id = dto.pledgeId from hid] at hused
        exact not_used_iff.mpr free hused
      have hsingle : ∀ p ∈ s.pledges, ¬ p.heldReceiptId = some held.id := by
        intro p hp hsome
        obtain ⟨r, hr, -⟩ := hs.pledges p hp held.id hsome
        rw [hfresh] at hr
        cases hr
      apply ensures_orThrow
      · intro hnone
        cases hheld.symm.trans hnone
      intro held' hheld'
      obtain rfl : held = held' := Option.some_inj.mp (hheld.symm.trans hheld')
      apply ensures_write_last
      · intro e hrefused
        rcases createRow_refused (map_error.mp hrefused) with htaken | ⟨p, hp, htaken⟩
        · exact absurd hidle htaken
        · exact absurd htaken (hsingle p hp)
      · intro _ s' hok
        obtain ⟨pledges, hcreate, hresult⟩ := map_ok.mp hok
        cases hresult
        have hinsert := (createRow_ok.mp hcreate).2
        refine ⟨trivial, hs.pledge effect commits hheld rfl rfl hfind rfl rfl hinsert, ?_⟩
        refine ⟨rfl, fun p hp => ⟨p, (Table.mem_insert hinsert).mpr (.inl hp), .refl p⟩, ?_⟩
        intro l hl hlive
        obtain ⟨p, hp, hid, -⟩ := hs.liens l hl
        exact ⟨p, hp, hid, .inr ⟨l, hl, hlive, hid.symm⟩⟩

/-- An acceptance that passes every check of the code. -/
def AcceptPledge.Admitted (dto : AcceptPledge) (db : Db) (p : Pledge) : Prop :=
  db.pledges.find dto.pledgeId = some p ∧ p.status = .pending ∧ ¬ p.expiresAt < dto.now ∧
    dto.otp = .ok () ∧ MemberOf db.directory dto.callerUserId p.financierOrgId

/-- What an acceptance does not check. -/
def AcceptPledge.Countersigned (dto : AcceptPledge) (db : Db) : Prop :=
  ∀ p, dto.Admitted db p → p.Linked db.directory

theorem acceptPledge_ends (hs : Placed s) (dto : AcceptPledge) (hlinked : dto.Countersigned s) :
    Ends (fun _ => Keeps s) (acceptPledge num dto) s := by
  have hstop : Keeps s s := keeps_of_spares hs ⟨hs, .refl s⟩
  apply requireFinancierOrg_ends (fun _ => hstop)
  intro org hmember
  apply ensures_find trivial (fun _ => hstop)
  intro p hp
  apply ensures_throwIf (fun _ => hstop)
  intro hpending
  apply ensures_throwIf (fun _ => hstop)
  intro hunexpired
  apply ensures_orThrow (fun _ => hstop)
  intro heldReceiptId hheld
  apply ensures_ofExcept (fun _ _ => hstop)
  intro _ hotp
  obtain ⟨hfind, horg⟩ := Option.filter_eq_some_iff.mp hp
  have hmem := Table.mem_of_find hfind
  have hadmitted : dto.Admitted s p := by
    refine ⟨hfind, not_not.mp hpending, hunexpired, hotp, ?_⟩
    rw [of_decide_eq_true horg]
    exact hmember
  apply ensures_ledger rfl (fun _ => ⟨trivial, hstop⟩)
  intro r ledger houtcome
  refine ⟨trivial, ?_⟩
  have hs₁ : Placed { s with ledger } :=
    hs.transitionPledgeToLien houtcome (by simp [createKey])
  have h₁ : Keeps s { s with ledger } :=
    keeps_of_spares hs ⟨hs₁, rfl, rfl, fun p hp => ⟨p, hp, .refl p⟩⟩
  apply ensures_write (fun _ _ => ⟨trivial, h₁⟩)
  intro _ s₂ hok
  obtain ⟨liens, hcreate, hok⟩ := bind_ok.mp hok
  obtain ⟨pledges, hupdate, hok⟩ := bind_ok.mp hok
  cases hok
  obtain ⟨-, -, rfl⟩ := updateRow_ok.mp hupdate
  have hinsert := (createRow_ok.mp hcreate).2
  obtain ⟨hkept, hsame⟩ := samePledge_modify s.pledges p.id
    (f := fun r => { r with
      status := .accepted, decidedById := some dto.callerUserId, decisionReason := dto.note })
    (fun _ => rfl) fun _ => ⟨rfl, rfl, rfl, rfl, rfl⟩
  refine ⟨trivial, getFinancierPledgeDetail_ends fun _ => ⟨hs₁.rows hkept hsame ?_, rfl, hkept, ?_⟩⟩
  · intro l hl
    rcases (Table.mem_insert hinsert).mp hl with hl | rfl
    · exact hs₁.liens l hl
    · exact ⟨p, hmem, rfl, rfl, rfl, hs₁.pledges p hmem heldReceiptId hheld⟩
  · intro l hl hlive
    rcases (Table.mem_insert hinsert).mp hl with hl | rfl
    · obtain ⟨p, hp, hid, -⟩ := hs.liens l hl
      exact ⟨p, hp, hid, .inr ⟨l, hl, hlive, hid.symm⟩⟩
    · exact ⟨p, hmem, rfl, .inl (hlinked p hadmitted)⟩

/-- A write of other tables. -/
theorem spares_of_same {s' : Db} (hs : Placed s) (hdirectory : s'.directory = s.directory)
    (hledger : s'.ledger = s.ledger) (hpledges : s'.pledges = s.pledges)
    (hliens : s'.liens = s.liens) : Placed s' ∧ Spares s s' := by
  constructor
  · constructor
    · rw [hledger, hpledges]
      exact hs.minted
    · rw [hledger, hpledges]
      exact hs.recorded
    · rw [hledger, hpledges]
      exact hs.logged
    · rw [hledger, hpledges]
      exact hs.pledges
    · rw [hledger, hpledges, hliens]
      exact hs.liens
  · refine ⟨hdirectory, hliens, ?_⟩
    rw [hpledges]
    exact fun p hp => ⟨p, hp, .refl p⟩

theorem updateReleaseRequest_spares (hs : Placed s) {id : Id}
    {f : ReleaseRequest → ReleaseRequest} {hf : ∀ r, Keyed.key (f r) = Keyed.key r} :
    Ends (fun _ s' => Placed s' ∧ Spares s s') (updateReleaseRequest by_ id f hf) s := by
  apply ensures_write_last (fun _ _ => ⟨trivial, hs, .refl s⟩)
  intro _ s' hok
  obtain ⟨t, -, hresult⟩ := map_ok.mp hok
  cases hresult
  exact ⟨trivial, spares_of_same hs rfl rfl rfl rfl⟩

theorem createReleaseRequest_ends (hs : Placed s) (dto : CreateReleaseRequest) :
    Ends (fun _ => Keeps s) (createReleaseRequest num dto) s := by
  have hstop : Keeps s s := keeps_of_spares hs ⟨hs, .refl s⟩
  apply ensures_read trivial
  apply ensures_orThrow (fun _ => hstop)
  intro caller _
  apply ensures_read trivial
  apply ensures_read trivial
  apply ensures_bind
  apply ensures_forEach (fun _ s' => s' = s)
  · rintro line _ s' rfl
    apply ensures_orThrow (fun _ => hstop)
    intro l _
    apply ensures_throwIf (fun _ => hstop)
    intro _
    apply ensures_throwIf (fun _ => hstop)
    intro _
    apply ensures_throwIf (fun _ => hstop)
    intro _
    apply ensures_throwIf (fun _ => hstop)
    intro _
    exact ensures_throwIf_last (fun _ => hstop) fun _ => rfl
  · rintro s' rfl
    apply continues_ok.mpr
    apply ensures_write_last (fun _ _ => ⟨trivial, hstop⟩)
    intro _ s'' hok
    obtain ⟨requests, -, hok⟩ := bind_ok.mp hok
    obtain ⟨lines, -, hok⟩ := bind_ok.mp hok
    cases hok
    exact ⟨trivial, keeps_of_spares hs (spares_of_same hs rfl rfl rfl rfl)⟩
  · rfl

theorem cancelReleaseRequest_ends (hs : Placed s) (callerUserId requestId : Id) :
    Ends (fun _ => Keeps s) (cancelReleaseRequest callerUserId requestId) s := by
  have hstop : Keeps s s := keeps_of_spares hs ⟨hs, .refl s⟩
  apply ensures_read trivial
  apply ensures_orThrow (fun _ => hstop)
  intro req _
  apply ensures_throwIf (fun _ => hstop)
  intro _
  apply Process.Ensures.weaken (updateReleaseRequest_spares hs)
  exact fun _ s' h => keeps_of_spares hs h

theorem rejectReleaseRequest_ends (hs : Placed s) (callerUserId requestId : Id)
    (reason : String) :
    Ends (fun _ => Keeps s) (rejectReleaseRequest callerUserId requestId reason) s := by
  have hstop : Keeps s s := keeps_of_spares hs ⟨hs, .refl s⟩
  apply requireFinancierOrg_ends (fun _ => hstop)
  intro org _
  apply ensures_read trivial
  apply ensures_orThrow (fun _ => hstop)
  intro req _
  apply ensures_throwIf (fun _ => hstop)
  intro _
  apply ensures_bind
  apply Process.Ensures.weaken (updateReleaseRequest_spares hs)
  rintro (e | _) s' h
  · exact keeps_of_spares hs h
  · exact getFinancierReleaseRequestDetail_ends fun _ => keeps_of_spares hs h

/-- The liens after an update that takes none of them back. -/
theorem Placed.updateLien {liens : Table Lien} (hs : Placed s) {id : Id} {f : Lien → Lien}
    {hf : ∀ r, Keyed.key (f r) = Keyed.key r} (hupdate : updateRow s.liens id f hf = .ok liens)
    (hsame : ∀ l, (f l).pledgeId = l.pledgeId ∧ (f l).tenantId = l.tenantId ∧
      (f l).financierOrgId = l.financierOrgId)
    (hreceipt : ∀ l, s.liens.find id = some l → ∀ p ∈ s.pledges, p.id = l.pledgeId →
      InWarehouse s.ledger (f l).receiptId p.warehouseId) : Placed { s with liens } := by
  obtain ⟨-, -, rfl⟩ := updateRow_ok.mp hupdate
  apply hs.rows (fun p hp => ⟨p, hp, .refl p⟩) fun p hp => ⟨p, hp, .refl p⟩
  intro l hl
  rcases Table.mem_modify.mp hl with ⟨l, hfind, rfl⟩ | ⟨hl, -⟩
  · obtain ⟨p, hp, hid, htenant, horg, -⟩ := hs.liens l (Table.mem_of_find hfind)
    obtain ⟨hpledge', htenant', horg'⟩ := hsame l
    exact ⟨p, hp, hid.trans hpledge'.symm, htenant.trans htenant'.symm, horg.trans horg'.symm,
      hreceipt l hfind p hp hid⟩
  · exact hs.liens l hl

theorem Placed.lien_in (hs : Placed s) {l : Lien} {p : Pledge} (hl : l ∈ s.liens)
    (hp : p ∈ s.pledges) (hid : p.id = l.pledgeId) :
    InWarehouse s.ledger l.receiptId p.warehouseId := by
  obtain ⟨p', hp', hid', -, -, hwarehouse⟩ := hs.liens l hl
  obtain rfl : p' = p := Table.eq_of_key_eq hp' hp (hid'.trans hid.symm)
  exact hwarehouse

/-- What holds between the lines of an approval: the live liens were live when it began. -/
structure Lining (s₀ s : Db) : Prop where
  custody : Custody s
  later : s₀.Later s
  placed : Placed s
  pledges : s.pledges = s₀.pledges
  liens : ∀ l' ∈ s.liens, l'.status.Live → ∃ l ∈ s₀.liens, l.status.Live ∧ l.pledgeId = l'.pledgeId

theorem Lining.refl (hc : Custody s) (hs : Placed s) : Lining s s :=
  ⟨hc, .refl s, hs, rfl, fun l hl hlive => ⟨l, hl, hlive, rfl⟩⟩

theorem Lining.keeps {s₀ : Db} (h : Lining s₀ s) (hs₀ : Placed s₀) : Keeps s₀ s := by
  refine ⟨h.placed, h.later.directory, ?_, ?_⟩
  · rw [h.pledges]
    exact fun p hp => ⟨p, hp, .refl p⟩
  · intro l' hl' hlive
    obtain ⟨l, hl, hlive₀, hpledge⟩ := h.liens l' hl' hlive
    obtain ⟨p, hp, hid, -⟩ := hs₀.liens l hl
    exact ⟨p, hp, hid.trans hpledge, .inr ⟨l, hl, hlive₀, hid.symm⟩⟩

/-- The tables after one line, apart from custody. -/
def Lined (s₀ s : Db) : Prop :=
  Placed s ∧ s.pledges = s₀.pledges ∧
    ∀ l' ∈ s.liens, l'.status.Live → ∃ l ∈ s₀.liens, l.status.Live ∧ l.pledgeId = l'.pledgeId

theorem releaseFully_ends {s₀ : Db} (h : Lining s₀ s) (dto : ApproveReleaseRequest)
    (req : ReleaseRequest) (l : LoadedLine) :
    Ends (fun _ => Lined s₀) (releaseFully num dto req l) s := by
  apply ensures_ledger rfl (fun _ => ⟨trivial, h.placed, h.pledges, h.liens⟩)
  intro r ledger houtcome
  have hs₁ : Placed { s with ledger } := h.placed.release houtcome (by simp [createKey])
  refine ⟨trivial, ?_⟩
  apply ensures_write_last (fun _ _ => ⟨trivial, hs₁, h.pledges, h.liens⟩)
  intro _ s₂ hok
  obtain ⟨liens, hupdate, hresult⟩ := map_ok.mp hok
  cases hresult
  refine ⟨trivial, hs₁.updateLien hupdate (fun _ => ⟨rfl, rfl, rfl⟩) ?_, h.pledges, ?_⟩
  · intro l hl p hp hid
    exact hs₁.lien_in (l := l) (Table.mem_of_find hl) hp hid
  · intro l' hl' hlive
    rcases mem_updateRow hupdate hl' with ⟨r, -, rfl⟩ | ⟨hl', -⟩
    · rcases hlive with hlive | hlive
      · cases hlive
      · cases hlive
    · exact h.liens l' hl' hlive

theorem releasePartly_ends {s₀ : Db} (hc₀ : Custody s₀) (h : Lining s₀ s)
    (dto : ApproveReleaseRequest) (req : ReleaseRequest) {l : LoadedLine}
    (hline : l.line ∈ s₀.releaseRequestLines) (hlien : l.lien ∈ s₀.liens)
    (hid : l.lien.id = l.line.lienId) (hlive : l.lien.status.Live) :
    Ends (fun _ => Lined s₀) (releasePartly num dto req l) s := by
  apply ensures_ledger rfl (fun _ => ⟨trivial, h.placed, h.pledges, h.liens⟩)
  intro result ledger houtcome
  have hs₁ : Placed { s with ledger } :=
    h.placed.releasePartial houtcome (by simp [createKey])
  refine ⟨trivial, ?_⟩
  apply ensures_orThrow (fun _ => ⟨hs₁, h.pledges, h.liens⟩)
  intro held hheld
  apply ensures_write_last (fun _ _ => ⟨trivial, hs₁, h.pledges, h.liens⟩)
  intro _ s₂ hok
  obtain ⟨liens, hupdate, hresult⟩ := map_ok.mp hok
  cases hresult
  obtain ⟨row, hrow, hpledge⟩ := lien_later hlien h.later
  have hmem : row ∈ s.liens := Table.mem_of_find hrow
  have hrowId : row.id = l.lien.id := Table.key_of_find hrow
  -- what is left under the lien is held for its pledge, so it lies in its warehouse
  have hplace : ∀ p ∈ s.pledges, p.id = row.pledgeId →
      InWarehouse ledger held.id p.warehouseId := by
    intro p hp hpid
    obtain ⟨hfind, hstatus⟩ := mem_of_partial houtcome hheld
    have hsrc : HeldFor s.ledger l.lien.receiptId .pledge row.pledgeId := by
      rw [hpledge]
      exact (hc₀.liens l.lien hlien).later h.later.ledger
    obtain ⟨r, hr, hminted⟩ := held_of_partial h.custody rfl (h.later.lines l.line hline) hmem
      (hrowId.trans hid) hsrc houtcome hheld
    obtain rfl : held = r := Option.some_inj.mp (hfind.symm.trans hr)
    have hheldStatus : held.status.Held := by
      rw [hstatus]
      decide
    obtain ⟨p', hp', hpid', hwarehouse⟩ :=
      hs₁.minted held (Table.mem_of_find hfind) _ (hminted hheldStatus)
    obtain rfl : p' = p := Table.eq_of_key_eq hp' hp (hpid'.trans hpid.symm)
    exact ⟨held, hfind, hwarehouse⟩
  refine ⟨trivial, hs₁.updateLien hupdate (fun _ => ⟨rfl, rfl, rfl⟩) ?_, h.pledges, ?_⟩
  · intro l' hl' p hp hpid
    obtain rfl : row = l' := Option.some_inj.mp (hrow.symm.trans hl')
    exact hplace p hp hpid
  · intro l' hl' hlive'
    rcases mem_updateRow hupdate hl' with ⟨r, hr, rfl⟩ | ⟨hl', -⟩
    · obtain rfl : row = r := Option.some_inj.mp (hrow.symm.trans hr)
      exact ⟨l.lien, hlien, hlive, hpledge.symm⟩
    · exact h.liens l' hl' hlive'

theorem releaseLine_ends {s₀ : Db} (hc₀ : Custody s₀) (h : Lining s₀ s)
    (dto : ApproveReleaseRequest) (req : ReleaseRequest) {l : LoadedLine}
    (hline : l.line ∈ s₀.releaseRequestLines) (hlien : l.lien ∈ s₀.liens)
    (hid : l.lien.id = l.line.lienId) (hlive : l.lien.status.Live) :
    Ends (fun _ => Lining s₀) (releaseLine num dto req l) s := by
  have hsafe : (custody num fun _ => True).Safe (releaseLine num dto req l) s :=
    releaseLine_safe (fun _ => trivial) dto req hline hlien hid hc₀ h.later
  have hcustody := Process.Ensures.of_keeps hsafe h.custody fun _ _ => trivial
  have hlined : Ends (fun _ => Lined s₀) (releaseLine num dto req l) s := by
    unfold releaseLine
    split
    · exact releaseFully_ends h dto req l
    · exact releasePartly_ends hc₀ h dto req hline hlien hid hlive
  apply (hcustody.and hlined).mono (fun _ _ => trivial)
  rintro _ s' ⟨⟨hc', hrely, -⟩, hplaced, hpledges, hliens⟩
  exact ⟨hc', h.later.trans (custody_later hrely), hplaced, hpledges, hliens⟩

theorem approveReleaseRequest_ends (hc : Custody s) (hs : Placed s)
    (dto : ApproveReleaseRequest) :
    Ends (fun _ => Keeps s) (approveReleaseRequest num dto) s := by
  have hstop : Keeps s s := keeps_of_spares hs ⟨hs, .refl s⟩
  apply requireFinancierOrg_ends (fun _ => hstop)
  intro org _
  apply ensures_read trivial
  apply ensures_orThrow (fun _ => hstop)
  intro found hfound
  obtain ⟨req, -, rfl⟩ := Option.map_eq_some_iff.mp hfound
  apply ensures_throwIf (fun _ => hstop)
  intro _
  -- the lines still to check, all of them live once none is left
  apply ensures_bind
  apply ensures_forEach (fun rest s' => s' = s ∧
    ∀ l ∈ loadedLines s req.id, l ∉ rest → l.lien.status.Live)
  · rintro l rest s' ⟨rfl, hchecked⟩
    apply ensures_throwIf (fun _ => hstop)
    intro hlive
    apply ensures_throwIf_last (fun _ => hstop)
    intro _
    refine ⟨rfl, ?_⟩
    intro l' hl' hrest
    by_cases hself : l' = l
    · rw [hself]
      exact not_not.mp hlive
    · exact hchecked l' hl' (by simp [hself, hrest])
  · rintro s' ⟨rfl, hlive⟩
    apply continues_ok.mpr
    apply ensures_ofExcept (fun _ _ => hstop)
    intro _ _
    apply ensures_bind
    apply ensures_forEach (fun rest s₁ => Lining s' s₁ ∧ ∀ l ∈ rest, l ∈ loadedLines s' req.id)
    · rintro l rest s₁ ⟨hlining, hrest⟩
      have hl := hrest l List.mem_cons_self
      obtain ⟨hline, -, hlien, hid⟩ := mem_loadedLines hl
      apply Process.Ensures.weaken
      · exact releaseLine_ends hc hlining dto req hline hlien hid (hlive l hl (List.not_mem_nil))
      rintro (e | _) s₂ hlining'
      · exact hlining'.keeps hs
      · exact ⟨hlining', fun l hl => hrest l (List.mem_cons_of_mem _ hl)⟩
    · rintro s₁ ⟨hlining, -⟩
      apply continues_ok.mpr
      apply ensures_bind
      apply Process.Ensures.weaken (updateReleaseRequest_spares hlining.placed)
      have hkeeps := hlining.keeps hs
      rintro r s₂ ⟨hs₂, hspares⟩
      have hend : Keeps s' s₂ := by
        refine ⟨hs₂, hspares.directory.trans hkeeps.2.directory, ?_, ?_⟩
        · intro p hp
          obtain ⟨p₁, hp₁, hid, htenant, horg, hwarehouse, hheld⟩ := hkeeps.2.pledges p hp
          obtain ⟨p₂, hp₂, hid', htenant', horg', hwarehouse', hheld'⟩ := hspares.pledges p₁ hp₁
          exact ⟨p₂, hp₂, hid'.trans hid, htenant'.trans htenant, horg'.trans horg,
            hwarehouse'.trans hwarehouse, hheld'.trans hheld⟩
        · intro l hl
          rw [hspares.liens] at hl
          exact hkeeps.2.liens l hl
      cases r with
      | error e => exact hend
      | ok _ => exact getFinancierReleaseRequestDetail_ends fun _ => hend
    · exact ⟨.refl hc hs, fun l hl => hl⟩
  · exact ⟨rfl, fun l hl hnot => absurd hl hnot⟩

theorem forceReleaseLien_ends (hs : Placed s) (dto : ForceReleaseLien) :
    Ends (fun _ => Keeps s) (forceReleaseLien num dto) s := by
  have hstop : Keeps s s := keeps_of_spares hs ⟨hs, .refl s⟩
  apply ensures_read trivial
  apply ensures_orThrow (fun _ => hstop)
  intro found hfound
  obtain ⟨l, -, rfl⟩ := Option.map_eq_some_iff.mp hfound
  dsimp only
  split
  · exact hstop
  apply ensures_throwIf (fun _ => hstop)
  intro _
  apply ensures_ledger rfl (fun _ => ⟨trivial, hstop⟩)
  intro r ledger houtcome
  have hs₁ : Placed { s with ledger } := hs.release houtcome (by simp [createKey])
  have h₁ : Keeps s { s with ledger } :=
    keeps_of_spares hs ⟨hs₁, rfl, rfl, fun p hp => ⟨p, hp, .refl p⟩⟩
  refine ⟨trivial, ?_⟩
  apply ensures_write_last (fun _ _ => ⟨trivial, h₁⟩)
  intro _ s₂ hok
  obtain ⟨forced, -, hok⟩ := bind_ok.mp hok
  obtain ⟨liens, hupdate, hok⟩ := bind_ok.mp hok
  cases hok
  have hs₂ := hs₁.updateLien hupdate (fun _ => ⟨rfl, rfl, rfl⟩) fun l hl p hp hid =>
    hs₁.lien_in (l := l) (Table.mem_of_find hl) hp hid
  refine ⟨trivial, { hs₂ with }, rfl, fun p hp => ⟨p, hp, .refl p⟩, ?_⟩
  intro l' hl' hlive
  rcases mem_updateRow hupdate hl' with ⟨r, -, rfl⟩ | ⟨hl', -⟩
  · rcases hlive with hlive | hlive
    · cases hlive
    · cases hlive
  · exact h₁.2.liens l' hl' hlive

end Requests

/-! ## Requests outside of pledges and liens -/

section Frame

variable {num : Numeric} {s s' : Db} {by_ : Issuer}

theorem Calls.collateral_of_pledge {input : HoldInput} (h : Calls by_ (.hold input))
    (hpledge : input.txnType = .pledge) : by_.Collateral := by
  cases h with
  | createPledge key status txnType txnId => trivial
  | confirmPayment key status txnType txnId =>
      rw [txnType] at hpledge
      cases hpledge
  | createLoan key status txnType txnId =>
      rw [txnType] at hpledge
      cases hpledge
  | createTrade key status txnType txnId =>
      rw [txnType] at hpledge
      cases hpledge

/-- The ledger calls of other requests neither hold for a pledge nor split for one. -/
theorem LedgerStep.placed {op : LedgerOp} (h : LedgerStep num by_ op s s') (hs : Placed s)
    (hother : ¬ by_.Collateral) : Placed s' ∧ Spares s s' := by
  obtain ⟨uuids, events, change, result, heffect, hcommits⟩ := h.effect
  have hs₁ : Placed { s with ledger := s'.ledger } := by
    apply hs.commit hcommits heffect
    · intro k hk id hminted
      rcases h.rightful.calls.created_minted heffect hk hminted with
        ⟨input, src, number, rfl, htype, -⟩ | ⟨input, src, rfl, -⟩
      · exact absurd (h.rightful.calls.collateral_of_pledge htype) hother
      · have hcalls := h.rightful.calls
        cases hcalls with
        | releasePartly key => exact absurd trivial hother
    · intro e he id hkey
      rcases h.rightful.calls.event_key heffect he with hop | ⟨tradeId, hsettle⟩
      · have hhold : holdKey .pledge id = some op.idempotencyKey :=
          congrArg some (hkey.symm.trans hop)
        obtain ⟨input, rfl, htype, -⟩ := h.rightful.calls.key_of_hold hhold
        exact absurd (h.rightful.calls.collateral_of_pledge htype) hother
      · rw [hkey] at hsettle
        simp [createKey, releaseKey, tradeKey] at hsettle
  obtain ⟨hs', hspares⟩ := spares_of_same hs₁ h.same.directory rfl h.same.pledges h.same.liens
  exact ⟨hs', hspares.directory, hspares.liens, hspares.pledges⟩

theorem Takes.placed {label : Label} (h : Takes num (fun by_ => ¬ by_.Collateral) label s s')
    (hs : Placed s) : Placed s' ∧ Spares s s' := by
  cases label with
  | read =>
      obtain rfl : s' = s := h
      exact ⟨hs, .refl s'⟩
  | ledger by_ op =>
      rcases h with rfl | ⟨hother, hstep⟩
      · exact ⟨hs, .refl s'⟩
      · exact hstep.placed hs hother
  | write by_ =>
      rcases h with rfl | ⟨hother, hstep⟩
      · exact ⟨hs, .refl s'⟩
      · have hsame := hstep.frame hother
        exact spares_of_same hs hsame.directory hstep.ledger hsame.pledges hsame.liens

theorem frame_placed (h : (custody num fun by_ => ¬ by_.Collateral).rely s s') (hs : Placed s) :
    Placed s' ∧ Spares s s' := by
  induction h with
  | refl => exact ⟨hs, .refl s⟩
  | tail _ hstep ih =>
      obtain ⟨hs₁, h₁⟩ := ih
      obtain ⟨-, label, htakes⟩ := hstep
      obtain ⟨hs₂, h₂⟩ := htakes.placed hs₁
      exact ⟨hs₂, h₁.trans h₂⟩

end Frame

/-- What an acceptance is asked for; other requests are not asked for anything. -/
def Request.Countersigned : Request → Db → Prop
  | .acceptPledge dto, db => dto.Countersigned db
  | _, _ => True

/-- Every request that runs to its end. -/
theorem Request.ends {num : Numeric} {s : Db} (request : Request) (hc : Custody s)
    (hs : Placed s) (hlinked : request.Countersigned s) :
    Ends (fun _ s' => Custody s' ∧ Keeps s s') (request.run num) s := by
  have hsafe : (custody num fun _ => True).Safe (request.run num) s :=
    request.safe (fun _ => trivial) s
  have hcustody := Process.Ensures.of_keeps hsafe hc fun _ _ => trivial
  have hkeeps : Ends (fun _ => Keeps s) (request.run num) s := by
    by_cases hcollateral : request.Collateral
    · cases request with
      | createPledge dto => exact createPledge_ends hs dto
      | cancelPledge uuids callerUserId pledgeId =>
          exact cancelPledge_ends hs uuids callerUserId pledgeId
      | acceptPledge dto => exact acceptPledge_ends hs dto hlinked
      | rejectPledge uuids callerUserId pledgeId reason =>
          exact rejectPledge_ends hs uuids callerUserId pledgeId reason
      | expireStalePledges uuids now => exact expireStalePledges_ends hs uuids now
      | createReleaseRequest dto => exact createReleaseRequest_ends hs dto
      | cancelReleaseRequest callerUserId requestId =>
          exact cancelReleaseRequest_ends hs callerUserId requestId
      | approveReleaseRequest dto => exact approveReleaseRequest_ends hc hs dto
      | rejectReleaseRequest callerUserId requestId reason =>
          exact rejectReleaseRequest_ends hs callerUserId requestId reason
      | forceReleaseLien dto => exact forceReleaseLien_ends hs dto
      | _ => exact hcollateral.elim
    · have hframe : (custody num fun by_ => ¬ by_.Collateral).Safe (request.run num) s :=
        request.safe_frame (fun _ hother => hother) hcollateral s
      apply (Process.Ensures.of_keeps hframe hc fun _ _ => trivial).mono (fun _ _ => trivial)
      rintro _ s' ⟨-, hrely, -⟩
      exact keeps_of_spares hs (frame_placed hrely hs)
  apply (hcustody.and hkeeps).mono (fun _ _ => trivial)
  rintro _ s' ⟨⟨hc', -⟩, h⟩
  exact ⟨hc', h⟩

end SecureStore.Services
