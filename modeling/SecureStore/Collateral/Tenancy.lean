/-
# Tenants of liens and of receipts

A lien is a row of its own, with a tenant and a receipt. The two agree in every reachable
state: an acceptance takes the leaf of its pledge by the pledge's tenant, and a release in part
leaves what remains where it was. A call that replays an earlier one finds what that one left,
so the log has to tell the tenants as well. And where deposits are into warehouses of their
tenants, so are all receipts, as what is split off stays where it was.
-/

import SecureStore.Collateral.Backing
import SecureStore.Collateral.ForceRelease
import SecureStore.Deposits.Accepted

namespace SecureStore.Services

open SecureStore.Foundation SecureStore.Inventory

/-- The receipt exists and is of the tenant. -/
def OfTenant (s : Ledger) (receiptId tenantId : Id) : Prop :=
  ∃ r ∈ s.receipts, r.id = receiptId ∧ r.tenantId = tenantId

theorem OfTenant.later {s s' : Ledger} {receiptId tenantId : Id}
    (h : OfTenant s receiptId tenantId) (hlater : Later s s') : OfTenant s' receiptId tenantId := by
  obtain ⟨r, hr, hid, htenant⟩ := h
  obtain ⟨r', hr', hnode, -⟩ := hlater.receipts r hr
  exact ⟨r', hr', hnode.id.trans hid, hnode.tenantId.trans htenant⟩

/-- What the rows and the log say about tenants. -/
structure Tenanted (s : Db) : Prop where
  /-- An acceptance in the log is of a pledge's leaf, by the pledge's tenant. -/
  accepted : ∀ e ∈ s.ledger.events, ∀ id, e.idempotencyKey = decisionKey "accept" id →
    ∃ p ∈ s.pledges, p.id = id ∧ p.tenantId = e.tenantId ∧ p.heldReceiptId = some e.fromReceiptId
  /-- What a release in part has created is of the tenant of the line's lien. -/
  parted : ∀ e ∈ s.ledger.events, ∀ requestId lineId,
    e.idempotencyKey = partialKey requestId lineId →
      ∃ x ∈ s.releaseRequestLines, x.id = lineId ∧ ∃ l ∈ s.liens, l.id = x.lienId ∧
        ∀ k ∈ s.ledger.receipts, k.sourceEventId = some e.id → k.tenantId = l.tenantId
  liens : ∀ l ∈ s.liens, OfTenant s.ledger l.receiptId l.tenantId

theorem tenanted_initial (directory : Directory) : Tenanted (Db.initial directory) := by
  constructor <;> simp [Db.initial]

/-- Pledges and liens stay, with their tenants. -/
structure RowsStay (s s' : Db) : Prop where
  pledges : ∀ p ∈ s.pledges, ∃ p' ∈ s'.pledges, SamePledge p p'
  liens : ∀ l ∈ s.liens, ∃ l' ∈ s'.liens, l'.id = l.id ∧ l'.tenantId = l.tenantId

/-- Besides, every lien was there, with its receipt. -/
structure LiensStay (s s' : Db) : Prop extends RowsStay s s' where
  receipts : ∀ l' ∈ s'.liens, ∃ l ∈ s.liens, l.tenantId = l'.tenantId ∧ l.receiptId = l'.receiptId

theorem RowsStay.of_same {s s' : Db} (hpledges : s'.pledges = s.pledges)
    (hliens : s'.liens = s.liens) : RowsStay s s' := by
  constructor
  · rw [hpledges]
    exact fun p hp => ⟨p, hp, .refl p⟩
  · rw [hliens]
    exact fun l hl => ⟨l, hl, rfl, rfl⟩

theorem LiensStay.of_same {s s' : Db} (hpledges : s'.pledges = s.pledges)
    (hliens : s'.liens = s.liens) : LiensStay s s' := by
  refine ⟨.of_same hpledges hliens, ?_⟩
  rw [hliens]
  exact fun l hl => ⟨l, hl, rfl, rfl⟩

theorem RowsStay.refl (s : Db) : RowsStay s s := .of_same rfl rfl

theorem SamePledge.trans {p p' p'' : Pledge} (h : SamePledge p p') (h' : SamePledge p' p'') :
    SamePledge p p'' := by
  obtain ⟨hid, htenant, horg, hwarehouse, hheld⟩ := h
  obtain ⟨hid', htenant', horg', hwarehouse', hheld'⟩ := h'
  exact ⟨hid'.trans hid, htenant'.trans htenant, horg'.trans horg, hwarehouse'.trans hwarehouse,
    hheld'.trans hheld⟩

theorem RowsStay.trans {s s' s'' : Db} (h : RowsStay s s') (h' : RowsStay s' s'') :
    RowsStay s s'' := by
  constructor
  · intro p hp
    obtain ⟨p', hp', hsame⟩ := h.pledges p hp
    obtain ⟨p'', hp'', hsame'⟩ := h'.pledges p' hp'
    exact ⟨p'', hp'', hsame.trans hsame'⟩
  · intro l hl
    obtain ⟨l', hl', hid, htenant⟩ := h.liens l hl
    obtain ⟨l'', hl'', hid', htenant'⟩ := h'.liens l' hl'
    exact ⟨l'', hl'', hid'.trans hid, htenant'.trans htenant⟩

/-- A decision leaves the pledges where they are. -/
theorem samePledge_update {t t' : Table Pledge} {id : Id} {f : Pledge → Pledge}
    {hf : ∀ r, Keyed.key (f r) = Keyed.key r} (hupdate : updateRow t id f hf = .ok t')
    (hsame : ∀ r, SamePledge r (f r)) : ∀ p ∈ t, ∃ p' ∈ t', SamePledge p p' := by
  obtain ⟨-, -, rfl⟩ := updateRow_ok.mp hupdate
  exact (samePledge_modify t id hf hsame).1

/-- An update of a lien leaves all with their tenants. -/
theorem sameTenant_update {t t' : Table Lien} {id : Id} {f : Lien → Lien}
    {hf : ∀ r, Keyed.key (f r) = Keyed.key r} (hupdate : updateRow t id f hf = .ok t')
    (htenant : ∀ r, (f r).tenantId = r.tenantId) :
    ∀ l ∈ t, ∃ l' ∈ t', l'.id = l.id ∧ l'.tenantId = l.tenantId := by
  obtain ⟨-, -, rfl⟩ := updateRow_ok.mp hupdate
  intro l hl
  by_cases hid : l.id = id
  · exact ⟨f l, hid ▸ Table.mem_modify_self f hf hl, hf l, htenant l⟩
  · exact ⟨l, Table.mem_modify_other f hf hl hid, rfl, rfl⟩

theorem liensStay_ledger : BesidesLedger LiensStay :=
  ⟨fun _ => .of_same rfl rfl, fun _ _ => .of_same rfl rfl⟩

/-! ## Steps -/

section Steps

variable {num : Numeric} {by_ : Issuer} {op : LedgerOp} {s s' : Db}

/-- Only an acceptance is made under its key. -/
theorem Calls.key_of_acceptance (h : Calls by_ op) {id : Id}
    (hkey : op.idempotencyKey = decisionKey "accept" id) :
    by_ = .acceptPledge id ∧ ∃ ctx heldReceiptId,
      op = .transitionPledgeToLien ctx heldReceiptId id := by
  cases h <;>
    simp_all [LedgerOp.idempotencyKey, decisionKey, withdrawalKey, loanKey, tradeKey, partialKey]

/-- A write that leaves the liens where they are. -/
theorem Tenanted.rows (h : Tenanted s) (hledger : s'.ledger = s.ledger)
    (hlines : ∀ x ∈ s.releaseRequestLines, x ∈ s'.releaseRequestLines) (hrows : RowsStay s s')
    (hliens : ∀ l' ∈ s'.liens, OfTenant s.ledger l'.receiptId l'.tenantId) : Tenanted s' := by
  constructor
  · rw [hledger]
    intro e he id hkey
    obtain ⟨p, hp, hid, htenant, hheld⟩ := h.accepted e he id hkey
    obtain ⟨p', hp', hid', htenant', -, -, hheld'⟩ := hrows.pledges p hp
    exact ⟨p', hp', hid'.trans hid, htenant'.trans htenant, hheld'.trans hheld⟩
  · rw [hledger]
    intro e he requestId lineId hkey
    obtain ⟨x, hx, hid, l, hl, hlien, hkids⟩ := h.parted e he requestId lineId hkey
    obtain ⟨l', hl', hid', htenant⟩ := hrows.liens l hl
    refine ⟨x, hlines x hx, hid, l', hl', hid'.trans hlien, ?_⟩
    rw [htenant]
    exact hkids
  · rw [hledger]
    exact hliens

/-- A call keeps the tenants if an acceptance takes a pledge's leaf by the pledge's tenant, and a
release in part a leaf of the lien's tenant. -/
theorem Tenanted.ledgerStep (h : Tenanted s) (hs : Custody s) (hstep : LedgerStep num by_ op s s')
    (haccept : ∀ ctx heldReceiptId id, op = .transitionPledgeToLien ctx heldReceiptId id →
      ∃ p ∈ s.pledges, p.id = id ∧ p.tenantId = ctx.tenantId ∧
        p.heldReceiptId = some heldReceiptId)
    (hpart : ∀ input requestId lineId lienId, op = .releasePartial input →
      by_ = .approveReleaseLine requestId lineId lienId →
        ∃ l ∈ s.liens, l.id = lienId ∧ OfTenant s.ledger input.heldReceiptId l.tenantId) :
    Tenanted s' := by
  have hrightful := hstep.rightful
  have hlater := hstep.later.ledger
  obtain ⟨uuids, events, change, result, heffect, hcommits⟩ := hstep.effect
  have hkey : ∀ e ∈ events, ∀ key, e.idempotencyKey = key →
      (∀ id, key ≠ releaseKey (tradeKey id "transfer")) → op.idempotencyKey = key := by
    intro e he key hlogged hother
    rcases hrightful.calls.event_key heffect he with hop | ⟨id, hsettle⟩
    · exact hop.symm.trans hlogged
    · exact absurd (hlogged.symm.trans hsettle) (hother id)
  constructor
  · rw [hstep.same.pledges]
    intro e he id hlogged
    rcases hcommits.mem_events.mp he with hold | hnew
    · exact h.accepted e hold id hlogged
    · have hop := hkey e hnew _ hlogged (by simp [decisionKey, releaseKey, tradeKey])
      obtain ⟨-, ctx, heldReceiptId, rfl⟩ := hrightful.calls.key_of_acceptance hop
      obtain ⟨p, hp, hid, htenant, hheld⟩ := haccept ctx heldReceiptId id rfl
      cases heffect with
      | transitionPledgeToLien ctx id r loaded pledged =>
          obtain rfl := List.mem_singleton.mp hnew
          rw [← Table.key_of_find loaded.1] at hheld
          exact ⟨p, hp, hid, htenant, hheld⟩
  · rw [hstep.same.releaseRequestLines, hstep.same.liens]
    intro e he requestId lineId hlogged
    rcases hcommits.mem_events.mp he with hold | hnew
    · obtain ⟨x, hx, hid, l, hl, hlien, hkids⟩ := h.parted e hold requestId lineId hlogged
      refine ⟨x, hx, hid, l, hl, hlien, fun k hk hsource => ?_⟩
      rcases hs.provenance.kid_cases heffect hcommits he hk hsource with
        ⟨-, k₀, hk₀, -, hnode, hsource₀⟩ | ⟨hnew, -⟩
      · exact hnode.tenantId.trans (hkids k₀ hk₀ hsource₀)
      · exact absurd rfl (hcommits.newIds e hnew e hold)
    · have hop := hkey e hnew _ hlogged (by simp [partialKey, releaseKey, tradeKey])
      obtain ⟨lienId, input, rfl, rfl⟩ := hrightful.calls.key_of_partial hop
      obtain ⟨x, hx, hid, hlien⟩ := hrightful.ready
      obtain ⟨l, hl, hlid, src, hsrc, hsid, htenant⟩ :=
        hpart input requestId lineId lienId rfl rfl
      refine ⟨x, hx, hid, l, hl, hlid.trans hlien.symm, fun k hk hsource => ?_⟩
      rcases hs.provenance.kid_cases heffect hcommits he hk hsource with
        ⟨hold, -⟩ | ⟨-, hcreated⟩
      · exact absurd rfl (hcommits.newIds e hnew e hold)
      · cases heffect with
        | releasePartial input src' number number' loaded lien =>
            obtain ⟨hsrc', hsid'⟩ := Table.find_eq_some_iff.mp loaded.1
            obtain rfl : src' = src := Table.eq_of_key_eq hsrc' hsrc (hsid'.trans hsid.symm)
            rcases List.mem_pair.mp hcreated with rfl | rfl
            · exact htenant
            · exact htenant
  · rw [hstep.same.liens]
    exact fun l hl => (h.liens l hl).later hlater

/-- The issuers whose calls neither accept a pledge nor release from a lien. -/
def Issuer.Stays : Issuer → Prop
  | acceptPledge _ => False
  | approveReleaseLine _ _ _ => False
  | _ => True

/-- A step of another issuer that leaves the liens where they are keeps the tenants. -/
theorem Tenanted.takes {label : Label} (h : Tenanted s) (hs : Custody s)
    (htakes : Takes num (fun _ => True) label s s') (hby : label.By Issuer.Stays)
    (hrows : LiensStay s s') : Tenanted s' := by
  cases label with
  | read =>
      rw [show s' = s from htakes]
      exact h
  | write by_ =>
      refine htakes.elim (fun hsame => hsame ▸ h) fun hwrite => ?_
      refine h.rows hwrite.2.ledger hwrite.2.lines hrows.toRowsStay fun l' hl' => ?_
      obtain ⟨l, hl, htenant, hreceipt⟩ := hrows.receipts l' hl'
      exact htenant ▸ hreceipt ▸ h.liens l hl
  | ledger by_ op =>
      refine htakes.elim (fun hsame => hsame ▸ h) fun hstep => ?_
      have hcalls := hstep.2.rightful.calls
      refine h.ledgerStep hs hstep.2 ?_ ?_
      · rintro ctx heldReceiptId id rfl
        cases hcalls
        exact hby.elim
      · rintro input requestId lineId lienId - rfl
        exact hby.elim

end Steps

/-! ## Requests -/

/-- Custody, with the tenants of pledges and liens. -/
abbrev tenancy (num : Numeric) : Contract Label Db :=
  (custody num fun _ => True).within Tenanted RowsStay .refl .trans

section Rules

variable {num : Numeric} {s : Db} {by_ : Issuer} {α β : Type}

/-- A process that keeps custody by steps of other issuers that leave the liens where they are. -/
theorem tenancy_steps {p : Api α} (h : (custody num fun _ => True).Safe p s)
    (hsteps : Steps Issuer.Stays LiensStay p) : (tenancy num).Safe p s := by
  let other : Label → Db → Db → Prop := fun label s s' =>
    s' = s ∨ (label.By Issuer.Stays ∧ LiensStay s s')
  have hother : (Contract.stepping (fun _ => True) other fun _ _ => .inl rfl).Safe p s :=
    Contract.safe_of_takes (fun _ _ _ _ hstep => ⟨trivial, Or.inr hstep, False.elim⟩) hsteps s
  refine h.within hother (fun _ _ _ => trivial) ?_
  intro label s s' hs htenanted htakes hstep
  rcases hstep with rfl | ⟨hby, hrows⟩
  · exact ⟨htenanted, .refl _⟩
  · exact ⟨htenanted.takes hs htakes hby hrows, hrows.toRowsStay⟩

/-- A rightful ledger call, which leaves the rows as they are. -/
theorem tenancy_ledger {op : LedgerOp} {tx : Tx α} {uuids : Uuids} {wrap : α → LedgerResult}
    {g : α → Api β} (hcall : op.call num uuids = wrap <$> tx)
    (hright : ∀ s', (tenancy num).rely s s' → Custody s' → Rightful s' by_ op)
    (haccept : ∀ s', (tenancy num).rely s s' → ∀ ctx heldReceiptId id,
      op = .transitionPledgeToLien ctx heldReceiptId id → ∃ p ∈ s'.pledges, p.id = id ∧
        p.tenantId = ctx.tenantId ∧ p.heldReceiptId = some heldReceiptId)
    (hpart : ∀ s', (tenancy num).rely s s' → ∀ input requestId lineId lienId,
      op = .releasePartial input → by_ = .approveReleaseLine requestId lineId lienId →
        ∃ l ∈ s'.liens, l.id = lienId ∧ OfTenant s'.ledger input.heldReceiptId l.tenantId)
    (hnext : ∀ s' a ledger, (tenancy num).rely s s' → Custody s' →
      Outcome num uuids op s'.ledger (wrap a) ledger → Custody { s' with ledger } →
        Tenanted { s' with ledger } → (tenancy num).rely s { s' with ledger } →
          (tenancy num).Safe (g a) { s' with ledger }) :
    (tenancy num).Safe (Api.ledger by_ op tx >>= g : Api β) s := by
  apply keeps_ledger (fun _ _ => trivial) hcall
  intro s' a ledger hrely hinv _ houtcome
  have hrightful := hright s' hrely hinv.1
  obtain ⟨hcustody, htakes⟩ : Custody { s' with ledger } ∧
      Takes num (fun _ => True) (.ledger by_ op) s' { s' with ledger } :=
    rightful_takes hinv.1 trivial hrightful houtcome
  have htenanted : Tenanted { s' with ledger } := by
    cases houtcome with
    | replayed e prior reconstructs same =>
        subst same
        exact hinv.2
    | committed free events change effect commits =>
        exact hinv.2.ledgerStep hinv.1 (hrightful.ledgerStep free effect commits)
          (haccept s' hrely) (hpart s' hrely)
  have hguar : (tenancy num).guar (.ledger by_ op) s' { s' with ledger } :=
    ⟨htakes, .of_same rfl rfl⟩
  exact ⟨⟨hcustody, htenanted⟩, hguar, False.elim, hnext s' a ledger hrely hinv.1 houtcome
    hcustody htenanted ((tenancy num).rely_trans hrely ((tenancy num).guar_rely hinv hguar))⟩

/-- A write of rows. -/
theorem tenancy_write {f : Db → Except ApiError (β × Db)}
    (hstep : ∀ s' a s'', (tenancy num).rely s s' → Custody s' → Tenanted s' →
      f s' = .ok (a, s'') → Custody s'' ∧ WriteStep by_ s' s'' ∧ RowsStay s' s'' ∧
        ∀ l ∈ s''.liens, OfTenant s'.ledger l.receiptId l.tenantId) :
    (tenancy num).Safe (Api.write by_ f) s := by
  refine Contract.safe_write_last fun s' b s'' hrely hinv _ hok => ?_
  obtain ⟨hcustody, hwrite, hrows, hliens⟩ := hstep s' b s'' hrely hinv.1 hinv.2 hok
  exact ⟨⟨hcustody, hinv.2.rows hwrite.ledger hwrite.lines hrows hliens⟩,
    ⟨.inr ⟨trivial, hwrite⟩, hrows⟩, False.elim⟩

theorem tenancy_later {s' : Db} (h : (tenancy num).rely s s') : s.Later s' := custody_later h.1

end Rules

section Acceptance

variable {num : Numeric} {s : Db}

/-- A captured pledge is the row of its id, as far as its tenant and its leaf go. -/
theorem SamePledge.row {p p' p₁ : Pledge} (hsame : SamePledge p p') (hp' : p' ∈ s.pledges)
    (hp₁ : p₁ ∈ s.pledges) (hid : p₁.id = p.id) :
    p₁.tenantId = p.tenantId ∧ p₁.heldReceiptId = p.heldReceiptId := by
  obtain rfl : p₁ = p' := Table.eq_of_key_eq hp₁ hp' (hid.trans hsame.1.symm)
  exact ⟨hsame.2.1, hsame.2.2.2.2⟩

theorem acceptPledge_tenancy (dto : AcceptPledge) :
    (tenancy num).Safe (acceptPledge num dto) s := by
  refine Contract.safe_bind safe_requireFinancierOrg fun org s₁ _ => ?_
  refine Contract.safe_find fun s₂ p _ hs₂ hp => ?_
  have hmem : p ∈ s₂.pledges := Table.mem_of_find (Option.filter_eq_some_iff.mp hp).1
  refine Contract.safe_throwIf fun _ => Contract.safe_throwIf fun _ => ?_
  refine Contract.safe_orThrow fun heldReceiptId hsome => Contract.safe_ofExcept fun _ _ => ?_
  have hheldFor := hs₂.1.pledges p hmem heldReceiptId hsome
  refine tenancy_ledger rfl (fun s₃ h₃ _ => ⟨.acceptPledge rfl, ?_, trivial⟩) ?_ ?_ ?_
  · rintro _ ⟨⟩
    exact ⟨_, _, rfl, hheldFor.later (tenancy_later h₃).ledger⟩
  · rintro s₃ h₃ _ _ _ ⟨⟩
    obtain ⟨p', hp', hid, htenant, -, -, hheld⟩ := h₃.2.pledges p hmem
    exact ⟨p', hp', hid, htenant, hheld.trans hsome⟩
  · rintro s₃ h₃ input requestId lineId lienId ⟨⟩
  intro s₃ r ledger h₃ _ houtcome hcustody htenanted h₃'
  -- the acceptance is in the log now, whether it was made or replayed
  have hleaf : OfTenant ledger heldReceiptId p.tenantId := by
    obtain ⟨e, he, hkey⟩ := key_logged houtcome
    obtain ⟨p₁, hp₁, hid, htenant, hheld⟩ := htenanted.accepted e he p.id hkey
    obtain ⟨p', hp', hsame⟩ := h₃.2.pledges p hmem
    obtain ⟨htenant', hheld'⟩ := hsame.row hp' hp₁ hid
    obtain ⟨src, hsrc, hsid, hsrcTenant, -⟩ := hcustody.provenance.from_exists e he
    rw [hheld', hsome] at hheld
    refine ⟨src, hsrc, hsid.trans (Option.some_inj.mp hheld).symm, ?_⟩
    exact hsrcTenant.trans (htenant.symm.trans htenant')
  refine Contract.safe_bind (tenancy_write fun s₄ a s₅ h₄ hs₄ htenanted₄ hok => ?_) fun _ _ _ =>
    getFinancierPledgeDetail_safe _ _
  have hlater := tenancy_later h₄
  obtain ⟨liens, hcreate, hok⟩ := bind_ok.mp hok
  obtain ⟨pledges, hupdate, hok⟩ := bind_ok.mp hok
  cases hok
  obtain ⟨-, hinsert⟩ := createRow_ok.mp hcreate
  obtain ⟨hcustody', hwrite⟩ := acceptance_writes hs₄
    (hheldFor.later ((tenancy_later h₃').trans hlater).ledger) hinsert hupdate fun _ => rfl
  refine ⟨hcustody', hwrite, ⟨samePledge_update hupdate fun _ => .refl _, ?_⟩, fun l hl => ?_⟩
  · exact fun l hl => ⟨l, (Table.mem_insert hinsert).mpr (.inl hl), rfl, rfl⟩
  · rcases (Table.mem_insert hinsert).mp hl with hl | rfl
    · exact htenanted₄.liens l hl
    · exact hleaf.later hlater.ledger

end Acceptance

section Approval

variable {num : Numeric} {s : Db}

/-- What a release in part leaves is among what its event created. -/
theorem remaining_source {uuids : Uuids} {s ledger : Ledger} {input : ReleasePartialInput}
    {result : ReleasePartialResult} {held : Receipt}
    (houtcome : Outcome num uuids (.releasePartial input) s (.partlyReleased result) ledger)
    (hheld : result.remainingHeld = some held) :
    ∃ e ∈ ledger.events, e.idempotencyKey = input.idempotencyKey ∧ held ∈ ledger.receipts ∧
      held.sourceEventId = some e.id := by
  cases houtcome with
  | replayed e prior reconstructs same =>
      cases reconstructs
      subst same
      obtain ⟨hmem, hsource⟩ := Ledger.mem_byEvent.mp (List.mem_of_find?_eq_some hheld)
      exact ⟨e, Table.mem_of_find prior, Table.key_of_find prior, hmem, hsource⟩
  | committed free events change effect commits =>
      obtain ⟨e, he, hid, hkey⟩ := effect.keyed_event
      cases effect with
      | releasePartial input src number number' loaded lien =>
          cases hheld
          refine ⟨e, commits.mem_events.mpr (.inr he), hkey, ?_, congrArg some hid.symm⟩
          exact Table.mem_of_find
            (commits.find_created (List.mem_cons_of_mem _ List.mem_cons_self))

/-- What remains of a lien's leaf is of the tenant of the lien. -/
theorem Tenanted.remaining {uuids : Uuids} {ledger : Ledger} {input : ReleasePartialInput}
    {result : ReleasePartialResult} {held : Receipt} {requestId : Id} {x : ReleaseRequestLine}
    {l : Lien} (h : Tenanted { s with ledger })
    (hkey : input.idempotencyKey = partialKey requestId x.id)
    (hx : x ∈ s.releaseRequestLines) (hl : l ∈ s.liens) (hlien : l.id = x.lienId)
    (houtcome : Outcome num uuids (.releasePartial input) s.ledger (.partlyReleased result) ledger)
    (hheld : result.remainingHeld = some held) : OfTenant ledger held.id l.tenantId := by
  obtain ⟨e, he, hlogged, hmem, hsource⟩ := remaining_source houtcome hheld
  obtain ⟨x', hx', hid, l', hl', hlien', hkids⟩ :=
    h.parted e he requestId x.id (hlogged.trans hkey)
  obtain rfl : x' = x := Table.eq_of_key_eq hx' hx hid
  obtain rfl : l' = l := Table.eq_of_key_eq hl' hl (hlien'.trans hlien.symm)
  exact ⟨held, hmem, rfl, hkids held hmem hsource⟩

/-- An update of a lien that leaves it with a receipt of its tenant. -/
theorem tenancy_updateLien {by_ : Issuer} {id : Id} {f : Lien → Lien}
    {hf : ∀ r, Keyed.key (f r) = Keyed.key r} (hby : by_.Collateral)
    (hsame : ∀ r, (f r).pledgeId = r.pledgeId ∧ (f r).tenantId = r.tenantId)
    (hrow : ∀ s', (tenancy num).rely s s' → Custody s' → Tenanted s' → ∀ r,
      s'.liens.find id = some r → HeldFor s'.ledger (f r).receiptId .pledge r.pledgeId ∧
        OfTenant s'.ledger (f r).receiptId r.tenantId) :
    (tenancy num).Safe (updateLien by_ id f hf) s := by
  refine tenancy_write fun s' a s'' h' hs' htenanted hok => ?_
  obtain ⟨liens, hupdate, hresult⟩ := map_ok.mp hok
  cases hresult
  have hrows := sameTenant_update hupdate fun r => (hsame r).2
  obtain ⟨r, hfind, rfl⟩ := updateRow_ok.mp hupdate
  obtain ⟨hcustody, hkept⟩ := hs'.updateLiens id f hf (fun r => (hsame r).1) fun r hr =>
    (hrow s' h' hs' htenanted r hr).1
  refine ⟨hcustody, ⟨rfl, rfl, fun _ hx => hx, hkept, fun h => absurd hby h⟩,
    ⟨fun p hp => ⟨p, hp, .refl p⟩, hrows⟩, fun l hl => ?_⟩
  rcases mem_updateRow hupdate hl with ⟨r, hr, rfl⟩ | ⟨hl, -⟩
  · rw [(hsame r).2]
    exact (hrow s' h' hs' htenanted r hr).2
  · exact htenanted.liens l hl

/-- A captured lien is the row of its id, as far as its pledge and its tenant go. -/
theorem lien_row {s' : Db} {l r : Lien} (hl : l ∈ s.liens) (h : (tenancy num).rely s s')
    (hr : s'.liens.find l.id = some r) : r.pledgeId = l.pledgeId ∧ r.tenantId = l.tenantId := by
  obtain ⟨l', hfind, hpledge⟩ := lien_later hl (tenancy_later h)
  obtain rfl : r = l' := Option.some_inj.mp (hr.symm.trans hfind)
  obtain ⟨l'', hl'', hid, htenant⟩ := h.2.liens l hl
  obtain rfl : l'' = r :=
    Table.eq_of_key_eq hl'' (Table.mem_of_find hr) (hid.trans (Table.key_of_find hr).symm)
  exact ⟨hpledge, htenant⟩

theorem releaseLine_tenancy {s₁ : Db} (dto : ApproveReleaseRequest) (req : ReleaseRequest)
    {l : LoadedLine} (hline : l.line ∈ s₁.releaseRequestLines) (hlien : l.lien ∈ s₁.liens)
    (hid : l.lien.id = l.line.lienId) (hs₁ : Custody s₁) (htenanted₁ : Tenanted s₁)
    (h₁ : (tenancy num).rely s₁ s) : (tenancy num).Safe (releaseLine num dto req l) s := by
  have hheldFor := hs₁.liens l.lien hlien
  have hright : ∀ s', (tenancy num).rely s s' → ∃ txnType txnId,
      (Issuer.approveReleaseLine req.id l.line.id l.lien.id).txn s' = some (txnType, txnId) ∧
        HeldFor s'.ledger l.lien.receiptId txnType txnId := by
    intro s' h'
    have hlater := tenancy_later ((tenancy num).rely_trans h₁ h')
    obtain ⟨l', hfind, hpledge⟩ := lien_later hlien hlater
    exact ⟨.pledge, l.lien.pledgeId, by simp [Issuer.txn, hfind, hpledge],
      hheldFor.later hlater.ledger⟩
  have hready : ∀ s', (tenancy num).rely s s' →
      (Issuer.approveReleaseLine req.id l.line.id l.lien.id).Ready s' := fun s' h' =>
    ⟨l.line, (tenancy_later ((tenancy num).rely_trans h₁ h')).lines _ hline, rfl, hid.symm⟩
  unfold releaseLine
  split
  · refine tenancy_ledger rfl (fun s' h' _ => ⟨.releaseFully rfl, ?_, hready s' h'⟩) ?_ ?_ ?_
    · rintro _ ⟨⟩
      exact hright s' h'
    · rintro _ _ _ _ _ ⟨⟩
    · rintro _ _ _ _ _ _ ⟨⟩
    · intro _ _ _ _ _ _ _ _ _
      refine tenancy_updateLien trivial (fun _ => ⟨rfl, rfl⟩) fun s' _ hs' htenanted r hr => ?_
      exact ⟨hs'.liens r (Table.mem_of_find hr), htenanted.liens r (Table.mem_of_find hr)⟩
  · refine tenancy_ledger rfl (fun s' h' _ => ⟨.releasePartly rfl, ?_, hready s' h'⟩) ?_ ?_ ?_
    · rintro _ ⟨⟩
      exact hright s' h'
    · rintro _ _ _ _ _ ⟨⟩
    · rintro s' h' _ requestId lineId lienId ⟨⟩ ⟨⟩
      have hrely := (tenancy num).rely_trans h₁ h'
      obtain ⟨l', hl', hid', htenant⟩ := hrely.2.liens l.lien hlien
      refine ⟨l', hl', hid', ?_⟩
      rw [htenant]
      exact (htenanted₁.liens l.lien hlien).later (tenancy_later hrely).ledger
    · intro s₂ result ledger h₂ hs₂ houtcome hcustody htenanted h₃
      refine Contract.safe_orThrow fun held hheld => ?_
      have hrely₂ := (tenancy num).rely_trans h₁ h₂
      obtain ⟨l', hfind, -⟩ := lien_later hlien (tenancy_later hrely₂)
      obtain ⟨hpledge, htenant⟩ := lien_row hlien hrely₂ hfind
      have hline₂ := (tenancy_later hrely₂).lines _ hline
      have hlid : l'.id = l.line.lienId := (Table.key_of_find hfind).trans hid
      have hleaf := htenanted.remaining rfl hline₂ (Table.mem_of_find hfind) hlid houtcome hheld
      have hkept : HeldFor ledger held.id .pledge l'.pledgeId := by
        refine held_of_partial hs₂ rfl hline₂ (Table.mem_of_find hfind) hlid ?_ houtcome hheld
        rw [hpledge]
        exact hheldFor.later (tenancy_later hrely₂).ledger
      refine tenancy_updateLien trivial (fun _ => ⟨rfl, rfl⟩) fun s' h' _ _ r hr => ?_
      have hlater := (tenancy_later h').ledger
      have hrow := lien_row hlien ((tenancy num).rely_trans ((tenancy num).rely_trans h₁ h₃) h') hr
      rw [hrow.1, hrow.2, ← hpledge, ← htenant]
      exact ⟨hkept.later hlater, hleaf.later hlater⟩

theorem approveReleaseRequest_tenancy (dto : ApproveReleaseRequest) :
    (tenancy num).Safe (approveReleaseRequest num dto) s := by
  refine Contract.safe_bind safe_requireFinancierOrg fun org s₁ _ => ?_
  refine Contract.safe_read fun s₂ _ hs₂ => Contract.safe_orThrow fun found hfound => ?_
  obtain ⟨req, -, rfl⟩ := Option.map_eq_some_iff.mp hfound
  refine Contract.safe_throwIf fun _ => Contract.safe_bind ?_ fun _ s₃ h₃ => ?_
  · refine Contract.safe_forEach (fun _ => True) (fun _ _ => trivial) ?_ trivial
    intro l _ s' _
    refine Contract.safe_throwIf fun _ => ?_
    unfold Api.throwIf Attempt.throwIf
    split <;> trivial
  refine Contract.safe_ofExcept fun _ _ => Contract.safe_bind ?_ fun _ s₄ _ => ?_
  · refine Contract.safe_forEach ((tenancy num).rely s₂) (tenancy num).rely_trans ?_ h₃
    intro l hl s' h'
    obtain ⟨hline, -, hlien, hid⟩ := mem_loadedLines hl
    exact releaseLine_tenancy dto req hline hlien hid hs₂.1 hs₂.2 h'
  · refine Contract.safe_bind ?_ fun _ _ _ => getFinancierReleaseRequestDetail_safe _ _
    exact tenancy_steps (safe_updateReleaseRequest trivial trivial)
      (steps_table liensStay_ledger trivial fun _ _ _ => .of_same rfl rfl)

end Approval

section Others

variable {num : Numeric}

theorem steps_updatePledge {by_ : Issuer} {id : Id} {f : Pledge → Pledge}
    {hf : ∀ r, Keyed.key (f r) = Keyed.key r} (hby : by_.Stays) (hsame : ∀ r, SamePledge r (f r)) :
    Steps Issuer.Stays LiensStay (updatePledge by_ id f hf) := by
  refine steps_table liensStay_ledger hby fun s t hupdate => ?_
  exact ⟨⟨samePledge_update hupdate hsame, fun l hl => ⟨l, hl, rfl, rfl⟩⟩,
    fun l hl => ⟨l, hl, rfl, rfl⟩⟩

theorem steps_updateReleaseRequest {by_ : Issuer} {id : Id} {f : ReleaseRequest → ReleaseRequest}
    {hf : ∀ r, Keyed.key (f r) = Keyed.key r} (hby : by_.Stays) :
    Steps Issuer.Stays LiensStay (updateReleaseRequest by_ id f hf) :=
  steps_table liensStay_ledger hby fun _ _ _ => .of_same rfl rfl

theorem steps_releaseHeld {by_ : Issuer} {uuids : Uuids} {p : Pledge} {actorUserId : Option Id}
    {decision : String} (hby : by_.Stays) :
    Steps Issuer.Stays LiensStay (releaseHeld num by_ uuids p actorUserId decision) := by
  unfold releaseHeld
  split
  · trivial
  · exact steps_ledger liensStay_ledger hby fun _ => trivial

theorem createPledge_liensStay (dto : CreatePledge) :
    Steps Issuer.Stays LiensStay (createPledge num dto) := by
  apply steps_read liensStay_ledger
  intro caller
  apply takes_orThrow
  intro caller _
  apply steps_read liensStay_ledger
  intro receipt
  apply takes_orThrow
  intro receipt _
  apply takes_throwIf
  intro _
  apply takes_throwIf
  intro _
  apply takes_bind
  · apply steps_read liensStay_ledger
    intro root
    apply takes_orThrow
    intro root _
    exact takes_throwIf fun _ => steps_read_last liensStay_ledger
  intro available
  apply takes_throwIf
  intro _
  apply steps_read liensStay_ledger
  intro org
  apply takes_orThrow
  intro org _
  apply takes_throwIf
  intro _
  refine steps_ledger liensStay_ledger trivial fun result => ?_
  apply takes_orThrow
  intro held _
  refine steps_table liensStay_ledger trivial fun s pledges hcreate => ?_
  obtain ⟨-, hinsert⟩ := createRow_ok.mp hcreate
  refine ⟨⟨fun p hp => ⟨p, (Table.mem_insert hinsert).mpr (.inl hp), .refl p⟩, ?_⟩, ?_⟩
  · exact fun l hl => ⟨l, hl, rfl, rfl⟩
  · exact fun l hl => ⟨l, hl, rfl, rfl⟩

theorem steps_getFinancierPledge {financierOrgId pledgeId : Id} {g : Pledge → Api Unit}
    (hg : ∀ p, Steps Issuer.Stays LiensStay (g p)) :
    Steps Issuer.Stays LiensStay (getFinancierPledge financierOrgId pledgeId >>= g) :=
  steps_find liensStay_ledger hg

theorem steps_getFinancierPledgeDetail (callerUserId pledgeId : Id) :
    Steps Issuer.Stays LiensStay (getFinancierPledgeDetail callerUserId pledgeId) :=
  takes_bind (steps_requireFinancierOrg liensStay_ledger) fun _ =>
    steps_getFinancierPledge fun _ => trivial

theorem cancelPledge_liensStay (uuids : Uuids) (callerUserId pledgeId : Id) :
    Steps Issuer.Stays LiensStay (cancelPledge num uuids callerUserId pledgeId) := by
  apply steps_read liensStay_ledger
  intro p
  apply takes_orThrow
  intro p _
  apply takes_throwIf
  intro _
  exact takes_bind (steps_releaseHeld trivial) fun _ => steps_updatePledge trivial fun _ => .refl _

theorem rejectPledge_liensStay (uuids : Uuids) (callerUserId pledgeId : Id) (reason : String) :
    Steps Issuer.Stays LiensStay (rejectPledge num uuids callerUserId pledgeId reason) := by
  apply takes_bind (steps_requireFinancierOrg liensStay_ledger)
  intro org
  apply steps_getFinancierPledge
  intro p
  apply takes_throwIf
  intro _
  refine takes_bind (steps_releaseHeld trivial) fun _ => ?_
  exact takes_bind (steps_updatePledge trivial fun _ => .refl _) fun _ =>
    steps_getFinancierPledgeDetail callerUserId p.id

theorem expireStalePledges_liensStay (uuids : Id → Uuids) (now : Timestamp) :
    Steps Issuer.Stays LiensStay (expireStalePledges num uuids now) := by
  apply steps_read liensStay_ledger
  intro stale
  apply steps_forEach
  intro p
  refine takes_recover (takes_bind (steps_releaseHeld trivial) fun _ => ?_) fun _ => trivial
  exact steps_updatePledge trivial fun _ => .refl _

theorem createReleaseRequest_liensStay (dto : CreateReleaseRequest) :
    Steps Issuer.Stays LiensStay (createReleaseRequest num dto) := by
  apply steps_read liensStay_ledger
  intro caller
  apply takes_orThrow
  intro caller _
  apply steps_read liensStay_ledger
  intro lienMap
  apply steps_read liensStay_ledger
  intro pending
  apply takes_bind
  · apply steps_forEach
    intro line
    refine takes_orThrow fun l _ => takes_throwIf fun _ => takes_throwIf fun _ => ?_
    refine takes_throwIf fun _ => takes_throwIf fun _ => ?_
    unfold Api.throwIf Attempt.throwIf
    split <;> trivial
  intro _
  refine steps_write liensStay_ledger trivial fun s _ s' hok => ?_
  obtain ⟨requests, -, hok⟩ := bind_ok.mp hok
  obtain ⟨lines, -, hok⟩ := bind_ok.mp hok
  cases hok
  exact .of_same rfl rfl

theorem cancelReleaseRequest_liensStay (callerUserId requestId : Id) :
    Steps Issuer.Stays LiensStay (cancelReleaseRequest callerUserId requestId) := by
  apply steps_read liensStay_ledger
  intro req
  apply takes_orThrow
  intro req _
  exact takes_throwIf fun _ => steps_updateReleaseRequest trivial

theorem rejectReleaseRequest_liensStay (callerUserId requestId : Id) (reason : String) :
    Steps Issuer.Stays LiensStay (rejectReleaseRequest callerUserId requestId reason) := by
  apply takes_bind (steps_requireFinancierOrg liensStay_ledger)
  intro org
  apply steps_read liensStay_ledger
  intro req
  apply takes_orThrow
  intro req _
  apply takes_throwIf
  intro _
  refine takes_bind (steps_updateReleaseRequest trivial) fun _ => ?_
  apply takes_bind (steps_requireFinancierOrg liensStay_ledger)
  intro org
  apply steps_read liensStay_ledger
  intro found
  exact takes_orThrow fun _ _ => trivial

theorem forceReleaseLien_liensStay (dto : ForceReleaseLien) :
    Steps Issuer.Stays LiensStay (forceReleaseLien num dto) := by
  apply steps_read liensStay_ledger
  intro found
  apply takes_orThrow
  intro found _
  obtain ⟨l, forced⟩ := found
  dsimp only
  split
  · trivial
  apply takes_throwIf
  intro _
  refine steps_ledger liensStay_ledger trivial fun _ => ?_
  refine steps_write liensStay_ledger trivial fun s _ s' hok => ?_
  obtain ⟨forced, -, hok⟩ := bind_ok.mp hok
  obtain ⟨liens, hupdate, hok⟩ := bind_ok.mp hok
  cases hok
  refine ⟨⟨fun p hp => ⟨p, hp, .refl p⟩, sameTenant_update hupdate fun _ => rfl⟩, ?_⟩
  intro l' hl'
  rcases mem_updateRow hupdate hl' with ⟨r, hr, rfl⟩ | ⟨hold, -⟩
  · exact ⟨r, Table.mem_of_find hr, rfl, rfl⟩
  · exact ⟨l', hold, rfl, rfl⟩

end Others

/-- Requests outside of pledges and liens leave the liens where they are. -/
theorem Request.liensStay {num : Numeric} (request : Request) (h : ¬ request.Collateral) :
    Steps Issuer.Stays LiensStay (request.run num) := by
  have hmoves : ∀ by_ : Issuer, by_.Moves → by_.Stays := by
    intro by_ hmoves
    cases by_ with
    | acceptPledge => exact hmoves trivial
    | approveReleaseLine => exact hmoves trivial
    | _ => trivial
  refine (request.steps h hmoves fun _ _ => trivial).mono fun label s s' hstep => ?_
  exact ⟨hstep.1, .of_same hstep.2.pledges hstep.2.liens⟩

/-- Every request keeps the tenants of pledges and liens. -/
theorem Request.tenancy {num : Numeric} (request : Request) (s : Db) :
    (tenancy num).Safe (request.run num) s := by
  have hsafe : (custody num fun _ => True).Safe (request.run num) s :=
    request.safe (fun _ => trivial) s
  cases request with
  | createPledge dto => exact tenancy_steps hsafe (createPledge_liensStay dto)
  | cancelPledge uuids callerUserId pledgeId =>
      exact tenancy_steps hsafe (cancelPledge_liensStay uuids callerUserId pledgeId)
  | acceptPledge dto => exact acceptPledge_tenancy dto
  | rejectPledge uuids callerUserId pledgeId reason =>
      exact tenancy_steps hsafe (rejectPledge_liensStay uuids callerUserId pledgeId reason)
  | expireStalePledges uuids now =>
      exact tenancy_steps hsafe (expireStalePledges_liensStay uuids now)
  | createReleaseRequest dto => exact tenancy_steps hsafe (createReleaseRequest_liensStay dto)
  | cancelReleaseRequest callerUserId requestId =>
      exact tenancy_steps hsafe (cancelReleaseRequest_liensStay callerUserId requestId)
  | approveReleaseRequest dto => exact approveReleaseRequest_tenancy dto
  | rejectReleaseRequest callerUserId requestId reason =>
      exact tenancy_steps hsafe (rejectReleaseRequest_liensStay callerUserId requestId reason)
  | forceReleaseLien dto => exact tenancy_steps hsafe (forceReleaseLien_liensStay dto)
  | _ => exact tenancy_steps hsafe (Request.liensStay _ id)

/-- In every reachable state, liens are of the tenants of their receipts. -/
theorem runs_tenanted {num : Numeric} {directory : Directory} {requests : List Request}
    {trace : List (Transition Label Db)} {db : Db} {pool : List (Api Unit)}
    (h : Run (Db.initial directory) (requests.map (Request.run num)) trace db pool) :
    Tenanted db := by
  have hholds : (Services.tenancy num).Holds (Db.initial directory)
      (requests.map (Request.run num)) := by
    refine ⟨⟨custody_initial directory, tenanted_initial directory⟩, fun p hp => ?_, False.elim⟩
    obtain ⟨request, -, rfl⟩ := List.mem_map.mp hp
    exact request.tenancy _
  exact (hholds.run h fun _ _ => trivial).final.inv.2

/-! ## Warehouses -/

/-- The warehouse is of the tenant. -/
def Directory.Houses (d : Directory) (warehouseId tenantId : Id) : Prop :=
  ∃ w ∈ d.warehouses, w.id = warehouseId ∧ w.tenantId = tenantId

/-- Every receipt lies in a warehouse of its tenant. -/
def HousedIn (d : Directory) (s : Ledger) : Prop :=
  ∀ r ∈ s.receipts, d.Houses r.warehouseId r.tenantId

/-- A deposit whose form was accepted is into a warehouse of its tenant. -/
def DepositsHoused (d : Directory) (requests : List Request) : Prop :=
  ∀ dto, .createDeposit dto ∈ requests → dto.checked = .ok () →
    d.Houses dto.warehouseId dto.tenantId

section Housing

variable {num : Numeric} {d : Directory}

/-- A commit keeps receipts in warehouses of their tenants, if the deposit it may be is into one. -/
theorem HousedIn.commit {uuids : Uuids} {op : LedgerOp} {s s' : Ledger}
    {events : List InventoryEvent} {change : Change} {result : LedgerResult} (h : HousedIn d s)
    (heffect : Effect num uuids s op events change result) (hcommits : Commits s events change s')
    (hdeposit : ∀ input, op = .deposit input → d.Houses input.warehouseId input.tenantId) :
    HousedIn d s' := by
  intro r hr
  rcases hcommits.mem_receipts.mp hr with ⟨r₀, hr₀, rfl⟩ | hcreated
  · rw [hcommits.sameWarehouse heffect hr₀, (hcommits.advance heffect hr₀).1.tenantId]
    exact h r₀ hr₀
  · rcases Deposits.created_origin heffect hcreated with
      ⟨input, rfl, rfl⟩ | ⟨src, hrewritten, -, hkin⟩
    · exact hdeposit input rfl
    · rw [hkin.warehouseId, hkin.tenantId]
      exact h src (Table.mem_of_find (hcommits.found _ _ hrewritten).1)

/-- A step of another issuer than a deposit's. -/
theorem HousedIn.takes {label : Label} {s s' : Db} (h : HousedIn d s.ledger)
    (htakes : Takes num (fun _ => True) label s s')
    (hby : s' = s ∨ label.By fun by_ => by_ ≠ .createDeposit) : HousedIn d s'.ledger := by
  rcases hby with rfl | hby
  · exact h
  cases label with
  | read =>
      rw [show s' = s from htakes]
      exact h
  | write by_ =>
      rcases htakes with rfl | ⟨-, hwrite⟩
      · exact h
      · exact hwrite.ledger ▸ h
  | ledger by_ op =>
      rcases htakes with rfl | ⟨-, hstep⟩
      · exact h
      obtain ⟨uuids, events, change, result, heffect, hcommits⟩ := hstep.effect
      refine h.commit heffect hcommits ?_
      rintro input rfl
      cases hstep.rightful.calls with
      | createDeposit keyUuid key => exact absurd rfl hby

theorem createDeposit_housed {dto : CreateDeposit} {s : Db}
    (hhoused : dto.checked = .ok () → d.Houses dto.warehouseId dto.tenantId) :
    ((custody num fun _ => True).also fun s => HousedIn d s.ledger).Safe
      (createDeposit num dto) s := by
  refine Contract.safe_ofExcept fun _ hchecked => keeps_ledger (fun _ _ => trivial) rfl ?_
  intro s' r ledger _ hinv _ houtcome
  obtain ⟨hcustody, htakes⟩ : Custody { s' with ledger } ∧
      Takes num (fun _ => True) _ s' { s' with ledger } := by
    refine rightful_takes hinv.1 trivial ⟨.createDeposit dto.keyUuid rfl, ?_, trivial⟩ houtcome
    rintro _ ⟨⟩
  refine ⟨⟨hcustody, ?_⟩, htakes, False.elim, trivial⟩
  cases houtcome with
  | replayed e prior reconstructs same =>
      subst same
      exact hinv.2
  | committed free events change effect commits =>
      refine hinv.2.commit effect commits ?_
      rintro input ⟨⟩
      exact hhoused hchecked

/-- Every request keeps receipts in warehouses of their tenants. -/
theorem Request.housed (request : Request) (s : Db)
    (hhoused : ∀ dto, request = .createDeposit dto → dto.checked = .ok () →
      d.Houses dto.warehouseId dto.tenantId) :
    ((custody num fun _ => True).also fun s => HousedIn d s.ledger).Safe (request.run num) s := by
  have hsafe : (custody num fun _ => True).Safe (request.run num) s :=
    request.safe (fun _ => trivial) s
  by_cases hdeposit : ∃ dto, request = .createDeposit dto
  · obtain ⟨dto, rfl⟩ := hdeposit
    exact createDeposit_housed (hhoused dto rfl)
  by_cases hcollateral : request.Collateral
  · have hrows : (rowContract (fun _ => True) fun by_ => by_ ≠ .createDeposit).Safe
        (request.run num) s := by
      refine request.rows (fun _ _ => trivial) hcollateral ?_ ?_ ?_ ?_
      · rintro by_ hby - rfl
        exact hby
      · rintro s p by_ - - - hdecides rfl
        exact hdecides
      · rintro dto - s x - - - ⟨⟩
      · rintro dto - ⟨⟩
    refine hsafe.also hrows (fun _ _ _ => trivial) fun {label s s'} _ hJ htakes hstep => ?_
    refine hJ.takes htakes ?_
    cases label with
    | read => exact .inr trivial
    | ledger by_ op => exact hstep.imp_right And.left
    | write by_ => exact hstep.imp_right And.left
  · have hsteps : Steps (fun by_ => by_ ≠ .createDeposit) SameCollateral (request.run num) := by
      refine request.steps hcollateral ?_ fun dto hdto => absurd ⟨dto, hdto⟩ hdeposit
      rintro by_ hmoves rfl
      exact hmoves
    have hother : (Contract.stepping (fun _ => True)
        (fun label s s' => s' = s ∨ Label.By (fun by_ => by_ ≠ .createDeposit) label)
          fun _ _ => .inl rfl).Safe (request.run num) s :=
      Contract.safe_of_takes (fun _ _ _ _ hstep => ⟨trivial, Or.inr hstep.1, False.elim⟩) hsteps s
    exact hsafe.also hother (fun _ _ _ => trivial) fun _ hJ htakes hstep => hJ.takes htakes hstep

/-- In every reachable state, receipts lie in warehouses of their tenants, if deposits are into
such. -/
theorem runs_housed {directory : Directory} {requests : List Request}
    (hdeposits : DepositsHoused directory requests) {trace : List (Transition Label Db)} {db : Db}
    {pool : List (Api Unit)}
    (h : Run (Db.initial directory) (requests.map (Request.run num)) trace db pool) :
    HousedIn directory db.ledger := by
  have hholds : ((custody num fun _ => True).also fun s => HousedIn directory s.ledger).Holds
      (Db.initial directory) (requests.map (Request.run num)) := by
    refine ⟨⟨custody_initial directory, by simp [HousedIn, Db.initial]⟩, ?_, False.elim⟩
    intro p hp
    obtain ⟨request, hrequest, rfl⟩ := List.mem_map.mp hp
    exact request.housed _ fun dto hdto => hdeposits dto (hdto ▸ hrequest)
  exact (hholds.run h fun _ _ => trivial).final.inv.2

end Housing

end SecureStore.Services
