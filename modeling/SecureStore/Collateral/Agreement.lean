/-
# Leaves, pledges and liens agree

Requests executed one at a time keep what the tables and the log say about pledged
volume. The approval of a release request is the one that takes several steps on several
liens: between two of its lines everything agrees, apart from the keys of the lines that
are done.
-/

import SecureStore.Collateral.Records

namespace SecureStore.Services

open SecureStore.Foundation SecureStore.Inventory

/-! ## Requests of other modules -/

section Frame

variable {num : Numeric} {Admitted Sized : ℚ → Prop} {busy : Id → Id → Prop} {s s' : Db}
  {by_ : Issuer} {op : LedgerOp}

theorem Issuer.collateral_of_pledge {id : Id} (h : by_.txn s = some (.pledge, id)) :
    by_.Collateral := by
  cases by_ with
  | createPledge | cancelPledge | acceptPledge | rejectPledge | expirePledge
  | approveReleaseLine | forceReleaseLien => trivial
  | _ => simp [Issuer.txn] at h

theorem Calls.foreign (h : Calls by_ op) (hother : ¬ by_.Collateral) :
    Foreign op.idempotencyKey := by
  cases h <;> first
    | exact absurd trivial hother
    | simp_all [Foreign, LedgerOp.idempotencyKey, withdrawalKey, loanKey, tradeKey]

/-- The statuses of pledged volume. -/
def Pledged (status : ReceiptStatus) : Prop := status = .heldPledgePending ∨ status = .heldLien

theorem Pledged.held {status : ReceiptStatus} (h : Pledged status) : status.Held := by
  rcases h with rfl | rfl
  · decide
  · decide

theorem Pledged.txnType {status : ReceiptStatus} (h : Pledged status) {txnType : TxnType}
    (hheld : HeldAs txnType status) : txnType = .pledge := by
  rcases h with rfl | rfl
  · cases hheld
    rfl
  · cases hheld
    rfl

/-- Only pledged volume becomes pledged volume. -/
theorem Moves.pledged {before after : ReceiptStatus} (h : Moves before after)
    (hpledged : Pledged after) : Pledged before := by
  cases h with
  | lien => exact .inl rfl
  | _ => simp [Pledged] at hpledged

/-- Requests of other modules rewrite no pledged volume. -/
theorem LedgerStep.not_pledged (h : LedgerStep num by_ op s s') (hc : Custody s)
    (hother : ¬ by_.Collateral) {uuids : Uuids} {events : List InventoryEvent} {change : Change}
    {result : LedgerResult} (heffect : Effect num uuids s.ledger op events change result)
    {r after : Receipt} (hr : r ∈ s.ledger.receipts)
    (hrewritten : change.rewritten = some (r, after)) : ¬ Pledged r.status := by
  intro hpledged
  have htarget := h.rightful.calls.rewrites_held heffect hrewritten hpledged.held
  obtain ⟨txnType, txnId, htxn, r', hfind, hminted⟩ := h.rightful.entitled r.id htarget
  obtain rfl : r' = r := Option.some_inj.mp (hfind.symm.trans (Table.find_of_mem hr))
  obtain ⟨txnType', htype, hheldAs⟩ := hc.heldAs r' hr hpledged.held
  obtain rfl : txnType' = .pledge := hpledged.txnType hheldAs
  obtain rfl : txnType = .pledge :=
    Option.some_inj.mp ((hminted hpledged.held).1.symm.trans htype)
  exact hother (Issuer.collateral_of_pledge htxn)

/-- Requests of other modules make no pledged volume. -/
theorem LedgerStep.pledged_before (h : LedgerStep num by_ op s s') (hc : Custody s)
    (hother : ¬ by_.Collateral) {r : Receipt} (hr : r ∈ s'.ledger.receipts)
    (hpledged : Pledged r.status) : r ∈ s.ledger.receipts := by
  obtain ⟨uuids, events, change, result, heffect, hcommits⟩ := h.effect
  rcases hcommits.receipt_cases hr with hcreated | ⟨before, hrewritten, hbefore⟩ | ⟨hold, -⟩
  · obtain ⟨txnType, txnId, htxn, -, hheldAs⟩ :=
      h.created_held hc heffect hcreated hpledged.held
    rw [hpledged.txnType hheldAs] at htxn
    exact absurd (Issuer.collateral_of_pledge htxn) hother
  · have hnot := h.not_pledged hc hother heffect hbefore hrewritten
    rcases heffect.moves hrewritten with ⟨hsame, -⟩ | ⟨hmove, -⟩ | ⟨-, rfl, -⟩
    · rw [hsame] at hpledged
      exact absurd hpledged hnot
    · exact absurd (Moves.pledged hmove hpledged) hnot
    · simp [Pledged, supersede] at hpledged
  · exact hold

/-- Agreement is about pledges, liens, release requests and the ledger. -/
theorem Backed.of_same (h : Backed num Admitted Sized busy s) (hsame : SameCollateral s s')
    (hledger : s'.ledger = s.ledger) : Backed num Admitted Sized busy s' := by
  obtain ⟨hdirectory, hpledges, hliens, hrequests, hlines, -⟩ := hsame
  cases s'
  subst hledger hdirectory hpledges hliens hrequests hlines
  refine ⟨{ h.volumes with }, { h.rows with }, ?_⟩
  exact { h.logged with shown := fun key hused => { h.logged.shown key hused with } }

/-- A ledger call of another module keeps the agreement. -/
theorem LedgerStep.backed (h : LedgerStep num by_ op s s') (hc : Custody s)
    (hother : ¬ by_.Collateral) (hb : Backed num Admitted Sized busy s) :
    Backed num Admitted Sized busy { s with ledger := s'.ledger } := by
  obtain ⟨uuids, events, change, result, heffect, hcommits⟩ := h.effect
  have hforeign : ∀ e ∈ events, Foreign e.idempotencyKey := by
    intro e he
    rcases h.rightful.calls.event_key heffect he with hop | ⟨tradeId, hsettle⟩
    · rw [hop]
      exact h.rightful.calls.foreign hother
    · rw [hsettle]
      simp [Foreign, releaseKey, tradeKey]
  have hkept : ∀ key, s.ledger.Used key → s'.ledger.Used key := fun key hold =>
    hcommits.used_iff.mpr (.inl hold)
  constructor
  · constructor
    · intro p hp
      apply (hb.volumes.pledges p hp).commit hcommits heffect
      intro hpending before after hrewritten hheld
      have hbefore := Table.mem_of_find (hcommits.found before after hrewritten).1
      apply h.not_pledged hc hother heffect hbefore hrewritten
      exact .inl (((hb.volumes.pledges p hp).leaf hbefore hheld).2.2.1.mpr hpending)
    · intro l hl hlive
      apply (hb.volumes.liens l hl hlive).commit hcommits
      intro before after hrewritten hid
      have hbefore := Table.mem_of_find (hcommits.found before after hrewritten).1
      apply h.not_pledged hc hother heffect hbefore hrewritten
      exact .inr ((hb.volumes.liens l hl hlive).leaf hbefore hid).1
    · exact hb.volumes.apart
    · intro r hr hlien
      exact hb.volumes.owned r (h.pledged_before hc hother hr (.inr hlien)) hlien
    · apply hb.volumes.full_commit hcommits heffect
      intro e he requestId lineId hfull
      have hnot := hforeign e he
      rw [hfull] at hnot
      simp [Foreign, fullKey] at hnot
  · exact { hb.rows with }
  · apply hb.logged.reworked
    · exact { Reworked.refl s with }
    · exact fun _ _ hopen => .inl hopen
    · exact hkept
    · intro key hused
      rcases hcommits.used_iff.mp hused with hold | ⟨e, he, rfl⟩
      · exact .inl hold
      · exact .inr (Shown.of_foreign (hforeign e he))
    · exact fun l hl hstatus => .inr ⟨l, hl, rfl, hstatus⟩

theorem Takes.backed {label : Label} (h : Takes num (fun by_ => ¬ by_.Collateral) label s s')
    (hc : Custody s) (hb : Backed num Admitted Sized busy s) :
    Backed num Admitted Sized busy s' := by
  cases label with
  | read =>
      obtain rfl : s' = s := h
      exact hb
  | ledger by_ op =>
      rcases h with rfl | ⟨hother, hstep⟩
      · exact hb
      · exact (hstep.backed hc hother hb).of_same { hstep.same with } rfl
  | write by_ =>
      rcases h with rfl | ⟨hother, hstep⟩
      · exact hb
      · exact hb.of_same (hstep.frame hother) hstep.ledger

theorem frame_backed (h : (custody num fun by_ => ¬ by_.Collateral).rely s s')
    (hb : Backed num Admitted Sized busy s) : Backed num Admitted Sized busy s' := by
  induction h with
  | refl => exact hb
  | tail _ hstep ih =>
      obtain ⟨hc', label, htakes⟩ := hstep
      exact htakes.backed hc' ih

end Frame

/-! ## Pledges -/

section Pledges

variable {num : Numeric} {Admitted Sized : ℚ → Prop} {busy : Id → Id → Prop} {s s₁ : Db}
  {by_ : Issuer} {p : Pledge} {word : String}

/-- The leaf of a pledge was released for a decision that is not recorded yet. -/
def LeafFreed (num : Numeric) (p : Pledge) (word : String) (s s₁ : Db) : Prop :=
  ∃ uuids ctx id result ledger, p.heldReceiptId = some id ∧
    ctx.idempotencyKey = decisionKey word p.id ∧
      Outcome num uuids (.release ctx id) s.ledger result ledger ∧ s₁ = { s with ledger }

theorem releaseHeld_ends (h : Backed num Admitted Sized busy s) (hp : p ∈ s.pledges) {uuids : Uuids}
    {actorUserId : Option Id} :
    Ends (fun r s₁ => match r with | .ok _ => LeafFreed num p word s s₁ | .error _ => s₁ = s)
      (releaseHeld num by_ uuids p actorUserId word) s := by
  obtain ⟨r, -, hheld, -⟩ := h.volumes.pledges p hp
  unfold releaseHeld
  rw [hheld]
  apply ensures_ledger rfl
  · intro e
    exact ⟨trivial, rfl⟩
  · intro r' ledger houtcome
    exact ⟨trivial, uuids, _, r.id, _, ledger, hheld, rfl, houtcome, rfl⟩

/-- The row of a pledge after the release of its leaf: everything agrees again, and the
other pledges are as they were. -/
theorem updatePledge_ends (h : Backed num Admitted Sized busy s) (hp : p ∈ s.pledges)
    (hpending : p.status = .pending) (hword : word ≠ "create") (hfreed : LeafFreed num p word s s₁)
    {f : Pledge → Pledge} {hkey : ∀ r, Keyed.key (f r) = Keyed.key r} (hf : Decides f) :
    Ends (fun _ s₂ => Backed num Admitted Sized busy s₂ ∧
      ∀ q ∈ s.pledges, q.id ≠ p.id → q ∈ s₂.pledges) (updatePledge by_ p.id f hkey) s₁ := by
  obtain ⟨uuids, ctx, id, result, ledger, hheld, hctx, houtcome, rfl⟩ := hfreed
  apply ensures_write_last
  · intro e hrefused
    have hnone := updateRow_refused (map_error.mp hrefused)
    cases (Table.find_of_mem hp).symm.trans hnone
  · intro _ s₂ hok
    obtain ⟨pledges, hupdate, hresult⟩ := map_ok.mp hok
    cases hresult
    obtain ⟨-, -, rfl⟩ := updateRow_ok.mp hupdate
    refine ⟨trivial, h.settle hp hpending hheld hword hctx houtcome hkey hf, ?_⟩
    intro q hq hne
    exact Table.mem_modify_other f hkey hq hne

theorem cancelPledge_keeps (h : Backed num Admitted Sized busy s) (uuids : Uuids)
    (callerUserId pledgeId : Id) :
    Ends (fun _ => Backed num Admitted Sized busy) (cancelPledge num uuids callerUserId pledgeId)
      s := by
  apply ensures_read trivial
  apply ensures_orThrow (fun _ => h)
  intro p hfound
  have hp := Table.mem_of_find (Option.filter_eq_some_iff.mp hfound).1
  apply ensures_throwIf (fun _ => h)
  intro hpending
  apply ensures_bind
  apply Process.Ensures.weaken (releaseHeld_ends h hp)
  rintro (e | _) s₁ hfreed
  · exact hfreed ▸ h
  · apply Process.Ensures.weaken
    · apply updatePledge_ends h hp (not_not.mp hpending) (by decide) hfreed
      exact fun _ => ⟨⟨rfl, rfl, rfl, rfl, rfl⟩, by simp⟩
    · exact fun _ s₂ hs₂ => hs₂.1

theorem rejectPledge_keeps (h : Backed num Admitted Sized busy s) (uuids : Uuids)
    (callerUserId pledgeId : Id) (reason : String) :
    Ends (fun _ => Backed num Admitted Sized busy)
      (rejectPledge num uuids callerUserId pledgeId reason) s := by
  apply requireFinancierOrg_ends (fun _ => h)
  intro org _
  apply ensures_find trivial (fun _ => h)
  intro p hfound
  have hp := Table.mem_of_find (Option.filter_eq_some_iff.mp hfound).1
  apply ensures_throwIf (fun _ => h)
  intro hpending
  apply ensures_bind
  apply Process.Ensures.weaken (releaseHeld_ends h hp)
  rintro (e | _) s₁ hfreed
  · exact hfreed ▸ h
  apply ensures_bind
  apply Process.Ensures.weaken
  · apply updatePledge_ends h hp (not_not.mp hpending) (by decide) hfreed
    exact fun _ => ⟨⟨rfl, rfl, rfl, rfl, rfl⟩, by simp⟩
  rintro (e | _) s₂ ⟨hs₂, -⟩
  · exact hs₂
  · exact getFinancierPledgeDetail_ends fun _ => hs₂

/-- The cron decides one pledge after the other; those still to decide are as it read
them. -/
theorem expireStalePledges_keeps (h : Backed num Admitted Sized busy s) (uuids : Id → Uuids)
    (now : Timestamp) :
    Ends (fun _ => Backed num Admitted Sized busy) (expireStalePledges num uuids now) s := by
  apply ensures_read trivial
  apply ensures_forEach (fun rest s' => Backed num Admitted Sized busy s' ∧
    (rest.map Pledge.id).Nodup ∧ ∀ p ∈ rest, p ∈ s'.pledges ∧ p.status = .pending)
  · rintro p rest s₁ ⟨h₁, hnodup, hrest⟩
    obtain ⟨hp, hpending⟩ := hrest p List.mem_cons_self
    obtain ⟨hne, hnodup'⟩ := List.nodup_cons.mp hnodup
    have hafter : ∀ q ∈ rest, q.id ≠ p.id := by
      intro q hq hid
      exact hne (hid ▸ List.mem_map_of_mem hq)
    apply ensures_recover
    apply ensures_bind
    apply Process.Ensures.weaken (releaseHeld_ends h₁ hp)
    rintro (e | _) s₂ hfreed
    · obtain rfl : s₂ = s₁ := hfreed
      exact ⟨h₁, hnodup', fun q hq => hrest q (List.mem_cons_of_mem _ hq)⟩
    · apply Process.Ensures.weaken
      · apply updatePledge_ends h₁ hp hpending (by decide) hfreed
        exact fun _ => ⟨⟨rfl, rfl, rfl, rfl, rfl⟩, by simp⟩
      · rintro (e | _) s₃ ⟨hs₃, hothers⟩
        · refine ⟨hs₃, hnodup', fun q hq => ?_⟩
          obtain ⟨hmem, hstatus⟩ := hrest q (List.mem_cons_of_mem _ hq)
          exact ⟨hothers q hmem (hafter q hq), hstatus⟩
        · refine ⟨hs₃, hnodup', fun q hq => ?_⟩
          obtain ⟨hmem, hstatus⟩ := hrest q (List.mem_cons_of_mem _ hq)
          exact ⟨hothers q hmem (hafter q hq), hstatus⟩
  · exact fun s' hs' => hs'.1
  · refine ⟨h, ?_, ?_⟩
    · exact (List.filter_sublist.map _).nodup s.pledges.nodup
    · intro p hp
      obtain ⟨hmem, hstale⟩ := List.mem_filter.mp hp
      exact ⟨hmem, (of_decide_eq_true hstale).1⟩

/-- A new pledge of a quantity that its column keeps. -/
theorem createPledge_keeps (h : Backed num Admitted Sized busy s)
    (hcolumns : Columns num Admitted Sized) (dto : CreatePledge)
    (hadmitted : Admitted dto.quantity) :
    Ends (fun _ => Backed num Admitted Sized busy) (createPledge num dto) s := by
  apply ensures_read trivial
  apply ensures_orThrow (fun _ => h)
  intro caller hcaller
  apply ensures_read trivial
  apply ensures_orThrow (fun _ => h)
  intro receipt hfound
  obtain ⟨hfind, howner⟩ := Option.filter_eq_some_iff.mp hfound
  apply ensures_throwIf (fun _ => h)
  intro _
  apply ensures_throwIf (fun _ => h)
  intro _
  apply getReceiptEncumbrance_ends (fun _ => h)
  intro available
  apply ensures_throwIf (fun _ => h)
  intro _
  apply ensures_read trivial
  apply ensures_orThrow (fun _ => h)
  intro org _
  apply ensures_throwIf (fun _ => h)
  intro _
  apply ensures_ledger rfl (fun _ => ⟨trivial, h⟩)
  intro result ledger houtcome
  refine ⟨trivial, ?_⟩
  cases houtcome with
  | replayed e prior reconstructs same =>
      -- a key that is used has its pledge, so the row is refused
      subst same
      obtain ⟨p, hp, hid⟩ := (h.logged.shown _ (used_of_find prior)).create dto.pledgeId rfl
      apply ensures_orThrow (fun _ => h)
      intro held _
      apply ensures_write_last (fun _ _ => ⟨trivial, h⟩)
      intro _ s' hok
      obtain ⟨pledges, hcreate, -⟩ := map_ok.mp hok
      have hfree := (Table.insert_eq_some_iff.mp (createRow_ok.mp hcreate).2).1
      exact absurd hid (Table.find_eq_none_iff.mp hfree p hp)
  | committed free events change effect commits =>
      obtain ⟨held, hheld⟩ : ∃ held, result.held = some held := by
        cases effect
        exact ⟨_, rfl⟩
      have hfresh : ∀ r ∈ s.ledger.receipts, r.id ≠ held.id := by
        intro r hr
        cases effect
        cases hheld
        exact commits.created_ne List.mem_cons_self hr
      apply ensures_orThrow
      · intro hnone
        cases hheld.symm.trans hnone
      intro held' hheld'
      obtain rfl : held = held' := Option.some_inj.mp (hheld.symm.trans hheld')
      apply ensures_write_last
      · intro e hrefused
        rcases createRow_refused (map_error.mp hrefused) with htaken | ⟨p, hp, htaken⟩
        · apply absurd _ htaken
          rw [Table.find_eq_none_iff]
          intro p hp hid
          have hused := h.logged.recorded p hp
          rw [show p.id = dto.pledgeId from hid] at hused
          exact not_used_iff.mpr free hused
        · obtain ⟨r, hr, hleaf, -⟩ := h.volumes.pledges p hp
          exact absurd (Option.some_inj.mp (hleaf.symm.trans htaken)) (hfresh r hr)
      · intro _ s' hok
        obtain ⟨pledges, hcreate, hresult⟩ := map_ok.mp hok
        cases hresult
        have hrow := hcolumns.row hadmitted
        refine ⟨trivial, h.pledge rfl rfl effect commits hheld (createRow_ok.mp hcreate).2 rfl hrow
          ?_ ?_ rfl ⟨caller, hcaller, rfl⟩⟩
        · exact hrow.symm ▸ hadmitted
        · exact (of_decide_eq_true howner).2.symm

/-- An acceptance of a quantity that leaves carry, under a new id. -/
structure AcceptPledge.Orderly (Sized : ℚ → Prop) (dto : AcceptPledge) (db : Db) : Prop where
  fresh : db.liens.find dto.lienId = none
  sized : ∀ p, dto.Admitted db p → Sized p.quantity

theorem acceptPledge_keeps (h : Backed num Admitted Sized busy s)
    (hcolumns : Columns num Admitted Sized) (dto : AcceptPledge) (horderly : dto.Orderly Sized s) :
    Ends (fun _ => Backed num Admitted Sized busy) (acceptPledge num dto) s := by
  apply requireFinancierOrg_ends (fun _ => h)
  intro org hmember
  apply ensures_find trivial (fun _ => h)
  intro p hfound
  obtain ⟨hfind, horg⟩ := Option.filter_eq_some_iff.mp hfound
  have hp := Table.mem_of_find hfind
  apply ensures_throwIf (fun _ => h)
  intro hnot
  have hpending : p.status = .pending := not_not.mp hnot
  apply ensures_throwIf (fun _ => h)
  intro hunexpired
  apply ensures_orThrow (fun _ => h)
  intro heldReceiptId hheld
  apply ensures_ofExcept (fun _ _ => h)
  intro _ hotp
  have hsized : Sized p.quantity := by
    apply horderly.sized p
    refine ⟨hfind, hpending, hunexpired, hotp, ?_⟩
    rw [of_decide_eq_true horg]
    exact hmember
  apply ensures_ledger rfl (fun _ => ⟨trivial, h⟩)
  intro r ledger houtcome
  refine ⟨trivial, ?_⟩
  apply ensures_write
  · intro e hrefused
    rcases bind_error.mp hrefused with hcreate | ⟨liens, hcreate, hrefused⟩
    · rcases createRow_refused hcreate with htaken | ⟨l, hl, hpledge⟩
      · exact absurd horderly.fresh htaken
      · obtain ⟨⟨p', hp', hid, hdecided⟩, -⟩ := h.rows.liens l hl
        obtain rfl := Table.eq_of_key_eq hp' hp (hid.trans hpledge)
        exact absurd hpending hdecided
    · rcases bind_error.mp hrefused with hupdate | ⟨pledges, -, hpure⟩
      · cases (Table.find_of_mem hp).symm.trans (updateRow_refused hupdate)
      · cases hpure
  · intro _ s₂ hok
    obtain ⟨liens, hcreate, hok⟩ := bind_ok.mp hok
    obtain ⟨pledges, hupdate, hok⟩ := bind_ok.mp hok
    cases hok
    obtain ⟨-, -, rfl⟩ := updateRow_ok.mp hupdate
    have hlien : num.numeric20_4 p.quantity = p.quantity := hcolumns.lien hsized
    refine ⟨trivial, getFinancierPledgeDetail_ends fun _ => ?_⟩
    exact h.accept hcolumns hp hpending hsized hheld rfl houtcome
      (f := fun r => { r with
        status := .accepted, decidedById := some dto.callerUserId, decisionReason := dto.note })
      (fun _ => rfl) (fun _ => ⟨⟨rfl, rfl, rfl, rfl, rfl⟩, by simp⟩) (createRow_ok.mp hcreate).2 rfl
      rfl hlien rfl rfl rfl

end Pledges

/-! ## Release requests -/

section ReleaseRequests

variable {num : Numeric} {Admitted Sized : ℚ → Prop} {busy : Id → Id → Prop} {s s₁ : Db}
  {by_ : Issuer}

/-- A request whose lines are on distinct liens, of quantities that their column keeps. -/
structure CreateReleaseRequest.Orderly (Admitted : ℚ → Prop) (dto : CreateReleaseRequest) :
    Prop where
  admitted : ∀ line ∈ dto.lines, Admitted line.quantity
  distinct : (dto.lines.map CreateReleaseRequestLine.lienId).Nodup

theorem createReleaseRequest_keeps (h : Backed num Admitted Sized busy s)
    (hcolumns : Columns num Admitted Sized) (dto : CreateReleaseRequest)
    (horderly : dto.Orderly Admitted) :
    Ends (fun _ => Backed num Admitted Sized busy) (createReleaseRequest num dto) s := by
  apply ensures_read trivial
  apply ensures_orThrow (fun _ => h)
  intro caller hcaller
  apply ensures_read trivial
  apply ensures_read trivial
  apply ensures_bind
  apply ensures_forEach (fun rest s' => s' = s ∧ ∀ line ∈ dto.lines, line ∉ rest →
    0 < line.quantity ∧ ∃ l ∈ s.liens, l.id = line.lienId ∧ l.clientId = dto.callerUserId)
  · rintro line rest s' ⟨rfl, hchecked⟩
    apply ensures_orThrow (fun _ => h)
    intro l hlien
    apply ensures_throwIf (fun _ => h)
    intro hclient
    apply ensures_throwIf (fun _ => h)
    intro _
    apply ensures_throwIf (fun _ => h)
    intro _
    apply ensures_throwIf (fun _ => h)
    intro hpositive
    apply ensures_throwIf_last (fun _ => h)
    intro _
    refine ⟨rfl, ?_⟩
    intro line' hline' hrest
    by_cases hself : line' = line
    · subst hself
      exact ⟨not_le.mp hpositive, l, Table.mem_of_find hlien, Table.key_of_find hlien,
        not_not.mp hclient⟩
    · exact hchecked line' hline' (by simp [hself, hrest])
  · rintro s' ⟨rfl, hchecked⟩
    apply continues_ok.mpr
    apply ensures_write_last (fun _ _ => ⟨trivial, h⟩)
    intro _ s'' hok
    obtain ⟨requests, hcreate, hok⟩ := bind_ok.mp hok
    obtain ⟨lines, hlines, hok⟩ := bind_ok.mp hok
    cases hok
    obtain ⟨added, hrows, hadded, hliens⟩ := createLines_adds hlines
    refine ⟨trivial, h.request (createRow_ok.mp hcreate).2 hrows ⟨caller, hcaller, rfl⟩ ?_ ?_⟩
    · intro x hx
      obtain ⟨hrequest, line, hline, hlien, hquantity⟩ := hadded x hx
      obtain ⟨hpositive, l, hl, hid, hclient⟩ := hchecked line hline List.not_mem_nil
      refine ⟨hrequest, ?_, l, hl, hid.trans hlien.symm, hclient⟩
      rw [hquantity, hcolumns.row (horderly.admitted line hline)]
      exact hpositive
    · exact hliens ▸ horderly.distinct
  · exact ⟨rfl, fun line hline hnot => absurd hline hnot⟩

/-- The row of a request after a decision that closes its lines. -/
theorem updateReleaseRequest_keeps (busy' : Id → Id → Prop) {id : Id}
    (h : Backed num Admitted Sized busy s) {f : ReleaseRequest → ReleaseRequest}
    {hkey : ∀ r, Keyed.key (f r) = Keyed.key r} (hsame : ∀ q, SameRequest q (f q))
    (hdecides : ∀ q, (f q).status ≠ .pending)
    (hbusy : ∀ requestId lineId, busy requestId lineId → busy' requestId lineId ∨
      ∃ q ∈ s.releaseRequests.modify id f hkey, q.id = requestId ∧ q.status ≠ .pending)
    (hfound : ∃ q ∈ s.releaseRequests, q.id = id) :
    Ends (fun _ => Backed num Admitted Sized busy') (updateReleaseRequest by_ id f hkey) s := by
  obtain ⟨q, hq, rfl⟩ := hfound
  apply ensures_write_last
  · intro e hrefused
    cases (Table.find_of_mem hq).symm.trans (updateRow_refused (map_error.mp hrefused))
  · intro _ s' hok
    obtain ⟨requests, hupdate, hresult⟩ := map_ok.mp hok
    cases hresult
    obtain ⟨-, -, rfl⟩ := updateRow_ok.mp hupdate
    exact ⟨trivial, h.decide hkey hsame hdecides hbusy⟩

theorem cancelReleaseRequest_keeps (h : Backed num Admitted Sized busy s)
    (callerUserId requestId : Id) :
    Ends (fun _ => Backed num Admitted Sized busy) (cancelReleaseRequest callerUserId requestId)
      s := by
  apply ensures_read trivial
  apply ensures_orThrow (fun _ => h)
  intro req hfound
  have hreq := Table.mem_of_find (Option.filter_eq_some_iff.mp hfound).1
  apply ensures_throwIf (fun _ => h)
  intro _
  apply updateReleaseRequest_keeps busy h
  · exact fun _ => ⟨rfl, rfl, rfl⟩
  · simp
  · exact fun _ _ hopen => .inl hopen
  · exact ⟨req, hreq, rfl⟩

theorem rejectReleaseRequest_keeps (h : Backed num Admitted Sized busy s)
    (callerUserId requestId : Id) (reason : String) :
    Ends (fun _ => Backed num Admitted Sized busy)
      (rejectReleaseRequest callerUserId requestId reason) s := by
  apply requireFinancierOrg_ends (fun _ => h)
  intro org _
  apply ensures_read trivial
  apply ensures_orThrow (fun _ => h)
  intro req hfound
  have hreq := Table.mem_of_find (Option.filter_eq_some_iff.mp hfound).1
  apply ensures_throwIf (fun _ => h)
  intro _
  apply ensures_bind
  apply Process.Ensures.weaken
  · apply updateReleaseRequest_keeps busy h
    · exact fun _ => ⟨rfl, rfl, rfl⟩
    · simp
    · exact fun _ _ hopen => .inl hopen
    · exact ⟨req, hreq, rfl⟩
  rintro (e | _) s' hs'
  · exact hs'
  · exact getFinancierReleaseRequestDetail_ends fun _ => hs'

/-- A release by force that draws a new id for its record. -/
def ForceReleaseLien.Orderly (dto : ForceReleaseLien) (db : Db) : Prop :=
  db.forceReleases.find dto.forceReleaseId = none

theorem forceReleaseLien_keeps (h : Backed num Admitted Sized busy s) (dto : ForceReleaseLien)
    (horderly : dto.Orderly s) :
    Ends (fun _ => Backed num Admitted Sized busy) (forceReleaseLien num dto) s := by
  apply ensures_read trivial
  apply ensures_orThrow (fun _ => h)
  intro found hfound
  obtain ⟨l, hlien, rfl⟩ := Option.map_eq_some_iff.mp hfound
  have hl := Table.mem_of_find (Option.filter_eq_some_iff.mp hlien).1
  dsimp only
  split
  · exact h
  rename_i hunforced
  apply ensures_throwIf (fun _ => h)
  intro hstatus
  apply ensures_ledger rfl (fun _ => ⟨trivial, h⟩)
  intro r ledger houtcome
  refine ⟨trivial, ?_⟩
  apply ensures_write_last
  · intro e hrefused
    rcases bind_error.mp hrefused with hcreate | ⟨forced, -, hrefused⟩
    · rcases createRow_refused hcreate with htaken | ⟨x, hx, hsame⟩
      · exact absurd horderly htaken
      · rw [Bool.not_eq_true, Option.isSome_eq_false_iff, Option.isNone_iff_eq_none,
          List.find?_eq_none] at hunforced
        exact absurd (decide_eq_true hsame) (hunforced x hx)
    · rcases bind_error.mp hrefused with hupdate | ⟨liens, -, hpure⟩
      · cases (Table.find_of_mem hl).symm.trans (updateRow_refused hupdate)
      · cases hpure
  · intro _ s₂ hok
    obtain ⟨forced, -, hok⟩ := bind_ok.mp hok
    obtain ⟨liens, hupdate, hok⟩ := bind_ok.mp hok
    cases hok
    obtain ⟨-, -, rfl⟩ := updateRow_ok.mp hupdate
    have hforced := h.forceRelease hl hstatus rfl houtcome
      (f := fun r => { r with
        status := .forceReleased, remainingQuantity := 0, releasedAt := some dto.now })
      (fun _ => rfl) (fun _ => ⟨rfl, rfl, rfl, rfl⟩) fun _ => rfl
    refine ⟨trivial, { hforced.volumes with }, { hforced.rows with }, ?_⟩
    exact { hforced.logged with
      shown := fun key hused => { hforced.logged.shown key hused with } }

end ReleaseRequests

end SecureStore.Services
