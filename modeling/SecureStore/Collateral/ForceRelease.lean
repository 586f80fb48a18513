/-
# Releases by force

The release of a lien by force moves the ledger and then records itself, and may stop in
between. Its key makes the release in the ledger one event, whatever has become of the freed
volume since, and its record is the only one for the lien; so repeated calls come to one end.
-/

import SecureStore.Access.OnBehalf
import SecureStore.Collateral.Encumbrance
import SecureStore.Collateral.OneLeaf
import SecureStore.Collateral.Rows

namespace SecureStore.Services

open SecureStore.Foundation SecureStore.Inventory

/-- A forced release on record is in the ledger. -/
def ForcedInLedger (s : Db) : Prop :=
  ∀ f ∈ s.forceReleases, s.ledger.Used (forceKey f.lienId)

section Runs

variable {num : Numeric} {J : Db → Prop} {mine : Issuer → Prop} {s s' : Db}

theorem used_later {s s' : Ledger} (h : Later s s') {key : IdempotencyKey}
    (hused : s.Used key) : s'.Used key := by
  obtain ⟨e, he, hkey⟩ := hused
  exact ⟨e, h.events e he, hkey⟩

/-- A call that returns has its key in the log. -/
theorem key_logged {uuids : Uuids} {op : LedgerOp} {s s' : Ledger} {result : LedgerResult}
    (h : Outcome num uuids op s result s') : s'.Used op.idempotencyKey := by
  cases h with
  | replayed e prior reconstructs same => exact same ▸ used_of_find prior
  | committed free events change effect commits =>
      obtain ⟨e, he, -, hkey⟩ := effect.keyed_event
      exact commits.used_iff.mpr (.inr ⟨e, he, hkey⟩)

/-- What is kept by whatever happens to the rows is kept besides custody. -/
theorem Request.also_rows (request : Request) (mine : Issuer → Prop)
    (hrows : request.Collateral → (rowContract (fun _ => True) mine).Safe (request.run num) s)
    (hsame : ∀ {s s' : Db}, J s → s.Later s' → SameCollateral s s' → J s')
    (htakes : ∀ {label : Label} {s s' : Db}, J s → s.Later s' → RowTakes mine label s s' → J s') :
    ((custody num fun _ => True).also J).Safe (request.run num) s := by
  have hsafe : (custody num fun _ => True).Safe (request.run num) s :=
    request.safe (fun _ => trivial) s
  by_cases hcollateral : request.Collateral
  · exact hsafe.also (hrows hcollateral) (fun _ _ _ => trivial)
      fun _ hJ hstep hrow => htakes hJ hstep.later hrow
  · have hleaves : (Contract.stepping (fun _ => True) (fun _ : Label => SameCollateral)
        fun _ => .refl).Safe (request.run num) s :=
      Contract.safe_of_takes (fun _ _ _ _ h => ⟨trivial, h, False.elim⟩)
        (request.leaves hcollateral) s
    exact hsafe.also hleaves (fun _ _ _ => trivial)
      fun _ hJ hstep hleft => hsame hJ hstep.later hleft

/-- What every request keeps besides custody holds in every reachable state. -/
theorem runs_also {directory : Directory} {requests : List Request}
    {trace : List (Transition Label Db)} {db : Db} {pool : List (Api Unit)}
    (h : Run (Db.initial directory) (requests.map (Request.run num)) trace db pool)
    (hstart : J (Db.initial directory))
    (hkeeps : ∀ request : Request,
      ((custody num fun _ => True).also J).Safe (request.run num) (Db.initial directory)) :
    J db := by
  have hholds : ((custody num fun _ => True).also J).Holds (Db.initial directory)
      (requests.map (Request.run num)) := by
    refine ⟨⟨custody_initial directory, hstart⟩, fun p hp => ?_, False.elim⟩
    obtain ⟨request, -, rfl⟩ := List.mem_map.mp hp
    exact hkeeps request
  exact (hholds.run h fun _ _ => trivial).final.inv.2

/-- In every reachable state, liens and forced releases are one for each. -/
theorem runs_rowed {directory : Directory} {requests : List Request}
    {trace : List (Transition Label Db)} {db : Db} {pool : List (Api Unit)}
    (h : Run (Db.initial directory) (requests.map (Request.run num)) trace db pool) :
    Rowed db := by
  apply runs_also h (rowed_initial directory)
  intro request
  refine request.also_rows (fun _ => True) ?_ (fun hs _ hsame => hs.of_same hsame)
    fun hs _ hrow => hs.takes hrow
  exact fun hcollateral => request.rows (fun _ _ => trivial) hcollateral (fun _ _ _ => trivial)
    (fun _ _ _ _ => trivial) (fun _ _ => fun _ _ _ => trivial) fun _ _ => trivial

theorem ForcedInLedger.of_same (h : ForcedInLedger s) (hlater : s.Later s')
    (hrows : s'.forceReleases = s.forceReleases) : ForcedInLedger s' := by
  unfold ForcedInLedger
  rw [hrows]
  exact fun f hf => used_later hlater.ledger (h f hf)

/-- The record of a forced release follows its call. -/
theorem forceReleaseLien_inLedger (dto : ForceReleaseLien) :
    ((custody num fun _ => True).also ForcedInLedger).Safe (forceReleaseLien num dto) s := by
  refine Contract.safe_read fun s₁ _ hs₁ => Contract.safe_orThrow fun found hfound => ?_
  obtain ⟨l, hl, rfl⟩ := Option.map_eq_some_iff.mp hfound
  have hlien : l ∈ s₁.liens := Table.mem_of_find (Option.filter_eq_some_iff.mp hl).1
  dsimp only
  split
  · trivial
  refine Contract.safe_throwIf fun _ => keeps_ledger (fun _ _ => trivial) rfl ?_
  intro s₂ r ledger hrely hs₂ _ houtcome
  obtain ⟨hcustody, htakes⟩ : Custody { s₂ with ledger } ∧
      Takes num (fun _ => True) _ s₂ { s₂ with ledger } :=
    rightful_takes hs₂.1 trivial
      (forceRelease_rightful hs₁.1 hlien (custody_later hrely)) houtcome
  refine ⟨⟨hcustody, hs₂.2.of_same htakes.later rfl⟩, htakes, False.elim, ?_⟩
  refine Contract.safe_write_last fun s₃ _ s₄ hrely hs₃ _ hok => ?_
  have hused : s₃.ledger.Used (forceKey l.id) :=
    used_later (custody_later hrely).ledger (key_logged houtcome)
  obtain ⟨forced, hcreate, hok⟩ := bind_ok.mp hok
  obtain ⟨liens, hupdate, hok⟩ := bind_ok.mp hok
  cases hok
  obtain ⟨hcustody', hwrite⟩ := forceRelease_writes forced hs₃.1 hupdate
  refine ⟨⟨hcustody', fun f hf => ?_⟩, .inr ⟨trivial, hwrite⟩, False.elim⟩
  rcases (Table.mem_insert (createRow_ok.mp hcreate).2).mp hf with hold | rfl
  · exact hs₃.2 f hold
  · exact hused

/-- In every reachable state, forced releases on record are in the ledger. -/
theorem runs_forcedInLedger {directory : Directory} {requests : List Request}
    {trace : List (Transition Label Db)} {db : Db} {pool : List (Api Unit)}
    (h : Run (Db.initial directory) (requests.map (Request.run num)) trace db pool) :
    ForcedInLedger db := by
  apply runs_also h (by simp [ForcedInLedger, Db.initial])
  intro request
  by_cases hforce : ∃ dto, request = .forceReleaseLien dto
  · obtain ⟨dto, rfl⟩ := hforce
    exact forceReleaseLien_inLedger dto
  refine request.also_rows (fun by_ => ∀ id, by_ ≠ .forceReleaseLien id) ?_
    (fun hs hlater hsame => hs.of_same hlater hsame.forceReleases) ?_
  · intro hcollateral
    refine request.rows (fun _ _ => trivial) hcollateral ?_ ?_ ?_ fun dto hdto => ?_
    · rintro by_ - hfree id rfl
      exact hfree ⟨id, 0, 0, 0, 0, 0, 0, 0, .active, none⟩ rfl
    · rintro s p by_ - - - hdecides id rfl
      exact hdecides
    · rintro _ _ _ _ _ _ _ _ ⟨⟩
    · exact absurd ⟨dto, hdto⟩ hforce
  · intro label s s' hs hlater hrow
    rcases hrow.cases with rfl | ⟨by_, hmine, hstep⟩
    · exact hs
    · cases hstep.forced with
      | same rows => exact hs.of_same hlater rows
      | forced f issuer rows first => exact absurd issuer (hmine f.lienId)

end Runs

/-! ## What becomes of a lien -/

/-- The release of the leaf by force is in the ledger. -/
def FreedByForce (l : Lien) (s : Ledger) : Prop :=
  ∃ e, s.events.find (forceKey l.id) = some e ∧ e.eventType = .holdReleased ∧
    e.fromReceiptId = l.receiptId

/-- The row of the lien says that it was released by force. -/
def ForcedRow (l l' : Lien) : Prop :=
  l'.id = l.id ∧ l'.tenantId = l.tenantId ∧ l'.pledgeId = l.pledgeId ∧
    l'.status = .forceReleased ∧ l'.remainingQuantity = 0

/-- A lien whose leaf was held: it is held still, or was freed in the ledger, or the release
by force is at its end. -/
inductive Fate (l : Lien) (s : Db) : Prop where
  | waits (row : l ∈ s.liens) (unforced : ∀ f ∈ s.forceReleases, f.lienId ≠ l.id)
      (free : ¬ s.ledger.Used (forceKey l.id))
      (leaf : ∃ r, s.ledger.receipts.find l.receiptId = some r ∧ r.status.Held)
  | freed (row : l ∈ s.liens) (unforced : ∀ f ∈ s.forceReleases, f.lienId ≠ l.id)
      (released : FreedByForce l s.ledger)
  | ended (released : FreedByForce l s.ledger) (row : ∃ l' ∈ s.liens, ForcedRow l l')
      (forced : ∃ f ∈ s.forceReleases, f.lienId = l.id)

/-- The release of the lien by force is at its end: its row says so, and there is one record of
it and one release of its leaf. -/
structure ReleasedByForce (l : Lien) (s : Db) : Prop where
  row : ∃ l', s.liens.find l.id = some l' ∧ l'.status = .forceReleased ∧ l'.remainingQuantity = 0
  forced : ∃! f, f ∈ s.forceReleases ∧ f.lienId = l.id
  released : ∃! e, e ∈ s.ledger.events ∧ e.eventType = .holdReleased ∧
    e.fromReceiptId = l.receiptId

/-- What is kept while requests run one at a time, stopped or not. -/
structure Tracked (l : Lien) (s : Db) : Prop where
  custody : Custody s
  rowed : Rowed s
  once : FreedOnce s.ledger
  fate : Fate l s

section Steps

variable {num : Numeric} {by_ : Issuer} {op : LedgerOp} {l : Lien} {s s' : Db}

theorem FreedByForce.later (h : FreedByForce l s.ledger) (hlater : s.Later s') :
    FreedByForce l s'.ledger := by
  obtain ⟨e, hfind, htype, hfrom⟩ := h
  obtain ⟨hmem, hkey⟩ := Table.find_eq_some_iff.mp hfind
  exact ⟨e, hkey ▸ Table.find_of_mem (hlater.ledger.events e hmem), htype, hfrom⟩

/-- An issuer whose call takes the leaf of a lien acts on the lien. -/
theorem LedgerStep.actsOn (h : LedgerStep num by_ op s s') (hs : Custody s) (hrows : Rowed s)
    (hl : l ∈ s.liens) {leaf : Receipt} (hleaf : s.ledger.receipts.find l.receiptId = some leaf)
    (hheld : leaf.status.Held) (htarget : heldTarget op = some l.receiptId) : by_.ActsOn l := by
  obtain ⟨txnType, txnId, htxn, r, hfind, hminted⟩ := h.rightful.entitled _ htarget
  obtain rfl := Option.some_inj.mp (hfind.symm.trans hleaf)
  obtain ⟨r', hfind', hminted'⟩ := hs.liens l hl
  obtain rfl := Option.some_inj.mp (hfind'.symm.trans hleaf)
  obtain ⟨htype, hid⟩ := hminted hheld
  obtain ⟨htype', hid'⟩ := hminted' hheld
  obtain rfl := Option.some_inj.mp (htype.symm.trans htype')
  obtain rfl := Option.some_inj.mp (hid.symm.trans hid')
  have hlien : ∀ lienId, ((s.liens.find lienId).map fun l' => (TxnType.pledge, l'.pledgeId)) =
      some (.pledge, l.pledgeId) → lienId = l.id := by
    intro lienId hmap
    obtain ⟨l', hl', hpair⟩ := Option.map_eq_some_iff.mp hmap
    obtain rfl := hrows.single l' (Table.mem_of_find hl') l hl (Prod.mk.inj hpair).2
    exact (Table.key_of_find hl').symm
  cases by_ with
  | approveReleaseLine requestId lineId lienId => exact hlien lienId htxn
  | forceReleaseLien lienId => exact hlien lienId htxn
  | cancelPledge pledgeId => exact (Prod.mk.inj (Option.some_inj.mp htxn)).2
  | acceptPledge pledgeId => exact (Prod.mk.inj (Option.some_inj.mp htxn)).2
  | rejectPledge pledgeId => exact (Prod.mk.inj (Option.some_inj.mp htxn)).2
  | expirePledge pledgeId => exact (Prod.mk.inj (Option.some_inj.mp htxn)).2
  | createPledge pledgeId =>
      cases h.rightful.calls
      cases htarget
  | _ => cases htxn

/-- A call by an issuer that does not act on the lien leaves its leaf held. -/
theorem LedgerStep.leaf_stays (h : LedgerStep num by_ op s s') (hs : Custody s) (hrows : Rowed s)
    (hl : l ∈ s.liens) (hnot : ¬ by_.ActsOn l) {leaf : Receipt}
    (hleaf : s.ledger.receipts.find l.receiptId = some leaf) (hheld : leaf.status.Held) :
    s'.ledger.receipts.find l.receiptId = some leaf := by
  obtain ⟨hmem, hid⟩ := Table.find_eq_some_iff.mp hleaf
  obtain ⟨uuids, events, change, result, heffect, hcommits⟩ := h.effect
  refine hid ▸ Table.find_of_mem (hcommits.stays hmem ?_)
  intro before after hrewritten hsame
  obtain ⟨hfind, -⟩ := hcommits.found before after hrewritten
  obtain rfl := Table.eq_of_key_eq (Table.mem_of_find hfind) hmem hsame
  have htarget : heldTarget op = some before.id :=
    h.rightful.calls.rewrites_held heffect hrewritten hheld
  exact hnot (h.actsOn hs hrows hl hleaf hheld (hid ▸ htarget))

/-- Nor does it use the key of the lien's release by force. -/
theorem LedgerStep.force_free (h : LedgerStep num by_ op s s') (hnot : ¬ by_.ActsOn l)
    (hfree : ¬ s.ledger.Used (forceKey l.id)) : ¬ s'.ledger.Used (forceKey l.id) := by
  obtain ⟨uuids, events, change, result, heffect, hcommits⟩ := h.effect
  intro hused
  rcases hcommits.used_iff.mp hused with hold | ⟨e, he, hkey⟩
  · exact hfree hold
  · rcases h.rightful.calls.event_key heffect he with hop | ⟨tradeId, hsettle⟩
    · obtain ⟨rfl, -⟩ := h.rightful.calls.key_of_force (hop.symm.trans hkey)
      exact hnot rfl
    · rw [hsettle] at hkey
      simp [releaseKey, tradeKey, forceKey] at hkey

theorem Fate.ledgerStep (h : Fate l s) (hs : Custody s) (hrows : Rowed s)
    (hstep : LedgerStep num by_ op s s') (hnot : ¬ by_.ActsOn l) : Fate l s' := by
  cases h with
  | waits row unforced free leaf =>
      obtain ⟨r, hr, hheld⟩ := leaf
      refine .waits ?_ ?_ (hstep.force_free hnot free)
        ⟨r, hstep.leaf_stays hs hrows row hnot hr hheld, hheld⟩
      · exact hstep.same.liens ▸ row
      · exact hstep.same.forceReleases ▸ unforced
  | freed row unforced released =>
      exact .freed (hstep.same.liens ▸ row) (hstep.same.forceReleases ▸ unforced)
        (released.later hstep.later)
  | ended released row forced =>
      exact .ended (released.later hstep.later) (hstep.same.liens ▸ row)
        (hstep.same.forceReleases ▸ forced)

/-- A write by an issuer that does not act on the lien forces nothing on it. -/
theorem ForcedRows.unforced (h : ForcedRows by_ s s') (hnot : ¬ by_.ActsOn l)
    (hunforced : ∀ f ∈ s.forceReleases, f.lienId ≠ l.id) :
    ∀ f ∈ s'.forceReleases, f.lienId ≠ l.id := by
  cases h with
  | same rows => exact rows ▸ hunforced
  | forced new issuer rows first =>
      intro f hf hid
      rw [Table.mem_def, rows] at hf
      rcases List.mem_append.mp hf with hold | hnew
      · exact hunforced f hold hid
      · obtain rfl := List.mem_singleton.mp hnew
        exact hnot (issuer ▸ hid)

theorem ForcedRows.kept (h : ForcedRows by_ s s') {f : ForceRelease} (hf : f ∈ s.forceReleases) :
    f ∈ s'.forceReleases := by
  cases h with
  | same rows => exact rows ▸ hf
  | forced new issuer rows first =>
      rw [Table.mem_def, rows]
      exact List.mem_append_left _ hf

theorem Fate.writeStep (h : Fate l s) (hledger : s'.ledger = s.ledger)
    (hstep : RowStep by_ s s') (hnot : ¬ by_.ActsOn l) : Fate l s' := by
  cases h with
  | waits row unforced free leaf =>
      refine .waits (hstep.stays l row hnot) (hstep.forced.unforced hnot unforced) ?_ ?_
      · rwa [hledger]
      · rwa [hledger]
  | freed row unforced released =>
      refine .freed (hstep.stays l row hnot) (hstep.forced.unforced hnot unforced) ?_
      rwa [hledger]
  | ended released row forced =>
      obtain ⟨l', hl', hid, htenant, hpledge, hstatus⟩ := row
      obtain ⟨f, hf, hlien⟩ := forced
      -- what acts on a lien is told by its id and its pledge
      have hnot' : ¬ by_.ActsOn l' := by
        intro hacts
        cases by_ <;> simp_all [Issuer.ActsOn]
      refine .ended ?_ ⟨l', hstep.stays l' hl' hnot', hid, htenant, hpledge, hstatus⟩
        ⟨f, hstep.forced.kept hf, hlien⟩
      rwa [hledger]

end Steps

/-! ## Requests one at a time -/

/-- The request does not approve a release from the lien. -/
def SparesLien (l : Lien) : Request → Db → Prop
  | .approveReleaseRequest dto, s => ∀ x ∈ s.releaseRequestLines,
      x.releaseRequestId = dto.requestId → x.lienId ≠ l.id
  | _, _ => True

/-- The pledge of the lien was decided. -/
def PledgeDecided (l : Lien) (s : Db) : Prop :=
  ∃ p ∈ s.pledges, p.id = l.pledgeId ∧ p.status ≠ .pending

section Requests

variable {num : Numeric} {mine : Issuer → Prop} {label : Label} {l : Lien} {s s' : Db}

theorem PledgeDecided.takes (h : PledgeDecided l s) (htakes : RowTakes mine label s s') :
    PledgeDecided l s' := by
  rcases htakes.cases with rfl | ⟨by_, -, hstep⟩
  · exact h
  · obtain ⟨p, hp, hid, hstatus⟩ := h
    obtain ⟨p', hp', hid', hstatus'⟩ := hstep.decided p hp hstatus
    exact ⟨p', hp', hid'.trans hid, hstatus'⟩

/-- A decision on a pending pledge does not act on the lien of another one. -/
theorem PledgeDecided.spares (h : PledgeDecided l s) {p : Pledge} (hp : p ∈ s.pledges)
    (hpending : p.status = .pending) {by_ : Issuer} (hdecides : by_.Decides p.id) :
    ¬ by_.ActsOn l := by
  obtain ⟨p', hp', hid, hstatus⟩ := h
  have hother : p.id ≠ l.pledgeId := by
    intro hsame
    obtain rfl := Table.eq_of_key_eq hp hp' (hsame.trans hid.symm)
    exact hstatus hpending
  intro hacts
  cases by_ with
  | cancelPledge id => exact hother (hdecides.symm.trans hacts)
  | acceptPledge id => exact hother (hdecides.symm.trans hacts)
  | rejectPledge id => exact hother (hdecides.symm.trans hacts)
  | expirePledge id => exact hother (hdecides.symm.trans hacts)
  | _ => exact hdecides

theorem Fate.decided (h : Fate l s) (hrows : Rowed s) : PledgeDecided l s := by
  cases h with
  | waits row => exact hrows.decided l row
  | freed row => exact hrows.decided l row
  | ended released row =>
      obtain ⟨l', hl', -, -, hpledge, -⟩ := row
      unfold PledgeDecided
      rw [← hpledge]
      exact hrows.decided l' hl'

/-- A step by an issuer that does not act on the lien. -/
theorem Tracked.takes (h : Tracked l s) (htakes : Takes num mine label s s')
    (hrow : RowTakes (fun by_ => ¬ by_.ActsOn l) label s s') :
    Rowed s' ∧ FreedOnce s'.ledger ∧ Fate l s' := by
  refine ⟨h.rowed.takes hrow, ?_, ?_⟩
  · apply htakes.keeps_ledger (P := FreedOnce) _ h.once
    exact fun hs heffect hcommits => hs.step heffect hcommits
  have hsame : s' = s → Fate l s' := by
    rintro rfl
    exact h.fate
  cases label with
  | read => exact hsame hrow
  | ledger by_ op =>
      refine htakes.elim hsame fun hstep => hrow.elim hsame fun hnot => ?_
      exact h.fate.ledgerStep h.custody h.rowed hstep.2 hnot.1
  | write by_ =>
      refine htakes.elim hsame fun hstep => hrow.elim hsame fun hnot => ?_
      exact h.fate.writeStep hstep.2.ledger hnot.2 hnot.1

/-- A request whose steps do not act on the lien keeps track of it wherever it stops. -/
theorem tracked_alone {p : Api Unit} (h : Tracked l s) (hsafe : (custody num mine).Safe p s)
    {I : Db → Prop} {R : Label → Db → Db → Prop} {hrefl : ∀ label s, R label s s}
    (hsteps : (Contract.stepping I R hrefl).Safe p s) (hstart : I s)
    (hI : ∀ {label : Label} {s s' : Db}, I s → R label s s' → I s')
    (hrow : ∀ {label : Label} {s s' : Db}, Takes num mine label s s' → R label s s' →
      RowTakes (fun by_ => ¬ by_.ActsOn l) label s s') :
    p.Ensures (Tracked l) (fun _ => Tracked l) s := by
  have hkeeps : ((custody num mine).also fun s =>
      (Rowed s ∧ FreedOnce s.ledger ∧ Fate l s) ∧ I s).Safe p s := by
    apply hsafe.also hsteps fun _ _ hJ => hJ.2
    rintro label s s' hs ⟨⟨hrows, honce, hfate⟩, hinv⟩ htakes hstep
    exact ⟨Tracked.takes ⟨hs, hrows, honce, hfate⟩ htakes (hrow htakes hstep), hI hinv hstep⟩
  have hbefore : Custody s ∧ (Rowed s ∧ FreedOnce s.ledger ∧ Fate l s) ∧ I s :=
    ⟨h.custody, ⟨h.rowed, h.once, h.fate⟩, hstart⟩
  apply (Process.Ensures.of_keeps hkeeps hbefore fun _ _ => trivial).mono
  · rintro s ⟨⟨hs, ⟨hrows, honce, hfate⟩, -⟩, -⟩
    exact ⟨hs, hrows, honce, hfate⟩
  · rintro a s ⟨⟨hs, ⟨hrows, honce, hfate⟩, -⟩, -⟩
    exact ⟨hs, hrows, honce, hfate⟩

/-- While a release request without a line on the lien is approved, it stays without one. -/
theorem approveReleaseRequest_tracked (dto : ApproveReleaseRequest) (h : Tracked l s)
    (hspares : ∀ x ∈ s.releaseRequestLines, x.releaseRequestId = dto.requestId →
      x.lienId ≠ l.id) :
    (approveReleaseRequest num dto).Ensures (Tracked l) (fun _ => Tracked l) s := by
  let spared (s : Db) : Prop := PledgeDecided l s ∧
    ∀ x ∈ s.releaseRequestLines, x.releaseRequestId = dto.requestId → x.lienId ≠ l.id
  let allowed (by_ : Issuer) : Prop := ¬ by_.ActsOn l ∧ ∀ id, by_ ≠ .createReleaseRequest id
  have hkept : ∀ {label : Label} {s s' : Db}, spared s → RowTakes allowed label s s' →
      spared s' := by
    intro label s s' hs htakes
    have hlines : s'.releaseRequestLines = s.releaseRequestLines := by
      rcases htakes.cases with rfl | ⟨by_, hby, hstep⟩
      · rfl
      · exact hstep.lines.resolve_right fun ⟨id, hid⟩ => hby.2 id hid
    exact ⟨hs.1.takes htakes, hlines ▸ hs.2⟩
  have hsteps : (rowContract spared allowed).Safe (approveReleaseRequest num dto) s := by
    apply approveReleaseRequest_rows hkept dto
    · exact ⟨id, fun _ => nofun⟩
    · exact fun hs hx hrequest => ⟨hs.2 _ hx hrequest, fun _ => nofun⟩
  have hsafe : (custody num fun _ => True).Safe (approveReleaseRequest num dto) s :=
    (Request.approveReleaseRequest dto).safe (fun _ => trivial) s
  apply tracked_alone h hsafe hsteps ⟨h.fate.decided h.rowed, hspares⟩ hkept
  exact fun _ hrow => hrow.mono fun _ hby => hby.1

/-- Every request keeps track that neither forces nor approves a release from the lien. -/
theorem Request.tracked (request : Request) (h : Tracked l s) (hspares : SparesLien l request s)
    (hother : ∀ dto, request = .forceReleaseLien dto → dto.lienId ≠ l.id) :
    (request.run num).Ensures (Tracked l) (fun _ => Tracked l) s := by
  by_cases hcollateral : request.Collateral
  · by_cases happroval : ∃ dto, request = .approveReleaseRequest dto
    · obtain ⟨dto, rfl⟩ := happroval
      exact approveReleaseRequest_tracked dto h hspares
    have hsteps : (rowContract (PledgeDecided l) fun by_ => ¬ by_.ActsOn l).Safe
        (request.run num) s := by
      apply request.rows PledgeDecided.takes hcollateral
      · exact fun by_ _ hfree => hfree l
      · exact fun hs hp hpending hdecides => hs.spares hp hpending hdecides
      · exact fun dto hdto => absurd ⟨dto, hdto⟩ happroval
      · exact hother
    exact tracked_alone h (request.safe (fun _ => trivial) s) hsteps (h.fate.decided h.rowed)
      PledgeDecided.takes fun _ hrow => hrow
  · have hsteps : (Contract.stepping (fun _ => True) (fun _ : Label => SameCollateral)
        fun _ => .refl).Safe (request.run num) s :=
      Contract.safe_of_takes (fun _ _ _ _ h => ⟨trivial, h, False.elim⟩)
        (request.leaves hcollateral) s
    apply tracked_alone h (request.safe_frame (fun _ hby => hby) hcollateral s) hsteps trivial
      (fun _ _ => trivial)
    intro label s s' htakes _
    apply htakes.rowTakes
    intro by_ hby hacts
    cases by_ <;> first | exact hby trivial | exact hacts

theorem Tracked.ended (h : Tracked l s) (hreleased : FreedByForce l s.ledger)
    (hrow : ∃ l' ∈ s.liens, ForcedRow l l') (hforced : ∃ f ∈ s.forceReleases, f.lienId = l.id) :
    ReleasedByForce l s where
  row := by
    obtain ⟨l', hl', hid, -, -, hstatus⟩ := hrow
    exact ⟨l', hid ▸ Table.find_of_mem hl', hstatus⟩
  forced := by
    obtain ⟨f, hf, hlien⟩ := hforced
    refine ⟨f, ⟨hf, hlien⟩, ?_⟩
    rintro f' ⟨hf', hlien'⟩
    exact h.rowed.unique f' hf' f hf (hlien'.trans hlien.symm)
  released := by
    obtain ⟨e, hfind, htype, hfrom⟩ := hreleased
    have hmem : e ∈ s.ledger.events := Table.mem_of_find hfind
    refine ⟨e, ⟨hmem, htype, hfrom⟩, ?_⟩
    rintro e' ⟨he', htype', hfrom'⟩
    exact h.once.once e' he' e hmem htype' htype (hfrom'.trans hfrom.symm)

/-- The release of the leaf by force is in the ledger once its call has returned, whether it
was in before or not. -/
theorem Fate.release (h : Fate l s) {uuids : Uuids} {ctx : ActorCtx}
    (hkey : ctx.idempotencyKey = forceKey l.id) {result : LedgerResult} {ledger : Ledger}
    (houtcome : Outcome num uuids (.release ctx l.receiptId) s.ledger result ledger) :
    FreedByForce l ledger := by
  cases houtcome with
  | replayed e prior reconstructs same =>
      subst same
      change s.ledger.events.find ctx.idempotencyKey = some e at prior
      rw [hkey] at prior
      cases h with
      | waits row unforced free => exact absurd (used_of_find prior) free
      | freed row unforced released => exact released
      | ended released => exact released
  | committed free events change effect commits =>
      cases effect with
      | release ctx r loaded held =>
          have hmem := commits.mem_events.mpr (.inr (List.mem_singleton_self _))
          exact ⟨_, hkey ▸ Table.find_of_mem hmem, rfl, Table.key_of_find loaded.1⟩

/-- Once the leaf is free, the record is the end. -/
theorem Tracked.record (h : Tracked l s) (hl : l ∈ s.liens) (hreleased : FreedByForce l s.ledger)
    {f : ForceRelease} (hlien : f.lienId = l.id) {forceReleases : Table ForceRelease}
    {liens : Table Lien} {now : Timestamp} (hfirst : ∀ f' ∈ s.forceReleases, f'.lienId ≠ f.lienId)
    (hinsert : s.forceReleases.insert f = some forceReleases)
    (hupdate : updateRow s.liens f.lienId (fun r =>
      { r with status := .forceReleased, remainingQuantity := 0, releasedAt := some now })
        (fun _ => rfl) = .ok liens) :
    Tracked l { s with forceReleases, liens } ∧
      ReleasedByForce l { s with forceReleases, liens } := by
  have hstep := forceRelease_rowStep hfirst hinsert hupdate
  obtain ⟨hcustody, -⟩ := forceRelease_writes forceReleases h.custody hupdate
  have hrow : ∃ l' ∈ liens, ForcedRow l l' := by
    obtain ⟨r, hr, rfl⟩ := updateRow_ok.mp hupdate
    obtain ⟨hmem, hid⟩ := Table.find_eq_some_iff.mp hr
    obtain rfl := Table.eq_of_key_eq hmem hl (hid.trans hlien)
    let forcedRow (r : Lien) : Lien :=
      { r with status := .forceReleased, remainingQuantity := 0, releasedAt := some now }
    refine ⟨forcedRow r, ?_, rfl, rfl, rfl, rfl, rfl⟩
    rw [← hid]
    exact Table.mem_modify_self forcedRow (fun _ => rfl) hmem
  have hforced : ∃ f' ∈ forceReleases, f'.lienId = l.id :=
    ⟨f, (Table.mem_insert hinsert).mpr (.inr rfl), hlien⟩
  have hafter : Tracked l { s with forceReleases, liens } :=
    ⟨hcustody, h.rowed.step hstep, h.once, .ended hreleased hrow hforced⟩
  exact ⟨hafter, hafter.ended hreleased hrow hforced⟩

/-- There is a record of the lien's release by force. -/
def Forced (l : Lien) (s : Db) : Prop :=
  ∃ f ∈ s.forceReleases, f.lienId = l.id

/-- The lien that a call for it reads, with what it reads of the record. -/
theorem forced_iff {lienId : Id} (hid : lienId = l.id) :
    (s.forceReleases.rows.find? fun f => f.lienId = lienId).isSome = true ↔ Forced l s := by
  rw [hid, List.find?_isSome]
  simp [Forced, Table.mem_def]

theorem Tracked.forced_ended (h : Tracked l s) (hforced : Forced l s) : ReleasedByForce l s := by
  obtain ⟨f, hf, hlien⟩ := hforced
  cases h.fate with
  | waits row unforced => exact absurd hlien (unforced f hf)
  | freed row unforced => exact absurd hlien (unforced f hf)
  | ended released row forced => exact h.ended released row forced

theorem Tracked.row (h : Tracked l s) (hforced : ¬ Forced l s) : l ∈ s.liens := by
  cases h.fate with
  | waits row => exact row
  | freed row => exact row
  | ended released row forced => exact absurd forced hforced

/-- A call for the lien keeps track of it wherever it stops, and returns at the end. -/
theorem forceReleaseLien_tracked (dto : ForceReleaseLien) (hdto : dto.lienId = l.id)
    (h : Tracked l s) : (forceReleaseLien num dto).Ensures (Tracked l)
      (fun r s' => Tracked l s' ∧ (r = .ok () → ReleasedByForce l s')) s := by
  apply ensures_read h
  apply ensures_orThrow
  · exact fun _ => ⟨h, nofun⟩
  intro found hfound
  obtain ⟨l₁, hl₁, rfl⟩ := Option.map_eq_some_iff.mp hfound
  obtain ⟨hmem, hkey⟩ := Table.find_eq_some_iff.mp (Option.filter_eq_some_iff.mp hl₁).1
  have hid : l₁.id = l.id := hkey.trans hdto
  dsimp only
  split
  · rename_i hrecorded
    exact ⟨h, fun _ => h.forced_ended ((forced_iff hid).mp hrecorded)⟩
  rename_i hunrecorded
  have hforced : ¬ Forced l s := fun hforced => hunrecorded ((forced_iff hid).mpr hforced)
  have hlien : l ∈ s.liens := h.row hforced
  obtain rfl : l₁ = l := Table.eq_of_key_eq hmem hlien hid
  apply ensures_throwIf
  · exact fun _ => ⟨h, nofun⟩
  intro _
  apply ensures_ledger rfl
  · exact fun e => ⟨h, h, nofun⟩
  intro r ledger houtcome
  obtain ⟨hcustody, htakes⟩ : Custody { s with ledger } ∧
      Takes num (fun _ => True) _ s { s with ledger } :=
    rightful_takes h.custody trivial (forceRelease_rightful h.custody hlien (.refl s)) houtcome
  have hreleased : FreedByForce l₁ ledger := h.fate.release rfl houtcome
  have hafter : Tracked l₁ { s with ledger } := by
    refine ⟨hcustody, h.rowed.of_same ⟨rfl, rfl, rfl, rfl, rfl, rfl⟩, ?_,
      .freed hlien (fun f hf hsame => hforced ⟨f, hf, hsame⟩) hreleased⟩
    apply htakes.keeps_ledger (P := FreedOnce) _ h.once
    exact fun hs heffect hcommits => hs.step heffect hcommits
  refine ⟨hafter, ensures_write_last (fun e _ => ⟨hafter, hafter, nofun⟩) ?_⟩
  intro _ s' hok
  obtain ⟨forced, hcreate, hok⟩ := bind_ok.mp hok
  obtain ⟨liens, hupdate, hok⟩ := bind_ok.mp hok
  cases hok
  obtain ⟨hfirst, hinsert⟩ := createRow_ok.mp hcreate
  obtain ⟨hdone, hended⟩ := hafter.record hlien hreleased rfl hfirst hinsert hupdate
  exact ⟨hdone, hdone, fun _ => hended⟩

/-- The release in the ledger can be made, or repeated where it was made before. -/
theorem Tracked.release_succeeds (h : Tracked l s) {uuids : Uuids} {ctx : ActorCtx}
    (hkey : ctx.idempotencyKey = forceKey l.id)
    (hevent : uuids.event ∉ s.ledger.events.rows.map InventoryEvent.id)
    (htenant : ∀ r, s.ledger.receipts.find l.receiptId = some r → r.tenantId = ctx.tenantId) :
    ∃ r ledger, release num uuids ctx l.receiptId s.ledger = .ok (r, ledger) := by
  have replays : FreedByForce l s.ledger →
      ∃ r ledger, release num uuids ctx l.receiptId s.ledger = .ok (r, ledger) := by
    rintro ⟨e, hfind, -⟩
    obtain ⟨r, hr, hfrom, hsame, -⟩ :=
      h.custody.provenance.from_exists e (Table.mem_of_find hfind)
    have haffected : s.ledger.affected e = .ok r :=
      Ledger.loadOrThrow_ok.mpr ⟨hfrom ▸ Table.find_of_mem hr, hsame⟩
    exact ⟨r, s.ledger, runIdempotent_ok.mpr (.inl ⟨e, hkey ▸ hfind, haffected, rfl⟩)⟩
  cases h.fate with
  | waits row unforced free leaf =>
      obtain ⟨r, hr, hheld⟩ := leaf
      exact SecureStore.Inventory.release_succeeds hevent (hkey ▸ not_used_iff.mp free)
        ⟨hr, htenant r hr⟩ hheld
  | freed row unforced released => exact replays released
  | ended released => exact replays released

/-- Wherever earlier calls have stopped, an undisturbed call for the lien returns. -/
theorem force_release_returns (h : Tracked l s) (hlive : l.status ≠ .released)
    (htenant : ∀ r, s.ledger.receipts.find l.receiptId = some r → r.tenantId = l.tenantId)
    (dto : ForceReleaseLien) (hdto : dto.lienId = l.id) (hcaller : dto.tenantId = l.tenantId)
    (hevent : dto.uuids.event ∉ s.ledger.events.rows.map InventoryEvent.id)
    (hnew : ∀ f ∈ s.forceReleases, f.id ≠ dto.forceReleaseId) :
    (forceReleaseLien num dto).Succeeds s := by
  have hreads : ∀ l₁ ∈ s.liens, l₁.id = l.id → l₁.tenantId = l.tenantId →
      (s.liens.find dto.lienId).filter (fun l => l.tenantId = dto.tenantId) = some l₁ := by
    intro l₁ hl₁ hid hsame
    have hfind : s.liens.find l₁.id = some l₁ := Table.find_of_mem hl₁
    rw [hdto, ← hid, hfind]
    simp [hsame, hcaller]
  apply succeeds_read.mpr
  apply succeeds_orThrow.mpr
  by_cases hforced : Forced l s
  · obtain ⟨l', hl', hid, hsame, -⟩ : ∃ l' ∈ s.liens, ForcedRow l l' := by
      obtain ⟨f, hf, hlien⟩ := hforced
      cases h.fate with
      | waits row unforced => exact absurd hlien (unforced f hf)
      | freed row unforced => exact absurd hlien (unforced f hf)
      | ended released row forced => exact row
    refine ⟨(l', _), by rw [hreads l' hl' hid hsame]; rfl, ?_⟩
    dsimp only
    rw [if_pos ((forced_iff hid).mpr hforced)]
    exact succeeds_pure
  · have hl : l ∈ s.liens := h.row hforced
    refine ⟨(l, _), by rw [hreads l hl rfl rfl]; rfl, ?_⟩
    dsimp only
    rw [if_neg (hforced ∘ (forced_iff rfl).mp)]
    unfold forceRelease
    apply succeeds_throwIf.mpr
    refine ⟨hlive, Access.succeeds_ledger.mpr ?_⟩
    obtain ⟨r, ledger, hrelease⟩ : ∃ r ledger, release num dto.uuids
        { tenantId := dto.tenantId
          actorUserId := some dto.adminUserId
          idempotencyKey := forceKey l.id } l.receiptId s.ledger = .ok (r, ledger) :=
      h.release_succeeds rfl hevent fun r hr => (htenant r hr).trans hcaller.symm
    refine ⟨r, ledger, hrelease, succeeds_write_last.mpr ?_⟩
    let record : ForceRelease :=
      { id := dto.forceReleaseId, tenantId := dto.tenantId, lienId := l.id
        adminId := dto.adminUserId, reason := dto.reason
        courtOrderDocUrl := dto.courtOrderDocUrl }
    have hkey : s.forceReleases.find (Keyed.key record) = none := Table.find_eq_none_iff.mpr hnew
    obtain ⟨forced, hinsert⟩ := Table.insert_of_find_none hkey
    have hcreate : createRow s.forceReleases record (fun x => x.lienId = l.id) = .ok forced :=
      createRow_ok.mpr ⟨fun f hf hsame => hforced ⟨f, hf, hsame⟩, hinsert⟩
    obtain ⟨liens, hupdate⟩ : ∃ liens, updateRow s.liens l.id (fun r =>
        { r with
          status := .forceReleased, remainingQuantity := 0, releasedAt := some dto.now })
          (fun _ => rfl) = .ok liens := ⟨_, updateRow_ok.mpr ⟨l, Table.find_of_mem hl, rfl⟩⟩
    exact ⟨(), _, bind_ok.mpr ⟨forced, hcreate, bind_ok.mpr ⟨liens, hupdate, rfl⟩⟩⟩

/-- Past its end, a call for the lien changes nothing. -/
theorem forceReleaseLien_again (dto : ForceReleaseLien) (hdto : dto.lienId = l.id)
    (hforced : Forced l s) :
    (forceReleaseLien num dto).Ensures (fun s' => s' = s) (fun _ s' => s' = s) s := by
  apply ensures_read
  · rfl
  apply ensures_orThrow
  · exact fun _ => rfl
  intro found hfound
  obtain ⟨l₁, hl₁, rfl⟩ := Option.map_eq_some_iff.mp hfound
  have hid : l₁.id = l.id :=
    (Table.key_of_find (Option.filter_eq_some_iff.mp hl₁).1).trans hdto
  dsimp only
  rw [if_pos ((forced_iff hid).mpr hforced)]
  rfl

/-- Records of forced releases stay. -/
theorem Request.keeps_forced (request : Request) (hs : Custody s) (hforced : Forced l s) :
    (request.run num).Ensures (Forced l) (fun _ => Forced l) s := by
  obtain ⟨f, hf, hlien⟩ := hforced
  have hkeeps : ((custody num fun _ => True).also fun s => f ∈ s.forceReleases).Safe
      (request.run num) s := by
    refine request.also_rows (fun _ => True) ?_
      (fun hf _ hsame => hsame.forceReleases ▸ hf) ?_
    · exact fun hcollateral => request.rows (fun _ _ => trivial) hcollateral (fun _ _ _ => trivial)
        (fun _ _ _ _ => trivial) (fun _ _ => fun _ _ _ => trivial) fun _ _ => trivial
    · intro label s s' hf _ hrow
      rcases hrow.cases with rfl | ⟨by_, -, hstep⟩
      · exact hf
      · exact hstep.forced.kept hf
  apply (Process.Ensures.of_keeps hkeeps ⟨hs, hf⟩ fun _ _ => trivial).mono
  · exact fun s hs => ⟨f, hs.1.2, hlien⟩
  · exact fun _ s hs => ⟨f, hs.1.2, hlien⟩

/-- One request after another, stopped anywhere, that does not approve a release from the lien. -/
def Followed (num : Numeric) (l : Lien) (s s' : Db) : Prop :=
  ∃ request n, SparesLien l request s ∧ s' = Process.stopAfter n (request.run num) s

theorem Tracked.followed (h : Tracked l s) (hnext : Followed num l s s') : Tracked l s' := by
  obtain ⟨request, n, hspares, rfl⟩ := hnext
  by_cases hforce : ∃ dto, request = .forceReleaseLien dto ∧ dto.lienId = l.id
  · obtain ⟨dto, rfl, hdto⟩ := hforce
    exact (forceReleaseLien_tracked dto hdto h).stopAfter h n
  · have hother : ∀ dto, request = .forceReleaseLien dto → dto.lienId ≠ l.id :=
      fun dto hrequest hdto => hforce ⟨dto, hrequest, hdto⟩
    exact (request.tracked h hspares hother).stopAfter h n

/-- Whatever follows, track is kept, and an end is an end. -/
theorem Tracked.path (h : Tracked l s) (hpath : Relation.ReflTransGen (Followed num l) s s') :
    Tracked l s' ∧ (Forced l s → Forced l s') := by
  induction hpath with
  | refl => exact ⟨h, id⟩
  | tail _ hnext ih =>
      obtain ⟨htracked, hkept⟩ := ih
      refine ⟨htracked.followed hnext, fun hforced => ?_⟩
      obtain ⟨request, n, -, rfl⟩ := hnext
      exact (request.keeps_forced htracked.custody (hkept hforced)).stopAfter (hkept hforced) n

end Requests

/-- In every reachable state, a lien whose leaf is held can be tracked from there on. -/
theorem runs_tracked {num : Numeric} {directory : Directory} {requests : List Request}
    {trace : List (Transition Label Db)} {db : Db} {pool : List (Api Unit)}
    (h : Run (Db.initial directory) (requests.map (Request.run num)) trace db pool) {l : Lien}
    (hl : l ∈ db.liens) {leaf : Receipt} (hleaf : db.ledger.receipts.find l.receiptId = some leaf)
    (hheld : leaf.status.Held) : Tracked l db := by
  have hcustody : Custody db := (runs_custody num directory requests h).final.inv
  have hfree : ¬ db.ledger.Used (forceKey l.id) := by
    intro hused
    obtain ⟨l', hl', hid, -, hfreed⟩ := (runs_oneLeaf h).freed l.id hused
    obtain rfl := Table.eq_of_key_eq hl' hl hid
    obtain ⟨r, hr, hminted⟩ := hcustody.liens l' hl
    obtain rfl := Option.some_inj.mp (hr.symm.trans hleaf)
    exact hfreed r (Table.mem_of_find hr) (hminted hheld) hheld
  refine ⟨hcustody, runs_rowed h, runs_freedOnce h, .waits hl ?_ hfree ⟨leaf, hleaf, hheld⟩⟩
  intro f hf hid
  exact hfree (hid ▸ runs_forcedInLedger h f hf)

/-- From every reachable state with a leaf held under a lien: however often the release by force
is called and wherever its calls stop, and whatever other requests come in between and stop
anywhere, once a call has returned the release is at its one end, and no later call changes
anything. -/
theorem force_release_idempotent (num : Numeric) (directory : Directory)
    (requests : List Request) {trace : List (Transition Label Db)} {db : Db}
    {pool : List (Api Unit)}
    (hrun : Run (Db.initial directory) (requests.map (Request.run num)) trace db pool)
    {l : Lien} (hl : l ∈ db.liens) {leaf : Receipt}
    (hleaf : db.ledger.receipts.find l.receiptId = some leaf) (hheld : leaf.status = .heldLien) :
    ∀ s, Relation.ReflTransGen (Followed num l) db s →
      ∀ dto : ForceReleaseLien, dto.lienId = l.id → ∀ s₁,
        (forceReleaseLien num dto).exec s = (.ok (), s₁) →
          ∀ s₂, Relation.ReflTransGen (Followed num l) s₁ s₂ → ReleasedByForce l s₂ ∧
            ∀ dto' : ForceReleaseLien, dto'.lienId = l.id → ∀ n,
              (forceReleaseLien num dto').stopAfter n s₂ = s₂ := by
  have hstart : Tracked l db := by
    apply runs_tracked hrun hl hleaf
    rw [hheld]
    decide
  intro s hpath dto hdto s₁ hexec s₂ hlater
  obtain ⟨htracked, -⟩ := hstart.path hpath
  have hensures : (forceReleaseLien num dto).Ensures (Tracked l)
      (fun r s' => Tracked l s' ∧ (r = .ok () → ReleasedByForce l s')) s :=
    forceReleaseLien_tracked dto hdto htracked
  have hreturned : Process.exec (forceReleaseLien num dto) s = (.ok (), s₁) := hexec
  have hpost := hensures.exec
  rw [hreturned] at hpost
  obtain ⟨htracked₁, hended⟩ := hpost
  obtain ⟨f, ⟨hf, hlien⟩, -⟩ := (hended rfl).forced
  obtain ⟨htracked₂, hkept⟩ := htracked₁.path hlater
  have hforced : Forced l s₂ := hkept ⟨f, hf, hlien⟩
  refine ⟨htracked₂.forced_ended hforced, fun dto' hdto' n => ?_⟩
  exact (forceReleaseLien_again dto' hdto' hforced).stopAfter rfl n

/-- A call that releases lien 8 by force. -/
def sampleForce (uuids : Uuids) (forceReleaseId : Id) : ForceReleaseLien where
  uuids := uuids
  forceReleaseId := forceReleaseId
  now := 0
  tenantId := 1
  adminUserId := 11
  lienId := 8
  reason := "Court order"
  courtOrderDocUrl := "order.pdf"

/-- Lien 8 on receipt 122. -/
def lienStore : Db := (oneByOne (sampleStock ++ [samplePledge, sampleAcceptance])).2.1

/-- Two of the six units under lien 8 are pledged. -/
def pledgeAgain : Request :=
  .createPledge
    { uuids := sampleUuids 220, pledgeId := 224, now := 0, callerUserId := 10, receiptId := 122
      quantity := 2, financierId := 30, note := none }

/-- A call for lien 8 stops before its record, and the freed volume is pledged again. -/
def retriedStore : Db :=
  Process.stopAfter 20 (pledgeAgain.run .postgres)
    (Process.stopAfter 2 (forceReleaseLien .postgres (sampleForce (sampleUuids 200) 204)) lienStore)

/-- The second call comes to the one end. -/
theorem force_release_idempotent_sample : ∃ l ∈ lienStore.liens.rows, l.id = 8 ∧
    ReleasedByForce l ((forceReleaseLien .postgres (sampleForce (sampleUuids 210) 214)).exec
      retriedStore).2 := by
  obtain ⟨l, hl, hid, leaf, hmem, hleaf, hheld⟩ : ∃ l ∈ lienStore.liens.rows, l.id = 8 ∧
      ∃ leaf ∈ lienStore.ledger.receipts.rows, leaf.id = l.receiptId ∧ leaf.status = .heldLien := by
    decide +kernel
  refine ⟨l, hl, hid, ?_⟩
  have hpath : Relation.ReflTransGen (Followed .postgres l) lienStore retriedStore :=
    .tail (.single ⟨.forceReleaseLien (sampleForce (sampleUuids 200) 204), 2, trivial, rfl⟩)
      ⟨pledgeAgain, 20, trivial, rfl⟩
  have hreturns : ((forceReleaseLien .postgres (sampleForce (sampleUuids 210) 214)).exec
      retriedStore).1.toOption = some () := by
    decide +kernel
  obtain ⟨s₁, hexec⟩ : ∃ s₁, (forceReleaseLien .postgres (sampleForce (sampleUuids 210) 214)).exec
      retriedStore = (.ok (), s₁) := by
    rcases hresult : (forceReleaseLien .postgres (sampleForce (sampleUuids 210) 214)).exec
      retriedStore with ⟨e | a, s₁⟩
    · rw [hresult] at hreturns
      cases hreturns
    · exact ⟨s₁, rfl⟩
  rw [hexec]
  exact (force_release_idempotent .postgres sampleDirectory _ (run_oneByOne _) hl
    (hleaf ▸ Table.find_of_mem hmem) hheld _ hpath (sampleForce (sampleUuids 210) 214) hid.symm s₁
      hexec s₁ .refl).1

end SecureStore.Services
