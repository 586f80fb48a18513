/-
# The custody contract

What a step of a request may do: nothing, a rightful ledger call with its effect,
or a write of rows that keeps the links between lines, liens and pledges. A
ledger call of this kind preserves custody; the contract lets any set of
issuers take such steps.
-/

import SecureStore.Custody.Invariant
import SecureStore.Foundation.Alone

namespace SecureStore.Services

open SecureStore.Foundation SecureStore.Inventory

/-- The tables about pledges and liens are the same. -/
structure SameCollateral (s s' : Db) : Prop where
  directory : s'.directory = s.directory
  pledges : s'.pledges = s.pledges
  liens : s'.liens = s.liens
  releaseRequests : s'.releaseRequests = s.releaseRequests
  releaseRequestLines : s'.releaseRequestLines = s.releaseRequestLines
  forceReleases : s'.forceReleases = s.forceReleases

theorem SameCollateral.refl (s : Db) : SameCollateral s s := ⟨rfl, rfl, rfl, rfl, rfl, rfl⟩

/-- A ledger call that committed. A settlement also rewrites its trade. -/
structure LedgerStep (num : Numeric) (by_ : Issuer) (op : LedgerOp) (s s' : Db) : Prop where
  rightful : Rightful s by_ op
  free : s.ledger.events.find op.idempotencyKey = none
  effect : ∃ uuids events change result, Effect num uuids s.ledger op events change result ∧
    Commits s.ledger events change s'.ledger
  same : SameCollateral s s'
  withdrawals : s'.withdrawals = s.withdrawals
  loans : s'.loans = s.loans
  trades : ∀ t' ∈ s'.trades, ∃ t ∈ s.trades, t'.id = t.id ∧ t'.receiptId = t.receiptId

/-- A write of rows. -/
structure WriteStep (by_ : Issuer) (s s' : Db) : Prop where
  ledger : s'.ledger = s.ledger
  directory : s'.directory = s.directory
  lines : ∀ x ∈ s.releaseRequestLines, x ∈ s'.releaseRequestLines
  liens : ∀ l ∈ s.liens, ∃ l' ∈ s'.liens, l'.id = l.id ∧ l'.pledgeId = l.pledgeId
  frame : ¬ by_.Collateral → SameCollateral s s'

/-- What a step under a label does, when the given issuers may act. -/
def Takes (num : Numeric) (mine : Issuer → Prop) : Label → Db → Db → Prop
  | .read _, s, s' => s' = s
  | .ledger by_ op, s, s' => s' = s ∨ (mine by_ ∧ LedgerStep num by_ op s s')
  | .write by_, s, s' => s' = s ∨ (mine by_ ∧ WriteStep by_ s s')

/-- What every later state has kept. -/
structure Db.Later (s s' : Db) : Prop where
  ledger : Inventory.Later s.ledger s'.ledger
  directory : s'.directory = s.directory
  lines : ∀ x ∈ s.releaseRequestLines, x ∈ s'.releaseRequestLines
  liens : ∀ l ∈ s.liens, ∃ l' ∈ s'.liens, l'.id = l.id ∧ l'.pledgeId = l.pledgeId

theorem Db.Later.refl (s : Db) : s.Later s :=
  ⟨.refl _, rfl, fun _ hx => hx, fun l hl => ⟨l, hl, rfl, rfl⟩⟩

theorem Db.Later.trans {s s' s'' : Db} (h : s.Later s') (h' : s'.Later s'') : s.Later s'' := by
  refine ⟨h.ledger.trans h'.ledger, h'.directory.trans h.directory,
    fun x hx => h'.lines x (h.lines x hx), fun l hl => ?_⟩
  obtain ⟨l', hl', hid, hpledge⟩ := h.liens l hl
  obtain ⟨l'', hl'', hid', hpledge'⟩ := h'.liens l' hl'
  exact ⟨l'', hl'', hid'.trans hid, hpledge'.trans hpledge⟩

section Steps

variable {num : Numeric} {by_ : Issuer} {op : LedgerOp} {s s' : Db}

theorem LedgerStep.later (h : LedgerStep num by_ op s s') : s.Later s' := by
  obtain ⟨uuids, events, change, result, heffect, hcommits⟩ := h.effect
  refine ⟨hcommits.later heffect, h.same.directory, ?_, ?_⟩
  · rw [h.same.releaseRequestLines]
    exact fun _ hx => hx
  · rw [h.same.liens]
    exact fun l hl => ⟨l, hl, rfl, rfl⟩

theorem WriteStep.later (h : WriteStep by_ s s') : s.Later s' :=
  ⟨h.ledger ▸ .refl _, h.directory, h.lines, h.liens⟩

theorem Takes.later {mine : Issuer → Prop} {label : Label} (h : Takes num mine label s s') :
    s.Later s' := by
  cases label with
  | read => exact h ▸ .refl _
  | ledger by_ op => exact h.elim (fun hsame => hsame ▸ .refl _) fun hstep => hstep.2.later
  | write by_ => exact h.elim (fun hsame => hsame ▸ .refl _) fun hstep => hstep.2.later

/-- The receipts a commit creates held are held for the transaction of its issuer. -/
theorem LedgerStep.created_held (h : LedgerStep num by_ op s s') (hs : Custody s) {k : Receipt}
    {uuids : Uuids} {events : List InventoryEvent} {change : Change} {result : LedgerResult}
    (heffect : Effect num uuids s.ledger op events change result) (hk : k ∈ change.created)
    (hheld : k.status.Held) :
    ∃ txnType txnId, by_.txn s = some (txnType, txnId) ∧ MintedFor k txnType txnId ∧
      HeldAs txnType k.status := by
  rcases h.rightful.calls.created_held heffect hk hheld with
    ⟨input, rfl, hstatus, hminted⟩ | ⟨input, src, rfl, hfind, hlien, hstatus, htype, hid⟩
  · exact ⟨input.txnType, input.txnId, h.rightful.calls.hold_txn s, hminted,
      hstatus ▸ h.rightful.calls.hold_key.2⟩
  · obtain ⟨txnType, txnId, htxn, r, hfind', hminted⟩ := h.rightful.entitled _ rfl
    rw [hfind] at hfind'
    cases hfind'
    have hheldSrc : src.status.Held := by rw [hlien]; decide
    obtain ⟨txnType', htype', hheldAs⟩ := hs.heldAs src (Table.mem_of_find hfind) hheldSrc
    have hsrc := hminted hheldSrc
    obtain rfl : txnType = txnType' := Option.some_inj.mp (hsrc.1.symm.trans htype')
    refine ⟨txnType, txnId, htxn, ⟨htype.trans hsrc.1, hid.trans hsrc.2⟩, ?_⟩
    rw [hstatus, ← hlien]
    exact hheldAs

/-- The receipts minted for a withdrawal are new only in the hold of its payment. -/
theorem LedgerStep.created_payment (h : LedgerStep num by_ op s s') (hs : Custody s) {k : Receipt}
    {uuids : Uuids} {events : List InventoryEvent} {change : Change} {result : LedgerResult}
    (heffect : Effect num uuids s.ledger op events change result) (hk : k ∈ change.created)
    {id : Id} (hminted : MintedFor k .withdrawal id) :
    ∃ input src number, op = .hold input ∧ input.idempotencyKey = withdrawalKey id "hold" ∧
      k = primaryChild num uuids src input.quantity (heldPrimary input src) number := by
  rcases h.rightful.calls.created_minted heffect hk hminted with
    ⟨input, src, number, rfl, htype, hid, rfl⟩ | ⟨input, src, rfl, hfind, hlien, hsrc⟩
  · refine ⟨input, src, number, rfl, ?_, rfl⟩
    have hkey := h.rightful.calls.hold_key.1
    rw [htype, hid] at hkey
    exact (Option.some_inj.mp hkey).symm
  · -- what a lien holds was minted for a pledge
    have hheld : src.status.Held := by rw [hlien]; decide
    obtain ⟨txnType, htype, hheldAs⟩ := hs.heldAs src (Table.mem_of_find hfind) hheld
    rw [hsrc.1] at htype
    cases htype
    rw [hlien] at hheldAs
    cases hheldAs

theorem LedgerStep.heldAs (h : LedgerStep num by_ op s s') (hs : Custody s) :
    ∀ r ∈ s'.ledger.receipts, r.status.Held →
      ∃ txnType, r.sourceTxnType = some txnType ∧ HeldAs txnType r.status := by
  obtain ⟨uuids, events, change, result, heffect, hcommits⟩ := h.effect
  intro r hr hheld
  rcases hcommits.mem_receipts.mp hr with ⟨r₀, hr₀, rfl⟩ | hcreated
  · obtain ⟨hnode, hsame | hmove⟩ := hcommits.advance heffect hr₀
    · rw [hsame] at hheld ⊢
      rw [hnode.sourceTxnType]
      exact hs.heldAs r₀ hr₀ hheld
    · obtain ⟨txnType, htype, hheldAs⟩ := hs.heldAs r₀ hr₀ (hmove.held hheld)
      exact ⟨txnType, hnode.sourceTxnType.trans htype, hheldAs.moves hmove hheld⟩
  · obtain ⟨txnType, txnId, -, hminted, hheldAs⟩ := h.created_held hs heffect hcreated hheld
    exact ⟨txnType, hminted.1, hheldAs⟩

/-- What was held for a transaction under an event is so after the step. -/
theorem LedgerStep.kids_minted (h : LedgerStep num by_ op s s') (hs : Custody s)
    {e : InventoryEvent} (he : e ∈ s.ledger.events) {txnType : TxnType} {txnId : Id}
    (hkids : ∀ k ∈ s.ledger.receipts, k.sourceEventId = some e.id → k.status.Held →
      MintedFor k txnType txnId) :
    ∀ k ∈ s'.ledger.receipts, k.sourceEventId = some e.id → k.status.Held →
      MintedFor k txnType txnId := by
  obtain ⟨uuids, events, change, result, heffect, hcommits⟩ := h.effect
  intro k hk hsource hheld
  rcases hs.provenance.kid_cases heffect hcommits (hcommits.mem_events.mpr (.inl he)) hk hsource
    with ⟨-, k₀, hk₀, rfl, hnode, hsource₀⟩ | ⟨hnew, -⟩
  · refine (MintedFor.of_sameNode hnode).mpr (hkids k₀ hk₀ hsource₀ ?_)
    rcases (hcommits.advance heffect hk₀).2 with hsame | hmove
    · exact hsame ▸ hheld
    · exact hmove.held hheld
  · exact absurd rfl (hcommits.newIds e hnew e he)

theorem LedgerStep.holds (h : LedgerStep num by_ op s s') (hs : Custody s) :
    ∀ e ∈ s'.ledger.events, ∀ txnType txnId, holdKey txnType txnId = some e.idempotencyKey →
      ∀ k ∈ s'.ledger.receipts, k.sourceEventId = some e.id → k.status.Held →
        MintedFor k txnType txnId := by
  obtain ⟨uuids, events, change, result, heffect, hcommits⟩ := h.effect
  intro e he txnType txnId hkey
  rcases hcommits.mem_events.mp he with hold | hnew
  · exact h.kids_minted hs hold (hs.holds e hold txnType txnId hkey)
  · intro k hk hsource hheld
    rcases hs.provenance.kid_cases heffect hcommits he hk hsource with ⟨hold, -⟩ | ⟨-, hcreated⟩
    · exact absurd rfl (hcommits.newIds e hnew e hold)
    · rcases h.rightful.calls.event_key heffect hnew with hop | ⟨id, hsettle⟩
      · rw [hop] at hkey
        obtain ⟨input, rfl, rfl, rfl⟩ := h.rightful.calls.key_of_hold hkey
        obtain ⟨input', hop', -, hminted⟩ | ⟨_, _, hop', -⟩ :=
          h.rightful.calls.created_held heffect hcreated hheld
        · cases hop'
          exact hminted
        · cases hop'
      · rw [hsettle] at hkey
        cases txnType <;>
          simp [holdKey, releaseKey, withdrawalKey, loanKey, tradeKey] at hkey

theorem LedgerStep.partials (h : LedgerStep num by_ op s s') (hs : Custody s) :
    ∀ e ∈ s'.ledger.events, ∀ requestId lineId, e.idempotencyKey = partialKey requestId lineId →
      ∃ x ∈ s'.releaseRequestLines, x.id = lineId ∧ ∃ l ∈ s'.liens, l.id = x.lienId ∧
        ∀ k ∈ s'.ledger.receipts, k.sourceEventId = some e.id → k.status.Held →
          MintedFor k .pledge l.pledgeId := by
  obtain ⟨uuids, events, change, result, heffect, hcommits⟩ := h.effect
  rw [h.same.releaseRequestLines, h.same.liens]
  intro e he requestId lineId hkey
  rcases hcommits.mem_events.mp he with hold | hnew
  · obtain ⟨x, hx, hid, l, hl, hlien, hkids⟩ := hs.partials e hold requestId lineId hkey
    exact ⟨x, hx, hid, l, hl, hlien, h.kids_minted hs hold hkids⟩
  · rcases h.rightful.calls.event_key heffect hnew with hop | ⟨id, hsettle⟩
    · rw [hop] at hkey
      obtain ⟨lienId, input, rfl, rfl⟩ := h.rightful.calls.key_of_partial hkey
      obtain ⟨x, hx, hid, hlien⟩ := h.rightful.ready
      obtain ⟨txnType, txnId, htxn, -⟩ := h.rightful.entitled _ rfl
      obtain ⟨l, hl, htxn⟩ := Option.map_eq_some_iff.mp htxn
      refine ⟨x, hx, hid, l, Table.mem_of_find hl, (Table.key_of_find hl).trans hlien.symm, ?_⟩
      intro k hk hsource hheld
      rcases hs.provenance.kid_cases heffect hcommits he hk hsource with
        ⟨hold, -⟩ | ⟨-, hcreated⟩
      · exact absurd rfl (hcommits.newIds e hnew e hold)
      · obtain ⟨txnType', txnId', htxn', hminted, -⟩ := h.created_held hs heffect hcreated hheld
        simp only [Issuer.txn, hl, Option.map_some, Option.some_inj, Prod.mk.injEq] at htxn'
        obtain ⟨rfl, rfl⟩ := htxn'
        exact hminted
    · rw [hsettle] at hkey
      simp [releaseKey, tradeKey, partialKey] at hkey

theorem LedgerStep.payments (h : LedgerStep num by_ op s s') (hs : Custody s) :
    ∀ r ∈ s'.ledger.receipts, ∀ id, MintedFor r .withdrawal id →
      ∃ e ∈ s'.ledger.events, e.idempotencyKey = withdrawalKey id "hold" := by
  obtain ⟨uuids, events, change, result, heffect, hcommits⟩ := h.effect
  intro r hr id hminted
  rcases hcommits.mem_receipts.mp hr with ⟨r₀, hr₀, rfl⟩ | hcreated
  · have hnode := (hcommits.advance heffect hr₀).1
    obtain ⟨e, he, hkey⟩ := hs.payments r₀ hr₀ id ((MintedFor.of_sameNode hnode).mp hminted)
    exact ⟨e, hcommits.mem_events.mpr (.inl he), hkey⟩
  · obtain ⟨input, -, -, rfl, hkey, -⟩ := h.created_payment hs heffect hcreated hminted
    obtain ⟨e, he, -, hkeyed⟩ := heffect.keyed_event
    exact ⟨e, hcommits.mem_events.mpr (.inr he), hkeyed.trans hkey⟩

/-- While the hold of a payment is new, no receipt is minted for the withdrawal. -/
theorem LedgerStep.unpaid (h : LedgerStep num by_ op s s') (hs : Custody s) {id : Id}
    (hkey : op.idempotencyKey = withdrawalKey id "hold") {r : Receipt}
    (hr : r ∈ s.ledger.receipts) : ¬ MintedFor r .withdrawal id := by
  intro hminted
  obtain ⟨e, he, hlogged⟩ := hs.payments r hr id hminted
  exact Table.find_eq_none_iff.mp h.free e he (hlogged.trans hkey.symm)

theorem LedgerStep.single (h : LedgerStep num by_ op s s') (hs : Custody s) :
    ∀ r ∈ s'.ledger.receipts, ∀ r' ∈ s'.ledger.receipts, ∀ id,
      MintedFor r .withdrawal id → MintedFor r' .withdrawal id → r.id = r'.id := by
  obtain ⟨uuids, events, change, result, heffect, hcommits⟩ := h.effect
  have mixed : ∀ r₀ ∈ s.ledger.receipts, ∀ k ∈ change.created, ∀ id,
      MintedFor (change.apply r₀) .withdrawal id → ¬ MintedFor k .withdrawal id := by
    intro r₀ hr₀ k hk id hminted hminted'
    obtain ⟨input, -, -, rfl, hkey, -⟩ := h.created_payment hs heffect hk hminted'
    have hnode := (hcommits.advance heffect hr₀).1
    exact h.unpaid hs hkey hr₀ ((MintedFor.of_sameNode hnode).mp hminted)
  intro r hr r' hr' id hminted hminted'
  rcases hcommits.mem_receipts.mp hr with ⟨r₀, hr₀, rfl⟩ | hcreated <;>
    rcases hcommits.mem_receipts.mp hr' with ⟨r₀', hr₀', rfl⟩ | hcreated'
  · rw [hcommits.apply_id, hcommits.apply_id]
    have hnode := (hcommits.advance heffect hr₀).1
    have hnode' := (hcommits.advance heffect hr₀').1
    exact hs.single r₀ hr₀ r₀' hr₀' id ((MintedFor.of_sameNode hnode).mp hminted)
      ((MintedFor.of_sameNode hnode').mp hminted')
  · exact absurd hminted' (mixed r₀ hr₀ r' hcreated' id hminted)
  · exact absurd hminted (mixed r₀' hr₀' r hcreated id hminted')
  · obtain ⟨_, _, _, -, -, rfl⟩ := h.created_payment hs heffect hcreated hminted
    obtain ⟨_, _, _, -, -, rfl⟩ := h.created_payment hs heffect hcreated' hminted'
    rfl

theorem LedgerStep.approvals (h : LedgerStep num by_ op s s') (hs : Custody s) :
    ∀ e ∈ s'.ledger.events, ∀ id, e.idempotencyKey = withdrawalKey id "approveHold" →
      e.eventType = .approved ∧
        ∃ r ∈ s'.ledger.receipts, r.id = e.fromReceiptId ∧ MintedFor r .withdrawal id := by
  obtain ⟨uuids, events, change, result, heffect, hcommits⟩ := h.effect
  have keep : ∀ r ∈ s.ledger.receipts, ∀ id, MintedFor r .withdrawal id →
      ∃ r' ∈ s'.ledger.receipts, r'.id = r.id ∧ MintedFor r' .withdrawal id := by
    intro r hr id hminted
    obtain ⟨r', hr', hnode, -⟩ := h.later.ledger.receipts r hr
    exact ⟨r', hr', hnode.id, (MintedFor.of_sameNode hnode).mpr hminted⟩
  intro e he id hkey
  rcases hcommits.mem_events.mp he with hold | hnew
  · obtain ⟨htype, r, hr, hid, hminted⟩ := hs.approvals e hold id hkey
    obtain ⟨r', hr', hid', hminted'⟩ := keep r hr id hminted
    exact ⟨htype, r', hr', hid'.trans hid, hminted'⟩
  · rcases h.rightful.calls.event_key heffect hnew with hop | ⟨id', hsettle⟩
    · rw [hop] at hkey
      obtain ⟨rfl, ctx, heldReceiptId, rfl⟩ := h.rightful.calls.key_of_approval hkey
      obtain ⟨txnType, txnId, htxn, r', hfind', hminted⟩ := h.rightful.entitled _ rfl
      cases htxn
      cases heffect with
      | approveHold ctx r loaded held =>
          obtain rfl := List.mem_singleton.mp hnew
          rw [loaded.1] at hfind'
          obtain rfl := Option.some_inj.mp hfind'
          obtain ⟨r'', hr'', hid'', hminted''⟩ :=
            keep r (Table.mem_of_find loaded.1) id (hminted held)
          exact ⟨rfl, r'', hr'', hid'', hminted''⟩
    · rw [hsettle] at hkey
      simp [releaseKey, tradeKey, withdrawalKey] at hkey

/-- A rightful ledger call keeps custody. -/
theorem Custody.ledgerStep (hs : Custody s) (h : LedgerStep num by_ op s s') : Custody s' where
  provenance := by
    obtain ⟨uuids, events, change, result, heffect, hcommits⟩ := h.effect
    exact hs.provenance.step heffect hcommits
  heldAs := h.heldAs hs
  holds := h.holds hs
  partials := h.partials hs
  payments := h.payments hs
  single := h.single hs
  approvals := h.approvals hs
  withdrawals := by
    rw [h.withdrawals]
    exact fun w hw => (hs.withdrawals w hw).later h.later.ledger
  loans := by
    rw [h.loans]
    exact fun l hl => (hs.loans l hl).later h.later.ledger
  trades := by
    intro t' ht'
    obtain ⟨t, ht, hid, hreceipt⟩ := h.trades t' ht'
    rw [hid, hreceipt]
    exact (hs.trades t ht).later h.later.ledger
  pledges := by
    rw [h.same.pledges]
    exact fun p hp heldReceiptId hheld => (hs.pledges p hp heldReceiptId hheld).later h.later.ledger
  liens := by
    rw [h.same.liens]
    exact fun l hl => (hs.liens l hl).later h.later.ledger

end Steps

/-- Requests of the given issuers, each step of which keeps custody. -/
def custody (num : Numeric) (mine : Issuer → Prop) : Contract Label Db where
  inv := Custody
  rely := Relation.ReflTransGen fun s s' => Custody s ∧ ∃ label, Takes num mine label s s'
  admits _ _ := True
  guar := Takes num mine
  debt _ := False
  rely_refl _ := .refl
  rely_trans := .trans
  guar_refl label s := by
    cases label with
    | read => rfl
    | ledger by_ op => exact .inl rfl
    | write by_ => exact .inl rfl
  guar_rely hinv hguar := .single ⟨hinv, _, hguar⟩

section Rules

variable {num : Numeric} {mine : Issuer → Prop} {s s' : Db} {by_ : Issuer} {α β : Type}

theorem custody_later (h : (custody num mine).rely s s') : s.Later s' := by
  induction h with
  | refl => exact .refl s
  | tail _ hstep ih =>
      obtain ⟨-, label, htakes⟩ := hstep
      exact ih.trans htakes.later

/-- A ledger call that commits or replays has to keep a contract by its outcome. -/
theorem keeps_ledger {c : Contract Label Db} {post : Except ApiError β → Db → Prop}
    (herr : ∀ e s, post (.error e) s) {op : LedgerOp} {tx : Tx α} {uuids : Uuids}
    {wrap : α → LedgerResult} {g : α → Api β} (hcall : op.call num uuids = wrap <$> tx)
    (hstep : ∀ s' a ledger, c.rely s s' → c.inv s' → c.admits (.ledger by_ op) s' →
      Outcome num uuids op s'.ledger (wrap a) ledger →
        c.inv { s' with ledger } ∧ c.guar (.ledger by_ op) s' { s' with ledger } ∧
          (c.debt { s' with ledger } → c.debt s' ∨ c.Owes (g a) { s' with ledger }) ∧
            c.Keeps post (g a) { s' with ledger }) :
    c.Keeps post (Api.ledger by_ op tx >>= g : Api β) s := by
  apply Contract.keeps_write herr
  intro s' a s'' hrely hinv hadmits hok
  obtain ⟨ledger, htx, rfl⟩ := Api.within_ok hok
  exact hstep s' a ledger hrely hinv hadmits
    (call_outcome (hcall ▸ Tx.map_ok.mpr ⟨a, htx, rfl⟩))

section Idempotent

variable {op : LedgerOp} {work : Db → Except ApiError (Receipt × Db)}

/-- The steps of a ledger call, one database call each: its lookups and its transaction. -/
theorem takes_runIdempotent {R : Label → Db → Db → Prop}
    (hread : ∀ lookup s, R (.read lookup) s s)
    (hok : ∀ s r s', work s = .ok (r, s') → R (.ledger by_ op) s s')
    (herr : ∀ s, R (.ledger by_ op) s s) : Process.Takes R (Api.runIdempotent by_ op work) := by
  have hreplay : ∀ missing : Api Receipt, Process.Takes R missing →
      Process.Takes R (Api.replayOr op missing) := by
    intro missing hmissing
    refine takes_read (hread _) fun s => ?_
    split
    · exact takes_read (hread _) fun _ => trivial
    · exact hmissing
  refine hreplay _ (takes_recover (takes_write hok fun s _ _ => herr s) fun e => ?_)
  cases e with
  | uniqueViolation => exact hreplay _ trivial
  | _ => trivial

/-- A lookup of the key that finds it keeps a contract by what is left behind from then on. -/
theorem keeps_replayOr {c : Contract Label Db} {post : Except ApiError Receipt → Db → Prop}
    (herr : ∀ e s, post (.error e) s) {missing : Api Receipt}
    (hreplay : ∀ s' e, c.rely s s' → c.inv s' → c.admits (.read (some op)) s' →
      s'.ledger.events.find op.idempotencyKey = some e →
        ∀ s'' r, c.rely s' s'' → post (.ok r) s'')
    (hmissing : ∀ s', c.rely s s' → c.Keeps post missing s') :
    c.Keeps post (Api.replayOr op missing) s := by
  refine Contract.keeps_lookup fun s' hrely hinv hadmits => ?_
  split
  · rename_i e hprior
    refine Contract.keeps_read fun s'' hrely' _ => ?_
    show post (s''.ledger.affected e) s''
    cases s''.ledger.affected e with
    | error e => exact herr e s''
    | ok r => exact hreplay s' e hrely hinv hadmits hprior s'' r hrely'
  · exact hmissing s' hrely

/-- A ledger call in its database calls keeps a contract by its lookups that find the key and by
its transaction. -/
theorem keeps_runIdempotent {c : Contract Label Db} {post : Except ApiError Receipt → Db → Prop}
    (herr : ∀ e s, post (.error e) s)
    (hreplay : ∀ s' e, c.rely s s' → c.inv s' → c.admits (.read (some op)) s' →
      s'.ledger.events.find op.idempotencyKey = some e →
        ∀ s'' r, c.rely s' s'' → post (.ok r) s'')
    (hwork : ∀ s' r s'', c.rely s s' → c.inv s' → work s' = .ok (r, s'') →
      c.inv s'' ∧ c.guar (.ledger by_ op) s' s'' ∧ (c.debt s'' → c.debt s') ∧ post (.ok r) s'') :
    c.Keeps post (Api.runIdempotent by_ op work) s := by
  refine keeps_replayOr herr hreplay fun s₁ hrely₁ => Contract.keeps_recover ?_
  intro s₂ hrely₂ hinv _
  have hrely := c.rely_trans hrely₁ hrely₂
  cases hdone : work s₂ with
  | ok result =>
      obtain ⟨r, s₃⟩ := result
      obtain ⟨hinv', hguar, hdebt, hpost⟩ := hwork s₂ r s₃ hrely hinv hdone
      simp only [hdone]
      exact ⟨hinv', hguar, fun hd => .inl (hdebt hd), hpost⟩
  | error e =>
      simp only [hdone]
      refine ⟨hinv, c.guar_refl _ s₂, .inl, ?_⟩
      cases e with
      | uniqueViolation =>
          show c.Keeps post (Api.replayOr op _) s₂
          refine keeps_replayOr herr (fun s' e hlater => ?_) fun s' _ => herr _ s'
          exact hreplay s' e (c.rely_trans hrely hlater)
      | _ => exact herr _ s₂

/-- A ledger call in its database calls, with nothing in between: it replays a prior event, or
its transaction decides. -/
theorem ensures_runIdempotent {crash : Db → Prop} {post : Except ApiError Receipt → Db → Prop}
    (hs : crash s) (herr : ∀ e, post (.error e) s)
    (hreplay : ∀ e r, s.ledger.events.find op.idempotencyKey = some e →
      s.ledger.affected e = .ok r → post (.ok r) s)
    (hwork : ∀ r s', work s = .ok (r, s') → crash s' ∧ post (.ok r) s') :
    Process.Ensures crash post (Api.runIdempotent by_ op work) s := by
  have hlookup : ∀ missing : Api Receipt, Process.Ensures crash post missing s →
      Process.Ensures crash post (Api.replayOr op missing) s := by
    intro missing hmissing
    apply ensures_read hs
    cases hprior : s.ledger.events.find op.idempotencyKey with
    | none => exact hmissing
    | some e =>
        refine ensures_read hs ?_
        show post (s.ledger.affected e) s
        cases haffected : s.ledger.affected e with
        | error e => exact herr e
        | ok r => exact hreplay e r hprior haffected
  apply hlookup
  apply ensures_recover
  apply ensures_write_last
  · intro e _
    refine ⟨hs, ?_⟩
    cases e with
    | uniqueViolation => exact hlookup _ (herr _)
    | _ => exact herr _
  · intro r s' hdone
    exact hwork r s' hdone

end Idempotent

/-- A ledger call either fails and changes nothing, or returns. -/
theorem ensures_ledger_or {crash : Db → Prop} {post : Except ApiError β → Db → Prop}
    {op : LedgerOp} {tx : Tx α} {uuids : Uuids} {wrap : α → LedgerResult} {g : α → Api β}
    (hcall : op.call num uuids = wrap <$> tx)
    (herr : ∀ e, (¬ ∃ a ledger, tx s.ledger = .ok (a, ledger)) → crash s ∧ post (.error e) s)
    (hok : ∀ a ledger, Outcome num uuids op s.ledger (wrap a) ledger →
      crash { s with ledger } ∧ Process.Ensures crash post (g a) { s with ledger }) :
    Process.Ensures crash post (Api.ledger by_ op tx >>= g : Api β) s := by
  apply ensures_write
  · intro e hwrite
    apply herr e
    rintro ⟨a, ledger, htx⟩
    rw [Api.within, htx] at hwrite
    cases hwrite
  · intro a s' hwrite
    obtain ⟨ledger, htx, rfl⟩ := Api.within_ok hwrite
    exact hok a ledger (call_outcome (hcall ▸ Tx.map_ok.mpr ⟨a, htx, rfl⟩))

/-- A ledger call with nothing in between. -/
theorem ensures_ledger {crash : Db → Prop} {post : Except ApiError β → Db → Prop} {op : LedgerOp}
    {tx : Tx α} {uuids : Uuids} {wrap : α → LedgerResult} {g : α → Api β}
    (hcall : op.call num uuids = wrap <$> tx) (herr : ∀ e, crash s ∧ post (.error e) s)
    (hok : ∀ a ledger, Outcome num uuids op s.ledger (wrap a) ledger →
      crash { s with ledger } ∧ Process.Ensures crash post (g a) { s with ledger }) :
    Process.Ensures crash post (Api.ledger by_ op tx >>= g : Api β) s :=
  ensures_ledger_or hcall (fun e _ => herr e) hok

/-- A ledger call that succeeds, with nothing in between. -/
theorem ensures_ledger_succeeds {crash : Db → Prop} {post : Except ApiError β → Db → Prop}
    {op : LedgerOp} {tx : Tx α} {uuids : Uuids} {wrap : α → LedgerResult} {g : α → Api β}
    (hcall : op.call num uuids = wrap <$> tx)
    (hsucceeds : ∃ a ledger, tx s.ledger = .ok (a, ledger))
    (hok : ∀ a ledger, Outcome num uuids op s.ledger (wrap a) ledger →
      crash { s with ledger } ∧ Process.Ensures crash post (g a) { s with ledger }) :
    Process.Ensures crash post (Api.ledger by_ op tx >>= g : Api β) s :=
  ensures_ledger_or hcall (fun _ hfails => absurd hsucceeds hfails) hok

/-- A rightful ledger call that commits. -/
theorem Rightful.ledgerStep {op : LedgerOp} (hright : Rightful s by_ op)
    (hfree : s.ledger.events.find op.idempotencyKey = none) {uuids : Uuids}
    {events : List InventoryEvent} {change : Change} {result : LedgerResult} {ledger : Ledger}
    (heffect : Effect num uuids s.ledger op events change result)
    (hcommits : Commits s.ledger events change ledger) :
    LedgerStep num by_ op s { s with ledger } :=
  ⟨hright, hfree, ⟨uuids, events, change, result, heffect, hcommits⟩,
    ⟨rfl, rfl, rfl, rfl, rfl, rfl⟩, rfl, rfl, fun t ht => ⟨t, ht, rfl, rfl⟩⟩

/-- A rightful ledger call keeps custody, whether it commits or replays. -/
theorem rightful_takes {op : LedgerOp} {uuids : Uuids} {result : LedgerResult} {ledger : Ledger}
    (hs : Custody s) (hmine : mine by_) (hright : Rightful s by_ op)
    (houtcome : Outcome num uuids op s.ledger result ledger) :
    Custody { s with ledger } ∧ Takes num mine (.ledger by_ op) s { s with ledger } := by
  cases houtcome with
  | replayed e prior reconstructs same =>
      subst same
      exact ⟨hs, .inl rfl⟩
  | committed free events change effect commits =>
      have hstep := hright.ledgerStep free effect commits
      exact ⟨hs.ledgerStep hstep, .inr ⟨hmine, hstep⟩⟩

/-- A rightful ledger call: what follows may use what the call came to. -/
theorem safe_ledger {op : LedgerOp} {tx : Tx α} {uuids : Uuids} {wrap : α → LedgerResult}
    {g : α → Api β} (hcall : op.call num uuids = wrap <$> tx) (hmine : mine by_)
    (hright : ∀ s', s.Later s' → Custody s' → Rightful s' by_ op)
    (hnext : ∀ s' a ledger, s.Later s' → Custody s' →
      Outcome num uuids op s'.ledger (wrap a) ledger → Custody { s' with ledger } →
      s.Later { s' with ledger } → (custody num mine).Safe (g a) { s' with ledger }) :
    (custody num mine).Safe (Api.ledger by_ op tx >>= g : Api β) s := by
  apply keeps_ledger (fun _ _ => trivial) hcall
  intro s' a ledger hrely hinv _ houtcome
  have hlater := custody_later hrely
  have htakes : Custody { s' with ledger } ∧
      Takes num mine (.ledger by_ op) s' { s' with ledger } :=
    rightful_takes hinv hmine (hright s' hlater hinv) houtcome
  exact ⟨htakes.1, htakes.2, False.elim, hnext s' a ledger hlater hinv houtcome htakes.1
    (hlater.trans htakes.2.later)⟩

/-- A rightful ledger call in its database calls. -/
theorem safe_runIdempotent {op : LedgerOp} {work : Db → Except ApiError (Receipt × Db)}
    (hmine : mine by_) (hwork : ∀ s' r s'', s.Later s' → Custody s' → work s' = .ok (r, s'') →
      LedgerStep num by_ op s' s'') :
      (custody num mine).Safe (Api.runIdempotent by_ op work) s := by
  refine keeps_runIdempotent (fun _ _ => trivial) (fun _ _ _ _ _ _ _ _ _ => trivial) ?_
  intro s' r s'' hrely hinv hdone
  have hstep := hwork s' r s'' (custody_later hrely) hinv hdone
  exact ⟨Custody.ledgerStep hinv hstep, .inr ⟨hmine, hstep⟩, False.elim, trivial⟩

/-- A write of rows. -/
theorem safe_rows {f : Db → Except ApiError (α × Db)} {g : α → Api β} (hmine : mine by_)
    (hstep : ∀ s' a s'', s.Later s' → Custody s' → f s' = .ok (a, s'') →
      Custody s'' ∧ WriteStep by_ s' s'')
    (hnext : ∀ a s'', s.Later s'' → Custody s'' → (custody num mine).Safe (g a) s'') :
    (custody num mine).Safe (Api.write by_ f >>= g : Api β) s := by
  refine Contract.safe_write fun s' a s'' hrely hinv _ hok => ?_
  have hlater := custody_later hrely
  obtain ⟨hinv', hwrite⟩ := hstep s' a s'' hlater hinv hok
  exact ⟨hinv', .inr ⟨hmine, hwrite⟩, False.elim,
    hnext a s'' (hlater.trans hwrite.later) hinv'⟩

theorem safe_rows_last {f : Db → Except ApiError (β × Db)} (hmine : mine by_)
    (hstep : ∀ s' a s'', s.Later s' → Custody s' → f s' = .ok (a, s'') →
      Custody s'' ∧ WriteStep by_ s' s'') :
    (custody num mine).Safe (Api.write by_ f) s := by
  refine Contract.safe_write_last fun s' b s'' hrely hinv _ hok => ?_
  obtain ⟨hinv', hwrite⟩ := hstep s' b s'' (custody_later hrely) hinv hok
  exact ⟨hinv', .inr ⟨hmine, hwrite⟩, False.elim⟩

end Rules

end SecureStore.Services
