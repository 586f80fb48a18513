/-
# Receipts of withdrawals, loans and trades

One receipt at most was ever minted for a withdrawal, a loan or a trade, and what ends the
transaction in the ledger has taken that receipt out of its hold. This is about the ledger
alone, so it holds whatever the rows say by then.
-/

import SecureStore.Custody.Requests

namespace SecureStore.Services

open SecureStore.Foundation SecureStore.Inventory

/-- The keys of the calls that end a transaction in the ledger. -/
def endKeys : TxnType → Id → List IdempotencyKey
  | .withdrawal, id => [withdrawalKey id "release", withdrawalKey id "consume"]
  | .loan, id => [loanKey id "release", loanKey id "repay-release"]
  | .trade, id => [tradeKey id "cancel-release"]
  | _, _ => []

/-- The receipts of transactions other than pledges. -/
structure TransactionLeaves (s : Ledger) : Prop where
  keyed : ∀ r ∈ s.receipts, ∀ txnType id, txnType ≠ .pledge → MintedFor r txnType id →
    ∃ key, holdKey txnType id = some key ∧ s.Used key
  single : ∀ r ∈ s.receipts, ∀ r' ∈ s.receipts, ∀ txnType id, txnType ≠ .pledge →
    MintedFor r txnType id → MintedFor r' txnType id → r = r'
  ended : ∀ e ∈ s.events, ∀ txnType id, e.idempotencyKey ∈ endKeys txnType id →
    ∃ r ∈ s.receipts, r.id = e.fromReceiptId ∧ MintedFor r txnType id ∧ ¬ r.status.Held

theorem transactionLeaves_empty : TransactionLeaves Ledger.empty := by
  constructor <;> simp

/-- The receipt is there and not held. -/
def FreeAt (s : Ledger) (receiptId : Id) : Prop :=
  ∃ r, s.receipts.find receiptId = some r ∧ ¬ r.status.Held

theorem FreeAt.later {s s' : Ledger} {receiptId : Id} (h : FreeAt s receiptId)
    (hlater : Later s s') : FreeAt s' receiptId := by
  obtain ⟨r, hfind, hfree⟩ := h
  obtain ⟨r', hfind', -, hmoves⟩ := hlater.find hfind
  exact ⟨r', hfind', fun hheld => hfree (held_reached hmoves hheld)⟩

section Steps

variable {num : Numeric} {by_ : Issuer} {op : LedgerOp} {s s' : Db}

/-- Under the key of an end there is a release or a dispatch for the transaction. -/
theorem Calls.key_of_end (h : Calls by_ op) {txnType : TxnType} {id : Id}
    (hkey : op.idempotencyKey ∈ endKeys txnType id) :
    by_.txn s = some (txnType, id) ∧ ∃ ctx heldReceiptId,
      op = .release ctx heldReceiptId ∨ op = .consume ctx heldReceiptId := by
  cases txnType <;> cases h <;>
    simp_all [LedgerOp.idempotencyKey, endKeys, withdrawalKey, loanKey, tradeKey, partialKey,
      Issuer.txn]

/-- A release or a dispatch takes the receipt that its event is from out of its hold. -/
theorem effect_ends {uuids : Uuids} {s : Ledger} {events : List InventoryEvent} {change : Change}
    {result : LedgerResult} (heffect : Effect num uuids s op events change result)
    {ctx : ActorCtx} {heldReceiptId : Id}
    (hop : op = .release ctx heldReceiptId ∨ op = .consume ctx heldReceiptId)
    {e : InventoryEvent} (he : e ∈ events) :
    e.fromReceiptId = heldReceiptId ∧ ∃ r, s.receipts.find heldReceiptId = some r ∧
      r.status.Held ∧ ¬ (change.apply r).status.Held := by
  rcases hop with rfl | rfl
  · cases heffect with
    | release ctx r loaded held =>
        obtain rfl := List.mem_singleton.mp he
        refine ⟨Table.key_of_find loaded.1, r, loaded.1, held, ?_⟩
        simp [ReceiptStatus.Held, heldStatuses]
  · cases heffect with
    | consume ctx r loaded held =>
        obtain rfl := List.mem_singleton.mp he
        refine ⟨Table.key_of_find loaded.1, r, loaded.1, held, ?_⟩
        simp [ReceiptStatus.Held, heldStatuses]

/-- What a commit creates for a transaction other than a pledge is its hold. -/
theorem LedgerStep.created_transaction (h : LedgerStep num by_ op s s') (hs : Custody s)
    {k : Receipt} {uuids : Uuids} {events : List InventoryEvent} {change : Change}
    {result : LedgerResult} (heffect : Effect num uuids s.ledger op events change result)
    (hk : k ∈ change.created) {txnType : TxnType} {id : Id} (hpledge : txnType ≠ .pledge)
    (hminted : MintedFor k txnType id) :
    ∃ input src number, op = .hold input ∧ holdKey txnType id = some input.idempotencyKey ∧
      k = primaryChild num uuids src input.quantity (heldPrimary input src) number := by
  rcases h.rightful.calls.created_minted heffect hk hminted with
    ⟨input, src, number, rfl, htype, hid, rfl⟩ | ⟨input, src, rfl, hfind, hlien, hsrc⟩
  · have hkey := h.rightful.calls.hold_key.1
    rw [htype, hid] at hkey
    exact ⟨input, src, number, rfl, hkey, rfl⟩
  · -- what a lien holds was minted for a pledge
    have hheld : src.status.Held := by rw [hlien]; decide
    obtain ⟨txnType', htype, hheldAs⟩ := hs.heldAs src (Table.mem_of_find hfind) hheld
    obtain rfl := Option.some_inj.mp (hsrc.1.symm.trans htype)
    rw [hlien] at hheldAs
    cases hheldAs
    exact absurd rfl hpledge

theorem LedgerStep.transactionLeaves (h : LedgerStep num by_ op s s') (hs : Custody s)
    (hl : TransactionLeaves s.ledger) : TransactionLeaves s'.ledger := by
  have hlater := h.later.ledger
  have hstep := h
  obtain ⟨uuids, events, change, result, heffect, hcommits⟩ := h.effect
  have hmixed : ∀ r₀ ∈ s.ledger.receipts, ∀ k ∈ change.created, ∀ txnType id,
      txnType ≠ .pledge → MintedFor (change.apply r₀) txnType id →
        ¬ MintedFor k txnType id := by
    intro r₀ hr₀ k hk txnType id hpledge hminted hminted'
    obtain ⟨input, src, number, rfl, hhold, -⟩ :=
      hstep.created_transaction hs heffect hk hpledge hminted'
    have hnode := (hcommits.advance heffect hr₀).1
    obtain ⟨key, hkey, e, he, hlogged⟩ :=
      hl.keyed r₀ hr₀ txnType id hpledge ((MintedFor.of_sameNode hnode).mp hminted)
    obtain rfl := Option.some_inj.mp (hkey.symm.trans hhold)
    exact Table.find_eq_none_iff.mp hstep.free e he hlogged
  constructor
  · intro r hr txnType id hpledge hminted
    rcases hcommits.mem_receipts.mp hr with ⟨r₀, hr₀, rfl⟩ | hcreated
    · have hnode := (hcommits.advance heffect hr₀).1
      obtain ⟨key, hkey, hused⟩ :=
        hl.keyed r₀ hr₀ txnType id hpledge ((MintedFor.of_sameNode hnode).mp hminted)
      exact ⟨key, hkey, hcommits.used_iff.mpr (.inl hused)⟩
    · obtain ⟨input, src, number, rfl, hkey, -⟩ :=
        hstep.created_transaction hs heffect hcreated hpledge hminted
      obtain ⟨e, he, -, hlogged⟩ := heffect.keyed_event
      exact ⟨_, hkey, hcommits.used_iff.mpr (.inr ⟨e, he, hlogged⟩)⟩
  · intro r hr r' hr' txnType id hpledge hminted hminted'
    rcases hcommits.mem_receipts.mp hr with ⟨r₀, hr₀, rfl⟩ | hcreated <;>
      rcases hcommits.mem_receipts.mp hr' with ⟨r₀', hr₀', rfl⟩ | hcreated'
    · have hnode := (hcommits.advance heffect hr₀).1
      have hnode' := (hcommits.advance heffect hr₀').1
      rw [hl.single r₀ hr₀ r₀' hr₀' txnType id hpledge ((MintedFor.of_sameNode hnode).mp hminted)
        ((MintedFor.of_sameNode hnode').mp hminted')]
    · exact absurd hminted' (hmixed r₀ hr₀ r' hcreated' txnType id hpledge hminted)
    · exact absurd hminted (hmixed r₀' hr₀' r hcreated txnType id hpledge hminted')
    · obtain ⟨_, _, _, -, -, rfl⟩ := hstep.created_transaction hs heffect hcreated hpledge hminted
      obtain ⟨_, _, _, -, -, rfl⟩ := hstep.created_transaction hs heffect hcreated' hpledge hminted'
      exact Table.eq_of_key_eq hr hr' rfl
  · intro e he txnType id hend
    rcases hcommits.mem_events.mp he with hold | hnew
    · obtain ⟨r, hr, hfrom, hminted, hfree⟩ := hl.ended e hold txnType id hend
      obtain ⟨r', hr', hnode, hmoves⟩ := hlater.receipts r hr
      exact ⟨r', hr', hnode.id.trans hfrom, (MintedFor.of_sameNode hnode).mpr hminted,
        fun hheld => hfree (held_reached hmoves hheld)⟩
    · rcases h.rightful.calls.event_key heffect hnew with hop | ⟨tradeId, hsettle⟩
      · rw [hop] at hend
        obtain ⟨htxn, ctx, heldReceiptId, hcall⟩ :=
          h.rightful.calls.key_of_end (s := s) hend
        obtain ⟨hfrom, r, hr, hheld, hfree⟩ := effect_ends heffect hcall hnew
        have htarget : heldTarget op = some heldReceiptId := by
          rcases hcall with rfl | rfl <;> rfl
        obtain ⟨txnType', id', htxn', r', hfind', hminted⟩ := h.rightful.entitled _ htarget
        obtain rfl := Option.some_inj.mp (hfind'.symm.trans hr)
        obtain ⟨rfl, rfl⟩ := Prod.mk.inj (Option.some_inj.mp (htxn.symm.trans htxn'))
        have hafter := hcommits.find_receipt hr
        have hnode := (hcommits.advance heffect (Table.mem_of_find hr)).1
        exact ⟨change.apply r', Table.mem_of_find hafter,
          (Table.key_of_find hafter).trans hfrom.symm, (MintedFor.of_sameNode hnode).mpr
            (hminted hheld),
          hfree⟩
      · rw [hsettle] at hend
        cases txnType <;>
          simp [endKeys, releaseKey, withdrawalKey, loanKey, tradeKey] at hend

/-- Once the end of a transaction has returned in the ledger, new or repeated, its receipt is
not held. -/
theorem free_of_end (hl : TransactionLeaves s.ledger) {txnType : TxnType}
    {id receiptId : Id} (hpledge : txnType ≠ .pledge)
    (hheldFor : HeldFor s.ledger receiptId txnType id) {ctx : ActorCtx} {uuids : Uuids}
    {result : LedgerResult} {ledger : Ledger}
    (hop : op = .release ctx receiptId ∨ op = .consume ctx receiptId)
    (hkey : op.idempotencyKey ∈ endKeys txnType id)
    (houtcome : Outcome num uuids op s.ledger result ledger) : FreeAt ledger receiptId := by
  cases houtcome with
  | replayed e prior reconstructs same =>
      subst same
      rw [← Table.key_of_find prior] at hkey
      obtain ⟨r, hr, -, hminted, hfree⟩ := hl.ended e (Table.mem_of_find prior) txnType id hkey
      obtain ⟨r', hfind, hminted'⟩ := hheldFor
      refine ⟨r', hfind, fun hheld => ?_⟩
      obtain rfl := hl.single r hr r' (Table.mem_of_find hfind) txnType id hpledge hminted
        (hminted' hheld)
      exact hfree hheld
  | committed free events change effect commits =>
      obtain ⟨e, he, -⟩ := effect.keyed_event
      obtain ⟨-, r, hr, -, hfree⟩ := effect_ends effect hop he
      exact ⟨change.apply r, commits.find_receipt hr, hfree⟩

/-- A dispatch that is logged has withdrawn the receipt that its event is from. -/
def DispatchesDone (s : Ledger) : Prop :=
  ∀ e ∈ s.events, ∀ id, e.idempotencyKey = withdrawalKey id "consume" →
    ∃ r ∈ s.receipts, r.id = e.fromReceiptId ∧ r.status = .withdrawn

/-- Under the key of a dispatch there is the dispatch. -/
theorem Calls.key_of_dispatch (h : Calls by_ op) {id : Id}
    (hkey : op.idempotencyKey = withdrawalKey id "consume") :
    ∃ ctx heldReceiptId, op = .consume ctx heldReceiptId := by
  cases h <;>
    simp_all [LedgerOp.idempotencyKey, withdrawalKey, loanKey, tradeKey, partialKey]

theorem LedgerStep.dispatchesDone (h : LedgerStep num by_ op s s')
    (hd : DispatchesDone s.ledger) : DispatchesDone s'.ledger := by
  have hlater := h.later.ledger
  obtain ⟨uuids, events, change, result, heffect, hcommits⟩ := h.effect
  intro e he id hkey
  rcases hcommits.mem_events.mp he with hold | hnew
  · obtain ⟨r, hr, hfrom, hstatus⟩ := hd e hold id hkey
    obtain ⟨r', hr', hnode, hmoves⟩ := hlater.receipts r hr
    refine ⟨r', hr', hnode.id.trans hfrom, ?_⟩
    rw [terminal_stays hmoves (by rw [hstatus]; decide), hstatus]
  · rcases h.rightful.calls.event_key heffect hnew with hop | ⟨tradeId, hsettle⟩
    · obtain ⟨ctx, heldReceiptId, rfl⟩ := h.rightful.calls.key_of_dispatch (hop.symm.trans hkey)
      cases heffect with
      | consume ctx r loaded held =>
          obtain rfl := List.mem_singleton.mp hnew
          have hafter := hcommits.find_receipt loaded.1
          rw [Change.apply_amend_self] at hafter
          exact ⟨_, Table.mem_of_find hafter, rfl, rfl⟩
    · rw [hsettle] at hkey
      simp [releaseKey, withdrawalKey, tradeKey] at hkey

theorem Takes.transactionLeaves {mine : Issuer → Prop} {label : Label}
    (h : Takes num mine label s s') (hs : Custody s) (hl : TransactionLeaves s.ledger) :
    TransactionLeaves s'.ledger := by
  cases label with
  | read =>
      rw [show s' = s from h]
      exact hl
  | ledger by_ op =>
      rcases h with rfl | ⟨-, hstep⟩
      · exact hl
      · exact hstep.transactionLeaves hs hl
  | write by_ =>
      rcases h with rfl | ⟨-, hwrite⟩
      · exact hl
      · exact hwrite.ledger ▸ hl

theorem Takes.dispatchesDone {mine : Issuer → Prop} {label : Label}
    (h : Takes num mine label s s') (hd : DispatchesDone s.ledger) : DispatchesDone s'.ledger := by
  cases label with
  | read =>
      rw [show s' = s from h]
      exact hd
  | ledger by_ op =>
      rcases h with rfl | ⟨-, hstep⟩
      · exact hd
      · exact hstep.dispatchesDone hd
  | write by_ =>
      rcases h with rfl | ⟨-, hwrite⟩
      · exact hd
      · exact hwrite.ledger ▸ hd

end Steps

/-- Every run keeps what is said here of its ledgers. -/
theorem runs_transactions {num : Numeric} {directory : Directory} {requests : List Request}
    {trace : List (Transition Label Db)} {db : Db} {pool : List (Api Unit)}
    (h : Run (Db.initial directory) (requests.map (Request.run num)) trace db pool) :
    TransactionLeaves db.ledger ∧ DispatchesDone db.ledger := by
  have hcustody := runs_custody num directory requests h
  apply h.history (P := fun _ db => TransactionLeaves db.ledger ∧ DispatchesDone db.ledger)
  · exact ⟨transactionLeaves_empty, by simp [DispatchesDone, Db.initial]⟩
  intro earlier t later htrace hboth
  obtain ⟨hleaves, hdone⟩ := hboth
  obtain ⟨hbefore, htakes, -⟩ := hcustody.each t (by simp [htrace])
  exact ⟨htakes.transactionLeaves hbefore hleaves, htakes.dispatchesDone hdone⟩

end SecureStore.Services
