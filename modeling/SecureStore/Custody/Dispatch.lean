/-
# Authorised dispatch

Goods leave the warehouse when a receipt becomes WITHDRAWN. The status column of a
withdrawal and its pointer may be overwritten by races, so the authorisation of a
dispatch is read off the run itself: the hold that minted the very receipt was
committed by the payment of the withdrawal, and its approval was logged by the
approval of the same withdrawal.
-/

import SecureStore.Custody.Requests

namespace SecureStore.Services

open SecureStore.Foundation SecureStore.Inventory

/-- A step makes a receipt WITHDRAWN. -/
def Dispatches (t : Transition Label Db) (r : Receipt) : Prop :=
  r ∈ t.after.ledger.receipts ∧ r.status = .withdrawn ∧
    ∀ r₀ ∈ t.before.ledger.receipts, r₀.id = r.id → r₀.status ≠ .withdrawn

/-- The completion of a withdrawal makes a receipt WITHDRAWN. -/
def DispatchedFor (withdrawalId : Id) (t : Transition Label Db) (r : Receipt) : Prop :=
  Dispatches t r ∧ ∃ ctx, t.label = .ledger (.completeWithdrawal withdrawalId) (.consume ctx r.id)

/-- The payment of a withdrawal commits the hold that mints a receipt, of the quantity
that is held. -/
def MintedByPayment (num : Numeric) (withdrawalId : Id) (t : Transition Label Db) (r : Receipt) :
    Prop :=
  ∃ input, t.label = .ledger (.confirmPayment withdrawalId) (.hold input) ∧
    r.quantity = num.numeric18_3 input.quantity ∧
      (∀ r₀ ∈ t.before.ledger.receipts, r₀.id ≠ r.id) ∧
        ∃ k ∈ t.after.ledger.receipts, SameNode k r ∧ k.status = .heldWithdrawal ∧
          MintedFor k .withdrawal withdrawalId

/-- The approval of a withdrawal logs the approval of a hold. -/
def ApprovedByAdmin (withdrawalId : Id) (t : Transition Label Db) (receiptId : Id) : Prop :=
  (∃ ctx, t.label = .ledger (.approveWithdrawal withdrawalId) (.approveHold ctx receiptId)) ∧
    ∃ e ∈ t.after.ledger.events, e ∉ t.before.ledger.events ∧ e.eventType = .approved ∧
      e.fromReceiptId = receiptId

theorem MintedByPayment.of_sameNode {num : Numeric} {w : Id} {t : Transition Label Db}
    {r r' : Receipt} (h : MintedByPayment num w t r) (hnode : SameNode r r') :
    MintedByPayment num w t r' := by
  obtain ⟨input, hlabel, hquantity, hnew, k, hk, hsame, hstatus, hminted⟩ := h
  exact ⟨input, hlabel, hnode.quantity.trans hquantity, hnode.id ▸ hnew, k, hk,
    hsame.trans hnode, hstatus, hminted⟩

section Steps

variable {num : Numeric} {by_ : Issuer} {op : LedgerOp} {s s' : Db} {t : Transition Label Db}
  {mine : Issuer → Prop}

/-- A step that changes the ledger is a rightful ledger call. -/
theorem Takes.ledgerStep (h : Takes num mine t.label t.before t.after)
    (hledger : t.after.ledger ≠ t.before.ledger) :
    ∃ by_ op, t.label = .ledger by_ op ∧ LedgerStep num by_ op t.before t.after := by
  obtain ⟨before, label, after⟩ := t
  cases label with
  | read => exact absurd (congrArg Db.ledger h) hledger
  | write by_ =>
      rcases h with hsame | ⟨-, hwrite⟩
      · exact absurd (congrArg Db.ledger hsame) hledger
      · exact absurd hwrite.ledger hledger
  | ledger by_ op =>
      rcases h with hsame | ⟨-, hstep⟩
      · exact absurd (congrArg Db.ledger hsame) hledger
      · exact ⟨by_, op, rfl, hstep⟩

/-- No receipt is created WITHDRAWN. -/
theorem created_not_withdrawn {uuids : Uuids} {s : Ledger} {events : List InventoryEvent}
    {change : Change} {result : LedgerResult}
    (heffect : Effect num uuids s op events change result) {k : Receipt}
    (hk : k ∈ change.created) : k.status ≠ .withdrawn := by
  cases heffect with
  | deposit =>
      obtain rfl := List.mem_singleton.mp hk
      simp
  | hold input =>
      rcases List.mem_cons.mp hk with rfl | hk
      · cases hstatus : input.heldStatus <;> simp [hstatus, HeldStatus.status]
      · obtain rfl := mem_partitionRemainder hk
        simp
  | releasePartial => rcases List.mem_pair.mp hk with rfl | rfl <;> simp
  | seizePart =>
      rcases List.mem_cons.mp hk with rfl | hk
      · simp
      · obtain rfl := mem_partitionRemainder hk
        simp
  | _ => cases hk

/-- Only the completion of a withdrawal dispatches, and only what was minted for it. -/
theorem LedgerStep.dispatches (h : LedgerStep num by_ op s s') {r : Receipt}
    (hdispatch : Dispatches ⟨s, .ledger by_ op, s'⟩ r) :
    ∃ w ctx, by_ = .completeWithdrawal w ∧ op = .consume ctx r.id ∧
      ∃ r₀ ∈ s.ledger.receipts, SameNode r₀ r ∧ MintedFor r₀ .withdrawal w := by
  obtain ⟨hr, hwithdrawn, hbefore⟩ := hdispatch
  obtain ⟨uuids, events, change, result, heffect, hcommits⟩ := h.effect
  rcases hcommits.receipt_cases hr with hcreated | ⟨before, hrewritten, hmem⟩ | ⟨hold, -⟩
  · exact absurd hwithdrawn (created_not_withdrawn heffect hcreated)
  · have hnode := heffect.sameNode hrewritten
    have hmoved := hbefore before hmem hnode.id.symm
    have hcalls := h.rightful.calls
    have hentitled := h.rightful.entitled
    cases heffect with
    | consume ctx r₀ loaded held =>
        cases hrewritten
        cases hcalls with
        | @completeWithdrawal w =>
            obtain ⟨txnType, txnId, htxn, r₁, hfind, hminted⟩ := hentitled _ rfl
            obtain rfl := Option.some_inj.mp (loaded.1.symm.trans hfind)
            cases htxn
            exact ⟨w, ctx, rfl, congrArg (LedgerOp.consume ctx) (Table.key_of_find hfind).symm,
              _, hmem, hnode, hminted held⟩
    | approveHold =>
        cases hrewritten
        exact absurd hwithdrawn hmoved
    | transferOwnership => cases hcalls
    | _ =>
        cases hrewritten
        try cases hwithdrawn
  · exact absurd hwithdrawn (hbefore r hold rfl)

/-- A receipt minted for a withdrawal is new in the hold of its payment. -/
theorem LedgerStep.mints (h : LedgerStep num by_ op s s') (hs : Custody s) {k r : Receipt}
    (hk : k ∈ s'.ledger.receipts) (hnode : SameNode k r)
    (hnew : ∀ r₀ ∈ s.ledger.receipts, r₀.id ≠ r.id) {w : Id}
    (hminted : MintedFor k .withdrawal w) :
    MintedByPayment num w ⟨s, .ledger by_ op, s'⟩ r := by
  obtain ⟨uuids, events, change, result, heffect, hcommits⟩ := h.effect
  have hcreated : k ∈ change.created := by
    refine (hcommits.mem_receipts.mp hk).resolve_left ?_
    rintro ⟨r₀, hr₀, rfl⟩
    exact hnew r₀ hr₀ ((hcommits.apply_id r₀).symm.trans hnode.id.symm)
  obtain ⟨input, src, number, rfl, hkey, rfl⟩ := h.created_payment hs heffect hcreated hminted
  obtain ⟨rfl, -⟩ := h.rightful.calls.key_of_withdrawal_hold hkey
  have hstatus : input.heldStatus = .heldWithdrawal := by
    cases h.rightful.calls with
    | confirmPayment key status => exact status
  exact ⟨input, rfl, hnode.quantity, hnew, _, hk, hnode, by simp [hstatus, HeldStatus.status],
    hminted⟩

/-- The approval of a withdrawal's hold is new in the approval of the withdrawal. -/
theorem LedgerStep.approves (h : LedgerStep num by_ op s s') {e : InventoryEvent}
    (he : e ∈ s'.ledger.events) (hnew : e ∉ s.ledger.events) {w : Id}
    (hkey : e.idempotencyKey = withdrawalKey w "approveHold") :
    ApprovedByAdmin w ⟨s, .ledger by_ op, s'⟩ e.fromReceiptId := by
  obtain ⟨uuids, events, change, result, heffect, hcommits⟩ := h.effect
  have hevent := (hcommits.mem_events.mp he).resolve_left hnew
  rcases h.rightful.calls.event_key heffect hevent with hop | ⟨id, hsettle⟩
  · obtain ⟨rfl, ctx, heldReceiptId, rfl⟩ := h.rightful.calls.key_of_approval (hop.symm.trans hkey)
    cases heffect with
    | approveHold ctx r₀ loaded =>
        obtain rfl := List.mem_singleton.mp hevent
        obtain rfl : r₀.id = heldReceiptId := Table.key_of_find loaded.1
        exact ⟨⟨ctx, rfl⟩, _, he, hnew, rfl, rfl⟩
  · rw [hsettle] at hkey
    simp [releaseKey, tradeKey, withdrawalKey] at hkey

end Steps

section Runs

variable {num : Numeric} {directory : Directory} {requests : List Request}
  {trace : List (Transition Label Db)} {s : Db} {pool : List (Api Unit)}

/-- A receipt minted for a withdrawal was minted by its payment. -/
theorem minted_by_payment
    (hrun : Run (Db.initial directory) (requests.map (Request.run num)) trace s pool)
    {r : Receipt} (hr : r ∈ s.ledger.receipts) {w : Id} (hminted : MintedFor r .withdrawal w) :
    ∃ t ∈ trace, MintedByPayment num w t r := by
  obtain ⟨t, ht, hbefore, k, hk, hid⟩ := hrun.became
    (P := fun s => ∃ k ∈ s.ledger.receipts, k.id = r.id) (by simp [Db.initial]) ⟨r, hr, rfl⟩
  obtain ⟨hs, htakes, -, -, hlate⟩ := (runs_custody num directory requests hrun).each t ht
  have hnew : ∀ r₀ ∈ t.before.ledger.receipts, r₀.id ≠ r.id :=
    fun r₀ hr₀ heq => hbefore ⟨r₀, hr₀, heq⟩
  -- the new receipt is the one that is there in the end
  obtain ⟨r', hr', hnode, -⟩ := (custody_later hlate).ledger.receipts k hk
  obtain rfl : r' = r := Table.eq_of_key_eq hr' hr (hnode.id.trans hid)
  obtain ⟨by_, op, hlabel, hstep⟩ := htakes.ledgerStep
    fun hsame => hnew k (hsame ▸ hk) hid
  obtain ⟨before, label, after⟩ := t
  obtain rfl : label = .ledger by_ op := hlabel
  exact ⟨_, ht, hstep.mints hs hk hnode hnew ((MintedFor.of_sameNode hnode).mp hminted)⟩

/-- An approval in the log of a withdrawal was logged by its approval. -/
theorem approved_by_admin
    (hrun : Run (Db.initial directory) (requests.map (Request.run num)) trace s pool)
    {e : InventoryEvent} (he : e ∈ s.ledger.events) {w : Id}
    (hkey : e.idempotencyKey = withdrawalKey w "approveHold") :
    ∃ t ∈ trace, ApprovedByAdmin w t e.fromReceiptId := by
  obtain ⟨t, ht, hnew, hafter⟩ := hrun.became (P := fun s => e ∈ s.ledger.events)
    (by simp [Db.initial]) he
  obtain ⟨-, htakes, -⟩ := (runs_custody num directory requests hrun).each t ht
  obtain ⟨by_, op, hlabel, hstep⟩ := htakes.ledgerStep fun hsame => hnew (hsame ▸ hafter)
  obtain ⟨before, label, after⟩ := t
  obtain rfl : label = .ledger by_ op := hlabel
  exact ⟨_, ht, hstep.approves hafter hnew hkey⟩

/-- What is dispatched was minted for the withdrawal that is completed, whose approval is
in the log. -/
theorem dispatched
    (hrun : Run (Db.initial directory) (requests.map (Request.run num)) trace s pool)
    {t : Transition Label Db} (ht : t ∈ trace) {r : Receipt} (hdispatch : Dispatches t r) :
    ∃ w, DispatchedFor w t r ∧ (Issuer.completeWithdrawal w).Ready t.before ∧
      ∃ r₀ ∈ t.before.ledger.receipts, SameNode r₀ r ∧ MintedFor r₀ .withdrawal w := by
  obtain ⟨-, htakes, -⟩ := (runs_custody num directory requests hrun).each t ht
  obtain ⟨by_, op, hlabel, hstep⟩ := htakes.ledgerStep
    fun hsame => hdispatch.2.2 r (hsame ▸ hdispatch.1) rfl hdispatch.2.1
  obtain ⟨before, label, after⟩ := t
  obtain rfl : label = .ledger by_ op := hlabel
  obtain ⟨w, ctx, rfl, rfl, hminted⟩ := hstep.dispatches hdispatch
  exact ⟨w, ⟨hdispatch, ctx, rfl⟩, hstep.rightful.ready, hminted⟩

/-- The dispatch of a withdrawal is of a receipt that is minted for it in the end. -/
theorem dispatched_minted
    (hrun : Run (Db.initial directory) (requests.map (Request.run num)) trace s pool)
    {t : Transition Label Db} (ht : t ∈ trace) {r : Receipt} {w : Id}
    (hdispatch : DispatchedFor w t r) :
    ∃ k ∈ s.ledger.receipts, k.id = r.id ∧ MintedFor k .withdrawal w := by
  obtain ⟨w', ⟨-, ctx', hlabel'⟩, -, r₀, hr₀, hnode, hminted⟩ := dispatched hrun ht hdispatch.1
  obtain ⟨ctx, hlabel⟩ := hdispatch.2
  rw [hlabel] at hlabel'
  obtain rfl : w = w' := by cases hlabel'; rfl
  obtain ⟨-, -, -, -, hlate⟩ := (runs_custody num directory requests hrun).each t ht
  obtain ⟨r₁, hr₁, hnode₁, -⟩ := (custody_later hlate).ledger.receipts r hdispatch.1.1
  exact ⟨r₁, hr₁, hnode₁.id, (MintedFor.of_sameNode (hnode.trans hnode₁)).mpr hminted⟩

end Runs

/-- What is said of the dispatches of a run: each is the completion of a withdrawal whose
payment minted the receipt and whose approval approved it, earlier in the run; and a
withdrawal dispatches one receipt at most. -/
structure DispatchAuthorised (num : Numeric) (trace : List (Transition Label Db)) : Prop where
  authorised : ∀ earlier t later r, trace = earlier ++ t :: later → Dispatches t r →
    ∃ w, DispatchedFor w t r ∧ (∃ t₁ ∈ earlier, MintedByPayment num w t₁ r) ∧
      ∃ t₂ ∈ earlier, ApprovedByAdmin w t₂ r.id
  once : ∀ w, ∀ t ∈ trace, ∀ t' ∈ trace, ∀ r r', DispatchedFor w t r → DispatchedFor w t' r' →
    r.id = r'.id

/-- Every run of any requests on an empty store, interleaved and crashing anywhere,
dispatches with authorisation only. -/
theorem dispatch_authorised (num : Numeric) (directory : Directory) (requests : List Request)
    {trace : List (Transition Label Db)} {s : Db} {pool : List (Api Unit)}
    (hrun : Run (Db.initial directory) (requests.map (Request.run num)) trace s pool) :
    DispatchAuthorised num trace := by
  have hholds := runs_custody num directory requests hrun
  constructor
  · rintro earlier t later r rfl hdispatch
    have ht : t ∈ earlier ++ t :: later := List.mem_append_right _ List.mem_cons_self
    obtain ⟨hs, -⟩ := hholds.each t ht
    obtain ⟨w, hfor, ⟨e, he, hkey⟩, r₀, hr₀, hnode, hminted⟩ := dispatched hrun ht hdispatch
    obtain ⟨pool', hbefore⟩ := hrun.before
    refine ⟨w, hfor, ?_, ?_⟩
    · obtain ⟨t₁, ht₁, hpaid⟩ := minted_by_payment hbefore hr₀ hminted
      exact ⟨t₁, ht₁, hpaid.of_sameNode hnode⟩
    · -- the approval is about the only receipt minted for the withdrawal
      obtain ⟨-, r₁, hr₁, hfrom, hminted₁⟩ := hs.approvals e he w hkey
      have hsame : e.fromReceiptId = r.id :=
        hfrom.symm.trans ((hs.single r₁ hr₁ r₀ hr₀ w hminted₁ hminted).trans hnode.id.symm)
      obtain ⟨t₂, ht₂, happroved⟩ := approved_by_admin hbefore he hkey
      exact ⟨t₂, ht₂, hsame ▸ happroved⟩
  · intro w t ht t' ht' r r' hfor hfor'
    obtain ⟨k, hk, hid, hminted⟩ := dispatched_minted hrun ht hfor
    obtain ⟨k', hk', hid', hminted'⟩ := dispatched_minted hrun ht' hfor'
    exact hid.symm.trans ((hholds.final.inv.single k hk k' hk' w hminted hminted').trans hid')

/-- A withdrawal from its request to its completion. -/
def dispatchRun : List (Transition Label Db) × Db × List (Api Unit) :=
  interleave ([0, 1] ++ List.replicate 4 2 ++ List.replicate 3 3 ++ List.replicate 3 4 ++
      List.replicate 4 5) (Db.initial sampleDirectory)
    ((sampleStock ++ sampleWithdrawal).map (Request.run .postgres))

/-- The withdrawal dispatches a receipt, with authorisation. -/
theorem dispatch_authorised_sample : DispatchAuthorised .postgres dispatchRun.1 ∧
    ∃ t ∈ dispatchRun.1, ∃ r ∈ t.after.ledger.receipts.rows, r.status = .withdrawn ∧
      ∀ r₀ ∈ t.before.ledger.receipts.rows, r₀.id = r.id → r₀.status ≠ .withdrawn :=
  ⟨dispatch_authorised .postgres sampleDirectory _ (run_interleave _ _ _), by decide +kernel⟩

end SecureStore.Services
