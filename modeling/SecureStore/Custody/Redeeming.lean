/-
# Held stock moves on

What a withdrawal, a loan or a trade holds is not lost in its hold: wherever requests
interleaved and crashed before, each decision that the row is open to succeeds on the
receipt it points at. The keys of the decisions are free because the receipt is still held,
and an approval that is in the log but not in the row is replayed.
-/

import SecureStore.Custody.Endings
import SecureStore.Custody.Billing

namespace SecureStore.Services

open SecureStore.Foundation SecureStore.Inventory

/-! ## Approvals and settlements in the log -/

/-- What waits for an approval is PENDING until the approval is in the log, and of a
settlement there are both events. -/
structure ApprovalsAgree (s : Ledger) : Prop where
  waiting : ∀ r ∈ s.receipts, ∀ txnType id key, (key, 1) ∈ lifeKeys txnType id →
    MintedFor r txnType id → r.status.Held →
      (r.approvalStatus = .pending ∧ ¬ s.Used key) ∨ (r.approvalStatus = .approved ∧ s.Used key)
  settled : ∀ id, s.Used (releaseKey (tradeKey id "transfer")) → s.Used (tradeKey id "transfer")

theorem approvalsAgree_empty : ApprovalsAgree Ledger.empty := by
  constructor <;> simp [Ledger.Used]

section Steps

variable {num : Numeric} {by_ : Issuer} {op : LedgerOp} {s s' : Db}

/-- Of a receipt that stays held, only the approval of its hold changes the approval. -/
theorem effect_approval {uuids : Uuids} {ledger : Ledger} {events : List InventoryEvent}
    {change : Change} {result : LedgerResult}
    (heffect : Effect num uuids ledger op events change result) {before after : Receipt}
    (hrewritten : change.rewritten = some (before, after))
    (hheld : after.status.Held) : after.approvalStatus = before.approvalStatus ∨
      (after.approvalStatus = .approved ∧ ∃ ctx, op = .approveHold ctx before.id) := by
  have hnot : ∀ {status : ReceiptStatus}, status.Held →
      status ∉ [.active, .pendingApproval, .cancelled, .split, .withdrawn, .seized, .expired] := by
    intro status
    cases status <;> decide
  cases heffect with
  | deposit => cases hrewritten
  | approveReceipt ctx r loaded pending =>
      cases hrewritten
      exact absurd (by simp) (hnot hheld)
  | rejectReceipt ctx reason r loaded pending =>
      cases hrewritten
      exact absurd (by simp) (hnot hheld)
  | hold => cases hrewritten; exact absurd (by simp) (hnot hheld)
  | approveHold ctx r loaded =>
      cases hrewritten
      exact .inr ⟨rfl, ctx, congrArg _ (Table.key_of_find loaded.1).symm⟩
  | release => cases hrewritten; exact absurd (by simp) (hnot hheld)
  | consume => cases hrewritten; exact absurd (by simp) (hnot hheld)
  | releasePartial => cases hrewritten; exact absurd (by simp) (hnot hheld)
  | transitionPledgeToLien => cases hrewritten; exact .inl rfl
  | seizePart => cases hrewritten; exact absurd (by simp) (hnot hheld)
  | seizeAll => cases hrewritten; exact absurd (by simp) (hnot hheld)
  | transferOwnership => cases hrewritten; exact .inl rfl
  | transferAndRelease => cases hrewritten; exact absurd (by simp) (hnot hheld)
  | expire => cases hrewritten; exact absurd (by simp) (hnot hheld)

theorem apply_approval {uuids : Uuids} {ledger ledger' : Ledger} {events : List InventoryEvent}
    {change : Change} {result : LedgerResult}
    (heffect : Effect num uuids ledger op events change result)
    (hcommits : Commits ledger events change ledger') {r : Receipt} (hr : r ∈ ledger.receipts)
    (hheld : (change.apply r).status.Held) :
    (change.apply r).approvalStatus = r.approvalStatus ∨
      ((change.apply r).approvalStatus = .approved ∧ ∃ ctx, op = .approveHold ctx r.id) := by
  unfold Change.apply at hheld ⊢
  split at hheld
  · rename_i before after hrewritten
    split at hheld
    · rename_i hid
      obtain rfl := Table.eq_of_key_eq hr
        (Table.mem_of_find (hcommits.found before after hrewritten).1) hid
      simp only [if_pos]
      exact effect_approval heffect hrewritten hheld
    · rename_i hid
      simp only [if_neg hid]
      exact .inl trivial
  · exact .inl rfl

/-- The approval of a hold goes by the key of its transaction. -/
theorem Calls.approval_stage {ctx : ActorCtx} {heldReceiptId : Id}
    (h : Calls by_ (.approveHold ctx heldReceiptId)) {txnType : TxnType} {id : Id}
    (htxn : by_.txn s = some (txnType, id)) : (ctx.idempotencyKey, 1) ∈ lifeKeys txnType id := by
  cases h with
  | approveWithdrawal key =>
      cases htxn
      simp [lifeKeys, key]
  | approveLoan key =>
      cases htxn
      simp [lifeKeys, key]

/-- Nothing but the settlement itself logs its second event. -/
theorem Calls.key_ne_release (h : Calls by_ op) (id : Id) :
    op.idempotencyKey ≠ releaseKey (tradeKey id "transfer") := by
  cases h <;>
    simp_all [LedgerOp.idempotencyKey, releaseKey, withdrawalKey, loanKey, tradeKey, partialKey]

/-- The key of a stage is in the log after a commit if it was before, or is that of the call. -/
theorem LedgerStep.stage_used (h : LedgerStep num by_ op s s') {txnType : TxnType} {id : Id}
    {n : ℕ} {key : IdempotencyKey} (hstage : (key, n) ∈ lifeKeys txnType id)
    (hused : s'.ledger.Used key) : s.ledger.Used key ∨ op.idempotencyKey = key := by
  obtain ⟨uuids, events, change, result, heffect, hcommits⟩ := h.effect
  obtain hold | ⟨e, he, rfl⟩ := hcommits.used_iff.mp hused
  · exact .inl hold
  · rcases h.rightful.calls.event_key heffect he with hkey | ⟨tradeId, hkey⟩
    · exact .inr hkey.symm
    · rw [hkey] at hstage
      exact absurd hstage stage_releaseKey

theorem LedgerStep.approvalsAgree (h : LedgerStep num by_ op s s') (hs : Custody s)
    (hl : TransactionLeaves s.ledger) (ho : LivesInOrder s.ledger) (ha : ApprovalsAgree s.ledger) :
    ApprovalsAgree s'.ledger := by
  have hstep := h
  obtain ⟨uuids, events, change, result, heffect, hcommits⟩ := h.effect
  constructor
  · intro r hr txnType id key hstage hminted hheld
    have hpledge := not_pledge_of_stage hstage
    rcases hcommits.mem_receipts.mp hr with ⟨r₀, hr₀, rfl⟩ | hcreated
    · have hadvance := hcommits.advance heffect hr₀
      have hminted₀ := (MintedFor.of_sameNode hadvance.1).mp hminted
      have hheld₀ : r₀.status.Held := by
        rcases hadvance.2 with hsame | hmove
        · exact hsame ▸ hheld
        · exact hmove.held hheld
      by_cases hkey : op.idempotencyKey = key
      · -- the approval of this very receipt
        subst hkey
        obtain ⟨htxn, hcase⟩ := hstep.rightful.calls.stage (s := s) hstage
        obtain ⟨ctx, heldReceiptId, hop⟩ : ∃ ctx heldReceiptId,
          op = .approveHold ctx heldReceiptId := by
          rcases hcase with ⟨hn, -⟩ | ⟨-, hop⟩ | ⟨hn, -⟩
          · cases hn
          · exact hop
          · cases hn
        obtain ⟨r, hfind, -, hminted', -⟩ := hstep.target heffect htxn (.inl ⟨ctx, hop⟩)
        obtain rfl := hl.single r₀ hr₀ r (Table.mem_of_find hfind) _ _ hpledge hminted₀ hminted'
        subst hop
        cases heffect with
        | approveHold ctx r loaded =>
            obtain rfl := Option.some_inj.mp (loaded.1.symm.trans hfind)
            refine .inr ⟨by rw [Change.apply_amend_self], ?_⟩
            exact hcommits.used_iff.mpr (.inr ⟨_, List.mem_singleton.mpr rfl, rfl⟩)
      · have hused : s'.ledger.Used key ↔ s.ledger.Used key := by
          refine ⟨fun hused => ?_, fun hused => hcommits.used_iff.mpr (.inl hused)⟩
          exact (hstep.stage_used hstage hused).resolve_right hkey
        rw [hused]
        rcases apply_approval heffect hcommits hr₀ hheld with hsame | ⟨-, ctx, rfl⟩
        · rw [hsame]
          exact ha.waiting r₀ hr₀ txnType id key hstage hminted₀ hheld₀
        · -- an approval of the receipt goes by the key of its transaction
          obtain ⟨txnType', id', htxn, r, hfind, hminted'⟩ := hstep.rightful.entitled _ rfl
          obtain rfl := Option.some_inj.mp ((Table.find_of_mem hr₀).symm.trans hfind)
          obtain ⟨htype, hid⟩ := hminted' hheld₀
          obtain rfl := Option.some_inj.mp (hminted₀.1.symm.trans htype)
          obtain rfl := Option.some_inj.mp (hminted₀.2.symm.trans hid)
          exact absurd (approval_key_unique (hstep.rightful.calls.approval_stage htxn) hstage) hkey
    · -- a new hold is pending, and nothing of its transaction is in the log
      obtain ⟨input, src, number, rfl, hhold, rfl⟩ :=
        hstep.created_transaction hs heffect hcreated hpledge hminted
      refine .inl ⟨rfl, fun hused => ?_⟩
      rcases hstep.stage_used hstage hused with ⟨e, he, rfl⟩ | rfl
      · obtain ⟨key, hkey, hused⟩ := ho.filed e he txnType id 1 hstage
        obtain rfl := Option.some_inj.mp (hkey.symm.trans hhold)
        exact absurd hused (not_used_iff.mpr hstep.free)
      · exact absurd (stage_unique (stage_of_hold hhold hpledge) hstage) (by decide)
  · intro id hused
    rcases hcommits.used_iff.mp hused with hold | ⟨e, he, hkey⟩
    · exact hcommits.used_iff.mpr (.inl (ha.settled id hold))
    · have hcalls := hstep.rightful.calls
      have hother := hcalls.key_ne_release id
      cases heffect with
      | transferAndRelease ctx newOwnerId txnType txnId withinTx r =>
          rcases List.mem_pair.mp he with rfl | rfl
          · exact absurd hkey hother
          · refine hcommits.used_iff.mpr (.inr ⟨_, List.mem_cons_self, ?_⟩)
            exact List.append_cancel_right hkey
      | _ =>
          obtain rfl := List.mem_singleton.mp he
          exact absurd hkey hother

theorem Takes.approvalsAgree {mine : Issuer → Prop} {label : Label}
    (h : Takes num mine label s s') (hs : Custody s) (hl : TransactionLeaves s.ledger)
    (ho : LivesInOrder s.ledger) (ha : ApprovalsAgree s.ledger) : ApprovalsAgree s'.ledger := by
  cases label with
  | read =>
      rw [show s' = s from h]
      exact ha
  | ledger by_ op =>
      rcases h with rfl | ⟨-, hstep⟩
      · exact ha
      · exact hstep.approvalsAgree hs hl ho ha
  | write by_ =>
      rcases h with rfl | ⟨-, hwrite⟩
      · exact ha
      · exact hwrite.ledger ▸ ha

end Steps

/-! ## Decisions -/

/-- The receipt that a row points at is held, in the tenant of the row. -/
structure Holding (s : Ledger) (receiptId tenantId : Id) (r : Receipt) : Prop where
  loaded : Loaded s receiptId tenantId r
  held : r.status.Held

/-- Each decision that a withdrawal is open to succeeds, on the row and on its receipt. -/
structure WithdrawalOpen (num : Numeric) (uuids : Uuids) (s : Db) (w : Withdrawal) (r : Receipt) :
    Prop where
  approve : w.status = .paidPendingApproval → ∀ actorUserId,
    (approveWithdrawal num uuids w.tenantId w.id actorUserId).Brings s fun s' =>
      s'.withdrawals.find w.id =
          some { w with status := .approved, approvedById := actorUserId } ∧
        ∃ approver, s'.ledger.receipts.find w.receiptId =
          some { r with approvalStatus := .approved, approvedById := approver }
  complete : w.status = .approved → ∀ billed actorUserId,
    (completeWithdrawal num uuids (.ok billed) w.tenantId w.id actorUserId).Brings s fun s' =>
      s'.withdrawals.find w.id = some { w with
          status := .completed, storageFee := billed, totalFee := billed + w.handlingFee } ∧
        s'.ledger.receipts.find w.receiptId = some { r with status := .withdrawn }
  reject : w.status ≠ .completed → ∀ actorUserId reason,
    (rejectWithdrawal num uuids w.tenantId w.id actorUserId reason).Brings s fun s' =>
      (∃ w', s'.withdrawals.find w.id = some w' ∧ w'.status = .rejected) ∧
        s'.ledger.receipts.find w.receiptId =
          some { r with status := .active, approvalStatus := .approved }

/-- Each decision that a loan is open to succeeds, on the row and on its receipt. -/
structure LoanOpen (num : Numeric) (uuids : Uuids) (s : Db) (l : Loan) (r : Receipt) : Prop where
  approve : l.status = .pending → ∀ actorUserId,
    (approveLoan num uuids l.tenantId l.id actorUserId).Brings s fun s' =>
      s'.loans.find l.id = some { l with status := .active } ∧
        ∃ approver, s'.ledger.receipts.find l.receiptId =
          some { r with approvalStatus := .approved, approvedById := approver }
  reject : l.status = .pending → ∀ actorUserId,
    (rejectLoan num uuids l.tenantId l.id actorUserId).Brings s fun s' =>
      s'.loans.find l.id = some { l with status := .rejected } ∧
        s'.ledger.receipts.find l.receiptId =
          some { r with status := .active, approvalStatus := .approved }
  repay : l.status = .active → ∀ actorUserId,
    (repayLoan num uuids l.tenantId l.id actorUserId).Brings s fun s' =>
      s'.loans.find l.id = some { l with status := .repaid } ∧
        s'.ledger.receipts.find l.receiptId =
          some { r with status := .active, approvalStatus := .approved }

/-- Each decision that a trade is open to succeeds, on the row and on its receipt. -/
structure TradeOpen (num : Numeric) (uuids : Uuids) (s : Db) (t : Trade) (r : Receipt) : Prop where
  cancel : t.status = .listed →
    (cancelTrade num uuids t.tenantId t.id).Brings s fun s' =>
      s'.trades.find t.id = some { t with status := .cancelled } ∧
        s'.ledger.receipts.find t.receiptId =
          some { r with status := .active, approvalStatus := .approved }
  settle : t.status = .listed → ∀ buyer ∈ s.directory.users, buyer.tenantId = t.tenantId →
    t.sellerId ≠ buyer.id →
    (settleTrade num uuids t.tenantId t.id buyer.id).Brings s fun s' =>
      s'.trades.find t.id = some { t with status := .settled, buyerId := some buyer.id } ∧
        s'.ledger.receipts.find t.receiptId = some { r with
          clientId := buyer.id, status := .active, approvalStatus := .approved }

section Decisions

variable {num : Numeric} {uuids : Uuids} {by_ : Issuer} {s : Db} {α β : Type} {goal : Db → Prop}

theorem brings_ledger {op : LedgerOp} {tx : Tx α} {wrap : α → LedgerResult} {g : α → Api β}
    (hcall : op.call num uuids = wrap <$> tx)
    (hsucceeds : ∃ a ledger, tx s.ledger = .ok (a, ledger))
    (h : ∀ a ledger, Outcome num uuids op s.ledger (wrap a) ledger →
      (g a).Brings { s with ledger } goal) :
      (Api.ledger by_ op tx >>= g : Api β).Brings s goal := by
  obtain ⟨a, ledger, htx⟩ := hsucceeds
  apply brings_write
  · show Api.within tx s = Except.ok (a, { s with ledger })
    rw [Api.within, htx]
  · exact h a ledger (call_outcome (hcall ▸ Tx.map_ok.mpr ⟨a, htx, rfl⟩))

/-- The update of a row that is there. -/
theorem brings_update {ρ κ : Type} [Keyed ρ κ] [DecidableEq κ] (get : Db → Table ρ)
    (put : Db → Table ρ → Db) {k : κ} {f : ρ → ρ} {hf : ∀ r, Keyed.key (f r) = Keyed.key r}
    {row : ρ}
    (hrow : (get s).find k = some row) (h : ∀ t, t.find k = some (f row) → goal (put s t)) :
    Attempt.Brings (Api.write by_ fun db =>
      (updateRow (get db) k f hf).map fun t => ((), put db t)) s goal := by
  apply brings_write_last
  · exact map_ok.mpr ⟨_, updateRow_ok.mpr ⟨row, hrow, rfl⟩, rfl⟩
  · exact h _ (Table.find_modify_self hrow)

/-- What the ledger says of a held receipt that an open transaction points at. -/
structure Redeemable (s : Ledger) (txnType : TxnType) (id receiptId tenantId : Id) (r : Receipt) :
    Prop extends Holding s receiptId tenantId r where
  minted : MintedFor r txnType id
  unended : ∀ key, (key, 2) ∈ lifeKeys txnType id → s.events.find key = none
  waiting : ∀ key, (key, 1) ∈ lifeKeys txnType id →
    (r.approvalStatus = .pending ∧ s.events.find key = none) ∨
      (r.approvalStatus = .approved ∧ ∃ e, s.events.find key = some e)

theorem redeemable {txnType : TxnType} {id receiptId tenantId : Id} {r : Receipt}
    (hl : TransactionLeaves s.ledger) (ho : LivesInOrder s.ledger) (ha : ApprovalsAgree s.ledger)
    (hpledge : txnType ≠ .pledge) (hfor : HeldFor s.ledger receiptId txnType id)
    (h : Holding s.ledger receiptId tenantId r) :
    Redeemable s.ledger txnType id receiptId tenantId r := by
  have hmem := Table.mem_of_find h.loaded.1
  have hminted : MintedFor r txnType id := by
    obtain ⟨r', hfind, hminted⟩ := hfor
    obtain rfl := Option.some_inj.mp (h.loaded.1.symm.trans hfind)
    exact hminted h.held
  refine ⟨h, hminted, ?_, ?_⟩
  · intro key hstage
    by_contra hused
    obtain ⟨e, he, rfl⟩ := used_iff_find.mpr hused
    obtain ⟨r', hr', hminted', hfree⟩ := ho.freed e he txnType id hstage
    obtain rfl := hl.single r hmem r' hr' txnType id hpledge hminted hminted'
    exact hfree h.held
  · intro key hstage
    rcases ha.waiting r hmem txnType id key hstage hminted h.held with
      ⟨hpending, hunused⟩ | ⟨happroved, hused⟩
    · exact .inl ⟨hpending, not_used_iff.mp hunused⟩
    · exact .inr ⟨happroved, Option.ne_none_iff_exists'.mp (used_iff_find.mp hused)⟩

section Redeem

variable {txnType : TxnType} {id receiptId tenantId : Id} {r : Receipt} {actorUserId : Option Id}
  {key : IdempotencyKey} {g : Receipt → Api Unit}

/-- The hold of an open transaction can be released under the key of its end. -/
theorem Redeemable.brings_release (h : Redeemable s.ledger txnType id receiptId tenantId r)
    (hnew : uuids.Unlogged s.ledger) (hstage : (key, 2) ∈ lifeKeys txnType id)
    (hg : ∀ r' ledger, ledger.receipts.find receiptId =
      some { r with status := .active, approvalStatus := .approved } →
        (g r').Brings { s with ledger } goal) :
    (Api.release num by_ uuids ⟨tenantId, actorUserId, key⟩ receiptId >>= g : Api Unit).Brings s
      goal := by
  have hkey := h.unended key hstage
  apply brings_ledger rfl
  · exact release_succeeds hnew.event hkey h.loaded h.held
  intro r' ledger houtcome
  apply hg r' ledger
  rcases houtcome.of_release with ⟨hused, -⟩ | ⟨-, r₀, e, hfind, -, -, -, -, hcommits⟩
  · exact absurd hused (not_used_iff.mpr hkey)
  · obtain rfl := Option.some_inj.mp (h.loaded.1.symm.trans hfind)
    simpa using hcommits.find_receipt hfind

theorem approveHold_succeeds (h : Redeemable s.ledger txnType id receiptId tenantId r)
    (hs : Custody s) (hnew : uuids.Unlogged s.ledger) (hstage : (key, 1) ∈ lifeKeys txnType id) :
    ∃ r' ledger, approveHold num uuids ⟨tenantId, actorUserId, key⟩ receiptId s.ledger =
      .ok (r', ledger) := by
  rcases h.waiting key hstage with ⟨hpending, hfree⟩ | ⟨-, e, hprior⟩
  · apply runIdempotent_succeeds hfree
    apply amendReceipt_succeeds h.loaded
    · exact bind_ok.mpr ⟨(), assertHeld_ok.mpr h.held, rejectIf_ok.mpr (not_not.mpr hpending)⟩
    · intro x hx heq
      exact hnew.event (List.mem_map.mpr ⟨x, hx, heq⟩)
    · exact hfree
  · -- the approval is in the log already
    obtain ⟨r', hr', hid, htenant, -⟩ := hs.provenance.from_exists e (Table.mem_of_find hprior)
    have haffected : s.ledger.affected e = .ok r' :=
      Ledger.loadOrThrow_ok.mpr ⟨hid ▸ Table.find_of_mem hr', htenant⟩
    exact ⟨r', s.ledger, runIdempotent_ok.mpr (.inl ⟨e, hprior, haffected, rfl⟩)⟩

/-- The hold of an open transaction can be approved, or was and the row lags behind. -/
theorem Redeemable.brings_approveHold (h : Redeemable s.ledger txnType id receiptId tenantId r)
    (hs : Custody s) (hnew : uuids.Unlogged s.ledger) (hstage : (key, 1) ∈ lifeKeys txnType id)
    (hg : ∀ r' approver ledger, ledger.receipts.find receiptId =
      some { r with approvalStatus := .approved, approvedById := approver } →
        (g r').Brings { s with ledger } goal) :
    (Api.approveHold num by_ uuids ⟨tenantId, actorUserId, key⟩ receiptId >>= g : Api Unit).Brings
      s goal := by
  apply brings_ledger rfl
  · exact approveHold_succeeds h hs hnew hstage
  intro r' ledger houtcome
  rcases houtcome.of_approveHold with ⟨hused, hsame⟩ | ⟨-, r₀, e, hfind, -, -, -, -, -, hcommits⟩
  · apply hg r' r.approvedById ledger
    rcases h.waiting key hstage with ⟨-, hfree⟩ | ⟨happroved, -⟩
    · exact absurd hused (not_used_iff.mpr hfree)
    · have heta : { r with approvalStatus := .approved, approvedById := r.approvedById } = r := by
        rw [← happroved]
      rw [hsame, heta]
      exact h.loaded.1
  · obtain rfl := Option.some_inj.mp (h.loaded.1.symm.trans hfind)
    apply hg r' actorUserId ledger
    simpa using hcommits.find_receipt hfind

/-- What an open withdrawal holds can be dispatched. -/
theorem Redeemable.brings_consume (h : Redeemable s.ledger txnType id receiptId tenantId r)
    (hnew : uuids.Unlogged s.ledger) (hstage : (key, 2) ∈ lifeKeys txnType id)
    (hg : ∀ r' ledger, ledger.receipts.find receiptId = some { r with status := .withdrawn } →
      (g r').Brings { s with ledger } goal) :
    (Api.consume num by_ uuids ⟨tenantId, actorUserId, key⟩ receiptId >>= g : Api Unit).Brings s
      goal := by
  have hkey := h.unended key hstage
  apply brings_ledger rfl
  · apply runIdempotent_succeeds hkey
    apply amendReceipt_succeeds h.loaded (assertHeld_ok.mpr h.held)
    · intro x hx heq
      exact hnew.event (List.mem_map.mpr ⟨x, hx, heq⟩)
    · exact hkey
  intro r' ledger houtcome
  apply hg r' ledger
  cases houtcome with
  | replayed e prior => cases hkey.symm.trans prior
  | committed free events change effect commits =>
      cases effect with
      | consume ctx r₀ loaded =>
          obtain rfl := Option.some_inj.mp (h.loaded.1.symm.trans loaded.1)
          simpa using commits.find_receipt loaded.1

end Redeem

theorem withdrawalOpen {w : Withdrawal} {r : Receipt} (hs : Custody s)
    (hw : s.withdrawals.find w.id = some w) (hnew : uuids.Unlogged s.ledger)
    (h : Redeemable s.ledger .withdrawal w.id w.receiptId w.tenantId r) :
    WithdrawalOpen num uuids s w r := by
  constructor
  · intro hstatus actorUserId
    refine brings_find (a := w) (by simp [hw]) ?_
    apply brings_throwIf (not_not.mpr hstatus)
    apply h.brings_approveHold hs hnew (by simp [lifeKeys])
    intro _ approver ledger hreceipt
    refine brings_update Db.withdrawals (fun db withdrawals => { db with withdrawals })
      hw fun _ hrow => ?_
    exact ⟨hrow, approver, hreceipt⟩
  · intro hstatus billed actorUserId
    refine brings_find (a := w) (by simp [hw]) ?_
    apply brings_throwIf (not_not.mpr hstatus)
    apply h.brings_consume hnew (by simp [lifeKeys])
    intro _ ledger hreceipt
    apply brings_read
    apply brings_orThrow hreceipt
    apply brings_ofExcept
    refine brings_update Db.withdrawals (fun db withdrawals => { db with withdrawals })
      hw fun _ hrow => ?_
    exact ⟨hrow, hreceipt⟩
  · intro hstatus actorUserId reason
    refine brings_find (a := w) (by simp [hw]) ?_
    apply brings_throwIf hstatus
    unfold releaseLinked
    rw [Attempt.bind_assoc]
    apply brings_read
    simp only [h.loaded.1, if_pos h.held]
    rw [Attempt.bind_assoc]
    apply h.brings_release hnew (by simp [lifeKeys])
    intro _ ledger hreceipt
    apply brings_bind (Attempt.exec_pure _ _)
    split
    · rename_i hrejected
      exact brings_pure ⟨⟨w, hw, hrejected⟩, hreceipt⟩
    · refine brings_update Db.withdrawals (fun db withdrawals => { db with withdrawals })
        hw fun _ hrow => ?_
      exact ⟨⟨_, hrow, rfl⟩, hreceipt⟩

theorem loanOpen {l : Loan} {r : Receipt} (hs : Custody s) (hl : s.loans.find l.id = some l)
    (hnew : uuids.Unlogged s.ledger)
    (h : Redeemable s.ledger .loan l.id l.receiptId l.tenantId r) : LoanOpen num uuids s l r := by
  constructor
  · intro hstatus actorUserId
    refine brings_find (a := l) (by simp [hl]) ?_
    apply brings_throwIf (not_not.mpr hstatus)
    apply h.brings_approveHold hs hnew (by simp [lifeKeys])
    intro _ approver ledger hreceipt
    refine brings_update Db.loans (fun db loans => { db with loans }) hl fun _ hrow => ?_
    exact ⟨hrow, approver, hreceipt⟩
  · intro hstatus actorUserId
    refine brings_find (a := l) (by simp [hl]) ?_
    apply brings_throwIf (not_not.mpr hstatus)
    apply h.brings_release hnew (by simp [lifeKeys])
    intro _ ledger hreceipt
    refine brings_update Db.loans (fun db loans => { db with loans }) hl fun _ hrow => ?_
    exact ⟨hrow, hreceipt⟩
  · intro hstatus actorUserId
    refine brings_find (a := l) (by simp [hl]) ?_
    apply brings_throwIf (not_not.mpr hstatus)
    apply h.brings_release hnew (by simp [lifeKeys])
    intro _ ledger hreceipt
    refine brings_update Db.loans (fun db loans => { db with loans }) hl fun _ hrow => ?_
    exact ⟨hrow, hreceipt⟩

theorem tradeOpen {t : Trade} {r : Receipt} (ht : s.trades.find t.id = some t)
    (hnew : uuids.Unlogged s.ledger) (ha : ApprovalsAgree s.ledger)
    (h : Redeemable s.ledger .trade t.id t.receiptId t.tenantId r) :
    TradeOpen num uuids s t r := by
  constructor
  · intro hstatus
    refine brings_find (a := t) (by simp [ht]) ?_
    apply brings_throwIf (not_not.mpr hstatus)
    refine brings_congr (Api.runIdempotent_exec _) ?_
    apply h.brings_release hnew (by simp [lifeKeys])
    intro _ ledger hreceipt
    refine brings_update Db.trades (fun db trades => { db with trades }) ht fun _ hrow => ?_
    exact ⟨hrow, hreceipt⟩
  · intro hstatus buyer hbuyer htenant hseller
    refine brings_find (a := t) (by simp [ht]) ?_
    apply brings_throwIf hseller
    have hnot : ¬ (t.status = .settled ∧ t.buyerId = some buyer.id) := by
      rintro ⟨hsettled, -⟩
      cases hstatus.symm.trans hsettled
    simp only [if_neg hnot]
    apply brings_throwIf (not_not.mpr hstatus)
    apply brings_read
    have hfind : s.directory.users.find buyer.id = some buyer := Table.find_of_mem hbuyer
    refine brings_orThrow (a := buyer) (by simp [hfind, htenant]) ?_
    have hkey : s.ledger.events.find (tradeKey t.id "transfer") = none :=
      h.unended _ (by simp [lifeKeys])
    have hkey' : s.ledger.events.find (releaseKey (tradeKey t.id "transfer")) = none := by
      apply not_used_iff.mp
      exact fun hused => not_used_iff.mpr hkey (ha.settled t.id hused)
    let settled := s.trades.modifyWhere (fun x => x.id = t.id ∧ x.status = .listed) fun x =>
      { x with status := .settled, buyerId := some buyer.id }
    have hmark : markSettled s.trades t.id buyer.id = .ok settled :=
      if_pos ⟨t, Table.mem_of_find ht, rfl, hstatus⟩
    let ctx : ActorCtx := ⟨t.tenantId, none, tradeKey t.id "transfer"⟩
    obtain ⟨ledger, htransfer, hreceipt⟩ : ∃ ledger,
        transferAndReleaseWork num uuids ctx t.receiptId buyer.id .trade t.id
            (fun _ => markSettled s.trades t.id buyer.id) s.ledger =
          .ok (({ r with
            clientId := buyer.id, status := .active, approvalStatus := .approved }, settled),
            ledger) ∧
        ledger.receipts.find t.receiptId = some { r with
          clientId := buyer.id, status := .active, approvalStatus := .approved } :=
      transferAndReleaseWork_succeeds hnew hkey hkey' h.loaded h.held hmark
    have hrow : settled.find t.id =
        some { t with status := .settled, buyerId := some buyer.id } := by
      simp only [settled, Table.find_modifyWhere, ht]
      simp [hstatus]
    have hexec : (transferSettled num uuids t.tenantId t t.id buyer.id).exec s =
        (.ok { r with clientId := buyer.id, status := .active, approvalStatus := .approved },
          { s with ledger, trades := settled }) := by
      refine (Api.runIdempotent_exec_free hkey).trans ?_
      rw [Attempt.exec_write, transferTx, htransfer]
    exact brings_bind hexec (brings_pure ⟨hrow, hreceipt⟩)

end Decisions

/-- Wherever the requests of all modules interleaved and crashed before, what a withdrawal, a
loan or a trade holds moves on: each decision that its row is open to succeeds when it is made
alone, on the row and on the receipt. -/
theorem held_stock_moves_on {num : Numeric} {directory : Directory} {requests : List Request}
    {trace : List (Transition Label Db)} {db : Db} {pool : List (Api Unit)}
    (h : Run (Db.initial directory) (requests.map (Request.run num)) trace db pool) {uuids : Uuids}
    (hnew : uuids.Unlogged db.ledger) :
    (∀ w ∈ db.withdrawals, ∀ r, Holding db.ledger w.receiptId w.tenantId r →
      WithdrawalOpen num uuids db w r) ∧
    (∀ l ∈ db.loans, ∀ r, Holding db.ledger l.receiptId l.tenantId r →
      LoanOpen num uuids db l r) ∧
    ∀ t ∈ db.trades, ∀ r, Holding db.ledger t.receiptId t.tenantId r →
      TradeOpen num uuids db t r := by
  have hcustody := runs_custody num directory requests h
  have hs : Custody db := hcustody.final.inv
  have hall : TransactionLeaves db.ledger ∧ LivesInOrder db.ledger ∧ ApprovalsAgree db.ledger := by
    apply h.history (P := fun _ db =>
      TransactionLeaves db.ledger ∧ LivesInOrder db.ledger ∧ ApprovalsAgree db.ledger)
    · exact ⟨transactionLeaves_empty, livesInOrder_empty, approvalsAgree_empty⟩
    intro earlier t later htrace hall
    obtain ⟨hleaves, hlives, hagree⟩ := hall
    obtain ⟨hbefore, htakes, -⟩ := hcustody.each t (by simp [htrace])
    exact ⟨htakes.transactionLeaves hbefore hleaves, htakes.livesInOrder hleaves hlives,
      htakes.approvalsAgree hbefore hleaves hlives hagree⟩
  obtain ⟨hleaves, hlives, hagree⟩ := hall
  refine ⟨?_, ?_, ?_⟩
  · intro w hw r hholding
    exact withdrawalOpen hs (Table.find_of_mem hw) hnew
      (redeemable hleaves hlives hagree (by decide) (hs.withdrawals w hw).1 hholding)
  · intro l hl r hholding
    exact loanOpen hs (Table.find_of_mem hl) hnew
      (redeemable hleaves hlives hagree (by decide) (hs.loans l hl) hholding)
  · intro t ht r hholding
    exact tradeOpen (Table.find_of_mem ht) hnew hagree
      (redeemable hleaves hlives hagree (by decide) (hs.trades t ht) hholding)

/-- Withdrawal 9 is paid, and its approval stops between the ledger and the row. -/
def halfApprovedRun : List (Transition Label Db) × Db × List (Api Unit) :=
  interleave ([0, 1] ++ List.replicate 4 2 ++ List.replicate 3 3 ++ List.replicate 2 4)
    (Db.initial sampleDirectory)
    ((sampleStock ++ sampleWithdrawal.take 3).map (Request.run .postgres))

/-- The receipt is approved, the row is not, and the decisions on it succeed. -/
theorem held_stock_moves_on_sample : ∃ w ∈ halfApprovedRun.2.1.withdrawals, ∃ r,
    w.status = .paidPendingApproval ∧ r.approvalStatus = .approved ∧
      WithdrawalOpen .postgres (sampleUuids 190) halfApprovedRun.2.1 w r := by
  have hheld : ∃ w ∈ halfApprovedRun.2.1.withdrawals.rows,
      ∃ r ∈ halfApprovedRun.2.1.ledger.receipts.rows, w.status = .paidPendingApproval ∧
        r.approvalStatus = .approved ∧ r.id = w.receiptId ∧ r.tenantId = w.tenantId ∧
          r.status.Held := by decide +kernel
  obtain ⟨w, hw, r, hr, hstatus, happroved, hid, htenant, hheld⟩ := hheld
  have hnew : (sampleUuids 190).Unlogged halfApprovedRun.2.1.ledger :=
    ⟨by decide +kernel, by decide +kernel, by decide⟩
  refine ⟨w, hw, r, hstatus, happroved, ?_⟩
  exact (held_stock_moves_on (run_interleave _ _ _) hnew).1 w hw r
    ⟨⟨Table.find_eq_some_iff.mpr ⟨hr, hid⟩, htenant⟩, hheld⟩

end SecureStore.Services
