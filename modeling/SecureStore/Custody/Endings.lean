/-
# The life of a transaction in the log

A withdrawal, a loan or a trade leaves its trace in the ledger as events under keys of
its own: the hold it was filed with, the approval of that hold, and one of the calls that
end it. Rejection and dispatch of a withdrawal, rejection and repayment of a loan,
cancellation and settlement of a trade go by different keys, so no key keeps them apart.
What does is the receipt: one is minted for the transaction, and whatever ends it takes
that receipt out of its hold.
-/

import SecureStore.Custody.Transactions

namespace SecureStore.Services

open SecureStore.Foundation SecureStore.Inventory

/-- The keys of a transaction, with the stage of its life that each stands for: filed,
approved, ended. -/
def lifeKeys : TxnType → Id → List (IdempotencyKey × ℕ)
  | .withdrawal, id => [(withdrawalKey id "hold", 0), (withdrawalKey id "approveHold", 1),
      (withdrawalKey id "release", 2), (withdrawalKey id "consume", 2)]
  | .loan, id => [(loanKey id "hold", 0), (loanKey id "approveHold", 1),
      (loanKey id "release", 2), (loanKey id "repay-release", 2)]
  | .trade, id => [(tradeKey id "hold", 0), (tradeKey id "cancel-release", 2),
      (tradeKey id "transfer", 2)]
  | _, _ => []

/-- The event is logged for the stage of the transaction. -/
def AtStage (txnType : TxnType) (id : Id) (n : ℕ) (e : InventoryEvent) : Prop :=
  (e.idempotencyKey, n) ∈ lifeKeys txnType id

instance (txnType : TxnType) (id : Id) (n : ℕ) (e : InventoryEvent) :
    Decidable (AtStage txnType id n e) := inferInstanceAs (Decidable (_ ∈ _))

/-- Of two events, the first is for an earlier stage of every transaction that both are
logged for. -/
def Precedes (e e' : InventoryEvent) : Prop :=
  ∀ txnType id n n', AtStage txnType id n e → AtStage txnType id n' e' → n < n'

/-- Events of a transaction come in the order of its stages, behind its hold, and what
ended it has freed the receipt minted for it. -/
structure LivesInOrder (s : Ledger) : Prop where
  ordered : s.events.rows.Pairwise Precedes
  filed : ∀ e ∈ s.events, ∀ txnType id n, AtStage txnType id n e →
    ∃ key, holdKey txnType id = some key ∧ s.Used key
  freed : ∀ e ∈ s.events, ∀ txnType id, AtStage txnType id 2 e →
    ∃ r ∈ s.receipts, MintedFor r txnType id ∧ ¬ r.status.Held

theorem livesInOrder_empty : LivesInOrder Ledger.empty := by
  refine ⟨List.Pairwise.nil, ?_, ?_⟩ <;> simp

theorem not_pledge_of_stage {txnType : TxnType} {id : Id} {key : IdempotencyKey} {n : ℕ}
    (h : (key, n) ∈ lifeKeys txnType id) : txnType ≠ .pledge := by
  rintro rfl
  simp [lifeKeys] at h

theorem stage_of_hold {txnType : TxnType} {id : Id} {key : IdempotencyKey}
    (hkey : holdKey txnType id = some key) (hpledge : txnType ≠ .pledge) :
    (key, 0) ∈ lifeKeys txnType id := by
  cases txnType <;> simp_all [holdKey, lifeKeys]

/-- A key belongs to one stage. -/
theorem stage_unique {txnType : TxnType} {id : Id} {key : IdempotencyKey} {n n' : ℕ}
    (h : (key, n) ∈ lifeKeys txnType id) (h' : (key, n') ∈ lifeKeys txnType id) : n = n' := by
  cases txnType <;> simp_all [lifeKeys, withdrawalKey, loanKey, tradeKey] <;> grind

/-- The calls that take a held receipt out of its hold. -/
def EndsHold (op : LedgerOp) (heldReceiptId : Id) : Prop :=
  (∃ ctx, op = .release ctx heldReceiptId) ∨ (∃ ctx, op = .consume ctx heldReceiptId) ∨
    ∃ ctx newOwnerId txnType txnId withinTx,
      op = .transferAndRelease ctx heldReceiptId newOwnerId txnType txnId withinTx

section Steps

variable {num : Numeric} {by_ : Issuer} {op : LedgerOp} {s s' : Db}

/-- Under the key of a stage there is the call of that stage, made for the transaction. -/
theorem Calls.stage (h : Calls by_ op) {txnType : TxnType} {id : Id} {n : ℕ}
    (hstage : (op.idempotencyKey, n) ∈ lifeKeys txnType id) :
    by_.txn s = some (txnType, id) ∧
      ((n = 0 ∧ holdKey txnType id = some op.idempotencyKey) ∨
        (n = 1 ∧ ∃ ctx heldReceiptId, op = .approveHold ctx heldReceiptId) ∨
          (n = 2 ∧ ∃ heldReceiptId, EndsHold op heldReceiptId)) := by
  cases txnType <;> cases h <;>
    simp_all [LedgerOp.idempotencyKey, lifeKeys, holdKey, withdrawalKey, loanKey, tradeKey,
      partialKey, Issuer.txn, EndsHold]

/-- The second event of a settlement is for no stage. -/
theorem stage_releaseKey {txnType : TxnType} {id tradeId : Id} {n : ℕ} :
    (releaseKey (tradeKey tradeId "transfer"), n) ∉ lifeKeys txnType id := by
  cases txnType <;> simp [lifeKeys, releaseKey, withdrawalKey, loanKey, tradeKey]

/-- An event that is logged for a stage is logged under the key of its call. -/
theorem Calls.stage_of_event (h : Calls by_ op) {uuids : Uuids} {events : List InventoryEvent}
    {change : Change} {result : LedgerResult} {ledger : Ledger}
    (heffect : Effect num uuids ledger op events change result) {e : InventoryEvent}
    (he : e ∈ events) {txnType : TxnType} {id : Id} {n : ℕ} (hstage : AtStage txnType id n e) :
    (op.idempotencyKey, n) ∈ lifeKeys txnType id := by
  unfold AtStage at hstage
  rcases h.event_key heffect he with hkey | ⟨tradeId, hkey⟩
  · rwa [← hkey]
  · rw [hkey] at hstage
    exact absurd hstage stage_releaseKey

/-- The events of one commit are for one stage at most. -/
theorem Calls.events_ordered (h : Calls by_ op) {uuids : Uuids} {events : List InventoryEvent}
    {change : Change} {result : LedgerResult} {ledger : Ledger}
    (heffect : Effect num uuids ledger op events change result) : events.Pairwise Precedes := by
  cases heffect with
  | transferAndRelease ctx newOwnerId txnType txnId withinTx r =>
      cases h with
      | settleTrade key =>
          refine List.pairwise_pair.mpr fun txnType id n n' _ hstage => ?_
          have hkey : (releaseKey ctx.idempotencyKey, n') ∈ lifeKeys txnType id := hstage
          rw [key] at hkey
          exact absurd hkey stage_releaseKey
  | _ => exact List.pairwise_singleton _ _

/-- The approval and the end of a transaction find its receipt held; the end frees it. -/
theorem effect_target {uuids : Uuids} {events : List InventoryEvent} {change : Change}
    {result : LedgerResult} {ledger : Ledger} {heldReceiptId : Id}
    (heffect : Effect num uuids ledger op events change result)
    (hop : (∃ ctx, op = .approveHold ctx heldReceiptId) ∨ EndsHold op heldReceiptId) :
    heldTarget op = some heldReceiptId ∧
      ∃ r, ledger.receipts.find heldReceiptId = some r ∧ r.status.Held ∧
        (EndsHold op heldReceiptId → ¬ (change.apply r).status.Held) := by
  have hfree : ∀ r : Receipt, ∀ status, status ∈ [ReceiptStatus.active, .withdrawn] →
      r.status = status → ¬ r.status.Held := by
    intro r status hmem hstatus
    rw [hstatus]
    rcases List.mem_pair.mp hmem with rfl | rfl <;> decide
  rcases hop with ⟨ctx, rfl⟩ | ⟨ctx, rfl⟩ | ⟨ctx, rfl⟩ |
    ⟨ctx, newOwnerId, txnType, txnId, withinTx, rfl⟩
  · cases heffect with
    | approveHold ctx r loaded held =>
        exact ⟨rfl, r, loaded.1, held, by simp [EndsHold]⟩
  · cases heffect with
    | release ctx r loaded held =>
        refine ⟨rfl, r, loaded.1, held, fun _ => hfree _ .active (by simp) ?_⟩
        rw [Change.apply_amend_self]
  · cases heffect with
    | consume ctx r loaded held =>
        refine ⟨rfl, r, loaded.1, held, fun _ => hfree _ .withdrawn (by simp) ?_⟩
        rw [Change.apply_amend_self]
  · cases heffect with
    | transferAndRelease ctx newOwnerId txnType txnId withinTx r loaded held =>
        refine ⟨rfl, r, loaded.1, held, fun _ => hfree _ .active (by simp) ?_⟩
        rw [Change.apply_amend_self]

/-- The receipt that the approval or the end of a transaction acts on was minted for it. -/
theorem LedgerStep.target (h : LedgerStep num by_ op s s') {uuids : Uuids}
    {events : List InventoryEvent} {change : Change} {result : LedgerResult}
    (heffect : Effect num uuids s.ledger op events change result) {txnType : TxnType} {id : Id}
    (htxn : by_.txn s = some (txnType, id)) {heldReceiptId : Id}
    (hop : (∃ ctx, op = .approveHold ctx heldReceiptId) ∨ EndsHold op heldReceiptId) :
    ∃ r, s.ledger.receipts.find heldReceiptId = some r ∧ r.status.Held ∧
      MintedFor r txnType id ∧ (EndsHold op heldReceiptId → ¬ (change.apply r).status.Held) := by
  obtain ⟨htarget, r, hfind, hheld, hfree⟩ := effect_target heffect hop
  obtain ⟨_, _, htxn', r', hfind', hminted⟩ := h.rightful.entitled _ htarget
  obtain ⟨rfl, rfl⟩ := Prod.mk.inj (Option.some_inj.mp (htxn.symm.trans htxn'))
  obtain rfl := Option.some_inj.mp (hfind.symm.trans hfind')
  exact ⟨r, hfind, hheld, hminted hheld, hfree⟩

theorem stage_le {txnType : TxnType} {id : Id} {key : IdempotencyKey} {n : ℕ}
    (h : (key, n) ∈ lifeKeys txnType id) : n ≤ 2 := by
  cases txnType <;> simp_all [lifeKeys] <;> omega

/-- There is one key to approve a transaction under. -/
theorem approval_key_unique {txnType : TxnType} {id : Id} {key key' : IdempotencyKey}
    (h : (key, 1) ∈ lifeKeys txnType id) (h' : (key', 1) ∈ lifeKeys txnType id) : key = key' := by
  cases txnType <;> simp_all [lifeKeys]

/-- What a commit logs for a transaction comes behind everything logged for it before. -/
theorem LedgerStep.precedes (h : LedgerStep num by_ op s s') (hl : TransactionLeaves s.ledger)
    (ho : LivesInOrder s.ledger) {uuids : Uuids} {events : List InventoryEvent} {change : Change}
    {result : LedgerResult} (heffect : Effect num uuids s.ledger op events change result)
    {e₀ e : InventoryEvent} (he₀ : e₀ ∈ s.ledger.events) (he : e ∈ events) : Precedes e₀ e := by
  intro txnType id n₀ n hstage₀ hstage
  have hopStage := h.rightful.calls.stage_of_event heffect he hstage
  have hpledge := not_pledge_of_stage hopStage
  obtain ⟨htxn, hcase⟩ := h.rightful.calls.stage (s := s) hopStage
  -- the receipt of a transaction that has ended is not there to be approved or freed
  have hended : ∀ heldReceiptId,
      (∃ ctx, op = .approveHold ctx heldReceiptId) ∨ EndsHold op heldReceiptId → n₀ ≠ 2 := by
    rintro heldReceiptId hop rfl
    obtain ⟨r₀, hr₀, hminted₀, hfree⟩ := ho.freed e₀ he₀ txnType id hstage₀
    obtain ⟨r, hfind, hheld, hminted, -⟩ := h.target heffect htxn hop
    obtain rfl := hl.single r₀ hr₀ r (Table.mem_of_find hfind) _ _ hpledge hminted₀ hminted
    exact hfree hheld
  have hle := stage_le hstage₀
  rcases hcase with ⟨rfl, hhold⟩ | ⟨rfl, ctx, heldReceiptId, hop⟩ | ⟨rfl, heldReceiptId, hop⟩
  · obtain ⟨key, hkey, hused⟩ := ho.filed e₀ he₀ txnType id n₀ hstage₀
    obtain rfl := Option.some_inj.mp (hkey.symm.trans hhold)
    exact absurd hused (not_used_iff.mpr h.free)
  · have hnot := hended heldReceiptId (.inl ⟨ctx, hop⟩)
    have hother : n₀ ≠ 1 := by
      rintro rfl
      have hkey := approval_key_unique hstage₀ hopStage
      exact Table.find_eq_none_iff.mp h.free e₀ he₀ hkey
    omega
  · have hnot := hended heldReceiptId (.inr hop)
    omega

theorem LedgerStep.livesInOrder (h : LedgerStep num by_ op s s') (hl : TransactionLeaves s.ledger)
    (ho : LivesInOrder s.ledger) : LivesInOrder s'.ledger := by
  have hlater := h.later.ledger
  obtain ⟨uuids, events, change, result, heffect, hcommits⟩ := h.effect
  constructor
  · rw [hcommits.log, List.pairwise_append]
    exact ⟨ho.ordered, h.rightful.calls.events_ordered heffect,
      fun e₀ he₀ e he => h.precedes hl ho heffect he₀ he⟩
  · intro e he txnType id n hstage
    rcases hcommits.mem_events.mp he with hold | hnew
    · obtain ⟨key, hkey, hused⟩ := ho.filed e hold txnType id n hstage
      exact ⟨key, hkey, hcommits.used_iff.mpr (.inl hused)⟩
    · have hopStage := h.rightful.calls.stage_of_event heffect hnew hstage
      have hpledge := not_pledge_of_stage hopStage
      obtain ⟨htxn, hcase⟩ := h.rightful.calls.stage (s := s) hopStage
      -- a receipt minted for the transaction says that its hold is in the log
      have hfiled : ∀ heldReceiptId,
          (∃ ctx, op = .approveHold ctx heldReceiptId) ∨ EndsHold op heldReceiptId →
          ∃ key, holdKey txnType id = some key ∧ s'.ledger.Used key := by
        intro heldReceiptId hop
        obtain ⟨r, hfind, hheld, hminted, -⟩ := h.target heffect htxn hop
        obtain ⟨key, hkey, hused⟩ := hl.keyed r (Table.mem_of_find hfind) _ _ hpledge hminted
        exact ⟨key, hkey, hcommits.used_iff.mpr (.inl hused)⟩
      rcases hcase with ⟨-, hhold⟩ | ⟨-, ctx, heldReceiptId, hop⟩ | ⟨-, heldReceiptId, hop⟩
      · obtain ⟨e', he', -, hkey⟩ := heffect.keyed_event
        exact ⟨_, hhold, hcommits.used_iff.mpr (.inr ⟨e', he', hkey⟩)⟩
      · exact hfiled heldReceiptId (.inl ⟨ctx, hop⟩)
      · exact hfiled heldReceiptId (.inr hop)
  · intro e he txnType id hstage
    rcases hcommits.mem_events.mp he with hold | hnew
    · obtain ⟨r, hr, hminted, hfree⟩ := ho.freed e hold txnType id hstage
      obtain ⟨r', hr', hnode, hmoves⟩ := hlater.receipts r hr
      exact ⟨r', hr', (MintedFor.of_sameNode hnode).mpr hminted,
        fun hheld => hfree (held_reached hmoves hheld)⟩
    · have hopStage := h.rightful.calls.stage_of_event heffect hnew hstage
      obtain ⟨htxn, hcase⟩ := h.rightful.calls.stage (s := s) hopStage
      rcases hcase with ⟨hn, -⟩ | ⟨hn, -⟩ | ⟨-, heldReceiptId, hop⟩
      · cases hn
      · cases hn
      · obtain ⟨r, hfind, hheld, hminted, hfree⟩ := h.target heffect htxn (.inr hop)
        have hnode := (hcommits.advance heffect (Table.mem_of_find hfind)).1
        exact ⟨change.apply r, Table.mem_of_find (hcommits.find_receipt hfind),
          (MintedFor.of_sameNode hnode).mpr hminted, hfree hop⟩

theorem Takes.livesInOrder {mine : Issuer → Prop} {label : Label}
    (h : Takes num mine label s s') (hl : TransactionLeaves s.ledger)
    (ho : LivesInOrder s.ledger) : LivesInOrder s'.ledger := by
  cases label with
  | read =>
      rw [show s' = s from h]
      exact ho
  | ledger by_ op =>
      rcases h with rfl | ⟨-, hstep⟩
      · exact ho
      · exact hstep.livesInOrder hl ho
  | write by_ =>
      rcases h with rfl | ⟨-, hwrite⟩
      · exact ho
      · exact hwrite.ledger ▸ ho

end Steps

/-- However the requests of all modules interleave and wherever they crash, the log tells
the life of every withdrawal, loan and trade in order: nothing before its hold, approved
once at most, and ended once at most, by one of the calls that can end it. Once it has
ended, what was minted for it is not held. -/
theorem lives_in_order {num : Numeric} {directory : Directory} {requests : List Request}
    {trace : List (Transition Label Db)} {db : Db} {pool : List (Api Unit)}
    (h : Run (Db.initial directory) (requests.map (Request.run num)) trace db pool) :
    db.ledger.events.rows.Pairwise Precedes ∧
      (∀ earlier e later txnType id n, db.ledger.events.rows = earlier ++ e :: later →
        AtStage txnType id n e → 0 < n → ∃ e' ∈ earlier, AtStage txnType id 0 e') ∧
      ∀ e ∈ db.ledger.events, ∀ txnType id, AtStage txnType id 2 e →
        ∀ r ∈ db.ledger.receipts, MintedFor r txnType id → ¬ r.status.Held := by
  have hcustody := runs_custody num directory requests h
  have hboth : TransactionLeaves db.ledger ∧ LivesInOrder db.ledger := by
    apply h.history (P := fun _ db => TransactionLeaves db.ledger ∧ LivesInOrder db.ledger)
    · exact ⟨transactionLeaves_empty, livesInOrder_empty⟩
    intro earlier t later htrace hboth
    obtain ⟨hleaves, hlives⟩ := hboth
    obtain ⟨hbefore, htakes, -⟩ := hcustody.each t (by simp [htrace])
    exact ⟨htakes.transactionLeaves hbefore hleaves, htakes.livesInOrder hleaves hlives⟩
  obtain ⟨hleaves, hlives⟩ := hboth
  refine ⟨hlives.ordered, ?_, ?_⟩
  · intro earlier e later txnType id n hrows hstage hpositive
    have hmem : e ∈ db.ledger.events := by
      rw [Table.mem_def, hrows]
      exact List.mem_append_right _ List.mem_cons_self
    obtain ⟨key, hkey, e', he', hlogged⟩ := hlives.filed e hmem txnType id n hstage
    have hstage' : AtStage txnType id 0 e' := by
      unfold AtStage
      rw [hlogged]
      exact stage_of_hold hkey (not_pledge_of_stage hstage)
    have hordered := hlives.ordered
    rw [Table.mem_def, hrows] at he'
    rw [hrows, List.pairwise_append] at hordered
    rcases List.mem_append.mp he' with hearly | hlate
    · exact ⟨e', hearly, hstage'⟩
    · -- behind the event there is no hold of its transaction, and it is none itself
      rcases List.mem_cons.mp hlate with rfl | hlate
      · exact absurd (stage_unique hstage' hstage) (by omega)
      · have hlt := List.rel_of_pairwise_cons hordered.2.1 hlate txnType id n 0 hstage hstage'
        omega
  · intro e he txnType id hstage r hr hminted
    obtain ⟨r', hr', hminted', hfree⟩ := hlives.freed e he txnType id hstage
    rwa [hleaves.single r hr r' hr' txnType id (not_pledge_of_stage hstage) hminted hminted']

/-- A withdrawal that is dispatched by one request while another, which has loaded the same
row, is about to reject it. -/
def endingRun : List (Transition Label Db) × Db × List (Api Unit) :=
  interleave ([0, 1] ++ List.replicate 4 2 ++ List.replicate 3 3 ++ List.replicate 3 4 ++
      [6, 5, 5, 6] ++ List.replicate 2 5) (Db.initial sampleDirectory)
    ((sampleStock ++ sampleWithdrawal ++
      [Request.rejectWithdrawal (sampleUuids 180) 1 9 (some 12) none]).map (Request.run .postgres))

/-- The log of the sample: filed, approved and ended, once each. -/
theorem lives_in_order_sample : endingRun.2.1.ledger.events.rows.Pairwise Precedes ∧
    (List.range 3).map (fun n => (endingRun.2.1.ledger.events.rows.filter fun e =>
      decide (AtStage .withdrawal 9 n e)).length) = [1, 1, 1] :=
  ⟨(lives_in_order (run_interleave _ _ _)).1, by decide +kernel⟩

end SecureStore.Services
