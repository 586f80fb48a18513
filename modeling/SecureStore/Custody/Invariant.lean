/-
# Custody of held receipts

A hold records the transaction it was placed for, and every row of a service
keeps a pointer to the receipt it acts on. Custody says that the two agree in
every reachable state: the receipt a row points at is, if it is held at all, held
for that row. Holds are only placed at creation, so a receipt found free stays
free, which is what lets a row point at a shared source leaf.
-/

import SecureStore.Inventory.Replay
import SecureStore.Services.System

namespace SecureStore.Services

open SecureStore.Foundation SecureStore.Inventory

/-- The transaction recorded on a receipt. -/
def MintedFor (r : Receipt) (txnType : TxnType) (txnId : Id) : Prop :=
  r.sourceTxnType = some txnType ∧ r.sourceTxnId = some txnId

theorem MintedFor.of_sameNode {r r' : Receipt} {txnType : TxnType} {txnId : Id}
    (hnode : SameNode r r') : MintedFor r' txnType txnId ↔ MintedFor r txnType txnId := by
  unfold MintedFor
  rw [hnode.sourceTxnType, hnode.sourceTxnId]

/-- The receipt exists and is, if held, held for the transaction. -/
def HeldFor (s : Ledger) (receiptId : Id) (txnType : TxnType) (txnId : Id) : Prop :=
  ∃ r, s.receipts.find receiptId = some r ∧ (r.status.Held → MintedFor r txnType txnId)

theorem HeldFor.later {s s' : Ledger} {receiptId : Id} {txnType : TxnType} {txnId : Id}
    (h : HeldFor s receiptId txnType txnId) (hlater : Later s s') :
    HeldFor s' receiptId txnType txnId := by
  obtain ⟨r, hfind, hminted⟩ := h
  obtain ⟨r', hfind', hnode, hmoves⟩ := hlater.find hfind
  exact ⟨r', hfind', fun hheld =>
    (MintedFor.of_sameNode hnode).mpr (hminted (held_reached hmoves hheld))⟩

/-- The key of the hold that a transaction places. -/
def holdKey : TxnType → Id → Option IdempotencyKey
  | .withdrawal, id => some (withdrawalKey id "hold")
  | .loan, id => some (loanKey id "hold")
  | .trade, id => some (tradeKey id "hold")
  | .pledge, id => some [.text "pledge", .text "create", .uuid id]
  | _, _ => none

/-- The key `release:partial:${request}:${line}`. -/
def partialKey (requestId lineId : Id) : IdempotencyKey :=
  [.text "release", .text "partial", .uuid requestId, .uuid lineId]

/-- The statuses of receipts held for a type of transaction. -/
inductive HeldAs : TxnType → ReceiptStatus → Prop where
  | withdrawal : HeldAs .withdrawal .heldWithdrawal
  | loan : HeldAs .loan .heldLoan
  | trade : HeldAs .trade .heldTrade
  | pledge : HeldAs .pledge .heldPledgePending
  | lien : HeldAs .pledge .heldLien

theorem HeldAs.moves {txnType : TxnType} {before after : ReceiptStatus}
    (h : HeldAs txnType before) (hmove : Moves before after) (hheld : after.Held) :
    HeldAs txnType after := by
  cases hmove with
  | lien =>
      cases h
      exact .lien
  | _ => exact absurd hheld (by decide)

/-- The ledger calls of each request, with the keys it makes them under. -/
inductive Calls : Issuer → LedgerOp → Prop where
  | createDeposit {input : DepositInput} (keyUuid : Id)
      (key : input.idempotencyKey = [.text "MANAGER_DEPOSIT", .uuid keyUuid]) :
      Calls .createDeposit (.deposit input)
  | approveReceipt {id : Id} {ctx : ActorCtx}
      (key : ctx.idempotencyKey = [.text "RECEIPT", .uuid id, .text "approve"]) :
      Calls (.approveReceipt id) (.approveReceipt ctx id)
  | rejectReceipt {id : Id} {ctx : ActorCtx} {reason : String}
      (key : ctx.idempotencyKey = [.text "RECEIPT", .uuid id, .text "reject"]) :
      Calls (.rejectReceipt id) (.rejectReceipt ctx id reason)
  | createPledge {id : Id} {input : HoldInput}
      (key : input.idempotencyKey = [.text "pledge", .text "create", .uuid id])
      (status : input.heldStatus = .heldPledgePending) (txnType : input.txnType = .pledge)
      (txnId : input.txnId = id) : Calls (.createPledge id) (.hold input)
  | cancelPledge {id heldReceiptId : Id} {ctx : ActorCtx}
      (key : ctx.idempotencyKey = [.text "pledge", .text "cancel", .uuid id]) :
      Calls (.cancelPledge id) (.release ctx heldReceiptId)
  | acceptPledge {id heldReceiptId : Id} {ctx : ActorCtx}
      (key : ctx.idempotencyKey = [.text "pledge", .text "accept", .uuid id]) :
      Calls (.acceptPledge id) (.transitionPledgeToLien ctx heldReceiptId id)
  | rejectPledge {id heldReceiptId : Id} {ctx : ActorCtx}
      (key : ctx.idempotencyKey = [.text "pledge", .text "reject", .uuid id]) :
      Calls (.rejectPledge id) (.release ctx heldReceiptId)
  | expirePledge {id heldReceiptId : Id} {ctx : ActorCtx}
      (key : ctx.idempotencyKey = [.text "pledge", .text "expire", .uuid id]) :
      Calls (.expirePledge id) (.release ctx heldReceiptId)
  | releaseFully {requestId lineId lienId heldReceiptId : Id} {ctx : ActorCtx}
      (key : ctx.idempotencyKey =
        [.text "release", .text "full", .uuid requestId, .uuid lineId]) :
      Calls (.approveReleaseLine requestId lineId lienId) (.release ctx heldReceiptId)
  | releasePartly {requestId lineId lienId : Id} {input : ReleasePartialInput}
      (key : input.idempotencyKey = partialKey requestId lineId) :
      Calls (.approveReleaseLine requestId lineId lienId) (.releasePartial input)
  | forceReleaseLien {id heldReceiptId : Id} {ctx : ActorCtx}
      (key : ctx.idempotencyKey = [.text "lien", .text "force-release", .uuid id]) :
      Calls (.forceReleaseLien id) (.release ctx heldReceiptId)
  | confirmPayment {id : Id} {input : HoldInput}
      (key : input.idempotencyKey = withdrawalKey id "hold")
      (status : input.heldStatus = .heldWithdrawal) (txnType : input.txnType = .withdrawal)
      (txnId : input.txnId = id) : Calls (.confirmPayment id) (.hold input)
  | approveWithdrawal {id heldReceiptId : Id} {ctx : ActorCtx}
      (key : ctx.idempotencyKey = withdrawalKey id "approveHold") :
      Calls (.approveWithdrawal id) (.approveHold ctx heldReceiptId)
  | rejectWithdrawal {id heldReceiptId : Id} {ctx : ActorCtx}
      (key : ctx.idempotencyKey = withdrawalKey id "release") :
      Calls (.rejectWithdrawal id) (.release ctx heldReceiptId)
  | completeWithdrawal {id heldReceiptId : Id} {ctx : ActorCtx}
      (key : ctx.idempotencyKey = withdrawalKey id "consume") :
      Calls (.completeWithdrawal id) (.consume ctx heldReceiptId)
  | createLoan {id : Id} {input : HoldInput} (key : input.idempotencyKey = loanKey id "hold")
      (status : input.heldStatus = .heldLoan) (txnType : input.txnType = .loan)
      (txnId : input.txnId = id) : Calls (.createLoan id) (.hold input)
  | approveLoan {id heldReceiptId : Id} {ctx : ActorCtx}
      (key : ctx.idempotencyKey = loanKey id "approveHold") :
      Calls (.approveLoan id) (.approveHold ctx heldReceiptId)
  | rejectLoan {id heldReceiptId : Id} {ctx : ActorCtx}
      (key : ctx.idempotencyKey = loanKey id "release") :
      Calls (.rejectLoan id) (.release ctx heldReceiptId)
  | repayLoan {id heldReceiptId : Id} {ctx : ActorCtx}
      (key : ctx.idempotencyKey = loanKey id "repay-release") :
      Calls (.repayLoan id) (.release ctx heldReceiptId)
  | createTrade {id : Id} {input : HoldInput} (key : input.idempotencyKey = tradeKey id "hold")
      (status : input.heldStatus = .heldTrade) (txnType : input.txnType = .trade)
      (txnId : input.txnId = id) : Calls (.createTrade id) (.hold input)
  | settleTrade {id heldReceiptId newOwnerId : Id} {ctx : ActorCtx}
      {withinTx : Receipt → Except ApiError Unit}
      (key : ctx.idempotencyKey = tradeKey id "transfer") :
      Calls (.settleTrade id) (.transferAndRelease ctx heldReceiptId newOwnerId .trade id withinTx)
  | cancelTrade {id heldReceiptId : Id} {ctx : ActorCtx}
      (key : ctx.idempotencyKey = tradeKey id "cancel-release") :
      Calls (.cancelTrade id) (.release ctx heldReceiptId)

/-- The held receipt a call acts on. -/
def heldTarget : LedgerOp → Option Id
  | .approveHold _ heldReceiptId => some heldReceiptId
  | .release _ heldReceiptId => some heldReceiptId
  | .consume _ heldReceiptId => some heldReceiptId
  | .releasePartial input => some input.heldReceiptId
  | .transitionPledgeToLien _ heldReceiptId _ => some heldReceiptId
  | .transferAndRelease _ heldReceiptId _ _ _ _ => some heldReceiptId
  | _ => none

namespace Issuer

/-- The transaction that a request acts for. -/
def txn (db : Db) : Issuer → Option (TxnType × Id)
  | createPledge id => some (.pledge, id)
  | cancelPledge id => some (.pledge, id)
  | acceptPledge id => some (.pledge, id)
  | rejectPledge id => some (.pledge, id)
  | expirePledge id => some (.pledge, id)
  | approveReleaseLine _ _ lienId => (db.liens.find lienId).map fun l => (.pledge, l.pledgeId)
  | forceReleaseLien lienId => (db.liens.find lienId).map fun l => (.pledge, l.pledgeId)
  | confirmPayment id => some (.withdrawal, id)
  | approveWithdrawal id => some (.withdrawal, id)
  | rejectWithdrawal id => some (.withdrawal, id)
  | completeWithdrawal id => some (.withdrawal, id)
  | createLoan id => some (.loan, id)
  | approveLoan id => some (.loan, id)
  | rejectLoan id => some (.loan, id)
  | repayLoan id => some (.loan, id)
  | createTrade id => some (.trade, id)
  | settleTrade id => some (.trade, id)
  | cancelTrade id => some (.trade, id)
  | _ => none

/-- What must have happened before some calls. -/
def Ready (db : Db) : Issuer → Prop
  | approveReleaseLine _ lineId lienId =>
      ∃ x ∈ db.releaseRequestLines, x.id = lineId ∧ x.lienId = lienId
  | completeWithdrawal id =>
      ∃ e ∈ db.ledger.events, e.idempotencyKey = withdrawalKey id "approveHold"
  | _ => True

/-- Requests that may touch pledges and liens. -/
def Collateral : Issuer → Prop
  | createPledge _ => True
  | cancelPledge _ => True
  | acceptPledge _ => True
  | rejectPledge _ => True
  | expirePledge _ => True
  | createReleaseRequest _ => True
  | cancelReleaseRequest _ => True
  | approveReleaseRequest _ => True
  | approveReleaseLine _ _ _ => True
  | rejectReleaseRequest _ => True
  | forceReleaseLien _ => True
  | _ => False

end Issuer

/-- A ledger call that its issuer may make. -/
structure Rightful (db : Db) (by_ : Issuer) (op : LedgerOp) : Prop where
  calls : Calls by_ op
  entitled : ∀ heldReceiptId, heldTarget op = some heldReceiptId →
    ∃ txnType txnId, by_.txn db = some (txnType, txnId) ∧
      HeldFor db.ledger heldReceiptId txnType txnId
  ready : by_.Ready db

theorem Calls.hold_key {by_ : Issuer} {input : HoldInput} (h : Calls by_ (.hold input)) :
    holdKey input.txnType input.txnId = some input.idempotencyKey ∧
      HeldAs input.txnType input.heldStatus.status := by
  cases h with
  | createPledge key status txnType txnId =>
      rw [key, status, txnType, txnId]
      exact ⟨rfl, .pledge⟩
  | confirmPayment key status txnType txnId =>
      rw [key, status, txnType, txnId]
      exact ⟨rfl, .withdrawal⟩
  | createLoan key status txnType txnId =>
      rw [key, status, txnType, txnId]
      exact ⟨rfl, .loan⟩
  | createTrade key status txnType txnId =>
      rw [key, status, txnType, txnId]
      exact ⟨rfl, .trade⟩

/-- A hold is placed for the transaction of its issuer. -/
theorem Calls.hold_txn {by_ : Issuer} {input : HoldInput} (h : Calls by_ (.hold input)) (db : Db) :
    by_.txn db = some (input.txnType, input.txnId) := by
  cases h with
  | createPledge key status txnType txnId => rw [txnType, txnId]; rfl
  | confirmPayment key status txnType txnId => rw [txnType, txnId]; rfl
  | createLoan key status txnType txnId => rw [txnType, txnId]; rfl
  | createTrade key status txnType txnId => rw [txnType, txnId]; rfl

theorem holdKey_unique {txnType txnType' : TxnType} {txnId txnId' : Id} {key : IdempotencyKey}
    (h : holdKey txnType txnId = some key) (h' : holdKey txnType' txnId' = some key) :
    txnType = txnType' ∧ txnId = txnId' := by
  cases txnType <;> cases txnType' <;>
    simp_all [holdKey, withdrawalKey, loanKey, tradeKey] <;> grind

/-- Only holds are placed under the key of a hold. -/
theorem Calls.key_of_hold {by_ : Issuer} {op : LedgerOp} (h : Calls by_ op) {txnType : TxnType}
    {txnId : Id} (hkey : holdKey txnType txnId = some op.idempotencyKey) :
    ∃ input, op = .hold input ∧ input.txnType = txnType ∧ input.txnId = txnId := by
  by_cases hhold : ∃ input, op = .hold input
  · obtain ⟨input, rfl⟩ := hhold
    exact ⟨input, rfl, holdKey_unique h.hold_key.1 hkey⟩
  · exfalso
    cases h <;> cases txnType <;>
      simp_all [LedgerOp.idempotencyKey, holdKey, withdrawalKey, loanKey, tradeKey, partialKey]

/-- An approval of a withdrawal's hold is logged by its approval alone. -/
theorem Calls.key_of_approval {by_ : Issuer} {op : LedgerOp} (h : Calls by_ op) {id : Id}
    (hkey : op.idempotencyKey = withdrawalKey id "approveHold") :
    by_ = .approveWithdrawal id ∧ ∃ ctx heldReceiptId, op = .approveHold ctx heldReceiptId := by
  cases h <;>
    simp_all [LedgerOp.idempotencyKey, withdrawalKey, loanKey, tradeKey, partialKey]

theorem Calls.key_of_withdrawal_hold {by_ : Issuer} {op : LedgerOp} (h : Calls by_ op) {id : Id}
    (hkey : op.idempotencyKey = withdrawalKey id "hold") :
    by_ = .confirmPayment id ∧ ∃ input, op = .hold input := by
  cases h <;>
    simp_all [LedgerOp.idempotencyKey, withdrawalKey, loanKey, tradeKey, partialKey]

theorem Calls.key_of_partial {by_ : Issuer} {op : LedgerOp} (h : Calls by_ op)
    {requestId lineId : Id} (hkey : op.idempotencyKey = partialKey requestId lineId) :
    ∃ lienId input, by_ = .approveReleaseLine requestId lineId lienId ∧
      op = .releasePartial input := by
  cases h <;>
    simp_all [LedgerOp.idempotencyKey, withdrawalKey, loanKey, tradeKey, partialKey]

section Effects

variable {num : Numeric} {uuids : Uuids} {by_ : Issuer} {op : LedgerOp} {s s' : Ledger}
  {events : List InventoryEvent} {change : Change} {result : LedgerResult}

/-- A commit logs under the key of its call; a settlement logs a second event. -/
theorem Calls.event_key (hcalls : Calls by_ op)
    (heffect : Effect num uuids s op events change result) {e : InventoryEvent}
    (he : e ∈ events) :
    e.idempotencyKey = op.idempotencyKey ∨
      ∃ id, e.idempotencyKey = releaseKey (tradeKey id "transfer") := by
  cases heffect with
  | transferAndRelease ctx newOwnerId txnType txnId withinTx r =>
      rcases List.mem_pair.mp he with rfl | rfl
      · exact .inl rfl
      · cases hcalls with
        | settleTrade key => exact .inr ⟨_, congrArg releaseKey key⟩
  | _ =>
      obtain rfl := List.mem_singleton.mp he
      exact .inl rfl

/-- The held receipts that a commit creates: the held child of a hold, or what a
partial release leaves under the lien. -/
theorem Calls.created_held (hcalls : Calls by_ op)
    (heffect : Effect num uuids s op events change result) {k : Receipt}
    (hk : k ∈ change.created) (hheld : k.status.Held) :
    (∃ input, op = .hold input ∧ k.status = input.heldStatus.status ∧
        MintedFor k input.txnType input.txnId) ∨
      (∃ input src, op = .releasePartial input ∧
        s.receipts.find input.heldReceiptId = some src ∧ src.status = .heldLien ∧
        k.status = .heldLien ∧ k.sourceTxnType = src.sourceTxnType ∧
        k.sourceTxnId = src.sourceTxnId) := by
  cases heffect with
  | deposit input positive =>
      obtain rfl := List.mem_singleton.mp hk
      exact absurd hheld (by simp [ReceiptStatus.Held, heldStatuses])
  | hold input src number number' =>
      rcases List.mem_cons.mp hk with rfl | hk
      · exact .inl ⟨input, rfl, rfl, rfl, rfl⟩
      · obtain rfl := mem_partitionRemainder hk
        exact absurd hheld (by simp [ReceiptStatus.Held, heldStatuses])
  | releasePartial input src number number' loaded lien =>
      rcases List.mem_pair.mp hk with rfl | rfl
      · exact absurd hheld (by simp [ReceiptStatus.Held, heldStatuses])
      · exact .inr ⟨input, src, rfl, loaded.1, lien, rfl, rfl, rfl⟩
  | seizePart => cases hcalls
  | _ => cases hk

/-- The receipts that a commit creates for a transaction. -/
theorem Calls.created_minted (hcalls : Calls by_ op)
    (heffect : Effect num uuids s op events change result) {k : Receipt}
    (hk : k ∈ change.created) {txnType : TxnType} {txnId : Id}
    (hminted : MintedFor k txnType txnId) :
    (∃ input src number, op = .hold input ∧ input.txnType = txnType ∧ input.txnId = txnId ∧
        k = primaryChild num uuids src input.quantity (heldPrimary input src) number) ∨
      (∃ input src, op = .releasePartial input ∧
        s.receipts.find input.heldReceiptId = some src ∧ src.status = .heldLien ∧
        MintedFor src txnType txnId) := by
  cases heffect with
  | deposit input positive =>
      obtain rfl := List.mem_singleton.mp hk
      simp [MintedFor] at hminted
  | hold input src number number' =>
      rcases List.mem_cons.mp hk with rfl | hk
      · obtain ⟨htype, hid⟩ := hminted
        exact .inl ⟨input, src, number, rfl, Option.some_inj.mp htype, Option.some_inj.mp hid, rfl⟩
      · obtain rfl := mem_partitionRemainder hk
        simp [MintedFor] at hminted
  | releasePartial input src number number' loaded lien =>
      rcases List.mem_pair.mp hk with rfl | rfl
      · simp [MintedFor] at hminted
      · exact .inr ⟨input, src, rfl, loaded.1, lien, hminted⟩
  | seizePart => cases hcalls
  | _ => cases hk

end Effects

/-- A withdrawal's receipt is, if held, held for it; an approved one has its approval
in the log. -/
def Withdrawal.InCustody (w : Withdrawal) (s : Ledger) : Prop :=
  HeldFor s w.receiptId .withdrawal w.id ∧
    (w.status = .approved → ∃ e ∈ s.events, e.idempotencyKey = withdrawalKey w.id "approveHold")

theorem Withdrawal.InCustody.later {w : Withdrawal} {s s' : Ledger} (h : w.InCustody s)
    (hlater : Later s s') : w.InCustody s' := by
  refine ⟨h.1.later hlater, fun hstatus => ?_⟩
  obtain ⟨e, he, hkey⟩ := h.2 hstatus
  exact ⟨e, hlater.events e he, hkey⟩

/-- In every reachable state, receipts, rows and events agree on what is held for
what. -/
structure Custody (db : Db) : Prop where
  provenance : Provenance db.ledger
  /-- The status of a held receipt says what kind of transaction holds it. -/
  heldAs : ∀ r ∈ db.ledger.receipts, r.status.Held →
    ∃ txnType, r.sourceTxnType = some txnType ∧ HeldAs txnType r.status
  /-- What a hold's replay finds is held for the transaction of the hold. -/
  holds : ∀ e ∈ db.ledger.events, ∀ txnType txnId, holdKey txnType txnId = some e.idempotencyKey →
    ∀ k ∈ db.ledger.receipts, k.sourceEventId = some e.id → k.status.Held →
      MintedFor k txnType txnId
  /-- What the replay of a line's partial release finds is held for the line's lien. -/
  partials : ∀ e ∈ db.ledger.events, ∀ requestId lineId,
    e.idempotencyKey = partialKey requestId lineId →
      ∃ x ∈ db.releaseRequestLines, x.id = lineId ∧ ∃ l ∈ db.liens, l.id = x.lienId ∧
        ∀ k ∈ db.ledger.receipts, k.sourceEventId = some e.id → k.status.Held →
          MintedFor k .pledge l.pledgeId
  /-- A receipt minted for a withdrawal stems from the hold of its payment. -/
  payments : ∀ r ∈ db.ledger.receipts, ∀ id, MintedFor r .withdrawal id →
    ∃ e ∈ db.ledger.events, e.idempotencyKey = withdrawalKey id "hold"
  /-- One receipt at most is minted for a withdrawal. -/
  single : ∀ r ∈ db.ledger.receipts, ∀ r' ∈ db.ledger.receipts, ∀ id,
    MintedFor r .withdrawal id → MintedFor r' .withdrawal id → r.id = r'.id
  /-- The approval of a withdrawal's hold is about that receipt. -/
  approvals : ∀ e ∈ db.ledger.events, ∀ id, e.idempotencyKey = withdrawalKey id "approveHold" →
    e.eventType = .approved ∧
      ∃ r ∈ db.ledger.receipts, r.id = e.fromReceiptId ∧ MintedFor r .withdrawal id
  withdrawals : ∀ w ∈ db.withdrawals, w.InCustody db.ledger
  loans : ∀ l ∈ db.loans, HeldFor db.ledger l.receiptId .loan l.id
  trades : ∀ t ∈ db.trades, HeldFor db.ledger t.receiptId .trade t.id
  pledges : ∀ p ∈ db.pledges, ∀ heldReceiptId, p.heldReceiptId = some heldReceiptId →
    HeldFor db.ledger heldReceiptId .pledge p.id
  liens : ∀ l ∈ db.liens, HeldFor db.ledger l.receiptId .pledge l.pledgeId

theorem custody_initial (directory : Directory) : Custody (Db.initial directory) where
  provenance := provenance_empty
  heldAs := by simp [Db.initial]
  holds := by simp [Db.initial]
  partials := by simp [Db.initial]
  payments := by simp [Db.initial]
  single := by simp [Db.initial]
  approvals := by simp [Db.initial]
  withdrawals := by simp [Db.initial]
  loans := by simp [Db.initial]
  trades := by simp [Db.initial]
  pledges := by simp [Db.initial]
  liens := by simp [Db.initial]

end SecureStore.Services
