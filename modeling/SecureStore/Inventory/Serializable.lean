/-
# Ledger operations, statement by statement

A ledger operation is more than one step. It looks its key up outside any
transaction; it then submits its work as a serializable transaction, up to four
times when the database reports a serialization failure; a unique violation makes
it look the key up once more; and a replay reads the receipts in statements of
its own. In between, other calls commit, and the database may abort a transaction
or lose the answer of one that has committed.

The operations of the other modules are single steps. Here it is shown that this
is what the calls amount to, whatever runs beside them: the ledger moves by
committed operations only, one for each key, and an answer is that of the one
operation that a call committed or a replay of an earlier one.
-/

import SecureStore.Foundation.Calls
import SecureStore.Foundation.Paths
import SecureStore.Inventory.Replay

namespace SecureStore.Inventory

open SecureStore.Foundation

/-- What a statement or a transaction throws. -/
inductive TxError where
  | api (e : ApiError)
  /-- An error of the database or of the driver. -/
  | database (message : List Char)
  deriving DecidableEq

/-- Postgres serialization failure or deadlock, looked for in the error as JSON, in
lower case. -/
def isRetryableTxError (json : TxError → List Char) (e : TxError) : Bool :=
  ["40001", "40p01", "could not serialize", "deadlock detected"].any fun text =>
    decide (text.toList <:+: json e)

/-- What a call sends to the database. -/
inductive Statement where
  /-- `inventoryEvent.findUnique` -/
  | findKey
  /-- One submission of the operation's work. -/
  | transaction (call : LedgerCall) (weather : Weather TxError)
  /-- A read of receipts. -/
  | findReceipts

/-- A call as its statements. -/
abbrev LedgerApi (α : Type) := Attempt Statement Ledger TxError α

/-- A statement that reads, and may not find what it needs. -/
def queryReceipts {α : Type} (f : Ledger → Except ApiError α) : LedgerApi α := do
  let result ← Attempt.read .findReceipts f
  Attempt.ofExcept (result.mapError .api)

/-! ## What the operations write into a row -/

namespace Receipt

def approvedBy (ctx : ActorCtx) (r : Receipt) : Receipt :=
  { r with status := .active, approvalStatus := .approved, approvedById := ctx.actorUserId }

def rejectedBy (ctx : ActorCtx) (reason : String) (r : Receipt) : Receipt :=
  { r with
    status := .cancelled, approvalStatus := .rejected, rejectionReason := some reason,
    approvedById := ctx.actorUserId }

def holdApprovedBy (ctx : ActorCtx) (r : Receipt) : Receipt :=
  { r with approvalStatus := .approved, approvedById := ctx.actorUserId }

def consumed (r : Receipt) : Receipt := { r with status := .withdrawn }

def underLien (r : Receipt) : Receipt := { r with status := .heldLien }

def seizedBy (financierUserId : Id) (r : Receipt) : Receipt :=
  { r with status := .seized, clientId := financierUserId }

def ownedBy (newOwnerId : Id) (r : Receipt) : Receipt := { r with clientId := newOwnerId }

def expired (r : Receipt) : Receipt := { r with status := .expired }

def mintedBy (eventId : Id) (r : Receipt) : Receipt := { r with sourceEventId := some eventId }

end Receipt

theorem key_supersede : ∀ r, Keyed.key (supersede r) = Keyed.key r := fun _ => rfl

namespace LedgerOp

/-- What an operation checks of its input before anything else. -/
def checkInput : LedgerOp → Except ApiError Unit
  | deposit input => rejectIf (input.quantity ≤ 0) (.insufficientQuantity input.quantity 0)
  | _ => .ok ()

/-- The transaction of an operation, without the key around it. -/
def work (num : Numeric) (uuids : Uuids) : LedgerOp → Tx LedgerResult
  | deposit input => .node <$> do
      let id := uuids.primary
      let number := input.receiptNumber.getD
        ("WR-".toList ++ Nat.toDigits 10 input.currentYear ++ '-' :: idHead id)
      let root ← createReceipt num
        { id := id
          receiptNumber := number
          status := .pendingApproval
          tenantId := input.tenantId
          commodityId := input.commodityId
          quantity := input.quantity
          grade := input.grade
          warehouseId := input.warehouseId
          clientId := input.clientId
          approvalStatus := .pending
          parentReceiptId := none
          rootReceiptId := id
          sourceTxnType := some .deposit
          sourceTxnId := none
          sourceEventId := none
          dateOfDeposit := input.dateOfDeposit
          expiryDate := input.expiryDate }
      let ev ← event num
        (eventFrom uuids.event input.tenantId root .deposit (some .deposit) none input.quantity
          input.actorUserId input.idempotencyKey)
      updateReceipt id (.mintedBy ev.id)
  | approveReceipt ctx receiptId => .node <$>
      amendReceipt num ctx.tenantId receiptId
        (fun r => rejectIf (r.status ≠ .pendingApproval) (.notPendingApproval r.id r.status))
        (fun r => eventFrom uuids.event ctx.tenantId r .approved (some .deposit) none r.quantity
          ctx.actorUserId ctx.idempotencyKey)
        (.approvedBy ctx)
  | rejectReceipt ctx receiptId reason => .node <$>
      amendReceipt num ctx.tenantId receiptId
        (fun r => rejectIf (r.status ≠ .pendingApproval) (.notPendingApproval r.id r.status))
        (fun r => eventFrom uuids.event ctx.tenantId r .rejected (some .deposit) none r.quantity
          ctx.actorUserId ctx.idempotencyKey)
        (.rejectedBy ctx reason)
  | hold input => .held <$> do
      let src ← Tx.query (Ledger.loadOrThrow input.sourceReceiptId input.tenantId)
      Tx.throwIf (src.status ≠ .active ∨ src.approvalStatus ≠ .approved)
        (.receiptNotTransactable src.id src.status src.approvalStatus)
      Tx.throwIf (src.isParent = true)
        (.receiptNotTransactable src.id .split src.approvalStatus)
      Tx.throwIf (input.quantity ≤ 0) (.insufficientQuantity input.quantity 0)
      Tx.throwIf (src.quantity < input.quantity)
        (.insufficientQuantity input.quantity src.quantity)
      let ev ← event num
        (eventFrom uuids.event input.tenantId src .holdPlaced (some input.txnType)
          (some input.txnId) input.quantity input.actorUserId input.idempotencyKey)
      let (primary, remainder) ← partition num uuids src input.quantity
        { status := input.heldStatus.status
          approvalStatus := .pending
          clientId := src.clientId
          sourceTxnType := some input.txnType
          sourceTxnId := some input.txnId }
        ev.id
      pure { source := supersede src, held := some primary, remainder := remainder }
  | approveHold ctx heldReceiptId => .node <$>
      amendReceipt num ctx.tenantId heldReceiptId
        (fun r => do
          assertHeld r
          rejectIf (r.approvalStatus ≠ .pending) (.notAwaitingApproval r.id r.approvalStatus))
        (fun r => eventFrom uuids.event ctx.tenantId r .approved r.sourceTxnType r.sourceTxnId
          r.quantity ctx.actorUserId ctx.idempotencyKey)
        (.holdApprovedBy ctx)
  | release ctx heldReceiptId => .node <$> releaseWork num uuids ctx heldReceiptId
  | consume ctx heldReceiptId => .node <$>
      amendReceipt num ctx.tenantId heldReceiptId
        assertHeld
        (fun r => eventFrom uuids.event ctx.tenantId r .consumed r.sourceTxnType r.sourceTxnId
          r.quantity ctx.actorUserId ctx.idempotencyKey)
        .consumed
  | releasePartial input => .partlyReleased <$> do
      let src ← Tx.query (Ledger.loadOrThrow input.heldReceiptId input.tenantId)
      Tx.throwIf (src.status ≠ .heldLien) (.cannotPartiallyRelease src.status)
      Tx.throwIf (input.releaseQuantity ≤ 0) (.insufficientQuantity input.releaseQuantity 0)
      Tx.throwIf (src.quantity ≤ input.releaseQuantity)
        (.insufficientQuantity input.releaseQuantity src.quantity)
      let ev ← event num
        (eventFrom uuids.event input.tenantId src .holdReleased (some .pledge)
          (some input.releaseRequestId) input.releaseQuantity input.actorUserId
          input.idempotencyKey)
      let base := baseReceiptNumber src.receiptNumber
      let taken ← Tx.query fun s => .ok (existingChildSuffixes s.receipts.rows base)
      let primarySuffix := nextSuffix taken
      let released ← createReceipt num
        (childOf src uuids.primary (base ++ '-' :: primarySuffix) .active input.releaseQuantity
          src.clientId .approved none none ev.id)
      let remSuffix := nextSuffix (taken ++ [primarySuffix])
      let remainingHeld ← createReceipt num
        (childOf src uuids.remainder (base ++ '-' :: remSuffix) .heldLien
          (num.minus src.quantity input.releaseQuantity) src.clientId src.approvalStatus
          src.sourceTxnType src.sourceTxnId ev.id)
      let _ ← updateReceipt src.id supersede key_supersede
      pure { released := some released, remainingHeld := some remainingHeld }
  | transitionPledgeToLien ctx heldReceiptId pledgeId => .node <$>
      amendReceipt num ctx.tenantId heldReceiptId
        (fun r => rejectIf (r.status ≠ .heldPledgePending) (.cannotTransitionToLien r.status))
        (fun r => eventFrom uuids.event ctx.tenantId r .pledgeAccepted (some .pledge)
          (some pledgeId) r.quantity ctx.actorUserId ctx.idempotencyKey)
        .underLien
  | seize input => .seized <$> do
      let r ← Tx.query (Ledger.loadOrThrow input.heldLoanReceiptId input.tenantId)
      Tx.throwIf (r.status ≠ .heldLoan) (.notHeldLoan r.id r.status)
      let ev ← event num
        (eventFrom uuids.event input.tenantId r .seized (some .loan) r.sourceTxnId r.quantity
          input.actorUserId input.idempotencyKey)
      match input.partialQuantity with
      | some pq => do
          Tx.throwIf (pq ≤ 0 ∨ r.quantity ≤ pq) (.insufficientQuantity pq r.quantity)
          let (primary, remainder) ← partition num uuids r pq
            { status := .seized
              approvalStatus := .approved
              clientId := input.financierUserId
              sourceTxnType := some .loan
              sourceTxnId := r.sourceTxnId }
            ev.id
          pure { seized := some primary, remainder := remainder }
      | none => do
          let seized ← updateReceipt r.id (.seizedBy input.financierUserId)
          pure { seized := some seized, remainder := none }
  | transferOwnership ctx receiptId newOwnerId txnType txnId => .node <$>
      amendReceipt num ctx.tenantId receiptId
        (fun _ => .ok ())
        (fun r => eventFrom uuids.event ctx.tenantId r .ownershipTransferred (some txnType)
          (some txnId) r.quantity ctx.actorUserId ctx.idempotencyKey)
        (.ownedBy newOwnerId)
  | transferAndRelease ctx heldReceiptId newOwnerId txnType txnId withinTx => .node <$> Prod.fst <$>
      transferAndReleaseWork num uuids ctx heldReceiptId newOwnerId txnType txnId withinTx
  | expire ctx receiptId => .node <$>
      amendReceipt num ctx.tenantId receiptId
        (fun r => rejectIf (r.status ≠ .active) (.notExpirable r.id r.status))
        (fun r => eventFrom uuids.event ctx.tenantId r .expired none none r.quantity
          ctx.actorUserId ctx.idempotencyKey)
        .expired

/-- `affected`, as a statement. -/
def replayAffected (e : InventoryEvent) : LedgerApi LedgerResult := do
  let r ← queryReceipts (Ledger.affected e)
  pure (.node r)

/-- Rebuild the result of the operation that logged an event. -/
def reconstruct (scan : Scan Receipt) (e : InventoryEvent) : LedgerOp → LedgerApi LedgerResult
  | hold _ => do
      let kids ← Attempt.read .findReceipts (Ledger.byEvent scan e)
      let source ← queryReceipts (Ledger.affected e)
      pure <| .held
        { source := source
          held := kids.find? fun k => k.status.Held
          remainder := kids.find? fun k => k.status = .active }
  | releasePartial _ => do
      let kids ← Attempt.read .findReceipts (Ledger.byEvent scan e)
      pure <| .partlyReleased
        { released := kids.find? fun k => k.status = .active
          remainingHeld := kids.find? fun k => k.status = .heldLien }
  | seize _ => do
      let kids ← Attempt.read .findReceipts (Ledger.byEvent scan e)
      if kids ≠ [] then
        pure <| .seized
          { seized := kids.find? fun k => k.status = .seized
            remainder := kids.find? fun k => k.status = .active }
      else
        let seized ← queryReceipts (Ledger.affected e)
        pure <| .seized { seized := some seized, remainder := none }
  | _ => replayAffected e

end LedgerOp

/-- A call of an operation: the uuids that each submission draws, and what befalls it. -/
structure LedgerRequest where
  op : LedgerOp
  uuids : ℕ → Uuids
  weather : ℕ → Weather TxError

namespace LedgerRequest

variable (num : Numeric) (json : TxError → List Char) (r : LedgerRequest)

/-- One submission of the work. -/
def submit (attempt : ℕ) : LedgerApi LedgerResult :=
  let call : LedgerCall := ⟨r.uuids attempt, r.op⟩
  Attempt.transaction (.transaction call (r.weather attempt)) (r.weather attempt)
    fun s => (r.op.work num (r.uuids attempt) s).mapError .api

/-- Submit the work, and retry on serialization failures and deadlocks. -/
def withSerializableTx : LedgerApi LedgerResult :=
  Attempt.retrying (isRetryableTxError json) (r.submit num) 3 0

/-- Look the key up; on a prior event reconstruct. -/
def replayOr (missing : LedgerApi LedgerResult) : LedgerApi LedgerResult := do
  let prior ← Attempt.read .findKey fun s => s.events.find r.op.idempotencyKey
  match prior with
  | some e => r.op.reconstruct (r.uuids 0).scan e
  | none => missing

/-- The key lookup, the work, and the lookup after a unique violation. -/
def runIdempotent : LedgerApi LedgerResult :=
  r.replayOr <| (r.withSerializableTx num json).recover fun e =>
    if e = .api .uniqueViolation then r.replayOr (Attempt.throw e) else Attempt.throw e

def run : LedgerApi LedgerResult := do
  Attempt.ofExcept (r.op.checkInput.mapError .api)
  r.runIdempotent num json

end LedgerRequest

section Work

variable {num : Numeric} {uuids : Uuids} {s s' : Ledger} {result : LedgerResult}

theorem event_unused {e e' : InventoryEvent} (h : event num e s = .ok (e', s')) :
    ¬ s.Used e.idempotencyKey := by
  obtain ⟨rfl, -, hinsert, -⟩ := event_ok h
  exact not_used_iff.mpr (Table.insert_eq_some_iff.mp hinsert).1

theorem amendReceipt_unused {tenantId receiptId : Id} {check : Receipt → Except ApiError Unit}
    {entry : Receipt → InventoryEvent} {update : Receipt → Receipt}
    {hf : ∀ r, Keyed.key (update r) = Keyed.key r} {key : IdempotencyKey}
    (hkey : ∀ r, (entry r).idempotencyKey = key)
    (h : (LedgerResult.node <$>
      amendReceipt num tenantId receiptId check entry update hf) s = .ok (result, s')) :
    ¬ s.Used key := by
  obtain ⟨r', hamend, -⟩ := Tx.map_ok.mp h
  obtain ⟨r, -, -, -, -, hcommits⟩ := amendReceipt_ok hamend
  rw [← hkey r]
  have hnew := hcommits.event_fresh (List.mem_singleton_self (num.storeEvent (entry r)))
  exact not_used_iff.mpr hnew

/-- Work is committed under a new key only: each operation logs its key. -/
theorem work_unused {op : LedgerOp} (h : op.work num uuids s = .ok (result, s')) :
    ¬ s.Used op.idempotencyKey := by
  cases op with
  | deposit input =>
      simp only [LedgerOp.work, Tx.map_ok, Tx.bind_ok] at h
      obtain ⟨_, ⟨root, s₁, hcreate, ev, s₂, hevent, -⟩, -⟩ := h
      have hused := event_unused hevent
      rwa [Ledger.Used, (createReceipt_ok hcreate).2.events] at hused
  | hold input =>
      simp only [LedgerOp.work, Tx.map_ok, Tx.bind_ok, Tx.query_ok, Tx.throwIf_ok] at h
      obtain ⟨_, ⟨src, _, ⟨-, rfl⟩, _, _, ⟨-, rfl⟩, _, _, ⟨-, rfl⟩, _, _, ⟨-, rfl⟩, _, _,
        ⟨-, rfl⟩, ev, s₁, hevent, -⟩, -⟩ := h
      exact event_unused hevent
  | releasePartial input =>
      simp only [LedgerOp.work, Tx.map_ok, Tx.bind_ok, Tx.query_ok, Tx.throwIf_ok] at h
      obtain ⟨_, ⟨src, _, ⟨-, rfl⟩, _, _, ⟨-, rfl⟩, _, _, ⟨-, rfl⟩, _, _, ⟨-, rfl⟩, ev, s₁,
        hevent, -⟩, -⟩ := h
      exact event_unused hevent
  | seize input =>
      simp only [LedgerOp.work, Tx.map_ok, Tx.bind_ok, Tx.query_ok, Tx.throwIf_ok] at h
      obtain ⟨_, ⟨r, _, ⟨-, rfl⟩, _, _, ⟨-, rfl⟩, ev, s₁, hevent, -⟩, -⟩ := h
      exact event_unused hevent
  | transferAndRelease ctx id newOwnerId txnType txnId withinTx =>
      obtain ⟨r, hfirst, -⟩ := Tx.map_ok.mp h
      obtain ⟨done, hwork, -⟩ := Tx.map_ok.mp hfirst
      exact not_used_iff.mpr (transferAndReleaseWork_commits hwork).2.1
  | _ => exact amendReceipt_unused (fun _ => rfl) h

/-- Where its key is new, an operation is its work. -/
theorem call_of_work {op : LedgerOp} (hinput : op.checkInput = .ok ())
    (h : op.work num uuids s = .ok (result, s')) : op.call num uuids s = .ok (result, s') := by
  have hfree := not_used_iff.mp (work_unused h)
  cases op with
  | deposit input =>
      obtain ⟨root, hwork, rfl⟩ := Tx.map_ok.mp h
      have hpositive := rejectIf_ok.mp hinput
      refine Tx.map_ok.mpr ⟨root, ?_, rfl⟩
      refine Tx.bind_ok.mpr ⟨(), s, Tx.throwIf_ok.mpr ⟨hpositive, rfl⟩, ?_⟩
      exact runIdempotent_ok.mpr (.inr ⟨hfree, hwork⟩)
  | _ =>
      obtain ⟨value, hwork, rfl⟩ := Tx.map_ok.mp h
      exact Tx.map_ok.mpr ⟨value, runIdempotent_ok.mpr (.inr ⟨hfree, hwork⟩), rfl⟩

/-- A call uses its key. -/
theorem call_used {op : LedgerOp} (h : op.call num uuids s = .ok (result, s')) :
    s'.Used op.idempotencyKey := by
  cases call_outcome h with
  | replayed e prior reconstructs same => exact same ▸ used_of_find prior
  | committed free events change effect commits =>
      obtain ⟨e, he, -, hkey⟩ := effect.keyed_event
      exact commits.used_iff.mpr (.inr ⟨e, he, hkey⟩)

end Work

/-- How many of the steps submit a transaction. -/
def submissions (steps : List (Transition Statement Ledger)) : ℕ :=
  (steps.filter fun t => t.label matches .transaction _ _).length

/-- The call that a statement commits, if it commits one. -/
def commitOf (num : Numeric) (t : Transition Statement Ledger) : Option LedgerCall :=
  match t.label with
  | .transaction call weather =>
      if weather.Lands ∧ (call.op.work num call.uuids t.before).isOk = true then some call else none
  | _ => none

/-- The calls that a run commits, in their order. -/
def committedCalls (num : Numeric) (trace : List (Transition (ℕ × Statement) Ledger)) :
    List LedgerCall :=
  trace.filterMap fun t => commitOf num ⟨t.before, t.label.2, t.after⟩

/-- The receipts that a result names. -/
def LedgerResult.receipts : LedgerResult → List Receipt
  | node r => [r]
  | held result => result.source :: (result.held.toList ++ result.remainder.toList)
  | partlyReleased result => result.released.toList ++ result.remainingHeld.toList
  | seized result => result.seized.toList ++ result.remainder.toList

namespace LedgerRequest

variable (num : Numeric) (r : LedgerRequest) (steps : List (Transition Statement Ledger))

/-- One of the steps is the operation as a whole, and it returned the value. -/
def Performs (v : LedgerResult) : Prop :=
  ∃ t ∈ steps, ∃ call, commitOf num t = some call ∧ call.op = r.op ∧
    call.op.call num call.uuids t.before = .ok (v, t.after)

/-- The value was read back: the key was found in the log, and each receipt named is one
that the event under it is about or created, as it stood when it was read. -/
def Replays (v : LedgerResult) : Prop :=
  ∃ e, (∃ t ∈ steps, t.before.events.find r.op.idempotencyKey = some e) ∧
    ∀ x ∈ v.receipts, ∃ t ∈ steps, x ∈ t.before.receipts ∧
      (x.id = e.fromReceiptId ∨ x.sourceEventId = some e.id)

/-- What the steps of a call that has returned amount to, with at most n submissions: a
value is that of the operation performed or of a replay, and with an error nothing has
been committed unless an answer of the database was lost. -/
structure Served (n : ℕ) (answer : Except TxError LedgerResult) : Prop where
  answered : ∀ v, answer = .ok v → r.Performs num steps v ∨ r.Replays steps v
  refused : ∀ e, answer = .error e → (∀ i e', r.weather i ≠ .unanswered e') →
    ∀ t ∈ steps, commitOf num t = none
  bounded : submissions steps ≤ n

end LedgerRequest

/-- A statement commits an operation under a new key, or leaves the ledger as it was. -/
structure Advances (num : Numeric) (label : Statement) (s s' : Ledger) : Prop where
  committed : ∀ call, commitOf num ⟨s, label, s'⟩ = some call →
    ¬ s.Used call.op.idempotencyKey ∧ ∃ v, call.op.call num call.uuids s = .ok (v, s')
  idle : commitOf num ⟨s, label, s'⟩ = none → s' = s

section Steps

variable {num : Numeric} {json : TxError → List Char} {r : LedgerRequest}
  {steps : List (Transition Statement Ledger)}

theorem commitOf_eq_some {t : Transition Statement Ledger} {call : LedgerCall} :
    commitOf num t = some call ↔ ∃ weather, t.label = .transaction call weather ∧ weather.Lands ∧
      ∃ v s', call.op.work num call.uuids t.before = .ok (v, s') := by
  unfold commitOf
  split
  · rename_i call' weather hlabel
    rw [hlabel]
    constructor
    · intro h
      split at h
      · rename_i hcommits
        obtain rfl := Option.some_inj.mp h
        obtain ⟨hlands, hok⟩ := hcommits
        cases hwork : call'.op.work num call'.uuids t.before with
        | error e => simp [hwork, Except.isOk, Except.toBool] at hok
        | ok p => exact ⟨weather, rfl, hlands, p.1, p.2, rfl⟩
      · cases h
    · rintro ⟨_, heq, hlands, v, s', hwork⟩
      obtain ⟨rfl, rfl⟩ := Statement.transaction.inj heq
      exact if_pos ⟨hlands, by simp [hwork, Except.isOk, Except.toBool]⟩
  · rename_i hlabel
    simp only [reduceCtorEq, false_iff, not_exists]
    rintro weather ⟨hcall, -⟩
    exact hlabel call weather hcall

/-- What is not a transaction commits nothing. -/
theorem commitOf_eq_none {t : Transition Statement Ledger}
    (h : ∀ call weather, t.label ≠ .transaction call weather) : commitOf num t = none := by
  rw [Option.eq_none_iff_forall_ne_some]
  intro call hcommit
  obtain ⟨weather, hlabel, -⟩ := commitOf_eq_some.mp hcommit
  exact h call weather hlabel

theorem advances_read {label : Statement}
    (h : ∀ call weather, label ≠ .transaction call weather) (s : Ledger) :
    Advances num label s s := by
  have hnone : commitOf num ⟨s, label, s⟩ = none := commitOf_eq_none h
  refine ⟨fun call hcommit => ?_, fun _ => rfl⟩
  rw [hnone] at hcommit
  cases hcommit

theorem advances_findKey (s : Ledger) : Advances num .findKey s s :=
  advances_read (fun _ _ h => by cases h) s

theorem advances_findReceipts (s : Ledger) : Advances num .findReceipts s s :=
  advances_read (fun _ _ h => by cases h) s

/-- Reading back an event takes statements that read receipts only. -/
theorem reconstruct_takes {R : Statement → Ledger → Ledger → Prop}
    (hreceipts : ∀ s, R .findReceipts s s) {scan : Scan Receipt} (op : LedgerOp)
    (e : InventoryEvent) : Process.Takes R (op.reconstruct scan e) := by
  have hquery : ∀ {α : Type} (f : Ledger → Except ApiError α),
      Process.Takes R (queryReceipts f) := fun f =>
    takes_read hreceipts fun s => by cases f s <;> trivial
  have haffected : Process.Takes R (LedgerOp.replayAffected e) :=
    takes_bind (hquery _) fun _ => trivial
  cases op with
  | hold input =>
      exact takes_read hreceipts fun s => takes_bind (hquery _) fun _ => trivial
  | releasePartial input => exact takes_read hreceipts fun s => trivial
  | seize input =>
      refine takes_read hreceipts fun s => ?_
      split
      · trivial
      · exact takes_bind (hquery _) fun _ => trivial
  | _ => exact haffected

/-- The statements of a call are its lookups, its reads and its submissions. -/
theorem run_takes_of {R : Statement → Ledger → Ledger → Prop} (hkey : ∀ s, R .findKey s s)
    (hreceipts : ∀ s, R .findReceipts s s)
    (hsubmit : r.op.checkInput = .ok () → ∀ n, Process.Takes R (r.submit num n)) :
    Process.Takes R (r.run num json) := by
  have hreplay : ∀ {missing : LedgerApi LedgerResult}, Process.Takes R missing →
      Process.Takes R (r.replayOr missing) := by
    intro missing hmissing
    refine takes_read hkey fun s => ?_
    split
    · exact reconstruct_takes hreceipts r.op _
    · exact hmissing
  refine takes_ofExcept fun u hchecked => ?_
  have hinput : r.op.checkInput = .ok () := Call.mapError_ok.mp hchecked
  apply hreplay
  refine takes_recover (Attempt.takes_retrying (hsubmit hinput) 3 0) fun e => ?_
  split
  · exact hreplay trivial
  · trivial

theorem submit_takes (hinput : r.op.checkInput = .ok ()) (n : ℕ) :
    Process.Takes (Advances num) (r.submit num n) := by
  refine Attempt.takes_transaction (fun hlands s v s' hbody => ?_) fun s hfails => ?_
  · have hwork := Call.mapError_ok.mp hbody
    have hcommit : commitOf num ⟨s, .transaction ⟨r.uuids n, r.op⟩ (r.weather n), s'⟩ =
        some ⟨r.uuids n, r.op⟩ := commitOf_eq_some.mpr ⟨_, rfl, hlands, v, s', hwork⟩
    refine ⟨fun call hcall => ?_, fun hnone => ?_⟩
    · obtain rfl := Option.some_inj.mp (hcommit.symm.trans hcall)
      exact ⟨work_unused hwork, v, call_of_work hinput hwork⟩
    · rw [hcommit] at hnone
      cases hnone
  · refine ⟨fun call hcall => ?_, fun _ => rfl⟩
    obtain ⟨weather, hlabel, hlands, v, s', hwork⟩ := commitOf_eq_some.mp hcall
    obtain ⟨rfl, rfl⟩ := Statement.transaction.inj hlabel
    exact absurd (Call.mapError_ok.mpr hwork) (hfails hlands v s')

/-- Every statement of a call commits its operation under a new key, or nothing. -/
theorem run_takes : Process.Takes (Advances num) (r.run num json) :=
  run_takes_of advances_findKey advances_findReceipts submit_takes

/-- What a call submits is its own operation. -/
theorem run_submits : Process.Takes
    (fun label _ _ => ∀ call weather, label = .transaction call weather → call.op = r.op)
    (r.run num json) := by
  refine run_takes_of (fun _ _ _ h => by cases h) (fun _ _ _ h => by cases h) fun _ n s => ?_
  refine ⟨fun call weather hlabel => ?_, trivial⟩
  obtain ⟨rfl, -⟩ := Statement.transaction.inj hlabel
  rfl

end Steps

section Answers

variable {num : Numeric} {json : TxError → List Char} {r : LedgerRequest}
  {steps : List (Transition Statement Ledger)} {answer : Except TxError LedgerResult}

/-- The statements that read receipts. -/
def Reading (label : Statement) (s s' : Ledger) : Prop := label = .findReceipts ∧ s' = s

theorem queryReceipts_path {α : Type} {f : Ledger → Except ApiError α} {a : α}
    (h : Path (queryReceipts f) steps (.done (.ok a))) :
    ∃ s, steps = [⟨s, .findReceipts, s⟩] ∧ f s = .ok a := by
  obtain ⟨s, late, rfl, hlate⟩ := Attempt.path_read h
  obtain ⟨rfl, hresult⟩ := hlate.of_done
  exact ⟨s, rfl, Call.mapError_ok.mp (Process.done.inj hresult).symm⟩

theorem mem_of_affected {s : Ledger} {e : InventoryEvent} {x : Receipt}
    (h : s.affected e = .ok x) : x ∈ s.receipts ∧ x.id = e.fromReceiptId := by
  have hfind := (Ledger.loadOrThrow_ok.mp h).1
  exact ⟨Table.mem_of_find hfind, Table.key_of_find hfind⟩

theorem mem_of_byEvent {scan : Scan Receipt} {s : Ledger} {e : InventoryEvent}
    {p : Receipt → Bool} {x : Receipt} (h : x ∈ ((s.byEvent scan e).find? p).toList) :
    x ∈ s.receipts ∧ x.sourceEventId = some e.id :=
  Ledger.mem_byEvent.mp (List.mem_of_find?_eq_some (Option.mem_toList.mp h))

/-- A replay that ends with the receipt an event is about. -/
theorem affected_path {e : InventoryEvent} {g : Receipt → LedgerResult} {v : LedgerResult}
    (h : Path (queryReceipts (Ledger.affected e) >>= fun y => pure (g y) : LedgerApi LedgerResult)
      steps (.done (.ok v))) :
    ∃ s y, steps = [⟨s, .findReceipts, s⟩] ∧ y ∈ s.receipts ∧ y.id = e.fromReceiptId ∧
      v = g y := by
  rcases Attempt.path_bind h with ⟨y, early, late, rfl, hearly, hlate⟩ | ⟨err, -, herr⟩
  · obtain ⟨s, rfl, haffected⟩ := queryReceipts_path hearly
    obtain ⟨rfl, hv⟩ := Attempt.path_pure hlate
    obtain ⟨hmem, hid⟩ := mem_of_affected haffected
    exact ⟨s, y, rfl, hmem, hid, Except.ok.inj hv⟩
  · cases herr

/-- What is read back about an event is what stands in the ledger when it is read. -/
theorem reconstruct_named {scan : Scan Receipt} {op : LedgerOp} {e : InventoryEvent}
    {v : LedgerResult} (h : Path (op.reconstruct scan e) steps (.done (.ok v))) :
    ∀ x ∈ v.receipts, ∃ t ∈ steps, x ∈ t.before.receipts ∧
      (x.id = e.fromReceiptId ∨ x.sourceEventId = some e.id) := by
  intro x hx
  -- the children of the event are read in the first statement
  have hkid : ∀ {s : Ledger} {late : List (Transition Statement Ledger)} {p q : Receipt → Bool},
      x ∈ ((s.byEvent scan e).find? p).toList ++ ((s.byEvent scan e).find? q).toList →
      ∃ t ∈ ⟨s, .findReceipts, s⟩ :: late, x ∈ t.before.receipts ∧
        (x.id = e.fromReceiptId ∨ x.sourceEventId = some e.id) := by
    intro s late p q hkids
    have hfound : x ∈ s.receipts ∧ x.sourceEventId = some e.id := by
      rcases List.mem_append.mp hkids with hkid | hkid <;> exact mem_of_byEvent hkid
    exact ⟨_, List.mem_cons_self, hfound.1, .inr hfound.2⟩
  have hnode : Path (LedgerOp.replayAffected e) steps (.done (.ok v)) →
      ∃ t ∈ steps, x ∈ t.before.receipts ∧
        (x.id = e.fromReceiptId ∨ x.sourceEventId = some e.id) := by
    intro h
    obtain ⟨s, y, rfl, hmem, hid, rfl⟩ := affected_path h
    obtain rfl := List.mem_singleton.mp hx
    exact ⟨_, List.mem_cons_self, hmem, .inl hid⟩
  cases op with
  | hold input =>
      obtain ⟨s, late, rfl, hlate⟩ := Attempt.path_read h
      obtain ⟨s', y, rfl, hmem, hid, rfl⟩ := affected_path hlate
      rcases List.mem_cons.mp hx with rfl | hkids
      · exact ⟨⟨s', _, s'⟩, List.mem_cons_of_mem _ List.mem_cons_self, hmem, .inl hid⟩
      · exact hkid hkids
  | releasePartial input =>
      obtain ⟨s, late, rfl, hlate⟩ := Attempt.path_read h
      obtain ⟨rfl, hv⟩ := Attempt.path_pure hlate
      obtain rfl := Except.ok.inj hv
      exact hkid hx
  | seize input =>
      obtain ⟨s, late, rfl, hlate⟩ := Attempt.path_read h
      split at hlate
      · obtain ⟨rfl, hv⟩ := Attempt.path_pure hlate
        obtain rfl := Except.ok.inj hv
        exact hkid hx
      · obtain ⟨s', y, rfl, hmem, hid, rfl⟩ := affected_path hlate
        obtain rfl : x = y := by simpa [LedgerResult.receipts] using hx
        exact ⟨⟨s', _, s'⟩, List.mem_cons_of_mem _ List.mem_cons_self, hmem, .inl hid⟩
  | _ => exact hnode h

theorem submissions_append (early late : List (Transition Statement Ledger)) :
    submissions (early ++ late) = submissions early + submissions late := by
  simp [submissions]

namespace LedgerRequest

theorem Served.mono {n m : ℕ} (h : r.Served num steps n answer) (hle : n ≤ m) :
    r.Served num steps m answer :=
  ⟨h.answered, h.refused, h.bounded.trans hle⟩

/-- What failed first and was then gone on with. -/
theorem Served.append {n m : ℕ} {e : TxError} {early late : List (Transition Statement Ledger)}
    (h : r.Served num early n (.error e)) (h' : r.Served num late m answer) :
    r.Served num (early ++ late) (n + m) answer := by
  refine ⟨fun v hv => ?_, fun e' he' hanswered t ht => ?_, ?_⟩
  · rcases h'.answered v hv with ⟨t, ht, hcall⟩ | ⟨e, ⟨t, ht, hfind⟩, hnamed⟩
    · exact .inl ⟨t, List.mem_append_right _ ht, hcall⟩
    · refine .inr ⟨e, ⟨t, List.mem_append_right _ ht, hfind⟩, fun x hx => ?_⟩
      obtain ⟨t', ht', hx'⟩ := hnamed x hx
      exact ⟨t', List.mem_append_right _ ht', hx'⟩
  · rcases List.mem_append.mp ht with ht | ht
    · exact h.refused e rfl hanswered t ht
    · exact h'.refused e' he' hanswered t ht
  · rw [submissions_append]
    exact Nat.add_le_add h.bounded h'.bounded

/-- An error thrown without a step. -/
theorem served_throw (e : TxError) : r.Served num [] 0 (.error e) :=
  ⟨fun v hv => (by cases hv), by simp, le_refl 0⟩

/-- A key lookup, before whatever follows. -/
theorem served_findKey (s : Ledger) (e : TxError) :
    r.Served num [⟨s, .findKey, s⟩] 0 (.error e) := by
  refine ⟨fun v hv => (by cases hv), fun _ _ _ t ht => ?_, by simp [submissions]⟩
  obtain rfl := List.mem_singleton.mp ht
  exact commitOf_eq_none fun call weather hlabel => by cases hlabel

/-- A key that was found, and the replay of its event. -/
theorem served_replay {scan : Scan Receipt} {s : Ledger} {e : InventoryEvent}
    (hfind : s.events.find r.op.idempotencyKey = some e)
    (h : Path (r.op.reconstruct scan e) steps (.done answer)) :
    r.Served num (⟨s, .findKey, s⟩ :: steps) 0 answer := by
  have hlabel : ∀ t ∈ (⟨s, .findKey, s⟩ : Transition Statement Ledger) :: steps,
      ∀ call weather, t.label ≠ .transaction call weather := by
    intro t ht call weather hcall
    rcases List.mem_cons.mp ht with rfl | ht
    · cases hcall
    · have hread := (reconstruct_takes (R := Reading) (fun _ => ⟨rfl, rfl⟩) r.op e).path h t ht
      cases hread.1.symm.trans hcall
  refine ⟨?_, fun _ _ _ t ht => commitOf_eq_none (hlabel t ht), ?_⟩
  · rintro v rfl
    refine .inr ⟨e, ⟨_, List.mem_cons_self, hfind⟩, fun x hx => ?_⟩
    obtain ⟨t, ht, hnamed⟩ := reconstruct_named h x hx
    exact ⟨t, List.mem_cons_of_mem _ ht, hnamed⟩
  · refine le_of_eq (List.length_eq_zero_iff.mpr (List.filter_eq_nil_iff.mpr fun t ht => ?_))
    cases hcall : t.label with
    | transaction call weather => exact absurd hcall (hlabel t ht call weather)
    | _ => simp

/-- A submission that was answered. -/
theorem served_submit (hinput : r.op.checkInput = .ok ()) {n : ℕ}
    (h : Path (r.submit num n) steps (.done answer)) : r.Served num steps 1 answer := by
  obtain ⟨t, rfl, hlabel, hcases⟩ := Attempt.transaction_cases h
  refine ⟨?_, ?_, by simp [submissions, hlabel]⟩
  · rintro v rfl
    rcases hcases with ⟨v', hfair, hbody, hv⟩ | ⟨_, _, _, _, hv⟩ | ⟨_, _, hv, _⟩
    · obtain rfl := Except.ok.inj hv
      have hwork := Call.mapError_ok.mp hbody
      have hlands : (r.weather n).Lands := by rw [hfair]; trivial
      exact .inl ⟨t, List.mem_cons_self, _,
        commitOf_eq_some.mpr ⟨_, hlabel, hlands, _, _, hwork⟩, rfl, call_of_work hinput hwork⟩
    · cases hv
    · cases hv
  · rintro e rfl hanswered t' ht'
    obtain rfl := List.mem_singleton.mp ht'
    rw [Option.eq_none_iff_forall_ne_some]
    intro call hcommit
    obtain ⟨weather, hlabel', hlands, v, s', hwork⟩ := commitOf_eq_some.mp hcommit
    obtain ⟨rfl, rfl⟩ := Statement.transaction.inj (hlabel.symm.trans hlabel')
    rcases hcases with ⟨_, _, _, hv⟩ | ⟨_, e', hlost, _, _⟩ | ⟨_, _, _, hfailed⟩
    · cases hv
    · exact hanswered n e' hlost
    · rcases hfailed with hdown | hbody
      · exact hdown hlands
      · simp [hwork, Except.mapError] at hbody

/-- The loop submits four times at most, and its last submission makes the answer. -/
theorem served_withSerializableTx (hinput : r.op.checkInput = .ok ())
    (h : Path (r.withSerializableTx num json) steps (.done answer)) :
    r.Served num steps 4 answer := by
  refine Attempt.retrying_cases
    (P := fun retries steps answer => r.Served num steps (retries + 1) answer) ?_ ?_ h
  · intro retries n steps answer hpath
    exact (served_submit hinput hpath).mono (Nat.le_add_left 1 retries)
  · intro retries n e early late answer hpath _ hlate
    exact ((served_submit hinput hpath).append hlate).mono (by omega)

/-- A key lookup that went on to an answer: by way of a replay, or of what stands for a
key that is missing. -/
theorem served_replayOr {n : ℕ} {missing : LedgerApi LedgerResult}
    (h : Path (r.replayOr missing) steps (.done answer))
    (hmissing : ∀ late, Path missing late (.done answer) → r.Served num late n answer) :
    r.Served num steps n answer := by
  obtain ⟨s, late, rfl, hlate⟩ := Attempt.path_read h
  split at hlate
  · rename_i e hfind
    exact (served_replay hfind hlate).mono (Nat.zero_le n)
  · have hserved := (served_findKey s (.database [])).append (hmissing late hlate)
    exact hserved.mono (by omega)

/-- A call that has returned is served. -/
theorem served_run (h : Path (r.run num json) steps (.done answer)) :
    r.Served num steps 4 answer := by
  rcases Attempt.path_ofExcept h with ⟨u, hchecked, hrun⟩ | ⟨e, -, rfl, rfl⟩
  · have hinput : r.op.checkInput = .ok () := Call.mapError_ok.mp hchecked
    refine served_replayOr hrun fun late hlate => ?_
    rcases Attempt.path_recover hlate with ⟨v, hpath, rfl⟩ | ⟨e, early, late, rfl, hearly, hrest⟩
    · exact served_withSerializableTx hinput hpath
    · refine (served_withSerializableTx hinput hearly).append (m := 0) ?_
      split at hrest
      · refine served_replayOr hrest fun last hlast => ?_
        obtain ⟨rfl, rfl⟩ := Attempt.path_throw hlast
        exact served_throw e
      · obtain ⟨rfl, rfl⟩ := Attempt.path_throw hrest
        exact served_throw e
  · exact (served_throw e).mono (Nat.zero_le 4)

end LedgerRequest

end Answers

/-- What a transaction answers, and the ledger it leaves behind. -/
def Tx.answer {α : Type} (tx : Tx α) (s : Ledger) : Except TxError α × Ledger :=
  match tx s with
  | .ok (a, s') => (.ok a, s')
  | .error e => (.error (.api e), s)

section Undisturbed

variable {num : Numeric} {json : TxError → List Char} {uuids : Uuids} {op : LedgerOp}
  {r : LedgerRequest} {s : Ledger} {e : InventoryEvent}

/-- Under a new key a call is its work. -/
theorem call_free (hinput : op.checkInput = .ok ())
    (hfree : s.events.find op.idempotencyKey = none) :
    op.call num uuids s = op.work num uuids s := by
  cases op with
  | deposit input =>
      have hpassed : Inventory.deposit num uuids input s = _ :=
        congrFun (Tx.throwIf_bind (rejectIf_ok.mp hinput) _ _) s
      exact Tx.map_congr (hpassed.trans (runIdempotent_free hfree)) _
  | _ => exact Tx.map_congr (runIdempotent_free hfree) _

/-- Input that is refused is refused by the call. -/
theorem call_refused {e : ApiError} (h : op.checkInput = .error e) :
    op.call num uuids s = .error e := by
  cases op with
  | deposit input =>
      have hcheck : rejectIf (input.quantity ≤ 0) (.insufficientQuantity input.quantity 0) =
          .error e := h
      unfold rejectIf at hcheck
      split at hcheck
      · cases hcheck
        have hthrown : Inventory.deposit num uuids input s = _ := Tx.throwIf_throws ‹_› _ _ s
        have hmapped : (LedgerResult.node <$> Inventory.deposit num uuids input : Tx _) s =
            (LedgerResult.node <$> fun _ => .error _ : Tx _) s := Tx.map_congr hthrown _
        exact hmapped
      · cases hcheck
  | _ => cases h

theorem queryReceipts_exec {α β : Type} (f : Ledger → Except ApiError α) (g : α → β) :
    (queryReceipts f >>= fun a => pure (g a) : LedgerApi β).exec s =
      Tx.answer (g <$> Tx.query f) s := by
  have hquery : (queryReceipts f).exec s = ((f s).mapError .api, s) := rfl
  rw [Attempt.exec_bind, hquery, Tx.answer, Tx.map_query]
  cases f s <;> rfl

/-- Under a key in the log a call is read back. -/
theorem call_prior (hinput : op.checkInput = .ok ())
    (hprior : s.events.find op.idempotencyKey = some e) :
    (op.reconstruct uuids.scan e).exec s = Tx.answer (op.call num uuids) s := by
  have hcall : ∀ {α : Type} {f : α → LedgerResult} {tx : Tx α}
      {reconstruct : InventoryEvent → Ledger → Except ApiError α},
      tx s = Tx.query (reconstruct e) s →
        Tx.answer (f <$> tx) s = Tx.answer (f <$> Tx.query (reconstruct e)) s := by
    intro α f tx reconstruct htx
    unfold Tx.answer
    rw [Tx.map_congr htx]
  cases op with
  | deposit input =>
      have hpassed : Inventory.deposit num uuids input s = _ :=
        congrFun (Tx.throwIf_bind (rejectIf_ok.mp hinput) _ _) s
      exact (queryReceipts_exec _ _).trans (hcall (hpassed.trans (runIdempotent_prior hprior))).symm
  | hold input =>
      refine Eq.trans ?_ (hcall (runIdempotent_prior hprior)).symm
      refine (Attempt.exec_bind_ok (Attempt.exec_read _ _ s)).trans ?_
      rw [queryReceipts_exec]
      unfold Tx.answer
      rw [Tx.map_query, Tx.map_query]
      cases s.affected e <;> rfl
  | releasePartial input =>
      refine Eq.trans ?_ (hcall (runIdempotent_prior hprior)).symm
      rfl
  | seize input =>
      refine Eq.trans ?_ (hcall (runIdempotent_prior hprior)).symm
      refine (Attempt.exec_bind_ok (Attempt.exec_read _ _ s)).trans ?_
      unfold Tx.answer
      rw [Tx.map_query]
      by_cases hkids : s.byEvent uuids.scan e ≠ []
      · simp only [if_pos hkids]
        rfl
      · simp only [if_neg hkids]
        rw [queryReceipts_exec]
        unfold Tx.answer
        rw [Tx.map_query]
        cases s.affected e <;> rfl
  | _ => exact (queryReceipts_exec _ _).trans (hcall (runIdempotent_prior hprior)).symm

namespace LedgerRequest

/-- A lookup of the key, with nothing in between. -/
theorem replayOr_exec {missing : LedgerApi LedgerResult} (hinput : r.op.checkInput = .ok ())
    (hmissing : s.events.find r.op.idempotencyKey = none →
      missing.exec s = Tx.answer (r.op.call num (r.uuids 0)) s) :
    (r.replayOr missing).exec s = Tx.answer (r.op.call num (r.uuids 0)) s := by
  refine (Attempt.exec_bind_ok (Attempt.exec_read _ _ s)).trans ?_
  cases hfind : s.events.find r.op.idempotencyKey with
  | none => exact hmissing hfind
  | some e => exact call_prior hinput hfind

/-- With nothing in between, and when nothing befalls its transactions, the statements of a call
are the operation in one step. -/
theorem run_exec (hfair : ∀ n, r.weather n = .fair) (huuids : ∀ n, r.uuids n = r.uuids 0) :
    (r.run num json).exec s = Tx.answer (r.op.call num (r.uuids 0)) s := by
  unfold run
  cases hchecked : r.op.checkInput with
  | error e =>
      rw [Tx.answer, call_refused hchecked]
      rfl
  | ok u =>
      refine replayOr_exec hchecked fun hfree => ?_
      have hcall : r.op.call num (r.uuids 0) s = r.op.work num (r.uuids 0) s :=
        call_free hchecked hfree
      have hsubmit : ∀ n, (r.submit num n).exec s =
          Tx.answer (r.op.work num (r.uuids 0)) s := by
        intro n
        unfold submit
        rw [hfair n, huuids n, Attempt.exec_transaction_fair]
        unfold Tx.answer
        cases r.op.work num (r.uuids 0) s <;> rfl
      rw [Attempt.exec_recover, Tx.answer, hcall]
      cases hwork : r.op.work num (r.uuids 0) s with
      | ok result =>
          have hpassed : (r.withSerializableTx num json).exec s = (.ok result.1, result.2) := by
            apply Attempt.exec_retrying_ok
            rw [hsubmit, Tx.answer, hwork]
          rw [hpassed]
      | error e =>
          have hthrown : (r.withSerializableTx num json).exec s = (.error (.api e), s) := by
            refine Attempt.exec_retrying_error (fun n => ?_) 3 0
            rw [hsubmit, Tx.answer, hwork]
          rw [hthrown]
          simp only []
          split
          · -- the key is not found after the violation either
            have hanswer : Tx.answer (r.op.call num (r.uuids 0)) s = (.error (.api e), s) := by
              rw [Tx.answer, hcall, hwork]
            have hagain : (r.replayOr (Attempt.throw (.api e))).exec s =
                Tx.answer (r.op.call num (r.uuids 0)) s :=
              replayOr_exec hchecked fun _ => hanswer.symm
            exact hagain.trans hanswer
          · rfl

end LedgerRequest

end Undisturbed

section Runs

variable {num : Numeric} {json : TxError → List Char}

theorem committedCalls_append (trace : List (Transition (ℕ × Statement) Ledger))
    (t : Transition (ℕ × Statement) Ledger) : committedCalls num (trace ++ [t]) =
      committedCalls num trace ++ (commitOf num ⟨t.before, t.label.2, t.after⟩).toList := by
  rw [committedCalls, List.filterMap_append, ← committedCalls]
  cases h : commitOf num ⟨t.before, t.label.2, t.after⟩ <;> simp [h]

/-- However the statements of the calls interleave, and whatever befalls their
transactions, the ledger is what the committed operations make of it one after another,
each under a key of its own that no event had, and every call that has returned is
served by its own steps. -/
theorem calls_serialize {requests : List LedgerRequest} {s s' : Ledger}
    {trace : List (Transition (ℕ × Statement) Ledger)}
    {pool : List (Process (ℕ × Statement) Ledger (Except TxError LedgerResult))}
    (hrun : Run s (numbered (requests.map (LedgerRequest.run num json))) trace s' pool) :
    s' = runCalls num (committedCalls num trace) s ∧
      ((committedCalls num trace).map fun c => c.op.idempotencyKey).Nodup ∧
      (∀ c ∈ committedCalls num trace, ¬ s.Used c.op.idempotencyKey ∧
        s'.Used c.op.idempotencyKey) ∧
      ∀ (i : ℕ) r answer, requests[i]? = some r → pool[i]?.bind Process.result = some answer →
        r.Served num (own i trace) 4 answer := by
  have htakes : ∀ p ∈ numbered (requests.map (LedgerRequest.run num json)),
      p.Takes fun l => Advances num l.2 := by
    refine takes_numbered fun p hp => ?_
    obtain ⟨r, -, rfl⟩ := List.mem_map.mp hp
    exact run_takes
  let moved (trace : List _) (s' : Ledger) : Prop :=
    s' = runCalls num (committedCalls num trace) s ∧
      ((committedCalls num trace).map fun c => c.op.idempotencyKey).Nodup ∧
      (∀ c ∈ committedCalls num trace, ¬ s.Used c.op.idempotencyKey ∧
        s'.Used c.op.idempotencyKey) ∧ ∀ key, s.Used key → s'.Used key
  have hmoves := @Run.along _ _ _ _ _ _ _ _ _ moved (fun _ _ => True) hrun htakes
    (fun _ _ => trivial) ⟨rfl, by simp [committedCalls], by simp [committedCalls],
      fun _ => id⟩ ?_
  · refine ⟨hmoves.1, hmoves.2.1, hmoves.2.2.1, fun i r answer hr hanswer => ?_⟩
    obtain ⟨p, hp, hpath⟩ := hrun.returned hanswer
    have hmap : requests[i]?.map (LedgerRequest.run num json) = some p :=
      List.getElem?_map.symm.trans hp
    rw [hr] at hmap
    obtain rfl := Option.some_inj.mp hmap
    exact LedgerRequest.served_run hpath
  · intro trace t ⟨hstate, hnodup, hkeys, hused⟩ _ hadvances
    simp only [moved, committedCalls_append]
    cases hcommit : commitOf num ⟨t.before, t.label.2, t.after⟩ with
    | none =>
        have hsame := hadvances.idle hcommit
        simpa [hsame] using ⟨hstate, hnodup, hkeys, hused⟩
    | some call =>
        obtain ⟨hnew, v, hcall⟩ := hadvances.committed call hcommit
        have hkept : ∀ key, t.before.Used key → t.after.Used key := fun key =>
          (call_outcome hcall).used
        have hafter : t.after = call.after num t.before := by
          simp [LedgerCall.after, hcall]
        refine ⟨?_, ?_, ?_, fun key hkey => hkept key (hused key hkey)⟩
        · rw [hafter, hstate, Option.toList_some, runCalls_append]
          rfl
        · rw [Option.toList_some, List.map_append, List.nodup_append]
          refine ⟨hnodup, by simp, ?_⟩
          rintro key hkey _ hlast rfl
          obtain rfl := List.mem_singleton.mp hlast
          obtain ⟨c, hc, hsame⟩ := List.mem_map.mp hkey
          have hold := (hkeys c hc).2
          rw [hsame] at hold
          exact hnew hold
        · intro c hc
          rcases List.mem_append.mp hc with hc | hc
          · exact ⟨(hkeys c hc).1, hkept _ (hkeys c hc).2⟩
          · obtain rfl := List.mem_singleton.mp hc
            exact ⟨fun hold => hnew (hused _ hold), call_used hcall⟩

/-- The sample hold, filed twice: the database loses the answer of the first submission and
reports a serialization failure, so the call works again on a receipt it has split, and
the client files it once more under the same key. -/
def sampleResubmission : List LedgerRequest :=
  let weather (n : ℕ) : Weather TxError :=
    if n = 0 then .unanswered (.database "40001".toList) else .fair
  [⟨sampleHold.op, fun _ => sampleHold.uuids, weather⟩,
    ⟨sampleHold.op, fun _ => sampleHold.uuids, fun _ => .fair⟩]

/-- An error as JSON, as far as the sample needs it. -/
def sampleJson : TxError → List Char
  | .api _ => []
  | .database message => message

/-- The theorem at the sample: the receipt is split once, and the second call replays. -/
theorem calls_serialize_sample :
    let s := runCalls .decimalJs sampleDeposit Ledger.empty
    let run := interleave [0, 0, 0, 1, 1, 1] s
      (numbered (sampleResubmission.map (LedgerRequest.run .decimalJs sampleJson)))
    (committedCalls .decimalJs run.1).length = 1 ∧
      run.2.1 = runCalls .decimalJs (committedCalls .decimalJs run.1) s ∧
      run.2.2.map (fun p => p.result.map Except.isOk) = [some false, some true] :=
  ⟨by decide +kernel, (calls_serialize (run_interleave _ _ _)).1, by decide +kernel⟩

end Runs

end SecureStore.Inventory
