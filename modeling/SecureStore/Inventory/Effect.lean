/-
# The effect of each ledger operation

For every operation: when it commits, which events it appends, how the receipts
change and what it returns; and what it returns on a replay. One theorem says
that a call that returns did one of the two.
-/

import SecureStore.Inventory.Commit

namespace SecureStore.Inventory

open SecureStore.Foundation

/-- The row with an id, in a tenant. -/
def Loaded (s : Ledger) (id tenantId : Id) (r : Receipt) : Prop :=
  s.receipts.find id = some r ∧ r.tenantId = tenantId

/-- The row of a deposited root. -/
@[simps]
def depositRoot (num : Numeric) (uuids : Uuids) (input : DepositInput) : Receipt where
  id := uuids.primary
  receiptNumber := input.receiptNumber.getD
    ("WR-".toList ++ Nat.toDigits 10 input.currentYear ++ '-' :: idHead uuids.primary)
  status := .pendingApproval
  tenantId := input.tenantId
  commodityId := input.commodityId
  quantity := num.numeric18_3 input.quantity
  grade := input.grade
  warehouseId := input.warehouseId
  clientId := input.clientId
  approvalStatus := .pending
  parentReceiptId := none
  rootReceiptId := uuids.primary
  sourceTxnType := some .deposit
  sourceTxnId := none
  sourceEventId := some uuids.event
  dateOfDeposit := input.dateOfDeposit
  expiryDate := input.expiryDate

/-- What a hold gives the held child. -/
@[simps]
def heldPrimary (input : HoldInput) (src : Receipt) : Primary where
  status := input.heldStatus.status
  approvalStatus := .pending
  clientId := src.clientId
  sourceTxnType := some input.txnType
  sourceTxnId := some input.txnId

/-- What a partial seizure gives the seized child. -/
@[simps]
def seizedPrimary (input : SeizeInput) (r : Receipt) : Primary where
  status := .seized
  approvalStatus := .approved
  clientId := input.financierUserId
  sourceTxnType := some .loan
  sourceTxnId := r.sourceTxnId

/-- The part of a lien leaf that a partial release returns. -/
@[simps!]
def releasedChild (num : Numeric) (uuids : Uuids) (src : Receipt) (releaseQty : ℚ)
    (number : List Char) : Receipt :=
  childOf src uuids.primary number .active (num.numeric18_3 releaseQty) src.clientId .approved
    none none uuids.event

/-- The part of a lien leaf that stays under the lien. -/
@[simps!]
def remainingChild (num : Numeric) (uuids : Uuids) (src : Receipt) (releaseQty : ℚ)
    (number : List Char) : Receipt :=
  childOf src uuids.remainder number .heldLien
    (num.numeric18_3 (num.minus src.quantity releaseQty)) src.clientId src.approvalStatus
    src.sourceTxnType src.sourceTxnId uuids.event

/-- What each operation commits and returns, under its guards. -/
inductive Effect (num : Numeric) (uuids : Uuids) (s : Ledger) :
    LedgerOp → List InventoryEvent → Change → LedgerResult → Prop where
  | deposit (input : DepositInput) (positive : 0 < input.quantity) :
      Effect num uuids s (.deposit input)
        [num.storeEvent (eventFrom uuids.event input.tenantId (depositRoot num uuids input)
          .deposit (some .deposit) none input.quantity input.actorUserId input.idempotencyKey)]
        (.mint (depositRoot num uuids input)) (.node (depositRoot num uuids input))
  | approveReceipt (ctx : ActorCtx) {id : Id} (r : Receipt) (loaded : Loaded s id ctx.tenantId r)
      (pending : r.status = .pendingApproval) :
      Effect num uuids s (.approveReceipt ctx id)
        [num.storeEvent (eventFrom uuids.event ctx.tenantId r .approved (some .deposit) none
          r.quantity ctx.actorUserId ctx.idempotencyKey)]
        (.amend r { r with
          status := .active, approvalStatus := .approved, approvedById := ctx.actorUserId })
        (.node { r with
          status := .active, approvalStatus := .approved, approvedById := ctx.actorUserId })
  | rejectReceipt (ctx : ActorCtx) {id : Id} (reason : String) (r : Receipt)
      (loaded : Loaded s id ctx.tenantId r) (pending : r.status = .pendingApproval) :
      Effect num uuids s (.rejectReceipt ctx id reason)
        [num.storeEvent (eventFrom uuids.event ctx.tenantId r .rejected (some .deposit) none
          r.quantity ctx.actorUserId ctx.idempotencyKey)]
        (.amend r { r with
          status := .cancelled, approvalStatus := .rejected, rejectionReason := some reason,
          approvedById := ctx.actorUserId })
        (.node { r with
          status := .cancelled, approvalStatus := .rejected, rejectionReason := some reason,
          approvedById := ctx.actorUserId })
  | hold (input : HoldInput) (src : Receipt) (number number' : List Char)
      (loaded : Loaded s input.sourceReceiptId input.tenantId src)
      (active : src.status = .active) (approved : src.approvalStatus = .approved)
      (leaf : src.isParent = false) (positive : 0 < input.quantity)
      (available : input.quantity ≤ src.quantity) :
      Effect num uuids s (.hold input)
        [num.storeEvent (eventFrom uuids.event input.tenantId src .holdPlaced
          (some input.txnType) (some input.txnId) input.quantity input.actorUserId
          input.idempotencyKey)]
        (.split src
          (primaryChild num uuids src input.quantity (heldPrimary input src) number ::
            (partitionRemainder num uuids src input.quantity number').toList))
        (.held
          { source := supersede src
            held := some
              (primaryChild num uuids src input.quantity (heldPrimary input src) number)
            remainder := partitionRemainder num uuids src input.quantity number' })
  | approveHold (ctx : ActorCtx) {id : Id} (r : Receipt) (loaded : Loaded s id ctx.tenantId r)
      (held : r.status.Held) (pending : r.approvalStatus = .pending) :
      Effect num uuids s (.approveHold ctx id)
        [num.storeEvent (eventFrom uuids.event ctx.tenantId r .approved r.sourceTxnType
          r.sourceTxnId r.quantity ctx.actorUserId ctx.idempotencyKey)]
        (.amend r { r with approvalStatus := .approved, approvedById := ctx.actorUserId })
        (.node { r with approvalStatus := .approved, approvedById := ctx.actorUserId })
  | release (ctx : ActorCtx) {id : Id} (r : Receipt) (loaded : Loaded s id ctx.tenantId r)
      (held : r.status.Held) :
      Effect num uuids s (.release ctx id)
        [num.storeEvent (eventFrom uuids.event ctx.tenantId r .holdReleased r.sourceTxnType
          r.sourceTxnId r.quantity ctx.actorUserId ctx.idempotencyKey r.sourceEventId)]
        (.amend r { r with status := .active, approvalStatus := .approved })
        (.node { r with status := .active, approvalStatus := .approved })
  | consume (ctx : ActorCtx) {id : Id} (r : Receipt) (loaded : Loaded s id ctx.tenantId r)
      (held : r.status.Held) :
      Effect num uuids s (.consume ctx id)
        [num.storeEvent (eventFrom uuids.event ctx.tenantId r .consumed r.sourceTxnType
          r.sourceTxnId r.quantity ctx.actorUserId ctx.idempotencyKey)]
        (.amend r { r with status := .withdrawn }) (.node { r with status := .withdrawn })
  | releasePartial (input : ReleasePartialInput) (src : Receipt) (number number' : List Char)
      (loaded : Loaded s input.heldReceiptId input.tenantId src)
      (lien : src.status = .heldLien) (positive : 0 < input.releaseQuantity)
      (available : input.releaseQuantity < src.quantity) :
      Effect num uuids s (.releasePartial input)
        [num.storeEvent (eventFrom uuids.event input.tenantId src .holdReleased (some .pledge)
          (some input.releaseRequestId) input.releaseQuantity input.actorUserId
          input.idempotencyKey)]
        (.split src
          [releasedChild num uuids src input.releaseQuantity number,
            remainingChild num uuids src input.releaseQuantity number'])
        (.partlyReleased
          { released := some (releasedChild num uuids src input.releaseQuantity number)
            remainingHeld := some
              (remainingChild num uuids src input.releaseQuantity number') })
  | transitionPledgeToLien (ctx : ActorCtx) {id : Id} (pledgeId : Id) (r : Receipt)
      (loaded : Loaded s id ctx.tenantId r) (pledged : r.status = .heldPledgePending) :
      Effect num uuids s (.transitionPledgeToLien ctx id pledgeId)
        [num.storeEvent (eventFrom uuids.event ctx.tenantId r .pledgeAccepted (some .pledge)
          (some pledgeId) r.quantity ctx.actorUserId ctx.idempotencyKey)]
        (.amend r { r with status := .heldLien }) (.node { r with status := .heldLien })
  | seizePart (input : SeizeInput) (r : Receipt) (pq : ℚ) (number number' : List Char)
      (loaded : Loaded s input.heldLoanReceiptId input.tenantId r)
      (loan : r.status = .heldLoan) (part : input.partialQuantity = some pq)
      (positive : 0 < pq) (available : pq < r.quantity) :
      Effect num uuids s (.seize input)
        [num.storeEvent (eventFrom uuids.event input.tenantId r .seized (some .loan)
          r.sourceTxnId r.quantity input.actorUserId input.idempotencyKey)]
        (.split r
          (primaryChild num uuids r pq (seizedPrimary input r) number ::
            (partitionRemainder num uuids r pq number').toList))
        (.seized
          { seized := some (primaryChild num uuids r pq (seizedPrimary input r) number)
            remainder := partitionRemainder num uuids r pq number' })
  | seizeAll (input : SeizeInput) (r : Receipt)
      (loaded : Loaded s input.heldLoanReceiptId input.tenantId r)
      (loan : r.status = .heldLoan) (whole : input.partialQuantity = none) :
      Effect num uuids s (.seize input)
        [num.storeEvent (eventFrom uuids.event input.tenantId r .seized (some .loan)
          r.sourceTxnId r.quantity input.actorUserId input.idempotencyKey)]
        (.amend r { r with status := .seized, clientId := input.financierUserId })
        (.seized
          { seized := some { r with status := .seized, clientId := input.financierUserId }
            remainder := none })
  | transferOwnership (ctx : ActorCtx) {id : Id} (newOwnerId : Id) (txnType : TxnType)
      (txnId : Id) (r : Receipt) (loaded : Loaded s id ctx.tenantId r) :
      Effect num uuids s (.transferOwnership ctx id newOwnerId txnType txnId)
        [num.storeEvent (eventFrom uuids.event ctx.tenantId r .ownershipTransferred
          (some txnType) (some txnId) r.quantity ctx.actorUserId ctx.idempotencyKey)]
        (.amend r { r with clientId := newOwnerId }) (.node { r with clientId := newOwnerId })
  | transferAndRelease (ctx : ActorCtx) {id : Id} (newOwnerId : Id) (txnType : TxnType)
      (txnId : Id) (withinTx : Receipt → Except ApiError Unit) (r : Receipt)
      (loaded : Loaded s id ctx.tenantId r) (held : r.status.Held)
      (work : withinTx { r with
        clientId := newOwnerId, status := .active, approvalStatus := .approved } = .ok ()) :
      Effect num uuids s (.transferAndRelease ctx id newOwnerId txnType txnId withinTx)
        [num.storeEvent (eventFrom uuids.event ctx.tenantId r .ownershipTransferred
            (some txnType) (some txnId) r.quantity ctx.actorUserId ctx.idempotencyKey),
          num.storeEvent (eventFrom uuids.releaseEvent ctx.tenantId r .holdReleased
            (some txnType) (some txnId) r.quantity ctx.actorUserId
            (releaseKey ctx.idempotencyKey) r.sourceEventId)]
        (.amend r { r with
          clientId := newOwnerId, status := .active, approvalStatus := .approved })
        (.node { r with
          clientId := newOwnerId, status := .active, approvalStatus := .approved })
  | expire (ctx : ActorCtx) {id : Id} (r : Receipt) (loaded : Loaded s id ctx.tenantId r)
      (active : r.status = .active) :
      Effect num uuids s (.expire ctx id)
        [num.storeEvent (eventFrom uuids.event ctx.tenantId r .expired none none r.quantity
          ctx.actorUserId ctx.idempotencyKey)]
        (.amend r { r with status := .expired }) (.node { r with status := .expired })

/-- What each operation returns when its key belongs to a prior event. -/
def LedgerOp.Reconstructs (op : LedgerOp) (scan : Scan Receipt) (s : Ledger)
    (e : InventoryEvent) (result : LedgerResult) : Prop :=
  match op with
  | .hold _ => ∃ source, s.affected e = .ok source ∧ result = .held
      { source := source
        held := (s.byEvent scan e).find? fun k => k.status.Held
        remainder := (s.byEvent scan e).find? fun k => k.status = .active }
  | .releasePartial _ => result = .partlyReleased
      { released := (s.byEvent scan e).find? fun k => k.status = .active
        remainingHeld := (s.byEvent scan e).find? fun k => k.status = .heldLien }
  | .seize _ =>
      if s.byEvent scan e ≠ [] then
        result = .seized
          { seized := (s.byEvent scan e).find? fun k => k.status = .seized
            remainder := (s.byEvent scan e).find? fun k => k.status = .active }
      else ∃ seized, s.affected e = .ok seized ∧
        result = .seized { seized := some seized, remainder := none }
  | _ => ∃ r, s.affected e = .ok r ∧ result = .node r

/-- How a call that returns came to its result. -/
inductive Outcome (num : Numeric) (uuids : Uuids) (op : LedgerOp) (s : Ledger)
    (result : LedgerResult) (s' : Ledger) : Prop where
  | replayed (e : InventoryEvent) (prior : s.events.find op.idempotencyKey = some e)
      (reconstructs : op.Reconstructs uuids.scan s e result) (same : s' = s)
  | committed (free : s.events.find op.idempotencyKey = none) (events : List InventoryEvent)
      (change : Change) (effect : Effect num uuids s op events change result)
      (commits : Commits s events change s')

section Inversion

variable {num : Numeric} {uuids : Uuids} {s s' : Ledger} {ctx : ActorCtx} {id : Id}
  {result : LedgerResult}

/-- The keys in the log after a call that logs one event. -/
theorem Effect.used {op : LedgerOp} {events : List InventoryEvent} {change : Change}
    (h : Effect num uuids s op events change result) (hcommits : Commits s events change s')
    (hop : ∀ ctx id newOwnerId txnType txnId withinTx,
      op ≠ .transferAndRelease ctx id newOwnerId txnType txnId withinTx)
    (key : IdempotencyKey) : s'.Used key ↔ s.Used key ∨ key = op.idempotencyKey := by
  cases h with
  | transferAndRelease => exact absurd rfl (hop _ _ _ _ _ _)
  | _ => exact hcommits.used_single

/-- A key that was used stays used. -/
theorem Outcome.used {op : LedgerOp} (h : Outcome num uuids op s result s')
    {key : IdempotencyKey} (hused : s.Used key) : s'.Used key := by
  cases h with
  | replayed e prior reconstructs same => exact same ▸ hused
  | committed free events change effect commits => exact commits.used_iff.mpr (.inl hused)

/-- A release that returns was made before, or frees a held leaf now. -/
theorem Outcome.of_release (h : Outcome num uuids (.release ctx id) s result s') :
    (s.Used ctx.idempotencyKey ∧ s' = s) ∨
      (¬ s.Used ctx.idempotencyKey ∧ ∃ r e, s.receipts.find id = some r ∧ r.status.Held ∧
        e.idempotencyKey = ctx.idempotencyKey ∧ e.eventType = .holdReleased ∧
        e.fromReceiptId = id ∧
        Commits s [e] (.amend r { r with status := .active, approvalStatus := .approved }) s') := by
  cases h with
  | replayed e prior reconstructs same => exact .inl ⟨used_of_find prior, same⟩
  | committed free events change effect commits =>
      cases effect with
      | release ctx r loaded held =>
          right
          exact ⟨not_used_iff.mpr free, r, _, loaded.1, held, rfl, rfl,
            Table.key_of_find loaded.1, commits⟩

/-- The approval of a hold that returns was made before, or is made now. -/
theorem Outcome.of_approveHold (h : Outcome num uuids (.approveHold ctx id) s result s') :
    (s.Used ctx.idempotencyKey ∧ s' = s) ∨
      (¬ s.Used ctx.idempotencyKey ∧ ∃ r e, s.receipts.find id = some r ∧ r.status.Held ∧
        r.approvalStatus = .pending ∧ e.idempotencyKey = ctx.idempotencyKey ∧
        e.eventType = .approved ∧ e.fromReceiptId = id ∧
        Commits s [e]
          (.amend r { r with approvalStatus := .approved, approvedById := ctx.actorUserId })
          s') := by
  cases h with
  | replayed e prior reconstructs same => exact .inl ⟨used_of_find prior, same⟩
  | committed free events change effect commits =>
      cases effect with
      | approveHold ctx r loaded held pending =>
          right
          exact ⟨not_used_iff.mpr free, r, _, loaded.1, held, pending, rfl, rfl,
            Table.key_of_find loaded.1, commits⟩

end Inversion

section Calls

variable {num : Numeric} {uuids : Uuids} {s s' : Ledger}

theorem runIdempotent_prior {α : Type} {key : IdempotencyKey}
    {reconstruct : InventoryEvent → Ledger → Except ApiError α} {work : Tx α} {e : InventoryEvent}
    (hprior : s.events.find key = some e) :
    runIdempotent key reconstruct work s = Tx.query (reconstruct e) s := by
  unfold runIdempotent
  rw [hprior]

/-- Under a new key nothing is replayed, also where the work is refused. -/
theorem runIdempotent_free {α : Type} {key : IdempotencyKey}
    {reconstruct : InventoryEvent → Ledger → Except ApiError α} {work : Tx α}
    (hfree : s.events.find key = none) : runIdempotent key reconstruct work s = work s := by
  unfold runIdempotent
  rw [hfree]
  dsimp only
  cases work s with
  | ok result => rfl
  | error e => cases e <;> rfl

theorem runIdempotent_ok {α : Type} {key : IdempotencyKey}
    {reconstruct : InventoryEvent → Ledger → Except ApiError α} {work : Tx α} {a : α} :
    runIdempotent key reconstruct work s = .ok (a, s') ↔
      (∃ e, s.events.find key = some e ∧ reconstruct e s = .ok a ∧ s = s') ∨
        (s.events.find key = none ∧ work s = .ok (a, s')) := by
  cases hfind : s.events.find key with
  | some prior =>
      rw [runIdempotent_prior hfind]
      simp
  | none =>
      rw [runIdempotent_free hfind]
      simp

theorem runIdempotent_congr {α : Type} {key : IdempotencyKey}
    {reconstruct : InventoryEvent → Ledger → Except ApiError α} {work work' : Tx α}
    (h : work s = work' s) :
    runIdempotent key reconstruct work s = runIdempotent key reconstruct work' s := by
  unfold runIdempotent
  rw [h]

/-- A call that returns was answered by an event of its key, or its work commits. -/
theorem runIdempotent_returns {α : Type} {key : IdempotencyKey}
    {reconstruct : InventoryEvent → Ledger → Except ApiError α} {work : Tx α} {a : α}
    (h : runIdempotent key reconstruct work s = .ok (a, s')) :
    (∃ e, s.events.find key = some e ∧ reconstruct e s = .ok a ∧ s = s') ∨
      (s.events.find key = none ∧ work s = .ok (a, s')) := by
  rwa [← runIdempotent_ok]

/-- The calls that amend one receipt or replay. -/
theorem outcome_of_amend {op : LedgerOp} {key : IdempotencyKey} {tenantId receiptId : Id}
    {check : Receipt → Except ApiError Unit} {entry : Receipt → InventoryEvent}
    {update : Receipt → Receipt} {hf : ∀ r, Keyed.key (update r) = Keyed.key r}
    {result : LedgerResult} (hkey : op.idempotencyKey = key)
    (h : (LedgerResult.node <$> runIdempotent key Ledger.affected
      (amendReceipt num tenantId receiptId check entry update hf)) s = .ok (result, s'))
    (hreplay : ∀ e r, s.affected e = .ok r → op.Reconstructs uuids.scan s e (.node r))
    (heffect : ∀ r, Loaded s receiptId tenantId r → check r = .ok () →
      Effect num uuids s op [num.storeEvent (entry r)] (.amend r (update r))
        (.node (update r))) :
    Outcome num uuids op s result s' := by
  subst hkey
  obtain ⟨r', hrun, rfl⟩ := Tx.map_ok.mp h
  rcases runIdempotent_returns hrun with ⟨e, hprior, haffected, rfl⟩ | ⟨hfree, hwork⟩
  · exact .replayed e hprior (hreplay e r' haffected) rfl
  · obtain ⟨r, hfind, htenant, hcheck, rfl, hcommits⟩ := amendReceipt_ok hwork
    exact .committed hfree _ _ (heffect r ⟨hfind, htenant⟩ hcheck) hcommits

theorem deposit_outcome {input : DepositInput} {result : LedgerResult}
    (h : (LedgerOp.deposit input).call num uuids s = .ok (result, s')) :
    Outcome num uuids (.deposit input) s result s' := by
  obtain ⟨root, hrun, rfl⟩ := Tx.map_ok.mp h
  simp only [Inventory.deposit, Tx.bind_ok, Tx.throwIf_ok, not_le] at hrun
  obtain ⟨_, _, ⟨hpositive, rfl⟩, hrun⟩ := hrun
  rcases runIdempotent_returns hrun with ⟨e, hprior, haffected, rfl⟩ | ⟨hfree, hwork⟩
  · exact .replayed e hprior ⟨root, haffected, rfl⟩ rfl
  · simp only [Tx.bind_ok] at hwork
    obtain ⟨created, s₁, hcreate, ev, s₂, hevent, hupdate⟩ := hwork
    obtain ⟨rfl, hgrows⟩ := createReceipt_ok hcreate
    obtain ⟨rfl, hreceipts, hinsert, hnew⟩ := event_ok hevent
    have hrows := (congrArg Table.rows hreceipts).trans hgrows.rows
    have hfind : s₂.receipts.find uuids.primary = some _ :=
      Table.find_of_mem (Table.mem_def.mpr (by rw [hrows]; exact List.mem_concat_self))
    obtain ⟨row, hrow, rfl, rfl⟩ := updateReceipt_ok.mp hupdate
    rw [hfind] at hrow
    cases hrow
    refine .committed hfree _ _ (.deposit input hpositive) ⟨?_, ?_, by simp, ?_, ?_, ?_⟩
    · rw [(Table.insert_eq_some_iff.mp hinsert).2, hgrows.events]
      rfl
    · intro e he e' he'
      obtain rfl := List.mem_singleton.mp he
      exact hnew e' (hgrows.events ▸ he')
    · rw [Change.map_apply_mint]
      exact Table.rows_modify_last (fun r => { r with sourceEventId := some uuids.event })
        (fun _ => rfl) hrows
    · intro r hr r' hr'
      obtain rfl := List.mem_singleton.mp hr
      exact hgrows.numbers _ (List.mem_singleton.mpr rfl) r' hr'
    · rintro _ _ ⟨⟩

theorem hold_outcome {input : HoldInput} {result : LedgerResult}
    (h : (LedgerOp.hold input).call num uuids s = .ok (result, s')) :
    Outcome num uuids (.hold input) s result s' := by
  obtain ⟨held, hrun, rfl⟩ := Tx.map_ok.mp h
  rcases runIdempotent_returns hrun with ⟨e, hprior, hreplay, rfl⟩ | ⟨hfree, hwork⟩
  · cases haffected : s.affected e with
    | error err => simp [haffected, bind, Except.bind] at hreplay
    | ok source =>
        simp only [haffected, bind, Except.bind, pure, Except.pure, Except.ok.injEq] at hreplay
        exact .replayed e hprior ⟨source, haffected, by rw [← hreplay]⟩ rfl
  · simp only [Tx.bind_ok, Tx.query_ok, Tx.throwIf_ok, Ledger.loadOrThrow_ok, not_or, not_not,
      Bool.not_eq_true, not_le, not_lt] at hwork
    obtain ⟨src, _, ⟨⟨hfind, htenant⟩, rfl⟩, _, _, ⟨⟨hactive, happroved⟩, rfl⟩, _, _,
      ⟨hleaf, rfl⟩, _, _, ⟨hpositive, rfl⟩, _, _, ⟨havailable, rfl⟩, ev, s₁, hevent, split, s₂,
      hpartition, hresult⟩ := hwork
    have hsrc : s.receipts.find src.id = some src := Table.find_of_mem (Table.mem_of_find hfind)
    obtain ⟨number, number', rfl, hcommits⟩ := partition_ok hsrc hevent rfl hpartition
    obtain ⟨rfl, rfl⟩ := Tx.pure_ok.mp hresult
    exact .committed hfree _ _ (.hold input src number number' ⟨hfind, htenant⟩ hactive happroved
      hleaf hpositive havailable) hcommits

theorem releasePartial_outcome {input : ReleasePartialInput} {result : LedgerResult}
    (h : (LedgerOp.releasePartial input).call num uuids s = .ok (result, s')) :
    Outcome num uuids (.releasePartial input) s result s' := by
  obtain ⟨released, hrun, rfl⟩ := Tx.map_ok.mp h
  rcases runIdempotent_returns hrun with ⟨e, hprior, hreplay, rfl⟩ | ⟨hfree, hwork⟩
  · obtain rfl := Except.ok.inj hreplay
    exact .replayed e hprior rfl rfl
  · simp only [Tx.bind_ok, Tx.query_ok, Tx.throwIf_ok, Ledger.loadOrThrow_ok, not_not, not_le]
      at hwork
    obtain ⟨src, _, ⟨⟨hfind, htenant⟩, rfl⟩, _, _, ⟨hlien, rfl⟩, _, _, ⟨hpositive, rfl⟩, _, _,
      ⟨havailable, rfl⟩, ev, s₁, hevent, taken, _, ⟨-, rfl⟩, row, s₂, hcreate, row', s₃, hcreate',
      _, _, hupdate, hresult⟩ := hwork
    have hsrc : s.receipts.find src.id = some src := Table.find_of_mem (Table.mem_of_find hfind)
    obtain rfl := (event_ok hevent).1
    obtain ⟨rfl, hgrows⟩ := createReceipt_ok hcreate
    obtain ⟨rfl, hgrows'⟩ := createReceipt_ok hcreate'
    obtain ⟨rfl, rfl⟩ := Tx.pure_ok.mp hresult
    exact .committed hfree _ _ (.releasePartial input src _ _ ⟨hfind, htenant⟩ hlien hpositive
      havailable) (commits_split hsrc hevent (hgrows.trans hgrows') hupdate)

theorem seize_outcome {input : SeizeInput} {result : LedgerResult}
    (h : (LedgerOp.seize input).call num uuids s = .ok (result, s')) :
    Outcome num uuids (.seize input) s result s' := by
  obtain ⟨seized, hrun, rfl⟩ := Tx.map_ok.mp h
  rcases runIdempotent_returns hrun with ⟨e, hprior, hreplay, rfl⟩ | ⟨hfree, hwork⟩
  · refine .replayed e hprior ?_ rfl
    unfold LedgerOp.Reconstructs
    dsimp only at hreplay ⊢
    split at hreplay
    · rename_i hkids
      rw [if_pos hkids, ← Except.ok.inj hreplay]
    · rename_i hkids
      rw [if_neg hkids]
      cases haffected : s.affected e with
      | error err => simp [haffected, bind, Except.bind] at hreplay
      | ok r =>
          simp only [haffected, bind, Except.bind, pure, Except.pure, Except.ok.injEq] at hreplay
          exact ⟨r, rfl, by rw [← hreplay]⟩
  · simp only [Tx.bind_ok, Tx.query_ok, Tx.throwIf_ok, Ledger.loadOrThrow_ok, not_not] at hwork
    obtain ⟨r, _, ⟨⟨hfind, htenant⟩, rfl⟩, _, _, ⟨hloan, rfl⟩, ev, s₁, hevent, hwork⟩ := hwork
    have hsrc : s.receipts.find r.id = some r := Table.find_of_mem (Table.mem_of_find hfind)
    cases hpart : input.partialQuantity with
    | some pq =>
      simp only [hpart, Tx.bind_ok, Tx.throwIf_ok, not_or, not_le] at hwork
      obtain ⟨_, _, ⟨⟨hpositive, havailable⟩, rfl⟩, split, s₂, hpartition, hresult⟩ := hwork
      obtain ⟨number, number', rfl, hcommits⟩ := partition_ok hsrc hevent rfl hpartition
      obtain ⟨rfl, rfl⟩ := Tx.pure_ok.mp hresult
      exact .committed hfree _ _ (.seizePart input r pq number number' ⟨hfind, htenant⟩ hloan
        hpart hpositive havailable) hcommits
    | none =>
      simp only [hpart] at hwork
      obtain ⟨row, s₂, hupdate, hresult⟩ := Tx.bind_ok.mp hwork
      obtain ⟨rfl, rfl⟩ := Tx.pure_ok.mp hresult
      have hreceipts := (event_ok hevent).2.1
      obtain ⟨_, hfind', rfl, rfl⟩ := updateReceipt_ok.mp hupdate
      rw [hreceipts, hsrc] at hfind'
      cases hfind'
      refine .committed hfree _ _ (.seizeAll input r ⟨hfind, htenant⟩ hloan hpart)
        (commits_of_event hevent rfl ?_ (by simp) ?_)
      · simpa [hreceipts] using rows_modify hsrc
      · rintro _ _ ⟨⟩
        exact ⟨hsrc, rfl⟩

/-- What the transaction of a settlement does where it commits. -/
theorem transferAndReleaseWork_ok {τ : Type} {ctx : ActorCtx} {id newOwnerId txnId : Id}
    {txnType : TxnType} {withinTx : Receipt → Except ApiError τ} {updated : Receipt} {work : τ}
    (h : transferAndReleaseWork num uuids ctx id newOwnerId txnType txnId withinTx s =
      .ok ((updated, work), s')) :
    ∃ r, Loaded s id ctx.tenantId r ∧ r.status.Held ∧ withinTx updated = .ok work ∧
      updated = { r with clientId := newOwnerId, status := .active, approvalStatus := .approved } ∧
      Commits s
        [num.storeEvent (eventFrom uuids.event ctx.tenantId r .ownershipTransferred
            (some txnType) (some txnId) r.quantity ctx.actorUserId ctx.idempotencyKey),
          num.storeEvent (eventFrom uuids.releaseEvent ctx.tenantId r .holdReleased
            (some txnType) (some txnId) r.quantity ctx.actorUserId
            (releaseKey ctx.idempotencyKey) r.sourceEventId)]
        (.amend r updated) s' := by
  simp only [transferAndReleaseWork, Tx.bind_ok, Tx.query_ok, Ledger.loadOrThrow_ok,
    assertHeld_ok] at h
  obtain ⟨r, _, ⟨⟨hfind, htenant⟩, rfl⟩, _, _, ⟨hheld, rfl⟩, _, s₁, hevent, _, s₂, hevent',
    _, s₃, hupdate, _, _, ⟨hwork, rfl⟩, hresult⟩ := h
  obtain ⟨hpair, rfl⟩ := Tx.pure_ok.mp hresult
  cases hpair
  have hsrc : s.receipts.find r.id = some r := Table.find_of_mem (Table.mem_of_find hfind)
  obtain ⟨rfl, hreceipts, hinsert, hnew⟩ := event_ok hevent
  obtain ⟨rfl, hreceipts', hinsert', hnew'⟩ := event_ok hevent'
  obtain ⟨_, hfind', rfl, rfl⟩ := updateReceipt_ok.mp hupdate
  rw [hreceipts', hreceipts, hsrc] at hfind'
  cases hfind'
  refine ⟨r, ⟨hfind, htenant⟩, hheld, hwork, rfl, ?_, ?_, ?_, ?_, by simp, ?_⟩
  · rw [(Table.insert_eq_some_iff.mp hinsert').2, (Table.insert_eq_some_iff.mp hinsert).2,
      List.append_assoc]
    rfl
  · -- the second event's id was checked against the log that already has the first
    intro e he e' he'
    rcases List.mem_pair.mp he with rfl | rfl
    · exact hnew e' he'
    · exact hnew' e' ((Table.mem_insert hinsert).mpr (.inl he'))
  · have hne := hnew' _ ((Table.mem_insert hinsert).mpr (.inr rfl))
    simpa using hne
  · simpa [hreceipts, hreceipts'] using rows_modify hsrc
  · rintro _ _ ⟨⟩
    exact ⟨hsrc, rfl⟩

theorem transferAndRelease_outcome {ctx : ActorCtx} {id newOwnerId txnId : Id}
    {txnType : TxnType} {withinTx : Receipt → Except ApiError Unit} {result : LedgerResult}
    (h : (LedgerOp.transferAndRelease ctx id newOwnerId txnType txnId withinTx).call num uuids s =
      .ok (result, s')) :
    Outcome num uuids (.transferAndRelease ctx id newOwnerId txnType txnId withinTx) s result
      s' := by
  obtain ⟨r', hrun, rfl⟩ := Tx.map_ok.mp h
  rcases runIdempotent_returns hrun with ⟨e, hprior, haffected, rfl⟩ | ⟨hfree, hwork⟩
  · exact .replayed e hprior ⟨r', haffected, rfl⟩ rfl
  · obtain ⟨⟨updated, work⟩, hdone, rfl⟩ := Tx.map_ok.mp hwork
    obtain ⟨r, hloaded, hheld, hwithin, rfl, hcommits⟩ := transferAndReleaseWork_ok hdone
    exact .committed hfree _ _
      (.transferAndRelease ctx newOwnerId txnType txnId withinTx r hloaded hheld hwithin) hcommits

/-- The transaction of a settlement commits under a new key, whatever the caller's work is. -/
theorem transferAndReleaseWork_commits {τ : Type} {ctx : ActorCtx} {id newOwnerId txnId : Id}
    {txnType : TxnType} {withinTx : Receipt → Except ApiError τ} {updated : Receipt} {work : τ}
    (h : transferAndReleaseWork num uuids ctx id newOwnerId txnType txnId withinTx s =
      .ok ((updated, work), s')) :
    withinTx updated = .ok work ∧ s.events.find ctx.idempotencyKey = none ∧
      ∃ events change result, Effect num uuids s
        (.transferAndRelease ctx id newOwnerId txnType txnId fun _ => .ok ()) events change result ∧
          Commits s events change s' := by
  obtain ⟨r, hloaded, hheld, hwithin, rfl, hcommits⟩ := transferAndReleaseWork_ok h
  exact ⟨hwithin, hcommits.event_fresh List.mem_cons_self, _, _, _,
    .transferAndRelease ctx newOwnerId txnType txnId _ r hloaded hheld rfl, hcommits⟩

/-- The transaction of a release commits under a new key. -/
theorem releaseWork_commits {ctx : ActorCtx} {id : Id} {r : Receipt}
    (h : releaseWork num uuids ctx id s = .ok (r, s')) :
    s.events.find ctx.idempotencyKey = none ∧
      ∃ events change, Effect num uuids s (.release ctx id) events change (.node r) ∧
        Commits s events change s' := by
  obtain ⟨r₀, hfind, htenant, hcheck, rfl, hcommits⟩ := amendReceipt_ok h
  exact ⟨hcommits.event_fresh List.mem_cons_self, _, _,
    .release ctx r₀ ⟨hfind, htenant⟩ (assertHeld_ok.mp hcheck), hcommits⟩

theorem outcome_of_releaseWork {ctx : ActorCtx} {id : Id} {r : Receipt}
    (h : releaseWork num uuids ctx id s = .ok (r, s')) :
    Outcome num uuids (.release ctx id) s (.node r) s' := by
  obtain ⟨hfree, events, change, heffect, hcommits⟩ := releaseWork_commits h
  exact .committed hfree events change heffect hcommits

/-- A ledger operation that returns either replayed a prior event or committed
its effect. -/
theorem call_outcome {op : LedgerOp} {result : LedgerResult}
    (h : op.call num uuids s = .ok (result, s')) : Outcome num uuids op s result s' := by
  cases op with
  | deposit input => exact deposit_outcome h
  | approveReceipt ctx id =>
      refine outcome_of_amend rfl h (fun _ r hr => ⟨r, hr, rfl⟩) fun r loaded hcheck => ?_
      exact .approveReceipt ctx r loaded (by simpa using hcheck)
  | rejectReceipt ctx id reason =>
      refine outcome_of_amend rfl h (fun _ r hr => ⟨r, hr, rfl⟩) fun r loaded hcheck => ?_
      exact .rejectReceipt ctx reason r loaded (by simpa using hcheck)
  | hold input => exact hold_outcome h
  | approveHold ctx id =>
      refine outcome_of_amend rfl h (fun _ r hr => ⟨r, hr, rfl⟩) fun r loaded hcheck => ?_
      have hguards : r.status.Held ∧ r.approvalStatus = .pending := by
        cases hheld : assertHeld r with
        | error e => simp [hheld, bind, Except.bind] at hcheck
        | ok u =>
            simp only [hheld, bind, Except.bind, rejectIf_ok, not_not] at hcheck
            exact ⟨assertHeld_ok.mp hheld, hcheck⟩
      exact .approveHold ctx r loaded hguards.1 hguards.2
  | release ctx id =>
      refine outcome_of_amend rfl h (fun _ r hr => ⟨r, hr, rfl⟩) fun r loaded hcheck => ?_
      exact .release ctx r loaded (assertHeld_ok.mp hcheck)
  | consume ctx id =>
      refine outcome_of_amend rfl h (fun _ r hr => ⟨r, hr, rfl⟩) fun r loaded hcheck => ?_
      exact .consume ctx r loaded (assertHeld_ok.mp hcheck)
  | releasePartial input => exact releasePartial_outcome h
  | transitionPledgeToLien ctx id pledgeId =>
      refine outcome_of_amend rfl h (fun _ r hr => ⟨r, hr, rfl⟩) fun r loaded hcheck => ?_
      exact .transitionPledgeToLien ctx pledgeId r loaded (by simpa using hcheck)
  | seize input => exact seize_outcome h
  | transferOwnership ctx id newOwnerId txnType txnId =>
      refine outcome_of_amend rfl h (fun _ r hr => ⟨r, hr, rfl⟩) fun r loaded _ => ?_
      exact .transferOwnership ctx newOwnerId txnType txnId r loaded
  | transferAndRelease ctx id newOwnerId txnType txnId withinTx =>
      exact transferAndRelease_outcome h
  | expire ctx id =>
      refine outcome_of_amend rfl h (fun _ r hr => ⟨r, hr, rfl⟩) fun r loaded hcheck => ?_
      exact .expire ctx r loaded (by simpa using hcheck)

/-- A call leaves the ledger as it was or commits its effect. -/
theorem after_cases (num : Numeric) (c : LedgerCall) (s : Ledger) :
    c.after num s = s ∨ ∃ events change result,
      s.events.find c.op.idempotencyKey = none ∧
      Effect num c.uuids s c.op events change result ∧
      Commits s events change (c.after num s) := by
  unfold LedgerCall.after
  cases hcall : c.op.call num c.uuids s with
  | error e => exact .inl rfl
  | ok p =>
      obtain ⟨result, s'⟩ := p
      cases call_outcome hcall with
      | replayed e prior reconstructs same => exact .inl same
      | committed free events change effect commits =>
          exact .inr ⟨events, change, result, free, effect, commits⟩

/-- What every effect preserves holds after every run. -/
theorem runCalls_invariant {P : Ledger → Prop}
    (step : ∀ {uuids : Uuids} {op : LedgerOp} {s s' : Ledger} {events : List InventoryEvent}
      {change : Change} {result : LedgerResult}, P s →
      s.events.find op.idempotencyKey = none → Effect num uuids s op events change result →
      Commits s events change s' → P s')
    (calls : List LedgerCall) (hs : P s) : P (runCalls num calls s) := by
  induction calls generalizing s with
  | nil => exact hs
  | cons c calls ih =>
      have hafter : P (c.after num s) := by
        rcases after_cases num c s with hsame | ⟨events, change, result, free, effect, commits⟩
        · rw [hsame]
          exact hs
        · exact step hs free effect commits
      exact ih hafter

theorem runCalls_append (calls more : List LedgerCall) (s : Ledger) :
    runCalls num (calls ++ more) s = runCalls num more (runCalls num calls s) :=
  List.foldl_append

end Calls

end SecureStore.Inventory
