/-
# The detail of a transaction

The detail of a withdrawal, a loan or a trade is put together from the events that name it: the
first says what it acted on, and of the receipts under all of them it shows one that is held,
one that is active and one that is closed. Only the hold of a transaction creates receipts, and
comes first, so the held or the closed one is the receipt that was minted for the transaction.
-/

import SecureStore.Custody.Transactions
import SecureStore.Receipts.Detail

namespace SecureStore.Services

open SecureStore.Foundation SecureStore.Inventory

/-- `Receipt not found: ${txnType}:${txnId}` -/
structure TransactionNotFound where
  txnType : TxnType
  txnId : Id
  deriving DecidableEq

structure CreatedReceipts where
  held : Option Descendant
  remainder : Option Descendant
  terminal : Option Descendant

structure TransactionEvent where
  id : Id
  eventType : InventoryEventType
  quantity : ℚ
  occurredAt : Timestamp
  reversalOfEventId : Option Id
  deriving DecidableEq

structure TransactionDetail where
  txnType : TxnType
  txnId : Id
  rootReceiptId : Id
  actedOn : Option PathStep
  created : CreatedReceipts
  events : List TransactionEvent

def transactionEvent (occurredAt : InventoryEvent → Timestamp) (e : InventoryEvent) :
    TransactionEvent :=
  ⟨e.id, e.eventType, e.quantity, occurredAt e, e.reversalOfEventId⟩

/-- The statuses that the detail shows as terminal. -/
def closedFor : List ReceiptStatus := [.withdrawn, .tradedOut, .seized]

/-- The event names the transaction. -/
def Concerns (e : InventoryEvent) (txnType : TxnType) (txnId : Id) : Prop :=
  e.txnType = some txnType ∧ e.txnId = some txnId

instance (e : InventoryEvent) (txnType : TxnType) (txnId : Id) :
    Decidable (Concerns e txnType txnId) := inferInstanceAs (Decidable (_ ∧ _))

namespace InventoryQueryService

def getTransactionDetail (occurredAt : InventoryEvent → Timestamp) (scan : Scan Receipt)
    (s : Ledger) (tenantId : Id) (txnType : TxnType) (txnId : Id) :
    Except TransactionNotFound TransactionDetail :=
  let events := byTime occurredAt (s.events.rows.filter fun e =>
    e.tenantId = tenantId ∧ Concerns e txnType txnId)
  -- `createdReceipts` is included without an order
  let created := events.flatMap fun e => s.byEvent scan e
  match events with
  | [] => .error ⟨txnType, txnId⟩
  | first :: _ => .ok
      { txnType := txnType
        txnId := txnId
        rootReceiptId := first.rootReceiptId
        actedOn := (s.receipts.find first.fromReceiptId).map pathStep
        created :=
          { held := (created.find? fun k => k.status.Held).map descendant
            remainder := (created.find? fun k => k.status = .active).map descendant
            terminal := (created.find? fun k => k.status ∈ closedFor).map descendant }
        events := events.map (transactionEvent occurredAt) }

end InventoryQueryService

/-- Under the event of a hold: the part that was minted for the transaction, and what was left
of the source, which no transaction has taken since. -/
structure EventKids (s : Ledger) (txnType : TxnType) (txnId : Id) (e : InventoryEvent) : Prop where
  placed : e.eventType = .holdPlaced
  concerns : Concerns e txnType txnId
  kids : ∃ held rest, s.createdBy e = held :: rest ∧ MintedFor held txnType txnId ∧
    held.parentReceiptId = some e.fromReceiptId ∧
      ∀ k ∈ rest, k.status ∈ [ReceiptStatus.active, .split, .expired]

/-- The events that name a transaction other than a pledge: they are about the receipt minted
for it, the hold is the first of them, and no other has receipts under it. -/
structure TransactionLog (s : Ledger) : Prop where
  minted : ∀ e ∈ s.events, ∀ txnType txnId, txnType ≠ .pledge → Concerns e txnType txnId →
    ∃ r ∈ s.receipts, MintedFor r txnType txnId ∧ r.tenantId = e.tenantId
  first : s.events.rows.Pairwise fun e e' => ∀ txnType txnId, txnType ≠ .pledge →
    Concerns e txnType txnId → holdKey txnType txnId ≠ some e'.idempotencyKey
  hold : ∀ e ∈ s.events, ∀ txnType txnId, txnType ≠ .pledge →
    holdKey txnType txnId = some e.idempotencyKey → EventKids s txnType txnId e
  others : ∀ e ∈ s.events, ∀ txnType txnId, txnType ≠ .pledge → Concerns e txnType txnId →
    holdKey txnType txnId ≠ some e.idempotencyKey → e.eventType ≠ .holdPlaced ∧ s.createdBy e = []

theorem transactionLog_empty : TransactionLog Ledger.empty := by
  refine ⟨?_, List.Pairwise.nil, ?_, ?_⟩ <;> simp

section Commits

variable {num : Numeric} {uuids : Uuids} {op : LedgerOp} {s s' : Ledger}
  {events : List InventoryEvent} {change : Change} {result : LedgerResult}

/-- The receipts under an old event are those that were there, rewritten or not. -/
theorem createdBy_old (hcommits : Commits s events change s')
    (heffect : Effect num uuids s op events change result) {e : InventoryEvent}
    (he : e ∈ s.events) : s'.createdBy e = (s.createdBy e).map change.apply := by
  unfold Ledger.createdBy
  have hnone : (change.created.filter fun k => k.sourceEventId = some e.id) = [] := by
    apply List.filter_eq_nil_iff.mpr
    intro k hk hsource
    obtain ⟨e', he', hid, -⟩ := heffect.keyed_event
    have hids := Option.some_inj.mp
      ((heffect.created_source hk).symm.trans (of_decide_eq_true hsource))
    exact hcommits.newIds e' he' e he (hids.symm.trans hid.symm)
  rw [hcommits.rows, List.filter_append, hnone, List.append_nil, List.filter_map]
  congr 1
  apply List.filter_congr
  intro r hr
  have hnode := (hcommits.advance heffect hr).1
  simp [hnode.sourceEventId]

/-- The receipts under a new event are among those the commit creates. -/
theorem createdBy_new (hcommits : Commits s events change s')
    (heffect : Effect num uuids s op events change result) (hp : Provenance s)
    {e : InventoryEvent} (he : e ∈ events) :
    s'.createdBy e = change.created.filter fun k => k.sourceEventId = some e.id := by
  unfold Ledger.createdBy
  rw [hcommits.rows, List.filter_append]
  have hnone : ((s.receipts.rows.map change.apply).filter fun k => k.sourceEventId = some e.id) =
      [] := by
    apply List.filter_eq_nil_iff.mpr
    intro k hk hsource
    obtain ⟨r, hr, rfl⟩ := List.mem_map.mp hk
    rw [(hcommits.advance heffect hr).1.sourceEventId] at hsource
    obtain ⟨e₀, he₀, hid⟩ := hp.source_logged r hr _ (of_decide_eq_true hsource)
    exact hcommits.newIds e he e₀ he₀ hid
  rw [hnone, List.nil_append]

/-- No logged event has the key of a new one. -/
theorem fresh_key (hcommits : Commits s events change s') {e e₀ : InventoryEvent}
    (he : e ∈ events) (he₀ : e₀ ∈ s.events) : e₀.idempotencyKey ≠ e.idempotencyKey := by
  intro hkey
  have hsame := Table.eq_of_key_eq (hcommits.mem_events.mpr (.inl he₀))
    (hcommits.mem_events.mpr (.inr he)) hkey
  exact hcommits.newIds e he e₀ he₀ (by rw [hsame])

/-- Under the event of a hold are the held part and the rest, if there is one. -/
theorem kids_of_hold {input : HoldInput}
    (heffect : Effect num uuids s (.hold input) events change result) :
    ∃ e held rest, events = [e] ∧ change.created = held :: rest ∧ e.eventType = .holdPlaced ∧
      Concerns e input.txnType input.txnId ∧ e.idempotencyKey = input.idempotencyKey ∧
      MintedFor held input.txnType input.txnId ∧ held.tenantId = e.tenantId ∧
      held.parentReceiptId = some e.fromReceiptId ∧ ∀ k ∈ rest, k.status = .active := by
  cases heffect with
  | hold input src number number' loaded =>
      refine ⟨_, _, _, rfl, rfl, rfl, ⟨rfl, rfl⟩, rfl, ⟨rfl, rfl⟩, loaded.2, rfl, ?_⟩
      intro k hk
      obtain rfl := mem_partitionRemainder hk
      rfl

end Commits

section Steps

variable {num : Numeric} {by_ : Issuer} {op : LedgerOp} {s s' : Db}

/-- An event under the key of a hold is that of the hold. -/
theorem Calls.hold_of_event (h : Calls by_ op) {ledger : Ledger} {uuids : Uuids}
    {events : List InventoryEvent} {change : Change} {result : LedgerResult}
    (heffect : Effect num uuids ledger op events change result) {e : InventoryEvent}
    (he : e ∈ events) {txnType : TxnType} {txnId : Id} (hpledge : txnType ≠ .pledge)
    (hkey : holdKey txnType txnId = some e.idempotencyKey) :
    ∃ input, op = .hold input ∧ input.txnType = txnType ∧ input.txnId = txnId := by
  rcases h.event_key heffect he with hown | ⟨tradeId, hrelease⟩
  · rw [hown] at hkey
    cases txnType <;> cases h <;>
      simp_all [holdKey, LedgerOp.idempotencyKey, withdrawalKey, loanKey, tradeKey, partialKey]
  · rw [hrelease] at hkey
    cases txnType <;> simp [holdKey, releaseKey, withdrawalKey, loanKey, tradeKey] at hkey

/-- A new event that names a transaction other than a pledge is its hold, or acts on the receipt
that was minted for it and creates none. -/
theorem LedgerStep.concerns (h : LedgerStep num by_ op s s') {uuids : Uuids}
    {events : List InventoryEvent} {change : Change} {result : LedgerResult}
    (heffect : Effect num uuids s.ledger op events change result) {e : InventoryEvent}
    (he : e ∈ events) {txnType : TxnType} {txnId : Id} (hpledge : txnType ≠ .pledge)
    (hconcerns : Concerns e txnType txnId) :
    (∃ input, op = .hold input ∧ input.txnType = txnType ∧ input.txnId = txnId) ∨
      (change.created = [] ∧ e.eventType ≠ .holdPlaced ∧
        ∃ r ∈ s.ledger.receipts, MintedFor r txnType txnId ∧ r.tenantId = e.tenantId) := by
  obtain ⟨htype, hid⟩ := hconcerns
  have hcalls := h.rightful.calls
  cases heffect with
  | hold input =>
      obtain rfl := List.mem_singleton.mp he
      exact .inl ⟨input, rfl, Option.some_inj.mp htype, Option.some_inj.mp hid⟩
  | deposit | approveReceipt | rejectReceipt =>
      obtain rfl := List.mem_singleton.mp he
      cases hid
  | releasePartial | transitionPledgeToLien =>
      obtain rfl := List.mem_singleton.mp he
      exact absurd (Option.some_inj.mp htype).symm hpledge
  | approveHold ctx r loaded | release ctx r loaded | consume ctx r loaded =>
      obtain rfl := List.mem_singleton.mp he
      exact .inr ⟨rfl, by simp [Numeric.storeEvent], r, Table.mem_of_find loaded.1,
        ⟨htype, hid⟩, loaded.2⟩
  | transferAndRelease ctx newOwnerId txnType' txnId' withinTx r loaded held =>
      obtain ⟨_, _, htxn, r', hfind, hminted⟩ := h.rightful.entitled _ rfl
      obtain rfl := Option.some_inj.mp (hfind.symm.trans loaded.1)
      have hfor := hminted held
      cases hcalls with
      | settleTrade key =>
          obtain ⟨rfl, rfl⟩ := Prod.mk.inj (Option.some_inj.mp htxn)
          refine .inr ⟨rfl, ?_, r', Table.mem_of_find hfind, ?_, ?_⟩
          · rcases List.mem_pair.mp he with rfl | rfl <;> simp [Numeric.storeEvent]
          · rcases List.mem_pair.mp he with rfl | rfl
            · rwa [← Option.some_inj.mp htype, ← Option.some_inj.mp hid]
            · rwa [← Option.some_inj.mp htype, ← Option.some_inj.mp hid]
          · rcases List.mem_pair.mp he with rfl | rfl <;> exact loaded.2
  | seizePart | seizeAll | transferOwnership | expire => cases hcalls

/-- The receipts under an event with this transaction's hold go on as they began. -/
theorem EventKids.step {s s' : Ledger} {txnType : TxnType} {txnId : Id} {e : InventoryEvent}
    (h : EventKids s txnType txnId e) (he : e ∈ s.events) {uuids : Uuids} {op : LedgerOp}
    {events : List InventoryEvent} {change : Change} {result : LedgerResult}
    (heffect : Effect num uuids s op events change result)
    (hcommits : Commits s events change s') : EventKids s' txnType txnId e := by
  obtain ⟨held, rest, hkids, hminted, hparent, hrest⟩ := h.kids
  have hmem : ∀ k ∈ s.createdBy e, k ∈ s.receipts := fun k hk => (List.mem_filter.mp hk).1
  rw [hkids] at hmem
  have hheld := hmem held List.mem_cons_self
  have hnode := (hcommits.advance heffect hheld).1
  refine ⟨h.placed, h.concerns, change.apply held, rest.map change.apply, ?_,
    (MintedFor.of_sameNode hnode).mpr hminted, hnode.parentReceiptId.trans hparent, ?_⟩
  · rw [createdBy_old hcommits heffect he, hkids, List.map_cons]
  · intro k hk
    obtain ⟨k₀, hk₀, rfl⟩ := List.mem_map.mp hk
    have hbefore := hrest k₀ hk₀
    rcases (hcommits.advance heffect (hmem k₀ (List.mem_cons_of_mem _ hk₀))).2 with hsame | hmove
    · rwa [hsame]
    · -- an active receipt is split or expires, and then nothing happens to it any more
      generalize (change.apply k₀).status = after at hmove
      generalize k₀.status = before at hbefore hmove
      simp only [List.mem_cons, List.not_mem_nil, or_false] at hbefore
      rcases hbefore with rfl | rfl | rfl
      · rcases hmove.of_active with rfl | rfl <;> simp
      · exact absurd (by decide) hmove.not_terminal
      · exact absurd (by decide) hmove.not_terminal

theorem LedgerStep.transactionLog (h : LedgerStep num by_ op s s') (hp : Provenance s.ledger)
    (hl : TransactionLeaves s.ledger) (ht : TransactionLog s.ledger) :
    TransactionLog s'.ledger := by
  have hlater := h.later.ledger
  obtain ⟨uuids, events, change, result, heffect, hcommits⟩ := h.effect
  -- what a new event is about tells that its hold is logged, or that it is the hold
  have hnot : ∀ e ∈ events, ∀ txnType txnId, txnType ≠ .pledge →
      (∃ r ∈ s.ledger.receipts, MintedFor r txnType txnId) →
      holdKey txnType txnId ≠ some e.idempotencyKey := by
    intro e he txnType txnId hpledge hminted hkey
    obtain ⟨r, hr, hfor⟩ := hminted
    obtain ⟨key, hkey', e₀, he₀, hlogged⟩ := hl.keyed r hr txnType txnId hpledge hfor
    obtain rfl := Option.some_inj.mp (hkey.symm.trans hkey')
    exact fresh_key hcommits he he₀ hlogged
  constructor
  · intro e he txnType txnId hpledge hconcerns
    rcases hcommits.mem_events.mp he with hold | hnew
    · obtain ⟨r, hr, hminted, htenant⟩ := ht.minted e hold txnType txnId hpledge hconcerns
      obtain ⟨r', hr', hnode, -⟩ := hlater.receipts r hr
      exact ⟨r', hr', (MintedFor.of_sameNode hnode).mpr hminted, hnode.tenantId.trans htenant⟩
    · rcases h.concerns heffect hnew hpledge hconcerns with
        ⟨input, rfl, rfl, rfl⟩ | ⟨-, -, r, hr, hminted, htenant⟩
      · obtain ⟨e', held, rest, rfl, hcreated, -, -, -, hminted, htenant, -⟩ := kids_of_hold heffect
        obtain rfl := List.mem_singleton.mp hnew
        have hmem : held ∈ change.created := by simp [hcreated]
        exact ⟨held, hcommits.mem_receipts.mpr (.inr hmem), hminted, htenant⟩
      · obtain ⟨r', hr', hnode, -⟩ := hlater.receipts r hr
        exact ⟨r', hr', (MintedFor.of_sameNode hnode).mpr hminted, hnode.tenantId.trans htenant⟩
  · rw [hcommits.log, List.pairwise_append]
    refine ⟨ht.first, ?_, ?_⟩
    · have hnames : ∀ e ∈ events, ∀ txnType txnId, txnType ≠ .pledge →
          Concerns e txnType txnId → (∃ input, op = .hold input) ∨
            ∃ r ∈ s.ledger.receipts, MintedFor r txnType txnId := by
        intro e he txnType txnId hpledge hconcerns
        rcases h.concerns heffect he hpledge hconcerns with
          ⟨input, hop, -⟩ | ⟨-, -, r, hr, hminted, -⟩
        · exact .inl ⟨input, hop⟩
        · exact .inr ⟨r, hr, hminted⟩
      cases heffect with
      | transferAndRelease ctx newOwnerId txnType' txnId' withinTx r loaded =>
          refine List.pairwise_pair.mpr fun txnType txnId hpledge hconcerns => ?_
          rcases hnames _ List.mem_cons_self txnType txnId hpledge hconcerns with
            ⟨input, hop⟩ | hminted
          · cases hop
          · exact hnot _ (by simp) txnType txnId hpledge hminted
      | _ => exact List.pairwise_singleton _ _
    · intro e₀ he₀ e he txnType txnId hpledge hconcerns
      obtain ⟨r, hr, hminted, -⟩ := ht.minted e₀ he₀ txnType txnId hpledge hconcerns
      exact hnot e he txnType txnId hpledge ⟨r, hr, hminted⟩
  · intro e he txnType txnId hpledge hkey
    rcases hcommits.mem_events.mp he with hold | hnew
    · exact (ht.hold e hold txnType txnId hpledge hkey).step hold heffect hcommits
    · obtain ⟨input, rfl, rfl, rfl⟩ := h.rightful.calls.hold_of_event heffect hnew hpledge hkey
      obtain ⟨e', held, rest, rfl, hcreated, hplaced, hconcerns, -, hminted, -, hparent, hrest⟩ :=
        kids_of_hold heffect
      obtain rfl := List.mem_singleton.mp hnew
      refine ⟨hplaced, hconcerns, held, rest, ?_, hminted, hparent, ?_⟩
      · rw [createdBy_new hcommits heffect hp hnew, ← hcreated]
        apply List.filter_eq_self.mpr
        intro k hk
        obtain ⟨e', he', hid, -⟩ := heffect.keyed_event
        obtain rfl := List.mem_singleton.mp he'
        rw [heffect.created_source hk, hid]
        exact decide_eq_true rfl
      · intro k hk
        rw [hrest k hk]
        exact List.mem_cons_self
  · intro e he txnType txnId hpledge hconcerns hkey
    rcases hcommits.mem_events.mp he with hold | hnew
    · obtain ⟨htype, hnone⟩ := ht.others e hold txnType txnId hpledge hconcerns hkey
      exact ⟨htype, by rw [createdBy_old hcommits heffect hold, hnone, List.map_nil]⟩
    · rcases h.concerns heffect hnew hpledge hconcerns with
        ⟨input, rfl, rfl, rfl⟩ | ⟨hnone, htype, -⟩
      · obtain ⟨e', held, rest, rfl, -, -, -, hkey', -⟩ := kids_of_hold heffect
        obtain rfl := List.mem_singleton.mp hnew
        rw [hkey'] at hkey
        exact absurd h.rightful.calls.hold_key.1 hkey
      · exact ⟨htype, by rw [createdBy_new hcommits heffect hp hnew, hnone, List.filter_nil]⟩

theorem Takes.transactionLog {mine : Issuer → Prop} {label : Label}
    (h : Takes num mine label s s') (hp : Provenance s.ledger) (hl : TransactionLeaves s.ledger)
    (ht : TransactionLog s.ledger) : TransactionLog s'.ledger := by
  cases label with
  | read =>
      rw [show s' = s from h]
      exact ht
  | ledger by_ op =>
      rcases h with rfl | ⟨-, hstep⟩
      · exact ht
      · exact hstep.transactionLog hp hl ht
  | write by_ =>
      rcases h with rfl | ⟨-, hwrite⟩
      · exact ht
      · exact hwrite.ledger ▸ ht

end Steps

section Shown

variable {s : Ledger} {txnType : TxnType} {txnId : Id} {r : Receipt}

/-- The events of a transaction in the tenant of its receipt: first the hold, under which the
receipt is, and then events with nothing under them. -/
theorem TransactionLog.shape (ht : TransactionLog s) (hl : TransactionLeaves s)
    (hpledge : txnType ≠ .pledge) (hr : r ∈ s.receipts) (hminted : MintedFor r txnType txnId) :
    ∃ placed later rest, (s.events.rows.filter fun e =>
        e.tenantId = r.tenantId ∧ Concerns e txnType txnId) = placed :: later ∧
      placed ∈ s.events ∧ placed.eventType = .holdPlaced ∧ s.createdBy placed = r :: rest ∧
      r.parentReceiptId = some placed.fromReceiptId ∧
      (∀ k ∈ rest, k.status ∈ [ReceiptStatus.active, .split, .expired]) ∧
      ∀ e ∈ later, e.eventType ≠ .holdPlaced ∧ s.createdBy e = [] := by
  obtain ⟨key, hkey, placed, hplaced, hlogged⟩ := hl.keyed r hr txnType txnId hpledge hminted
  subst hlogged
  have hhold := ht.hold placed hplaced txnType txnId hpledge hkey
  obtain ⟨held, rest, hkids, hheld, hparent, hrest⟩ := hhold.kids
  have hmem : held ∈ s.receipts := by
    have hunder : held ∈ s.createdBy placed := by simp [hkids]
    exact (List.mem_filter.mp hunder).1
  obtain rfl := hl.single held hmem r hr txnType txnId hpledge hheld hminted
  have htenant : placed.tenantId = held.tenantId := by
    obtain ⟨r', hr', hminted', htenant'⟩ :=
      ht.minted placed hplaced txnType txnId hpledge hhold.concerns
    obtain rfl := hl.single held hmem r' hr' txnType txnId hpledge hheld hminted'
    exact htenant'.symm
  generalize hlog : (s.events.rows.filter fun e =>
    e.tenantId = held.tenantId ∧ Concerns e txnType txnId) = log
  have hin : ∀ e ∈ log, e ∈ s.events ∧ Concerns e txnType txnId := by
    intro e he
    rw [← hlog, List.mem_filter, decide_eq_true_eq] at he
    exact ⟨he.1, he.2.2⟩
  have hplacedIn : placed ∈ log := by
    rw [← hlog, List.mem_filter, decide_eq_true_eq]
    exact ⟨hplaced, htenant, hhold.concerns⟩
  have hordered : log.Pairwise fun e e' => ∀ txnType txnId, txnType ≠ .pledge →
      Concerns e txnType txnId → holdKey txnType txnId ≠ some e'.idempotencyKey := by
    rw [← hlog]
    exact ht.first.filter _
  cases log with
  | nil => exact absurd hplacedIn List.not_mem_nil
  | cons first later =>
      obtain ⟨hfirst, -⟩ := List.pairwise_cons.mp hordered
      -- an event of the transaction before its hold would be out of order
      have hsame : placed = first := by
        rcases List.mem_cons.mp hplacedIn with hsame | hlater
        · exact hsame
        · have hconcerns := (hin first List.mem_cons_self).2
          exact absurd hkey (hfirst placed hlater txnType txnId hpledge hconcerns)
      subst hsame
      refine ⟨placed, later, rest, rfl, hplaced, hhold.placed, hkids, hparent, hrest, ?_⟩
      intro e he
      obtain ⟨hmemE, hconcerns⟩ := hin e (List.mem_cons_of_mem _ he)
      exact ht.others e hmemE txnType txnId hpledge hconcerns
        (hfirst e he txnType txnId hpledge hhold.concerns)

/-- Of the receipts under a hold, none but the one that was minted for the transaction meets a
test that what is left of the source never meets. -/
theorem find_kid {kids rest : List Receipt} (hkids : kids.Perm (r :: rest)) {p : Receipt → Prop}
    [DecidablePred p] (hrest : ∀ k ∈ rest, ¬ p k) :
    (kids.find? fun k => p k) = if p r then some r else none := by
  by_cases hp : p r
  · rw [if_pos hp]
    refine find?_unique (hkids.mem_iff.mpr List.mem_cons_self) (decide_eq_true hp) ?_
    intro k hk hpk
    rcases List.mem_cons.mp (hkids.mem_iff.mp hk) with rfl | hleft
    · rfl
    · exact absurd (of_decide_eq_true hpk) (hrest k hleft)
  · rw [if_neg hp, List.find?_eq_none]
    intro k hk
    rcases List.mem_cons.mp (hkids.mem_iff.mp hk) with rfl | hleft
    · simpa using hp
    · simpa using hrest k hleft

end Shown

/-- However the requests of the platform interleave and wherever they crash, the detail of a
withdrawal, a loan or a trade is given in the tenant of the receipt that was minted for it, and
to no other. It is opened by the hold and names the split receipt that the hold was placed on;
it shows the receipt as held while it is held, as terminal once it was withdrawn or seized, and
as neither when it was freed. The remainder is an active receipt that the hold created, and is
missing only when there is none; which of two is shown depends on the order they are read in. -/
theorem transaction_detail_tells {num : Numeric} {directory : Directory} {requests : List Request}
    {trace : List (Transition Label Db)} {db : Db} {pool : List (Api Unit)}
    (h : Run (Db.initial directory) (requests.map (Request.run num)) trace db pool)
    {occurredAt : InventoryEvent → Timestamp} (hstamped : StampedInOrder occurredAt db.ledger)
    (scan : Scan Receipt) {txnType : TxnType} (hpledge : txnType ≠ .pledge) (txnId tenantId : Id) :
    ((∀ r ∈ db.ledger.receipts, MintedFor r txnType txnId → r.tenantId ≠ tenantId) →
      InventoryQueryService.getTransactionDetail occurredAt scan db.ledger tenantId txnType txnId =
        .error ⟨txnType, txnId⟩) ∧
    ∀ r ∈ db.ledger.receipts, MintedFor r txnType txnId → r.tenantId = tenantId →
      ∃ detail source, InventoryQueryService.getTransactionDetail occurredAt scan db.ledger tenantId
          txnType txnId = .ok detail ∧
        (source ∈ db.ledger.receipts ∧ r.parentReceiptId = some source.id ∧
          source.status = .split ∧ source.tenantId = tenantId ∧
          detail.actedOn = some (pathStep source) ∧ detail.rootReceiptId = r.rootReceiptId) ∧
        detail.created.held = (if r.status.Held then some (descendant r) else none) ∧
        detail.created.terminal =
          (if r.status ∈ closedFor then some (descendant r) else none) ∧
        (∀ d, detail.created.remainder = some d → ∃ k ∈ db.ledger.receipts,
          k.sourceEventId = r.sourceEventId ∧ k.status = .active ∧ d = descendant k) ∧
        (detail.created.remainder = none → ∀ k ∈ db.ledger.receipts,
          k.sourceEventId = r.sourceEventId → k.status ≠ .active) ∧
        ∃ placed later, detail.events = placed :: later ∧ placed.eventType = .holdPlaced ∧
          ∀ e ∈ later, e.eventType ≠ .holdPlaced := by
  have hcustody := runs_custody num directory requests h
  have hboth : TransactionLeaves db.ledger ∧ TransactionLog db.ledger := by
    apply h.history (P := fun _ db => TransactionLeaves db.ledger ∧ TransactionLog db.ledger)
    · exact ⟨transactionLeaves_empty, transactionLog_empty⟩
    intro earlier t later htrace hboth
    obtain ⟨hleaves, hlog⟩ := hboth
    obtain ⟨hbefore, htakes, -⟩ := hcustody.each t (by simp [htrace])
    exact ⟨htakes.transactionLeaves hbefore hleaves,
      htakes.transactionLog hbefore.provenance hleaves hlog⟩
  obtain ⟨hleaves, hlog⟩ := hboth
  have hancestry : Ancestry db.ledger :=
    runs_ledger ancestry_empty (fun hs heffect hcommits => hs.step heffect hcommits) h
  have hsorted : ∀ tenantId, byTime occurredAt (db.ledger.events.rows.filter fun e =>
      e.tenantId = tenantId ∧ Concerns e txnType txnId) =
        db.ledger.events.rows.filter fun e =>
          e.tenantId = tenantId ∧ Concerns e txnType txnId := by
    intro tenantId
    exact List.Pairwise.insertionSort_eq (hstamped.filter _)
  constructor
  · intro hother
    have hnone : (db.ledger.events.rows.filter fun e =>
        e.tenantId = tenantId ∧ Concerns e txnType txnId) = [] := by
      apply List.filter_eq_nil_iff.mpr
      intro e he hmatch
      obtain ⟨htenant, hconcerns⟩ := of_decide_eq_true hmatch
      obtain ⟨r, hr, hminted, hsame⟩ := hlog.minted e he txnType txnId hpledge hconcerns
      exact hother r hr hminted (hsame.trans htenant)
    have hevents := (hsorted tenantId).trans hnone
    unfold InventoryQueryService.getTransactionDetail
    simp only [hevents]
  · rintro r hr hminted rfl
    obtain ⟨placed, later, rest, hshape, hplaced, htype, hkids, hparent, hrest, hlater⟩ :=
      hlog.shape hleaves hpledge hr hminted
    obtain ⟨source, hsource, hid, hkin⟩ := hancestry.parent r hr _ hparent
    obtain ⟨source', hsource', hid', hsplit⟩ :=
      hancestry.lifecycle.child_of_split r hr _ hparent
    obtain rfl := Table.eq_of_key_eq hsource hsource' (hid.trans hid'.symm)
    obtain ⟨x, hx, hxid, -, hxroot⟩ := hancestry.provenance.from_exists placed hplaced
    obtain rfl := Table.eq_of_key_eq hx hsource (hxid.trans hid.symm)
    have hcreated : ((placed :: later).flatMap fun e => db.ledger.byEvent scan e) =
        db.ledger.byEvent scan placed := by
      have hempty : (later.flatMap fun e => db.ledger.byEvent scan e) = [] :=
        List.flatMap_eq_nil_iff.mpr fun e he => scan.order_eq_nil.mpr (hlater e he).2
      rw [List.flatMap_cons, hempty, List.append_nil]
    have hperm : (db.ledger.byEvent scan placed).Perm (r :: rest) := hkids ▸ scan.perm _
    have hunder : ∀ k, k ∈ db.ledger.byEvent scan placed ↔
        k ∈ db.ledger.receipts ∧ k.sourceEventId = r.sourceEventId := by
      have hsourced := (Ledger.mem_byEvent.mp (hperm.mem_iff.mpr List.mem_cons_self)).2
      intro k
      rw [Ledger.mem_byEvent, hsourced]
    have hfind : db.ledger.receipts.find placed.fromReceiptId = some x :=
      Table.find_eq_some_iff.mpr ⟨hx, hxid⟩
    have hstatus : ∀ k ∈ rest, ¬ k.status.Held ∧ k.status ∉ closedFor := by
      intro k hk
      have hleft := hrest k hk
      generalize k.status = status at hleft
      simp only [List.mem_cons, List.not_mem_nil, or_false] at hleft
      rcases hleft with rfl | rfl | rfl <;> decide
    have hdetail : InventoryQueryService.getTransactionDetail occurredAt scan db.ledger r.tenantId
        txnType txnId = .ok
          { txnType := txnType, txnId := txnId, rootReceiptId := placed.rootReceiptId
            actedOn := some (pathStep x)
            created :=
              { held := ((db.ledger.byEvent scan placed).find? fun k =>
                  k.status.Held).map descendant
                remainder := ((db.ledger.byEvent scan placed).find? fun k =>
                  k.status = .active).map descendant
                terminal := ((db.ledger.byEvent scan placed).find? fun k =>
                  k.status ∈ closedFor).map descendant }
            events := (placed :: later).map (transactionEvent occurredAt) } := by
      have hevents := (hsorted r.tenantId).trans hshape
      unfold InventoryQueryService.getTransactionDetail
      simp only [hevents, hcreated, hfind, Option.map_some]
    refine ⟨_, x, hdetail, ⟨hx, ?_, hsplit, hkin.tenantId.symm, rfl, ?_⟩, ?_, ?_, ?_, ?_,
      transactionEvent occurredAt placed, later.map (transactionEvent occurredAt), rfl, htype, ?_⟩
    · rw [hparent, hxid]
    · exact hxroot.symm.trans hkin.rootReceiptId.symm
    · rw [find_kid hperm fun k hk => (hstatus k hk).1]
      split <;> rfl
    · rw [find_kid hperm fun k hk => (hstatus k hk).2]
      split <;> rfl
    · intro d hd
      obtain ⟨k, hk, rfl⟩ := Option.map_eq_some_iff.mp hd
      obtain ⟨hmem, hsame⟩ := (hunder k).mp (List.mem_of_find?_eq_some hk)
      exact ⟨k, hmem, hsame, by simpa using List.find?_some hk, rfl⟩
    · intro hnone k hk hsame
      have hmissing := List.find?_eq_none.mp (Option.map_eq_none_iff.mp hnone) k
        ((hunder k).mpr ⟨hk, hsame⟩)
      simpa using hmissing
    · intro e he
      obtain ⟨e', he', rfl⟩ := List.mem_map.mp he
      exact (hlater e' he').1

/-- The dispatched withdrawal shows its receipt as terminal, and nothing as held. -/
theorem transaction_detail_tells_sample : ∃ detail : TransactionDetail,
    InventoryQueryService.getTransactionDetail (fun _ => 0) .reversed
        InventoryQueryService.dispatchedRun.2.1.ledger 1 .withdrawal 9 = .ok detail ∧
      detail.created.held = none ∧ detail.created.terminal.isSome = true := by
  have hminted : ∃ r ∈ InventoryQueryService.dispatchedRun.2.1.ledger.receipts.rows,
      r.status = .withdrawn ∧ r.tenantId = 1 ∧ MintedFor r .withdrawal 9 := by
    unfold MintedFor
    decide +kernel
  obtain ⟨r, hr, hstatus, htenant, hminted⟩ := hminted
  have hstamped : StampedInOrder (fun _ => 0) InventoryQueryService.dispatchedRun.2.1.ledger :=
    List.pairwise_of_forall fun _ _ => le_rfl
  have hpledge : TxnType.withdrawal ≠ .pledge := by decide
  obtain ⟨detail, source, hok, -, hheld, hterminal, -⟩ :=
    (transaction_detail_tells (run_interleave _ _ _) hstamped .reversed hpledge 9 1).2
      r hr hminted htenant
  refine ⟨detail, hok, ?_, ?_⟩
  · rw [hheld, hstatus]
    rfl
  · rw [hterminal, hstatus]
    rfl

end SecureStore.Services
