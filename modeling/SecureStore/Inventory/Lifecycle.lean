/-
# The receipt lifecycle

Which statuses a receipt can go through, and what its status says about its
place in the tree. Every operation moves a receipt along one relation on
statuses; split receipts are exactly the inner nodes of the trees, and an ACTIVE
receipt has been approved, which is what makes the group of a receipt and the
filter of a list query agree.
-/

import SecureStore.Inventory.Effect
import Mathlib.Logic.Relation

namespace SecureStore.Inventory

open SecureStore.Foundation

/-- The moves of the receipt lifecycle. -/
inductive Moves : ReceiptStatus → ReceiptStatus → Prop where
  | approve : Moves .pendingApproval .active
  | reject : Moves .pendingApproval .cancelled
  | split : Moves .active .split
  | expire : Moves .active .expired
  | lien : Moves .heldPledgePending .heldLien
  | release {status : ReceiptStatus} (held : status.Held) : Moves status .active
  | withdraw {status : ReceiptStatus} (held : status.Held) : Moves status .withdrawn
  | seize : Moves .heldLoan .seized
  | seizePart : Moves .heldLoan .split
  | releasePart : Moves .heldLien .split

/-- The statuses a receipt never leaves. -/
def Terminal (status : ReceiptStatus) : Prop :=
  status ∈ [ReceiptStatus.split, .withdrawn, .seized, .expired, .cancelled]

instance : DecidablePred Terminal := fun _ => List.instDecidableMemOfLawfulBEq _ _

theorem Moves.not_terminal {before after : ReceiptStatus} (h : Moves before after) :
    ¬ Terminal before := by
  cases h with
  | release held => cases before <;> revert held <;> decide
  | withdraw held => cases before <;> revert held <;> decide
  | _ => decide

/-- A receipt that is held was held before: holds are placed at creation. -/
theorem Moves.held {before after : ReceiptStatus} (h : Moves before after) (hheld : after.Held) :
    before.Held := by
  cases h with
  | lien => decide
  | release held => exact held
  | withdraw held => exact held
  | _ => exact absurd hheld (by decide)

/-- No receipt comes to be held for a pending pledge but by its creation. -/
theorem Moves.not_pledged {before after : ReceiptStatus} (h : Moves before after) :
    after ≠ .heldPledgePending := by
  cases h <;> decide

theorem held_reached {before after : ReceiptStatus}
    (h : Relation.ReflTransGen Moves before after) (hheld : after.Held) : before.Held := by
  induction h with
  | refl => exact hheld
  | tail _ hmove ih => exact ih (hmove.held hheld)

theorem Moves.of_active {after : ReceiptStatus} (h : Moves .active after) :
    after = .split ∨ after = .expired := by
  cases h with
  | split => exact .inl rfl
  | expire => exact .inr rfl
  | release held => exact absurd held (by decide)
  | withdraw held => exact absurd held (by decide)

/-- A terminal status is kept along every sequence of moves. -/
theorem terminal_stays {before after : ReceiptStatus}
    (h : Relation.ReflTransGen Moves before after) (hterminal : Terminal before) :
    after = before := by
  rcases Relation.ReflTransGen.cases_head h with rfl | ⟨_, hmove, -⟩
  · rfl
  · exact absurd hterminal hmove.not_terminal

/-- From ACTIVE only SPLIT and EXPIRED can be reached. -/
theorem active_reaches {after : ReceiptStatus}
    (h : Relation.ReflTransGen Moves .active after) :
    after = .active ∨ after = .split ∨ after = .expired := by
  rcases Relation.ReflTransGen.cases_head h with rfl | ⟨middle, hmove, hrest⟩
  · exact .inl rfl
  · rcases hmove.of_active with rfl | rfl
    · exact .inr (.inl (terminal_stays hrest (by decide)))
    · exact .inr (.inr (terminal_stays hrest (by decide)))

/-- Two versions of one node: an update never changes its lineage. -/
structure SameNode (before after : Receipt) : Prop where
  id : after.id = before.id
  receiptNumber : after.receiptNumber = before.receiptNumber
  tenantId : after.tenantId = before.tenantId
  quantity : after.quantity = before.quantity
  parentReceiptId : after.parentReceiptId = before.parentReceiptId
  rootReceiptId : after.rootReceiptId = before.rootReceiptId
  sourceTxnType : after.sourceTxnType = before.sourceTxnType
  sourceTxnId : after.sourceTxnId = before.sourceTxnId
  sourceEventId : after.sourceEventId = before.sourceEventId

theorem SameNode.refl (r : Receipt) : SameNode r r := ⟨rfl, rfl, rfl, rfl, rfl, rfl, rfl, rfl, rfl⟩

theorem SameNode.trans {r r' r'' : Receipt} (h : SameNode r r') (h' : SameNode r' r'') :
    SameNode r r'' :=
  ⟨h'.id.trans h.id, h'.receiptNumber.trans h.receiptNumber, h'.tenantId.trans h.tenantId,
    h'.quantity.trans h.quantity, h'.parentReceiptId.trans h.parentReceiptId,
    h'.rootReceiptId.trans h.rootReceiptId, h'.sourceTxnType.trans h.sourceTxnType,
    h'.sourceTxnId.trans h.sourceTxnId, h'.sourceEventId.trans h.sourceEventId⟩

section Effects

variable {num : Numeric} {uuids : Uuids} {op : LedgerOp} {s s' : Ledger}
  {events : List InventoryEvent} {change : Change} {result : LedgerResult}

theorem Effect.sameNode (h : Effect num uuids s op events change result)
    {before after : Receipt} (hrewritten : change.rewritten = some (before, after)) :
    SameNode before after := by
  cases h <;> cases hrewritten <;> exact ⟨rfl, rfl, rfl, rfl, rfl, rfl, rfl, rfl, rfl⟩

theorem Effect.sameWarehouse (h : Effect num uuids s op events change result)
    {before after : Receipt} (hrewritten : change.rewritten = some (before, after)) :
    after.warehouseId = before.warehouseId := by
  cases h <;> cases hrewritten <;> rfl

/-- How the status of the rewritten receipt changes: it stays, or it moves
without making the receipt a parent, or the receipt is split into children. -/
theorem Effect.moves (h : Effect num uuids s op events change result)
    {before after : Receipt} (hrewritten : change.rewritten = some (before, after)) :
    (after.status = before.status ∧ after.isParent = before.isParent ∧
        (before.approvalStatus = .approved → after.approvalStatus = .approved)) ∨
      (Moves before.status after.status ∧ after.status ≠ .split ∧
        after.isParent = before.isParent ∧
        (after.status = .active → after.approvalStatus = .approved)) ∨
      (Moves before.status .split ∧ after = supersede before ∧
        ∃ k ∈ change.created, k.parentReceiptId = some before.id) := by
  cases h with
  | deposit => cases hrewritten
  | approveReceipt ctx r loaded pending =>
      cases hrewritten
      exact .inr (.inl ⟨pending ▸ .approve, by simp, rfl, fun _ => rfl⟩)
  | rejectReceipt ctx reason r loaded pending =>
      cases hrewritten
      exact .inr (.inl ⟨pending ▸ .reject, by simp, rfl, by simp⟩)
  | hold input src number number' loaded active =>
      cases hrewritten
      exact .inr (.inr ⟨active ▸ .split, rfl, _, List.mem_cons_self, rfl⟩)
  | approveHold ctx r loaded held pending =>
      cases hrewritten
      exact .inl ⟨rfl, rfl, fun _ => rfl⟩
  | release ctx r loaded held =>
      cases hrewritten
      exact .inr (.inl ⟨.release held, by simp, rfl, fun _ => rfl⟩)
  | consume ctx r loaded held =>
      cases hrewritten
      exact .inr (.inl ⟨.withdraw held, by simp, rfl, by simp⟩)
  | releasePartial input src number number' loaded lien =>
      cases hrewritten
      exact .inr (.inr ⟨lien ▸ .releasePart, rfl, _, List.mem_cons_self, rfl⟩)
  | transitionPledgeToLien ctx pledgeId r loaded pledged =>
      cases hrewritten
      exact .inr (.inl ⟨pledged ▸ .lien, by simp, rfl, by simp⟩)
  | seizePart input r pq number number' loaded loan =>
      cases hrewritten
      exact .inr (.inr ⟨loan ▸ .seizePart, rfl, _, List.mem_cons_self, rfl⟩)
  | seizeAll input r loaded loan =>
      cases hrewritten
      exact .inr (.inl ⟨loan ▸ .seize, by simp, rfl, by simp⟩)
  | transferOwnership ctx newOwnerId txnType txnId r loaded =>
      cases hrewritten
      exact .inl ⟨rfl, rfl, id⟩
  | transferAndRelease ctx newOwnerId txnType txnId withinTx r loaded held =>
      cases hrewritten
      exact .inr (.inl ⟨.release held, by simp, rfl, fun _ => rfl⟩)
  | expire ctx r loaded active =>
      cases hrewritten
      exact .inr (.inl ⟨active ▸ .expire, by simp, rfl, by simp⟩)

/-- The second child of a partition is an approved ACTIVE leaf. -/
theorem mem_partitionRemainder {source k : Receipt} {qty : ℚ} {number : List Char}
    (h : k ∈ (partitionRemainder num uuids source qty number).toList) :
    k = remainderChild num uuids source qty number := by
  unfold partitionRemainder at h
  split at h
  · simpa using h
  · simp at h

/-- A created receipt is a leaf, and it is a root or a child of the receipt that
was split. -/
theorem Effect.created (h : Effect num uuids s op events change result) {k : Receipt}
    (hk : k ∈ change.created) :
    k.isParent = false ∧ k.status ≠ .split ∧
      (k.status = .active → k.approvalStatus = .approved) ∧
      (k.parentReceiptId = none ∨ ∃ src, change.rewritten = some (src, supersede src) ∧
        k.parentReceiptId = some src.id) := by
  cases h with
  | deposit input positive =>
      obtain rfl := List.mem_singleton.mp hk
      exact ⟨rfl, by simp, by simp, .inl rfl⟩
  | hold input src number number' =>
      rcases List.mem_cons.mp hk with rfl | hk
      · refine ⟨rfl, ?_, ?_, .inr ⟨src, rfl, rfl⟩⟩ <;>
          cases hheld : input.heldStatus <;> simp [hheld, HeldStatus.status]
      · obtain rfl := mem_partitionRemainder hk
        exact ⟨rfl, by simp, by simp, .inr ⟨src, rfl, rfl⟩⟩
  | releasePartial input src number number' =>
      rcases List.mem_pair.mp hk with rfl | rfl
      · exact ⟨rfl, by simp, by simp, .inr ⟨src, rfl, rfl⟩⟩
      · exact ⟨rfl, by simp, by simp, .inr ⟨src, rfl, rfl⟩⟩
  | seizePart input r pq number number' =>
      rcases List.mem_cons.mp hk with rfl | hk
      · exact ⟨rfl, by simp, by simp, .inr ⟨r, rfl, rfl⟩⟩
      · obtain rfl := mem_partitionRemainder hk
        exact ⟨rfl, by simp, by simp, .inr ⟨r, rfl, rfl⟩⟩
  | _ => cases hk

/-- A HOLD_PLACED event is the only event of its transaction, which splits an
ACTIVE receipt. -/
theorem Effect.holdPlaced (h : Effect num uuids s op events change result)
    {e : InventoryEvent} (he : e ∈ events) (htype : e.eventType = .holdPlaced) :
    events = [e] ∧ ∃ src, change.rewritten = some (src, supersede src) ∧
      src.id = e.fromReceiptId ∧ src.status = .active := by
  cases h with
  | hold input src number number' loaded active =>
      obtain rfl := List.mem_singleton.mp he
      exact ⟨rfl, src, rfl, rfl, active⟩
  | transferAndRelease =>
      rcases List.mem_pair.mp he with rfl | rfl <;> simp at htype
  | _ =>
      obtain rfl := List.mem_singleton.mp he
      simp at htype

/-- What the status of a receipt says in every reachable ledger. -/
structure Lifecycle (s : Ledger) : Prop where
  parent_iff : ∀ r ∈ s.receipts, r.isParent = true ↔ r.status = .split
  split_has_child : ∀ r ∈ s.receipts, r.status = .split →
    ∃ k ∈ s.receipts, k.parentReceiptId = some r.id
  child_of_split : ∀ k ∈ s.receipts, ∀ p, k.parentReceiptId = some p →
    ∃ r ∈ s.receipts, r.id = p ∧ r.status = .split
  active_approved : ∀ r ∈ s.receipts, r.status = .active → r.approvalStatus = .approved
  hold_splits : ∀ e ∈ s.events, e.eventType = .holdPlaced →
    ∃ r ∈ s.receipts, r.id = e.fromReceiptId ∧ r.status = .split
  one_hold : ∀ e ∈ s.events, ∀ e' ∈ s.events, e.eventType = .holdPlaced →
    e'.eventType = .holdPlaced → e.fromReceiptId = e'.fromReceiptId → e = e'

theorem lifecycle_empty : Lifecycle Ledger.empty := by
  constructor <;> simp

/-- A commit keeps every receipt's lineage and moves its status at most once. -/
theorem Commits.advance (hcommits : Commits s events change s')
    (heffect : Effect num uuids s op events change result) {r : Receipt} (hr : r ∈ s.receipts) :
    SameNode r (change.apply r) ∧
      ((change.apply r).status = r.status ∨ Moves r.status (change.apply r).status) := by
  unfold Change.apply
  split
  · rename_i before after hrewritten
    split
    · rename_i hid
      obtain rfl := Table.eq_of_key_eq hr
        (Table.mem_of_find (hcommits.found before after hrewritten).1) hid
      refine ⟨heffect.sameNode hrewritten, ?_⟩
      rcases heffect.moves hrewritten with ⟨hsame, -⟩ | ⟨hmove, -⟩ | ⟨hmove, rfl, -⟩
      · exact .inl hsame
      · exact .inr hmove
      · exact .inr hmove
    · exact ⟨.refl r, .inl rfl⟩
  · exact ⟨.refl r, .inl rfl⟩

/-- A commit moves no receipt to another warehouse. -/
theorem Commits.sameWarehouse (hcommits : Commits s events change s')
    (heffect : Effect num uuids s op events change result) {r : Receipt} (hr : r ∈ s.receipts) :
    (change.apply r).warehouseId = r.warehouseId :=
  hcommits.keeps (fun _ _ hrewritten => heffect.sameWarehouse hrewritten) hr

/-- A later ledger: every event is still logged, and every receipt is still there,
possibly further along its lifecycle. -/
structure Later (s s' : Ledger) : Prop where
  events : ∀ e ∈ s.events, e ∈ s'.events
  receipts : ∀ r ∈ s.receipts, ∃ r' ∈ s'.receipts, SameNode r r' ∧
    Relation.ReflTransGen Moves r.status r'.status

theorem Later.refl (s : Ledger) : Later s s :=
  ⟨fun _ he => he, fun r hr => ⟨r, hr, .refl r, .refl⟩⟩

theorem Later.trans {s'' : Ledger} (h : Later s s') (h' : Later s' s'') : Later s s'' := by
  refine ⟨fun e he => h'.events e (h.events e he), fun r hr => ?_⟩
  obtain ⟨r', hr', hnode, hmoves⟩ := h.receipts r hr
  obtain ⟨r'', hr'', hnode', hmoves'⟩ := h'.receipts r' hr'
  exact ⟨r'', hr'', hnode.trans hnode', hmoves.trans hmoves'⟩

theorem Commits.later (hcommits : Commits s events change s')
    (heffect : Effect num uuids s op events change result) : Later s s' := by
  refine ⟨fun e he => hcommits.mem_events.mpr (.inl he), fun r hr => ?_⟩
  obtain ⟨hnode, hstatus⟩ := hcommits.advance heffect hr
  refine ⟨change.apply r, hcommits.mem_receipts.mpr (.inl ⟨r, hr, rfl⟩), hnode, ?_⟩
  rcases hstatus with hsame | hmove
  · rw [hsame]
  · exact .single hmove

/-- Where a receipt is found, it is found later. -/
theorem Later.find (h : Later s s') {id : Id} {r : Receipt}
    (hfind : s.receipts.find id = some r) : ∃ r', s'.receipts.find id = some r' ∧
      SameNode r r' ∧ Relation.ReflTransGen Moves r.status r'.status := by
  obtain ⟨r', hr', hnode, hmoves⟩ := h.receipts r (Table.mem_of_find hfind)
  refine ⟨r', Table.find_eq_some_iff.mpr ⟨hr', ?_⟩, hnode, hmoves⟩
  exact hnode.id.trans (Table.key_of_find hfind)

/-- A split receipt is not touched by any later commit. -/
theorem Commits.split_stays (hcommits : Commits s events change s')
    (heffect : Effect num uuids s op events change result) {r : Receipt} (hr : r ∈ s.receipts)
    (hsplit : r.status = .split) : ∃ r' ∈ s'.receipts, r'.id = r.id ∧ r'.status = .split := by
  refine ⟨change.apply r, hcommits.mem_receipts.mpr (.inl ⟨r, hr, rfl⟩), hcommits.apply_id r, ?_⟩
  rcases (hcommits.advance heffect hr).2 with hsame | hmove
  · rw [hsame, hsplit]
  · exact absurd (by rw [hsplit]; decide) hmove.not_terminal

theorem Lifecycle.step (h : Lifecycle s)
    (heffect : Effect num uuids s op events change result)
    (hcommits : Commits s events change s') : Lifecycle s' := by
  have superseded : ∀ {src : Receipt}, change.rewritten = some (src, supersede src) →
      ∃ r ∈ s'.receipts, r.id = src.id ∧ r.status = .split := by
    intro src hrewritten
    have hfind := hcommits.find_receipt (hcommits.found _ _ hrewritten).1
    refine ⟨_, Table.mem_of_find hfind, hcommits.apply_id src, ?_⟩
    simp [Change.apply, hrewritten]
  have older : ∀ {e : InventoryEvent}, e ∈ s.events → e.eventType = .holdPlaced →
      ∀ {src : Receipt}, change.rewritten = some (src, supersede src) →
        src.status = .active → e.fromReceiptId ≠ src.id := by
    intro e he htype src hrewritten hactive hfrom
    obtain ⟨r, hr, hid, hsplit⟩ := h.hold_splits e he htype
    have hsrc := Table.mem_of_find (hcommits.found _ _ hrewritten).1
    obtain rfl := Table.eq_of_key_eq hr hsrc (hid.trans hfrom)
    rw [hactive] at hsplit
    cases hsplit
  constructor
  · -- the parent flag
    intro r hr
    rcases hcommits.receipt_cases hr with hcreated | ⟨before, hrewritten, hbefore⟩ | ⟨hold, -⟩
    · obtain ⟨hflag, hstatus, -, -⟩ := heffect.created hcreated
      simp [hflag, hstatus]
    · have hflag := h.parent_iff before hbefore
      rcases heffect.moves hrewritten with ⟨hs, hp, -⟩ | ⟨hmove, hns, hp, -⟩ | ⟨-, rfl, -⟩
      · rw [hs, hp]
        exact hflag
      · rw [hp, hflag]
        refine iff_of_false (fun hsplit => hmove.not_terminal ?_) hns
        rw [hsplit]
        decide
      · simp
    · exact h.parent_iff r hold
  · -- a split receipt has a child
    intro r hr hsplit
    have keep : ∀ {b : Receipt}, b ∈ s.receipts → b.status = .split → b.id = r.id →
        ∃ k ∈ s'.receipts, k.parentReceiptId = some r.id := by
      intro b hb hbsplit hid
      obtain ⟨k, hk, hparent⟩ := h.split_has_child b hb hbsplit
      refine ⟨change.apply k, hcommits.mem_receipts.mpr (.inl ⟨k, hk, rfl⟩), ?_⟩
      rw [(hcommits.advance heffect hk).1.parentReceiptId, hparent, hid]
    rcases hcommits.receipt_cases hr with hcreated | ⟨before, hrewritten, hbefore⟩ | ⟨hold, -⟩
    · exact absurd hsplit (heffect.created hcreated).2.1
    · have hid := (heffect.sameNode hrewritten).id
      rcases heffect.moves hrewritten with ⟨hs, -, -⟩ | ⟨-, hns, -⟩ | ⟨-, -, k, hk, hparent⟩
      · exact keep hbefore (hs ▸ hsplit) hid.symm
      · exact absurd hsplit hns
      · exact ⟨k, hcommits.mem_receipts.mpr (.inr hk), hparent.trans (by rw [hid])⟩
    · exact keep hold hsplit rfl
  · -- a parent is split
    intro k hk p hp
    have keep : ∀ {b : Receipt}, b ∈ s.receipts → b.parentReceiptId = some p →
        ∃ r ∈ s'.receipts, r.id = p ∧ r.status = .split := by
      intro b hb hbp
      obtain ⟨r, hr, rfl, hsplit⟩ := h.child_of_split b hb p hbp
      exact hcommits.split_stays heffect hr hsplit
    rcases hcommits.receipt_cases hk with hcreated | ⟨before, hrewritten, hbefore⟩ | ⟨hold, -⟩
    · obtain ⟨-, -, -, hroot | ⟨src, hrewritten, hparent⟩⟩ := heffect.created hcreated
      · rw [hroot] at hp
        cases hp
      · rw [hparent] at hp
        cases hp
        exact superseded hrewritten
    · exact keep hbefore ((heffect.sameNode hrewritten).parentReceiptId ▸ hp)
    · exact keep hold hp
  · -- an ACTIVE receipt is approved
    intro r hr hactive
    rcases hcommits.receipt_cases hr with hcreated | ⟨before, hrewritten, hbefore⟩ | ⟨hold, -⟩
    · exact (heffect.created hcreated).2.2.1 hactive
    · rcases heffect.moves hrewritten with ⟨hs, -, happroved⟩ | ⟨-, -, -, happroved⟩ | ⟨-, rfl, -⟩
      · exact happroved (h.active_approved before hbefore (hs ▸ hactive))
      · exact happroved hactive
      · cases hactive
    · exact h.active_approved r hold hactive
  · -- a hold has split its source
    intro e he htype
    rcases hcommits.mem_events.mp he with hold | hnew
    · obtain ⟨r, hr, hid, hsplit⟩ := h.hold_splits e hold htype
      rw [← hid]
      exact hcommits.split_stays heffect hr hsplit
    · obtain ⟨-, src, hrewritten, hid, -⟩ := heffect.holdPlaced hnew htype
      rw [← hid]
      exact superseded hrewritten
  · -- one hold for each source
    intro e he e' he' htype htype' hfrom
    rcases hcommits.mem_events.mp he with hold | hnew <;>
      rcases hcommits.mem_events.mp he' with hold' | hnew'
    · exact h.one_hold e hold e' hold' htype htype' hfrom
    · obtain ⟨-, src, hrewritten, hid, hactive⟩ := heffect.holdPlaced hnew' htype'
      exact absurd (hfrom.trans hid.symm) (older hold htype hrewritten hactive)
    · obtain ⟨-, src, hrewritten, hid, hactive⟩ := heffect.holdPlaced hnew htype
      exact absurd (hfrom.symm.trans hid.symm) (older hold' htype' hrewritten hactive)
    · obtain ⟨hevents, -⟩ := heffect.holdPlaced hnew htype
      rw [hevents] at hnew'
      exact (List.mem_singleton.mp hnew').symm

end Effects

section Runs

variable {num : Numeric}

theorem lifecycle_run (num : Numeric) {s : Ledger} (h : Lifecycle s) (calls : List LedgerCall) :
    Lifecycle (runCalls num calls s) :=
  runCalls_invariant (fun hs _ heffect hcommits => hs.step heffect hcommits) calls h

/-- Along a run every receipt stays, keeps its lineage and moves forward. -/
theorem runCalls_later (calls : List LedgerCall) (s : Ledger) : Later s (runCalls num calls s) :=
  runCalls_invariant (P := Later s)
    (fun h _ heffect hcommits => h.trans (hcommits.later heffect)) calls (.refl s)

/-- For an approved receipt the group and the list filter agree. -/
theorem deriveGroup_iff {r : Receipt}
    (h : r.status = .active → r.approvalStatus = .approved) (g : ReceiptGroup) :
    deriveGroup r = g ↔ r.status ∈ statusesForGroup g := by
  unfold deriveGroup
  cases hstatus : r.status <;> cases g <;>
    simp [closedStatuses, heldStatuses, statusesForGroup] <;> simp [h hstatus]

/-- In every run each call moves a receipt at most one step along the lifecycle;
so ACTIVE receipts never become held and terminal statuses stay. The parent
flag, the SPLIT status and having children coincide, a source is held at most
once, ACTIVE receipts are approved, and groups agree with their filters. -/
theorem receipt_lifecycle (num : Numeric) (calls : List LedgerCall) :
    let s := runCalls num calls Ledger.empty
    (∀ (c : LedgerCall) (id : Id) (r : Receipt), s.receipts.find id = some r →
      ∃ r', (c.after num s).receipts.find id = some r' ∧
        (r'.status = r.status ∨ Moves r.status r'.status)) ∧
    (∀ (more : List LedgerCall) (id : Id) (r : Receipt), s.receipts.find id = some r →
      ∃ r', (runCalls num (calls ++ more) Ledger.empty).receipts.find id = some r' ∧
        (r.status = .active → ¬ r'.status.Held) ∧
        (Terminal r.status → r'.status = r.status)) ∧
    (∀ r ∈ s.receipts,
      (r.isParent = true ↔ r.status = .split) ∧
      (r.isParent = true ↔ ∃ k ∈ s.receipts, k.parentReceiptId = some r.id) ∧
      (r.status = .active → r.approvalStatus = .approved) ∧
      ∀ g, deriveGroup r = g ↔ r.status ∈ statusesForGroup g) ∧
    (∀ e ∈ s.events, ∀ e' ∈ s.events, e.eventType = .holdPlaced →
      e'.eventType = .holdPlaced → e.fromReceiptId = e'.fromReceiptId → e = e') := by
  intro s
  have hlife : Lifecycle s := lifecycle_run num lifecycle_empty calls
  refine ⟨?_, ?_, ?_, hlife.one_hold⟩
  · intro c id r hfind
    rcases after_cases num c s with hsame | ⟨events, change, result, -, heffect, hcommits⟩
    · exact ⟨r, by rw [hsame, hfind], .inl rfl⟩
    · exact ⟨_, hcommits.find_receipt hfind,
        (hcommits.advance heffect (Table.mem_of_find hfind)).2⟩
  · intro more id r hfind
    rw [runCalls_append]
    obtain ⟨r', hfind', -, hmoves⟩ := (runCalls_later more _).find hfind
    refine ⟨r', hfind', ?_, terminal_stays hmoves⟩
    intro hactive
    rw [hactive] at hmoves
    rcases active_reaches hmoves with h | h | h <;> rw [h] <;> decide
  · intro r hr
    refine ⟨hlife.parent_iff r hr, ?_, hlife.active_approved r hr,
      deriveGroup_iff (hlife.active_approved r hr)⟩
    rw [hlife.parent_iff r hr]
    refine ⟨hlife.split_has_child r hr, ?_⟩
    rintro ⟨k, hk, hparent⟩
    obtain ⟨p, hp, hid, hsplit⟩ := hlife.child_of_split k hk r.id hparent
    exact Table.eq_of_key_eq hp hr hid ▸ hsplit

end Runs

end SecureStore.Inventory
