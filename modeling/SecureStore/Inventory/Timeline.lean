/-
# The timeline of a receipt

The events under a receipt are the one that minted it and those that acted on it. Read in
the order of the log, they tell where it stands: the first says how it may have begun, and
each later one where it left the receipt. The events do not say that a receipt was split
when only a part of it was released or seized, but then the receipt is marked as a parent.
-/

import SecureStore.Inventory.Ancestry

namespace SecureStore.Inventory

open SecureStore.Foundation

/-- The status of a receipt and whether it is approved. -/
abbrev Standing := ReceiptStatus × ApprovalStatus

def Receipt.standing (r : Receipt) : Standing := (r.status, r.approvalStatus)

/-- Where an event leaves a receipt that it acts on without splitting it. -/
def InventoryEventType.leaves (before : Standing) : InventoryEventType → Standing
  | .deposit => (.pendingApproval, .pending)
  | .approved =>
      if before.1 = .pendingApproval then (.active, .approved) else (before.1, .approved)
  | .rejected => (.cancelled, .rejected)
  | .holdReleased => (.active, .approved)
  | .pledgeAccepted => (.heldLien, before.2)
  | .consumed => (.withdrawn, before.2)
  | .seized => (.seized, before.2)
  | .expired => (.expired, before.2)
  | .holdPlaced | .ownershipTransferred | .cancelled | .legacyReconciliation => before

/-- Where events leave a receipt, one after the other. -/
def standingAfter (start : Standing) (events : List InventoryEvent) : Standing :=
  events.foldl (fun before e => e.eventType.leaves before) start

/-- How an event can leave a receipt that it mints: the root of a deposit, the held part and
the rest of a hold, the freed part and the rest of a partial release, and the seized part and
the rest of a partial seizure. -/
inductive Mints : InventoryEventType → Standing → Prop
  | deposit : Mints .deposit (.pendingApproval, .pending)
  | held {status : ReceiptStatus} (held : status.Held) : Mints .holdPlaced (status, .pending)
  | unheld : Mints .holdPlaced (.active, .approved)
  | released : Mints .holdReleased (.active, .approved)
  | unreleased (approval : ApprovalStatus) : Mints .holdReleased (.heldLien, approval)
  | seized : Mints .seized (.seized, .approved)
  | unseized : Mints .seized (.active, .approved)

/-- The events that acted on a receipt or created it, in the order of the log. -/
def Ledger.timeline (s : Ledger) (id : Id) : List InventoryEvent :=
  s.events.rows.filter fun e => e.fromReceiptId = id ∨ id ∈ (s.createdBy e).map Receipt.id

/-- The timeline of a receipt tells where it stands. -/
def Tells (r : Receipt) (timeline : List InventoryEvent) : Prop :=
  ∃ minting later, timeline = minting :: later ∧ r.sourceEventId = some minting.id ∧
    (∀ e ∈ later, e.fromReceiptId = r.id) ∧
    ∃ start, Mints minting.eventType start ∧
      if r.isParent = true then r.status = .split else r.standing = standingAfter start later

theorem mem_createdBy_iff {s : Ledger} {r : Receipt} (hr : r ∈ s.receipts) {e : InventoryEvent} :
    r.id ∈ (s.createdBy e).map Receipt.id ↔ r.sourceEventId = some e.id := by
  unfold Ledger.createdBy
  constructor
  · intro h
    obtain ⟨k, hk, hid⟩ := List.mem_map.mp h
    obtain ⟨hmem, hsource⟩ := List.mem_filter.mp hk
    obtain rfl := Table.eq_of_key_eq hmem hr hid
    exact of_decide_eq_true hsource
  · intro h
    exact List.mem_map_of_mem (List.mem_filter.mpr ⟨hr, decide_eq_true h⟩)

/-- For a receipt of the ledger, the creating event is the one that the receipt names. -/
theorem timeline_eq {s : Ledger} {r : Receipt} (hr : r ∈ s.receipts) :
    s.timeline r.id =
      s.events.rows.filter fun e => e.fromReceiptId = r.id ∨ r.sourceEventId = some e.id := by
  apply List.filter_congr
  intro e _
  simp only [mem_createdBy_iff hr]

section Effects

variable {num : Numeric} {uuids : Uuids} {op : LedgerOp} {s s' : Ledger}
  {events : List InventoryEvent} {change : Change} {result : LedgerResult}

/-- The events of a commit act on the receipt it rewrites, or on the root it deposits. -/
theorem Effect.acts (h : Effect num uuids s op events change result) {e : InventoryEvent}
    (he : e ∈ events) : (∃ root, change = .mint root ∧ e.fromReceiptId = root.id) ∨
      ∃ before after, change.rewritten = some (before, after) ∧ e.fromReceiptId = before.id := by
  cases h with
  | deposit =>
      obtain rfl := List.mem_singleton.mp he
      exact .inl ⟨_, rfl, rfl⟩
  | transferAndRelease =>
      rcases List.mem_pair.mp he with rfl | rfl <;> exact .inr ⟨_, _, rfl, rfl⟩
  | _ =>
      obtain rfl := List.mem_singleton.mp he
      exact .inr ⟨_, _, rfl, rfl⟩

/-- A receipt is rewritten to what the events of the commit say, unless it is split. -/
theorem Effect.tells (h : Effect num uuids s op events change result) {before after : Receipt}
    (hrewritten : change.rewritten = some (before, after)) :
    after = supersede before ∨ (after.isParent = before.isParent ∧
      (before.status = .split → after.status = .split) ∧
      after.standing = standingAfter before.standing events) := by
  have hlive : ∀ {status : ReceiptStatus}, status.Held → status ≠ .split := by
    rintro status hheld rfl
    exact absurd hheld (by decide)
  have hnot : ∀ {status : ReceiptStatus}, status.Held → status ≠ .pendingApproval := by
    rintro status hheld rfl
    exact absurd hheld (by decide)
  cases h with
  | deposit => cases hrewritten
  | hold | releasePartial | seizePart =>
      cases hrewritten
      exact .inl rfl
  | approveReceipt ctx r loaded pending =>
      cases hrewritten
      refine .inr ⟨rfl, fun hsplit => absurd (pending.symm.trans hsplit) (by decide), ?_⟩
      simp [Receipt.standing, standingAfter, InventoryEventType.leaves, Numeric.storeEvent, pending]
  | rejectReceipt ctx reason r loaded pending =>
      cases hrewritten
      exact .inr ⟨rfl, fun hsplit => absurd (pending.symm.trans hsplit) (by decide), rfl⟩
  | approveHold ctx r loaded held pending =>
      cases hrewritten
      refine .inr ⟨rfl, id, ?_⟩
      simp [Receipt.standing, standingAfter, InventoryEventType.leaves, Numeric.storeEvent,
        hnot held]
  | release ctx r loaded held | consume ctx r loaded held =>
      cases hrewritten
      exact .inr ⟨rfl, fun hsplit => absurd hsplit (hlive held), rfl⟩
  | transferAndRelease ctx newOwnerId txnType txnId withinTx r loaded held =>
      cases hrewritten
      exact .inr ⟨rfl, fun hsplit => absurd hsplit (hlive held), rfl⟩
  | transitionPledgeToLien ctx pledgeId r loaded pledged =>
      cases hrewritten
      exact .inr ⟨rfl, fun hsplit => absurd (pledged.symm.trans hsplit) (by decide), rfl⟩
  | seizeAll input r loaded loan =>
      cases hrewritten
      exact .inr ⟨rfl, fun hsplit => absurd (loan.symm.trans hsplit) (by decide), rfl⟩
  | transferOwnership ctx newOwnerId txnType txnId r loaded =>
      cases hrewritten
      exact .inr ⟨rfl, id, rfl⟩
  | expire ctx r loaded active =>
      cases hrewritten
      exact .inr ⟨rfl, fun hsplit => absurd (active.symm.trans hsplit) (by decide), rfl⟩

/-- Receipts are created by the only event of their commit, which says how they may begin. -/
theorem Effect.mints (h : Effect num uuids s op events change result) {k : Receipt}
    (hk : k ∈ change.created) : ∃ e, events = [e] ∧ e.id = uuids.event ∧
      Mints e.eventType k.standing := by
  cases h with
  | deposit =>
      obtain rfl := List.mem_singleton.mp hk
      exact ⟨_, rfl, rfl, .deposit⟩
  | hold input =>
      refine ⟨_, rfl, rfl, ?_⟩
      rcases List.mem_cons.mp hk with rfl | hk
      · exact .held input.heldStatus.held
      · obtain rfl := mem_partitionRemainder hk
        exact .unheld
  | releasePartial =>
      refine ⟨_, rfl, rfl, ?_⟩
      rcases List.mem_pair.mp hk with rfl | rfl
      · exact .released
      · exact .unreleased _
  | seizePart =>
      refine ⟨_, rfl, rfl, ?_⟩
      rcases List.mem_cons.mp hk with rfl | hk
      · exact .seized
      · obtain rfl := mem_partitionRemainder hk
        exact .unseized
  | _ => cases hk

/-- Every receipt stands where its timeline says. -/
def Told (s : Ledger) : Prop := ∀ r ∈ s.receipts, Tells r (s.timeline r.id)

/-- The timeline of an old receipt goes on with the new events that act on it. -/
theorem Commits.timeline_old (hcommits : Commits s events change s')
    (heffect : Effect num uuids s op events change result) (hp : Provenance s) {r : Receipt}
    (hr : r ∈ s.receipts) : s'.timeline r.id =
      s.timeline r.id ++ events.filter fun e => e.fromReceiptId = r.id := by
  have hnode := (hcommits.advance heffect hr).1
  have hlater : change.apply r ∈ s'.receipts := hcommits.mem_receipts.mpr (.inl ⟨r, hr, rfl⟩)
  have heq := timeline_eq hlater
  rw [hnode.id, hnode.sourceEventId] at heq
  rw [heq, timeline_eq hr, hcommits.log, List.filter_append]
  congr 1
  apply List.filter_congr
  intro e he
  have hnot : r.sourceEventId ≠ some e.id := by
    intro hsource
    obtain ⟨e₀, he₀, hid⟩ := hp.source_logged r hr _ hsource
    exact hcommits.newIds e he e₀ he₀ hid
  simp [hnot]

/-- The timeline of a new receipt is the event that minted it. -/
theorem Commits.timeline_new (hcommits : Commits s events change s')
    (heffect : Effect num uuids s op events change result) (hp : Provenance s) {k : Receipt}
    (hk : k ∈ change.created) {e : InventoryEvent} (hevents : events = [e])
    (hid : e.id = uuids.event) : s'.timeline k.id = [e] := by
  have hsource : k.sourceEventId = some e.id := hid ▸ heffect.created_source hk
  rw [timeline_eq (hcommits.mem_receipts.mpr (.inr hk)), hcommits.log, List.filter_append, hevents]
  have hold : (s.events.rows.filter fun e => e.fromReceiptId = k.id ∨
      k.sourceEventId = some e.id) = [] := by
    apply List.filter_eq_nil_iff.mpr
    intro e₀ he₀ hmatch
    rcases of_decide_eq_true hmatch with hfrom | hsame
    · obtain ⟨r, hr, hrid, -⟩ := hp.from_exists e₀ he₀
      exact hcommits.created_ne hk hr (hrid.trans hfrom)
    · have hids := Option.some_inj.mp (hsource.symm.trans hsame)
      exact hcommits.newIds e (by simp [hevents]) e₀ he₀ hids.symm
  simp only [hold, List.nil_append]
  simp [hsource]

/-- No event of a commit acts on a receipt that the commit leaves alone. -/
theorem Commits.bystander (hcommits : Commits s events change s')
    (heffect : Effect num uuids s op events change result) {r : Receipt} (hr : r ∈ s.receipts)
    (hother : ∀ before after, change.rewritten = some (before, after) → before.id ≠ r.id) :
    (events.filter fun e => e.fromReceiptId = r.id) = [] ∧ change.apply r = r := by
  constructor
  · apply List.filter_eq_nil_iff.mpr
    intro e he hfrom
    rcases heffect.acts he with ⟨root, rfl, hroot⟩ | ⟨before, after, hrewritten, hbefore⟩
    · exact hcommits.created_ne (List.mem_singleton.mpr rfl) hr
        ((of_decide_eq_true hfrom).symm.trans hroot)
    · exact hother before after hrewritten (hbefore.symm.trans (of_decide_eq_true hfrom))
  · unfold Change.apply
    split
    · rename_i before after hrewritten
      exact if_neg fun hid => hother before after hrewritten hid.symm
    · rfl

/-- Every event of a commit acts on the receipt that it rewrites. -/
theorem Effect.all_act (heffect : Effect num uuids s op events change result)
    {before after : Receipt} (hrewritten : change.rewritten = some (before, after)) :
    (events.filter fun e => e.fromReceiptId = before.id) = events := by
  apply List.filter_eq_self.mpr
  intro e he
  rcases heffect.acts he with ⟨root, rfl, -⟩ | ⟨b, a, hsame, hfrom⟩
  · cases hrewritten
  · obtain ⟨rfl, -⟩ := Prod.mk.inj (Option.some_inj.mp (hsame.symm.trans hrewritten))
    exact decide_eq_true hfrom

/-- Where a receipt stands after a commit is told by the events that act on it. -/
theorem Commits.stands (hcommits : Commits s events change s')
    (heffect : Effect num uuids s op events change result) {r : Receipt} (hr : r ∈ s.receipts)
    {told : Standing}
    (h : if r.isParent = true then r.status = .split else r.standing = told) :
    if (change.apply r).isParent = true then (change.apply r).status = .split
      else (change.apply r).standing =
        standingAfter told (events.filter fun e => e.fromReceiptId = r.id) := by
  by_cases hother : ∀ before after, change.rewritten = some (before, after) → before.id ≠ r.id
  · obtain ⟨hfilter, happly⟩ := hcommits.bystander heffect hr hother
    rw [hfilter, happly]
    exact h
  · push Not at hother
    obtain ⟨before, after, hrewritten, hid⟩ := hother
    obtain ⟨hfound, -⟩ := hcommits.found before after hrewritten
    obtain rfl := Table.eq_of_key_eq (Table.mem_of_find hfound) hr hid
    have happly : change.apply before = after := by simp [Change.apply, hrewritten]
    rw [happly, heffect.all_act hrewritten]
    rcases heffect.tells hrewritten with rfl | ⟨hparent, hsplit, hstanding⟩
    · exact if_pos rfl ▸ rfl
    · rw [hparent]
      split
      · rename_i hinner
        rw [if_pos hinner] at h
        exact hsplit h
      · rename_i hinner
        rw [if_neg hinner] at h
        rw [hstanding, h]

theorem Told.step (h : Told s) (ha : Ancestry s)
    (heffect : Effect num uuids s op events change result)
    (hcommits : Commits s events change s') : Told s' := by
  intro r' hr'
  rcases hcommits.mem_receipts.mp hr' with ⟨r, hr, rfl⟩ | hcreated
  · obtain ⟨minting, later, htimeline, hsource, hacts, start, hmints, hstands⟩ := h r hr
    have hnode := (hcommits.advance heffect hr).1
    refine ⟨minting, later ++ events.filter fun e => e.fromReceiptId = r.id, ?_,
      hnode.sourceEventId.trans hsource, ?_, start, hmints, ?_⟩
    · rw [hnode.id, hcommits.timeline_old heffect ha.provenance hr, htimeline, List.cons_append]
    · intro e he
      rw [hnode.id]
      rcases List.mem_append.mp he with hold | hnew
      · exact hacts e hold
      · exact of_decide_eq_true (List.mem_filter.mp hnew).2
    · have hafter := hcommits.stands heffect hr hstands
      rwa [show standingAfter (standingAfter start later) _ = standingAfter start (later ++ _) from
        List.foldl_append.symm] at hafter
  · obtain ⟨e, hevents, hid, hmints⟩ := heffect.mints hcreated
    refine ⟨e, [], hcommits.timeline_new heffect ha.provenance hcreated hevents hid, ?_, by simp,
      r'.standing, hmints, ?_⟩
    · rw [hid]
      exact heffect.created_source hcreated
    · rw [(heffect.created hcreated).1]
      rfl

end Effects

/-- In every run the timelines tell where the receipts stand. -/
theorem told_run (num : Numeric) (calls : List LedgerCall) :
    Told (runCalls num calls Ledger.empty) := by
  have hboth : Ancestry (runCalls num calls Ledger.empty) ∧
      Told (runCalls num calls Ledger.empty) := by
    apply runCalls_invariant (P := fun s => Ancestry s ∧ Told s)
    · intro uuids op s s' events change result hs free heffect hcommits
      exact ⟨hs.1.step heffect hcommits, hs.2.step hs.1 heffect hcommits⟩
    · refine ⟨ancestry_empty, ?_⟩
      intro r hr
      simp at hr
  exact hboth.2

end SecureStore.Inventory
