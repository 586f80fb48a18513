/-
# One leaf for each pledge

In every reachable state, one receipt at most is held for a pledge, a receipt was freed of its
hold once at most, and nothing is held for a pledge whose lien was released by force. This is
about the ledger alone: which rows the requests have written by then does not matter.
-/

import SecureStore.Collateral.Placement
import SecureStore.Custody.Isolation
import SecureStore.Custody.Trees

namespace SecureStore.Services

open SecureStore.Foundation SecureStore.Inventory

/-! ## Releases -/

/-- A receipt that an event frees of its hold is held no more, and no other event frees it. -/
structure FreedOnce (s : Ledger) : Prop where
  freed : ∀ e ∈ s.events, e.eventType = .holdReleased →
    ∃ r ∈ s.receipts, r.id = e.fromReceiptId ∧ ¬ r.status.Held
  once : ∀ e ∈ s.events, ∀ e' ∈ s.events, e.eventType = .holdReleased →
    e'.eventType = .holdReleased → e.fromReceiptId = e'.fromReceiptId → e = e'

theorem freedOnce_empty : FreedOnce Ledger.empty := by
  constructor <;> simp

section Releases

variable {num : Numeric} {uuids : Uuids} {op : LedgerOp} {s s' : Ledger}
  {events : List InventoryEvent} {change : Change} {result : LedgerResult}

/-- A call that logs the end of a hold takes it off the receipt that it rewrites. -/
theorem effect_frees (h : Effect num uuids s op events change result) {e : InventoryEvent}
    (he : e ∈ events) (htype : e.eventType = .holdReleased) :
    ∃ r r', s.receipts.find r.id = some r ∧ r.status.Held ∧ change.rewritten = some (r, r') ∧
      ¬ r'.status.Held ∧ e.fromReceiptId = r.id ∧
        ∀ e' ∈ events, e'.eventType = .holdReleased → e' = e := by
  cases h with
  | release ctx r loaded held =>
      obtain rfl := List.mem_singleton.mp he
      exact ⟨r, _, Table.find_of_mem (Table.mem_of_find loaded.1), held, rfl,
        by simp [ReceiptStatus.Held, heldStatuses], rfl, fun e' he' _ => List.mem_singleton.mp he'⟩
  | releasePartial input src number number' loaded lien =>
      obtain rfl := List.mem_singleton.mp he
      refine ⟨src, _, Table.find_of_mem (Table.mem_of_find loaded.1), ?_, rfl,
        by simp [ReceiptStatus.Held, heldStatuses, supersede], rfl,
        fun e' he' _ => List.mem_singleton.mp he'⟩
      rw [lien]
      decide
  | transferAndRelease ctx newOwnerId txnType txnId withinTx r loaded held =>
      rcases List.mem_pair.mp he with rfl | rfl
      · cases htype
      · refine ⟨r, _, Table.find_of_mem (Table.mem_of_find loaded.1), held, rfl,
          by simp [ReceiptStatus.Held, heldStatuses], rfl, fun e' he' htype' => ?_⟩
        rcases List.mem_pair.mp he' with rfl | rfl
        · cases htype'
        · rfl
  | _ =>
      obtain rfl := List.mem_singleton.mp he
      cases htype

theorem FreedOnce.step (h : FreedOnce s) (heffect : Effect num uuids s op events change result)
    (hcommits : Commits s events change s') : FreedOnce s' := by
  -- a new event frees a receipt that no earlier one did
  have hnew : ∀ e ∈ events, e.eventType = .holdReleased →
      (∃ r ∈ s'.receipts, r.id = e.fromReceiptId ∧ ¬ r.status.Held) ∧
        ∀ e' ∈ s.events, e'.eventType = .holdReleased → e'.fromReceiptId ≠ e.fromReceiptId := by
    intro e he htype
    obtain ⟨r, r', hfind, hheld, hrewritten, hfree, hfrom, -⟩ := effect_frees heffect he htype
    have hid : r'.id = r.id := (hcommits.found r r' hrewritten).2
    have hafter := hcommits.find_receipt hfind
    rw [show change.apply r = r' by simp [Change.apply, hrewritten]] at hafter
    refine ⟨⟨r', Table.mem_of_find hafter, hid.trans hfrom.symm, hfree⟩, ?_⟩
    intro e' he' htype' hsame
    obtain ⟨r₀, hr₀, hid₀, hfree₀⟩ := h.freed e' he' htype'
    obtain rfl : r₀ = r :=
      Table.eq_of_key_eq hr₀ (Table.mem_of_find hfind) (hid₀.trans (hsame.trans hfrom))
    exact hfree₀ hheld
  constructor
  · intro e he htype
    rcases hcommits.mem_events.mp he with hold | hlast
    · obtain ⟨r, hr, hfrom, hfree⟩ := h.freed e hold htype
      obtain ⟨r', hr', hnode, hmoves⟩ := (hcommits.later heffect).receipts r hr
      exact ⟨r', hr', hnode.id.trans hfrom, fun hheld => hfree (held_reached hmoves hheld)⟩
    · exact (hnew e hlast htype).1
  · intro e he e' he' htype htype' hsame
    rcases hcommits.mem_events.mp he with hold | hlast <;>
      rcases hcommits.mem_events.mp he' with hold' | hlast'
    · exact h.once e hold e' hold' htype htype' hsame
    · exact absurd hsame ((hnew e' hlast' htype').2 e hold htype)
    · exact absurd hsame.symm ((hnew e hlast htype).2 e' hold' htype')
    · obtain ⟨-, -, -, -, -, -, -, hunique⟩ := effect_frees heffect hlast htype
      exact (hunique e' hlast' htype').symm

end Releases

/-- In every reachable state, receipts were freed once. -/
theorem runs_freedOnce {num : Numeric} {directory : Directory} {requests : List Request}
    {trace : List (Transition Label Db)} {db : Db} {pool : List (Api Unit)}
    (h : Run (Db.initial directory) (requests.map (Request.run num)) trace db pool) :
    FreedOnce db.ledger :=
  runs_ledger freedOnce_empty (fun hs heffect hcommits => hs.step heffect hcommits) h

/-! ## Leaves -/

/-- What is held after a commit was held before. -/
theorem was_held {num : Numeric} {uuids : Uuids} {op : LedgerOp} {s s' : Ledger}
    {events : List InventoryEvent} {change : Change} {result : LedgerResult}
    (hcommits : Commits s events change s') (heffect : Effect num uuids s op events change result)
    {r : Receipt} (hr : r ∈ s.receipts) (hheld : (change.apply r).status.Held) :
    r.status.Held := by
  rcases (hcommits.advance heffect hr).2 with hsame | hmove
  · exact hsame ▸ hheld
  · exact hmove.held hheld

/-- One receipt at most is held for a pledge, and none once its lien was released by force. -/
structure OneLeaf (s : Db) : Prop where
  keyed : ∀ r ∈ s.ledger.receipts, ∀ id, MintedFor r .pledge id → s.ledger.Used (createKey id)
  single : ∀ r ∈ s.ledger.receipts, ∀ r' ∈ s.ledger.receipts, ∀ id, MintedFor r .pledge id →
    MintedFor r' .pledge id → r.status.Held → r'.status.Held → r = r'
  freed : ∀ id, s.ledger.Used (forceKey id) → ∃ l ∈ s.liens, l.id = id ∧
    s.ledger.Used (createKey l.pledgeId) ∧
      ∀ r ∈ s.ledger.receipts, MintedFor r .pledge l.pledgeId → ¬ r.status.Held

theorem oneLeaf_initial (directory : Directory) : OneLeaf (Db.initial directory) := by
  constructor <;> simp [Db.initial, Ledger.Used]

section Leaves

variable {num : Numeric} {by_ : Issuer} {op : LedgerOp} {s s' : Db}

/-- Only a forced release is made under its key. -/
theorem Calls.key_of_force (h : Calls by_ op) {id : Id}
    (hkey : op.idempotencyKey = forceKey id) :
    by_ = .forceReleaseLien id ∧ ∃ ctx heldReceiptId, op = .release ctx heldReceiptId := by
  cases h <;>
    simp_all [LedgerOp.idempotencyKey, forceKey, withdrawalKey, loanKey, tradeKey, partialKey]

/-- What a commit creates held for a pledge is one leaf, that of its hold or what is left of one
that was held for it. -/
theorem LedgerStep.created_leaf (h : LedgerStep num by_ op s s') {uuids : Uuids}
    {events : List InventoryEvent} {change : Change} {result : LedgerResult}
    (heffect : Effect num uuids s.ledger op events change result) {k : Receipt}
    (hk : k ∈ change.created) {id : Id} (hminted : MintedFor k .pledge id)
    (hheld : k.status.Held) :
    (op.idempotencyKey = createKey id ∨ ∃ src after, src ∈ s.ledger.receipts ∧ src.status.Held ∧
      MintedFor src .pledge id ∧ change.rewritten = some (src, after) ∧ ¬ after.status.Held) ∧
      ∀ k' ∈ change.created, k'.status.Held → k' = k := by
  have hactive : ∀ {r : Receipt}, r.status = .active → ¬ r.status.Held := by
    intro r hstatus
    rw [hstatus]
    decide
  cases heffect with
  | deposit input positive =>
      obtain rfl := List.mem_singleton.mp hk
      simp [MintedFor] at hminted
  | hold input src number number' =>
      have hfirst : ∀ k' : Receipt, k' ∈ primaryChild num uuids src input.quantity
          (heldPrimary input src) number :: (partitionRemainder num uuids src input.quantity
            number').toList → k'.status.Held →
          k' = primaryChild num uuids src input.quantity (heldPrimary input src) number := by
        intro k' hk' hheld'
        rcases List.mem_cons.mp hk' with rfl | hk'
        · rfl
        · obtain rfl := mem_partitionRemainder hk'
          exact absurd hheld' (hactive rfl)
      obtain rfl := hfirst k hk hheld
      obtain ⟨htype, hid⟩ := hminted
      have hkey := h.rightful.calls.hold_key.1
      rw [Option.some_inj.mp htype, Option.some_inj.mp hid] at hkey
      exact ⟨.inl (Option.some_inj.mp hkey).symm, hfirst⟩
  | releasePartial input src number number' loaded lien =>
      have hlast : ∀ k' : Receipt, k' ∈ [releasedChild num uuids src input.releaseQuantity number,
          remainingChild num uuids src input.releaseQuantity number'] → k'.status.Held →
          k' = remainingChild num uuids src input.releaseQuantity number' := by
        intro k' hk' hheld'
        rcases List.mem_pair.mp hk' with rfl | rfl
        · exact absurd hheld' (hactive rfl)
        · rfl
      obtain rfl := hlast k hk hheld
      refine ⟨.inr ⟨src, supersede src, Table.mem_of_find loaded.1, ?_, hminted, rfl, ?_⟩, hlast⟩
      · rw [lien]
        decide
      · simp [ReceiptStatus.Held, heldStatuses, supersede]
  | seizePart => cases h.rightful.calls
  | _ => cases hk

/-- What is minted for a pledge was minted under the key of its hold. -/
theorem LedgerStep.keyed (h : LedgerStep num by_ op s s') (hs : OneLeaf s) :
    ∀ r ∈ s'.ledger.receipts, ∀ id, MintedFor r .pledge id → s'.ledger.Used (createKey id) := by
  obtain ⟨uuids, events, change, result, heffect, hcommits⟩ := h.effect
  intro r hr id hminted
  rcases hcommits.mem_receipts.mp hr with ⟨r₀, hr₀, rfl⟩ | hcreated
  · have hnode := (hcommits.advance heffect hr₀).1
    exact hcommits.used_iff.mpr
      (.inl (hs.keyed r₀ hr₀ id ((MintedFor.of_sameNode hnode).mp hminted)))
  · rcases h.rightful.calls.created_minted heffect hcreated hminted with
      ⟨input, src, number, rfl, htype, hid, -⟩ | ⟨input, src, rfl, hfind, hlien, hsrc⟩
    · have hkey := h.rightful.calls.hold_key.1
      rw [htype, hid] at hkey
      obtain ⟨e, he, -, hlogged⟩ := heffect.keyed_event
      exact hcommits.used_iff.mpr (.inr ⟨e, he, hlogged.trans (Option.some_inj.mp hkey).symm⟩)
    · exact hcommits.used_iff.mpr (.inl (hs.keyed src (Table.mem_of_find hfind) id hsrc))

/-- Where a leaf is created for a pledge, the one that was held for it is held no more. -/
theorem LedgerStep.supplants (h : LedgerStep num by_ op s s') (hs : OneLeaf s) {uuids : Uuids}
    {events : List InventoryEvent} {change : Change} {result : LedgerResult}
    (heffect : Effect num uuids s.ledger op events change result)
    (hcommits : Commits s.ledger events change s'.ledger) {k r₀ : Receipt}
    (hk : k ∈ change.created) (hr₀ : r₀ ∈ s.ledger.receipts) {id : Id}
    (hminted : MintedFor k .pledge id) (hheld : k.status.Held)
    (hminted₀ : MintedFor r₀ .pledge id) : ¬ (change.apply r₀).status.Held := by
  intro hafter
  have hheld₀ := was_held hcommits heffect hr₀ hafter
  rcases (h.created_leaf heffect hk hminted hheld).1 with
    hkey | ⟨src, after, hsrc, hheldSrc, hmintedSrc, hrewritten, hfree⟩
  · obtain ⟨e, he, hlogged⟩ := hs.keyed r₀ hr₀ id hminted₀
    exact Table.find_eq_none_iff.mp h.free e he (hlogged.trans hkey.symm)
  · obtain rfl := hs.single r₀ hr₀ src hsrc id hminted₀ hmintedSrc hheld₀ hheldSrc
    rw [show change.apply r₀ = after by simp [Change.apply, hrewritten]] at hafter
    exact hfree hafter

theorem LedgerStep.singleLeaf (h : LedgerStep num by_ op s s') (hs : OneLeaf s) :
    ∀ r ∈ s'.ledger.receipts, ∀ r' ∈ s'.ledger.receipts, ∀ id, MintedFor r .pledge id →
      MintedFor r' .pledge id → r.status.Held → r'.status.Held → r = r' := by
  obtain ⟨uuids, events, change, result, heffect, hcommits⟩ := h.effect
  have before : ∀ r₀ ∈ s.ledger.receipts, ∀ id, MintedFor (change.apply r₀) .pledge id →
      (change.apply r₀).status.Held → MintedFor r₀ .pledge id ∧ r₀.status.Held := by
    intro r₀ hr₀ id hminted hheld
    have hnode := (hcommits.advance heffect hr₀).1
    exact ⟨(MintedFor.of_sameNode hnode).mp hminted, was_held hcommits heffect hr₀ hheld⟩
  intro r hr r' hr' id hminted hminted' hheld hheld'
  rcases hcommits.mem_receipts.mp hr with ⟨r₀, hr₀, rfl⟩ | hcreated <;>
    rcases hcommits.mem_receipts.mp hr' with ⟨r₀', hr₀', rfl⟩ | hcreated'
  · obtain ⟨hm, hh⟩ := before r₀ hr₀ id hminted hheld
    obtain ⟨hm', hh'⟩ := before r₀' hr₀' id hminted' hheld'
    rw [hs.single r₀ hr₀ r₀' hr₀' id hm hm' hh hh']
  · obtain ⟨hm, -⟩ := before r₀ hr₀ id hminted hheld
    exact absurd hheld (h.supplants hs heffect hcommits hcreated' hr₀ hminted' hheld' hm)
  · obtain ⟨hm', -⟩ := before r₀' hr₀' id hminted' hheld'
    exact absurd hheld' (h.supplants hs heffect hcommits hcreated hr₀' hminted hheld hm')
  · exact (h.created_leaf heffect hcreated' hminted' hheld').2 r hcreated hheld

theorem LedgerStep.forceFreed (h : LedgerStep num by_ op s s') (hs : OneLeaf s) :
    ∀ id, s'.ledger.Used (forceKey id) → ∃ l ∈ s.liens, l.id = id ∧
      s'.ledger.Used (createKey l.pledgeId) ∧
        ∀ r ∈ s'.ledger.receipts, MintedFor r .pledge l.pledgeId → ¬ r.status.Held := by
  have hafter := h.keyed hs
  have hsingle := h.singleLeaf hs
  obtain ⟨uuids, events, change, result, heffect, hcommits⟩ := h.effect
  intro id hused
  rcases hcommits.used_iff.mp hused with hold | ⟨e, he, hkey⟩
  · obtain ⟨l, hl, hid, hcreate, hfree⟩ := hs.freed id hold
    refine ⟨l, hl, hid, hcommits.used_iff.mpr (.inl hcreate), fun r hr hminted hheld => ?_⟩
    rcases hcommits.mem_receipts.mp hr with ⟨r₀, hr₀, rfl⟩ | hcreated
    · have hnode := (hcommits.advance heffect hr₀).1
      exact hfree r₀ hr₀ ((MintedFor.of_sameNode hnode).mp hminted)
        (was_held hcommits heffect hr₀ hheld)
    · rcases (h.created_leaf heffect hcreated hminted hheld).1 with
        hop | ⟨src, after, hsrc, hheldSrc, hmintedSrc, -⟩
      · obtain ⟨e, he, hlogged⟩ := hcreate
        exact Table.find_eq_none_iff.mp h.free e he (hlogged.trans hop.symm)
      · exact hfree src hsrc hmintedSrc hheldSrc
  · rcases h.rightful.calls.event_key heffect he with hop | ⟨tradeId, hsettle⟩
    · obtain ⟨rfl, ctx, heldReceiptId, rfl⟩ := h.rightful.calls.key_of_force (hop.symm.trans hkey)
      obtain ⟨txnType, txnId, htxn, r, hfind, hminted⟩ := h.rightful.entitled _ rfl
      obtain ⟨l, hl, hpair⟩ := Option.map_eq_some_iff.mp htxn
      cases hpair
      cases heffect with
      | release ctx r₀ loaded held =>
          obtain rfl := Option.some_inj.mp (hfind.symm.trans loaded.1)
          have hmem := Table.mem_of_find loaded.1
          have hcreate := hs.keyed r hmem _ (hminted held)
          refine ⟨l, Table.mem_of_find hl, Table.key_of_find hl,
            hcommits.used_iff.mpr (.inl hcreate), fun k hk hmintedK hheldK => ?_⟩
          rcases hcommits.mem_receipts.mp hk with ⟨k₀, hk₀, rfl⟩ | hcreated
          · have hrelease : Effect num uuids s.ledger (.release ctx heldReceiptId) _ _ _ :=
              .release ctx r loaded held
            have hnode := (hcommits.advance hrelease hk₀).1
            obtain rfl := hs.single k₀ hk₀ r hmem _ ((MintedFor.of_sameNode hnode).mp hmintedK)
              (hminted held) (was_held hcommits hrelease hk₀ hheldK) held
            simp [Change.apply, Change.rewritten, ReceiptStatus.Held, heldStatuses] at hheldK
          · cases hcreated
    · rw [hsettle] at hkey
      simp [releaseKey, tradeKey, forceKey] at hkey

/-- A ledger call keeps the leaves of the pledges apart. -/
theorem OneLeaf.ledgerStep (hs : OneLeaf s) (h : LedgerStep num by_ op s s') : OneLeaf s' where
  keyed := h.keyed hs
  single := h.singleLeaf hs
  freed := by
    rw [h.same.liens]
    exact h.forceFreed hs

/-- So does a write of rows, which leaves every lien with its pledge. -/
theorem OneLeaf.writeStep (hs : OneLeaf s) (h : WriteStep by_ s s') : OneLeaf s' := by
  constructor
  · rw [h.ledger]
    exact hs.keyed
  · rw [h.ledger]
    exact hs.single
  · rw [h.ledger]
    intro id hused
    obtain ⟨l, hl, hid, hcreate, hfree⟩ := hs.freed id hused
    obtain ⟨l', hl', hid', hpledge⟩ := h.liens l hl
    rw [← hpledge] at hcreate hfree
    exact ⟨l', hl', hid'.trans hid, hcreate, hfree⟩

theorem Takes.oneLeaf {mine : Issuer → Prop} {label : Label} (h : Takes num mine label s s')
    (hs : OneLeaf s) : OneLeaf s' := by
  cases label with
  | read =>
      rw [show s' = s from h]
      exact hs
  | ledger by_ op =>
      rcases h with rfl | ⟨-, hstep⟩
      · exact hs
      · exact hs.ledgerStep hstep
  | write by_ =>
      rcases h with rfl | ⟨-, hstep⟩
      · exact hs
      · exact hs.writeStep hstep

end Leaves

/-- In every reachable state, a pledge has one leaf at most. -/
theorem runs_oneLeaf {num : Numeric} {directory : Directory} {requests : List Request}
    {trace : List (Transition Label Db)} {db : Db} {pool : List (Api Unit)}
    (h : Run (Db.initial directory) (requests.map (Request.run num)) trace db pool) :
    OneLeaf db := by
  have hcustody := runs_custody num directory requests h
  apply h.history (P := fun _ db => OneLeaf db) (oneLeaf_initial directory)
  intro earlier t later htrace hbefore
  obtain ⟨-, htakes, -⟩ := hcustody.each t (by simp [htrace])
  exact Takes.oneLeaf htakes hbefore

end SecureStore.Services
