/-
# Edited roots and their genesis event

The event log is append-only: an edit writes the receipt's row and leaves the DEPOSIT
event of its root as it was logged. So the trees of the desk verify in every sequence of
requests whose edits name no other quantity than the stored one and whose splits are
exact, and an edit of the quantity leaves a root that never verifies again.
-/

import SecureStore.Deposits.Effects
import SecureStore.Inventory.Recon

namespace SecureStore.Deposits

open SecureStore.Foundation SecureStore.Inventory

/-- Receipts are rewritten one by one, none in its node or its status, and nothing is
logged. -/
structure Rewrites (g : Receipt → Receipt) (s s' : Ledger) : Prop where
  events : s'.events = s.events
  rows : s'.receipts.rows = s.receipts.rows.map g
  node : ∀ r ∈ s.receipts, SameNode r (g r)
  status : ∀ r ∈ s.receipts, (g r).status = r.status ∧
    (g r).approvalStatus = r.approvalStatus ∧ (g r).isParent = r.isParent

section Rewrites

variable {g : Receipt → Receipt} {s s' : Ledger}

theorem Rewrites.mem (h : Rewrites g s s') {r : Receipt} :
    r ∈ s'.receipts ↔ ∃ r₀ ∈ s.receipts, g r₀ = r := by
  rw [Table.mem_def, h.rows, List.mem_map]
  rfl

theorem Rewrites.lifecycle (h : Rewrites g s s') (hs : Lifecycle s) : Lifecycle s' := by
  have kept : ∀ r ∈ s.receipts, ∀ id, r.id = id → r.status = .split →
      ∃ r' ∈ s'.receipts, r'.id = id ∧ r'.status = .split := by
    intro r hr id hid hsplit
    refine ⟨g r, h.mem.mpr ⟨r, hr, rfl⟩, ?_, ?_⟩
    · exact (h.node r hr).id.trans hid
    · exact (h.status r hr).1.trans hsplit
  constructor
  · intro r' hr'
    obtain ⟨r, hr, rfl⟩ := h.mem.mp hr'
    rw [(h.status r hr).1, (h.status r hr).2.2]
    exact hs.parent_iff r hr
  · intro r' hr' hsplit
    obtain ⟨r, hr, rfl⟩ := h.mem.mp hr'
    rw [(h.status r hr).1] at hsplit
    obtain ⟨k, hk, hparent⟩ := hs.split_has_child r hr hsplit
    refine ⟨g k, h.mem.mpr ⟨k, hk, rfl⟩, ?_⟩
    rw [(h.node k hk).parentReceiptId, (h.node r hr).id]
    exact hparent
  · intro k' hk' p hp
    obtain ⟨k, hk, rfl⟩ := h.mem.mp hk'
    rw [(h.node k hk).parentReceiptId] at hp
    obtain ⟨r, hr, hid, hsplit⟩ := hs.child_of_split k hk p hp
    exact kept r hr p hid hsplit
  · intro r' hr' hactive
    obtain ⟨r, hr, rfl⟩ := h.mem.mp hr'
    rw [(h.status r hr).1] at hactive
    rw [(h.status r hr).2.1]
    exact hs.active_approved r hr hactive
  · intro e he htype
    rw [h.events] at he
    obtain ⟨r, hr, hid, hsplit⟩ := hs.hold_splits e he htype
    exact kept r hr _ hid hsplit
  · rw [h.events]
    exact hs.one_hold

theorem Rewrites.provenance (h : Rewrites g s s') (hs : Provenance s) : Provenance s' := by
  constructor
  · rw [h.events]
    exact hs.event_ids
  · intro r' hr' x hx
    obtain ⟨r, hr, rfl⟩ := h.mem.mp hr'
    rw [(h.node r hr).sourceEventId] at hx
    rw [h.events]
    exact hs.source_logged r hr x hx
  · intro e he
    rw [h.events] at he
    obtain ⟨r, hr, hid, htenant, hroot⟩ := hs.from_exists e he
    have hnode := h.node r hr
    exact ⟨g r, h.mem.mpr ⟨r, hr, rfl⟩, hnode.id.trans hid, hnode.tenantId.trans htenant,
      hnode.rootReceiptId.trans hroot⟩

theorem Rewrites.children (h : Rewrites g s s') (id : Id) :
    receiptTree.children s'.receipts.rows id =
      (receiptTree.children s.receipts.rows id).map g := by
  have hmap := Lineage.children_map_append (l := receiptTree)
    (fun r hr => (h.node r hr).parentReceiptId) [] id
  rw [List.append_nil] at hmap
  rw [h.rows, hmap]
  exact List.append_nil _

theorem Rewrites.balanced (h : Rewrites g s s')
    (hs : receiptTree.Balanced s.receipts.rows Receipt.isParent Receipt.quantity) :
    receiptTree.Balanced s'.receipts.rows Receipt.isParent Receipt.quantity := by
  have weigh : ∀ id, ((receiptTree.children s'.receipts.rows id).map Receipt.quantity).sum =
      ((receiptTree.children s.receipts.rows id).map Receipt.quantity).sum := by
    intro id
    rw [h.children, List.map_map]
    congr 1
    exact List.map_congr_left fun k hk => (h.node k (children_mem k hk)).quantity
  constructor
  · intro r' hr' hflag
    obtain ⟨r, hr, rfl⟩ := h.mem.mp hr'
    rw [(h.status r hr).2.2] at hflag
    change (g r).quantity = ((receiptTree.children s'.receipts.rows (g r).id).map _).sum
    rw [weigh, (h.node r hr).quantity, (h.node r hr).id]
    exact hs.inner_sum r hr hflag
  · intro r' hr' hflag
    obtain ⟨r, hr, rfl⟩ := h.mem.mp hr'
    rw [(h.status r hr).2.2] at hflag
    have hnone : receiptTree.children s.receipts.rows r.id = [] := hs.leaf_childless r hr hflag
    change receiptTree.children s'.receipts.rows (g r).id = []
    rw [h.children, (h.node r hr).id, hnone]
    rfl

/-- Rewriting receipts in what their trees do not read keeps the trees. -/
theorem Rewrites.conserved (h : Rewrites g s s') (hs : Conserved s) : Conserved s' where
  lifecycle := h.lifecycle hs.lifecycle
  provenance := h.provenance hs.provenance
  balanced := h.balanced hs.balanced
  ranked := by
    obtain ⟨rank, hincreases, hbounded⟩ := hs.ranked
    refine ⟨rank, ?_, ?_⟩
    · intro r' hr' k hk
      obtain ⟨r, hr, rfl⟩ := h.mem.mp hr'
      have hparent : r.parentReceiptId = some k := (h.node r hr).parentReceiptId.symm.trans hk
      change rank k < rank (g r).id
      rw [(h.node r hr).id]
      exact hincreases r hr k hparent
    · intro r' hr'
      obtain ⟨r, hr, rfl⟩ := h.mem.mp hr'
      change rank (g r).id < _
      rw [(h.node r hr).id, h.rows, List.length_map]
      exact hbounded r hr
  genesis_exists := by
    intro r' hr' hroot
    obtain ⟨r, hr, rfl⟩ := h.mem.mp hr'
    rw [(h.node r hr).parentReceiptId] at hroot
    rw [h.events, (h.node r hr).id]
    exact hs.genesis_exists r hr hroot
  genesis_root := by
    rw [h.events]
    exact hs.genesis_root
  genesis_quantity := by
    intro e he htype r' hr' hid
    rw [h.events] at he
    obtain ⟨r, hr, rfl⟩ := h.mem.mp hr'
    rw [(h.node r hr).id] at hid
    rw [(h.node r hr).quantity]
    exact hs.genesis_quantity e he htype r hr hid

end Rewrites

/-- An edit that names a quantity names the stored one, and a split is exact. -/
def KeepsQuantity (num : Numeric) (request : Request) (s : Desk) : Prop :=
  (∀ tenantId receiptId dto, request.edit = some (tenantId, receiptId, dto) →
    ∀ q ∈ dto.quantity, ∀ r ∈ s.ledger.receipts.find receiptId,
      num.numeric18_3 q = r.quantity) ∧
  ∀ call, request = .ledger call → ∀ source part, call.op.splitOf s.ledger = some (source, part) →
    0 < part → part ≤ source.quantity → num.ExactAt source.quantity part

/-- An edit that keeps the quantity rewrites the receipt in what its tree does not read. -/
theorem rewrites_of_updated {num : Numeric} {id : Id} {data : UpdateData} {s s' : Desk}
    (hdone : Desk.updateReceipt num id data s = .ok ((), s'))
    (hquantity : ∀ r ∈ s.ledger.receipts.find id, (data.rewrite num r).quantity = r.quantity) :
    Rewrites (fun r => if r.id = id then data.rewrite num r else r) s.ledger s'.ledger := by
  obtain ⟨-, rfl⟩ := updateReceipt_ok.mp hdone
  constructor
  · rfl
  · rfl
  · intro r hr
    by_cases hid : r.id = id
    · have hfind : s.ledger.receipts.find id = some r := hid ▸ Table.find_of_mem hr
      simp only [hid, if_true]
      exact ⟨rfl, rfl, rfl, hquantity r hfind, rfl, rfl, rfl, rfl, rfl⟩
    · simp only [hid, if_false]
      exact .refl r
  · intro r hr
    by_cases hid : r.id = id
    · simp [hid]
    · simp [hid]

/-- A request that keeps the quantities keeps the trees. -/
theorem Happens.conserved {num : Numeric} {plus : ℚ → ℚ → ℚ} {request : Request} {s s' : Desk}
    (h : Happens num plus s request s') (hs : Conserved s.ledger)
    (hkeeps : KeepsQuantity num request s) : Conserved s'.ledger := by
  cases h with
  | nothing => exact hs
  | deposited dto commodity scores accepted found graded done =>
      rcases deposit_cases done with rfl | ⟨events, ledger, heffect, hcommits, rfl⟩
      · exact hs
      · exact hs.step heffect hcommits trivial
  | @edited _ tenantId receiptId dto edits receipt commodity scored _ admitted done =>
      apply (rewrites_of_updated done ?_).conserved hs
      intro r hr
      cases hquantity : dto.quantity with
      | none => simp [updateData, hquantity]
      | some q => simpa [updateData, hquantity] using hkeeps.1 _ _ _ edits q hquantity r hr
  | linked links commodity found targetIds =>
      obtain ⟨links, hlinks⟩ := upsertLinks_frame _ _ targetIds s
      rw [hlinks]
      exact hs
  | unlinked => exact hs
  | operated call done =>
      rw [operate_ledger done]
      rcases after_cases num call s.ledger with hsame |
        ⟨events, change, result, -, heffect, hcommits⟩
      · rw [hsame]
        exact hs
      · exact hs.step heffect hcommits (heffect.conserves (hkeeps.2 call rfl))

/-- After every sequence of whole requests that keep the quantities, the genesis event of
every root carries the quantity of the root, and the root verifies. -/
theorem edited_roots_verify (num : Numeric) (plus : ℚ → ℚ → ℚ) (commodities : Table Commodity)
    (warehouses : Table Warehouse) (requests : List Request)
    (hkeeps : Meets num plus (KeepsQuantity num) requests (.opening commodities warehouses)) :
    let s := (runRequests num plus requests (.opening commodities warehouses)).ledger
    ∀ root ∈ s.receipts, root.parentReceiptId = none →
      (∃ e ∈ s.events, e.eventType = .deposit ∧ e.rootReceiptId = root.id) ∧
      (∀ e ∈ s.events, e.eventType = .deposit → e.rootReceiptId = root.id →
        e.quantity = root.quantity) ∧
      ∃ verification, replayVerify root.id s = some verification ∧ verification.ok = true := by
  intro s root hroot hparent
  have hconserved : Conserved s :=
    runRequests_invariant (P := fun s => Conserved s.ledger)
      (fun hs hcondition hhappens => hhappens.conserved hs hcondition) requests
      conserved_empty hkeeps
  refine ⟨hconserved.genesis_exists root hroot hparent, ?_, hconserved.verifies hroot hparent⟩
  intro e he htype hid
  exact hconserved.genesis_quantity e he htype root hroot hid.symm

/-- A deposit whose grade is edited before it is approved. -/
def regraded : List Request :=
  sampleFiling ++ [sampleEdit { grade := some "Grade 2" }, sampleApproval]

theorem regraded_keeps (s : Desk) :
    Meets .postgres (fun x y => x + y) (KeepsQuantity .postgres) regraded s := by
  have unedited : ∀ {request : Request} {s : Desk}, request.edit = none →
      (∀ call, request = .ledger call → call.op.splitOf s.ledger = none) →
      KeepsQuantity .postgres request s := by
    intro request s hedit hsplit
    constructor
    · intro _ _ _ hsome
      rw [hedit] at hsome
      cases hsome
    · intro call hcall source part hsome
      rw [hsplit call hcall] at hsome
      cases hsome
  refine ⟨unedited rfl nofun, unedited rfl nofun, ⟨?_, nofun⟩, unedited rfl ?_, trivial⟩
  · intro _ _ dto hedit q hq
    cases hedit
    cases hq
  · intro call hcall
    cases hcall
    rfl

/-- The theorem at the regraded deposit. -/
theorem edited_roots_verify_sample :
    ∃ root ∈ (sampleDesk regraded).ledger.receipts, root.grade = some "Grade 2" ∧
      ∃ verification, replayVerify root.id (sampleDesk regraded).ledger = some verification ∧
        verification.ok = true := by
  have hroot : ∃ root ∈ (sampleDesk regraded).ledger.receipts.rows,
      root.grade = some "Grade 2" ∧ root.parentReceiptId = none := by
    decide +kernel
  obtain ⟨root, hmem, hgrade, hparent⟩ := hroot
  have hverify := edited_roots_verify .postgres (fun x y => x + y) sampleCommodities
    sampleWarehouses regraded (regraded_keeps _)
  exact ⟨root, hmem, hgrade, (hverify root hmem hparent).2.2⟩

/-- Ten units filed and edited to twelve: the genesis event still says ten, and the root
does not verify. -/
theorem edited_quantity_fails :
    (sampleDesk (sampleFiling ++ [sampleEdit { quantity := some 12 }])).ledger.events.rows.map
        (fun e => (e.eventType, e.rootReceiptId, e.quantity)) = [(.deposit, 1, 10)] ∧
      (sampleDesk (sampleFiling ++
        [sampleEdit { quantity := some 12 }])).ledger.receipts.rows.map
          (fun r => (r.id, r.quantity)) = [(1, 12)] ∧
      (replayVerify 1 (sampleDesk (sampleFiling ++
        [sampleEdit { quantity := some 12 }])).ledger).map ReplayVerification.ok =
          some false := by
  refine ⟨?_, ?_, ?_⟩
  · decide +kernel
  · decide +kernel
  · decide +kernel

end SecureStore.Deposits
