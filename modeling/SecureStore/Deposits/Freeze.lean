/-
# Approved receipts under late edits

An edit checks the status of the receipt on the row it loaded, and writes by id in a
transaction of its own. So a structural field of a receipt that has been approved stays
as it was approved in every run in which no such write comes after the approval; where
one does, the approved receipt is rewritten.
-/

import SecureStore.Deposits.Effects
import SecureStore.Inventory.Ancestry

namespace SecureStore.Deposits

open SecureStore.Foundation SecureStore.Inventory

/-- Two versions of a receipt with the same structural fields. -/
structure SameStock (r r' : Receipt) : Prop where
  quantity : r'.quantity = r.quantity
  commodityId : r'.commodityId = r.commodityId
  warehouseId : r'.warehouseId = r.warehouseId

/-- Every receipt that has left PENDING_APPROVAL keeps its structural fields. -/
def Frozen (s s' : Ledger) : Prop :=
  ∀ id r, s.receipts.find id = some r → r.status ≠ .pendingApproval →
    ∃ r', s'.receipts.find id = some r' ∧ r'.status ≠ .pendingApproval ∧ SameStock r r'

theorem Frozen.refl (s : Ledger) : Frozen s s :=
  fun _ r hfind hstatus => ⟨r, hfind, hstatus, rfl, rfl, rfl⟩

theorem Frozen.trans {s s' s'' : Ledger} (h : Frozen s s') (h' : Frozen s' s'') :
    Frozen s s'' := by
  intro id r hfind hstatus
  obtain ⟨r', hfind', hstatus', hsame⟩ := h id r hfind hstatus
  obtain ⟨r'', hfind'', hstatus'', hsame'⟩ := h' id r' hfind' hstatus'
  refine ⟨r'', hfind'', hstatus'', ?_, ?_, ?_⟩
  · exact hsame'.quantity.trans hsame.quantity
  · exact hsame'.commodityId.trans hsame.commodityId
  · exact hsame'.warehouseId.trans hsame.warehouseId

/-- No receipt comes to await approval but by its deposit. -/
theorem moves_not_pending {before after : ReceiptStatus} (h : Moves before after) :
    after ≠ .pendingApproval := by
  cases h <;> decide

/-- The ledger itself never changes a structural field. -/
theorem ledger_frozen (num : Numeric) (c : LedgerCall) (s : Ledger) :
    Frozen s (c.after num s) := by
  rcases after_cases num c s with hsame | ⟨events, change, result, -, heffect, hcommits⟩
  · rw [hsame]
    exact .refl s
  · intro id r hfind hstatus
    have hr := Table.mem_of_find hfind
    obtain ⟨hnode, hmove⟩ := hcommits.advance heffect hr
    refine ⟨change.apply r, hcommits.find_receipt hfind, ?_, hnode.quantity, ?_, ?_⟩
    · rcases hmove with hkept | hmove
      · rw [hkept]
        exact hstatus
      · exact moves_not_pending hmove
    · exact hcommits.sameCommodity heffect hr
    · exact hcommits.sameWarehouse heffect hr

/-- A write that touches a structural field. -/
def UpdateData.Structural (data : UpdateData) : Prop :=
  data.quantity ≠ none ∨ data.commodityId ≠ none ∨ data.warehouseId ≠ none

instance (data : UpdateData) : Decidable data.Structural := instDecidableOr

theorem UpdateData.sameStock {data : UpdateData} (h : ¬ data.Structural) (num : Numeric)
    (r : Receipt) : SameStock r (data.rewrite num r) := by
  simp only [UpdateData.Structural, not_or, not_not] at h
  constructor
  · simp [h.1]
  · simp [h.2.1]
  · simp [h.2.2]

/-- A write of an edit that touches a structural field finds the receipt still awaiting
approval. -/
def InTime : DeskStep → Desk → Prop
  | .updateReceipt id data, s =>
      data.Structural → ∀ r ∈ s.ledger.receipts.find id, r.status = .pendingApproval
  | _, _ => True

instance (label : DeskStep) (s : Desk) : Decidable (InTime label s) :=
  match label with
  | .updateReceipt id data =>
      match hfind : s.ledger.receipts.find id with
      | none => .isTrue fun _ r hr => by simp [hfind] at hr
      | some r =>
          decidable_of_iff (data.Structural → r.status = .pendingApproval) (by
            simp [InTime, hfind])
  | .read | .deposit | .ledger | .upsertLink | .deleteLink => .isTrue trivial

/-- A step that is in time freezes what has been approved. -/
theorem Does.frozen {num : Numeric} {label : DeskStep} {s s' : Desk}
    (h : Does num label s s') (hintime : InTime label s) : Frozen s.ledger s'.ledger := by
  cases h with
  | nothing => exact .refl _
  | deposit uuids input scores done =>
      rcases deposit_cases done with rfl | ⟨events, ledger, heffect, hcommits, rfl⟩
      · exact .refl _
      · intro id r hfind hstatus
        exact ⟨r, hcommits.find_receipt hfind, hstatus, rfl, rfl, rfl⟩
  | ledger call done =>
      rw [operate_ledger done]
      exact ledger_frozen num call s.ledger
  | updateReceipt id data done =>
      intro id' r hfind hstatus
      refine ⟨_, find_updated done hfind, ?_⟩
      by_cases hid : id' = id
      · subst hid
        rw [if_pos rfl]
        refine ⟨hstatus, ?_⟩
        by_cases hstructural : data.Structural
        · exact absurd (hintime hstructural r hfind) hstatus
        · exact UpdateData.sameStock hstructural num r
      · rw [if_neg hid]
        exact ⟨hstatus, rfl, rfl, rfl⟩
  | upsertLink => exact .refl _
  | deleteLink => exact .refl _

/-- In every interleaving of edits, deposits, ledger operations and the other requests
whose structural writes are in time, what has been approved is frozen from every state
to every later one. -/
theorem structural_fields_freeze (num : Numeric) (plus : ℚ → ℚ → ℚ) (requests : List Request)
    {s s' : Desk} {trace : List (Transition DeskStep Desk)}
    {pool : List (Process DeskStep Desk (Except DeskError Unit))}
    (hrun : Run s (requests.map fun request => request.run num plus) trace s' pool)
    (hintime : ∀ t ∈ trace, InTime t.label t.before) :
    Frozen s.ledger s'.ledger ∧
      ∀ t ∈ trace, Frozen t.before.ledger s'.ledger ∧ Frozen t.after.ledger s'.ledger := by
  have htakes : ∀ p ∈ requests.map (fun request => request.run num plus),
      p.Takes (Does num) := by
    intro p hp
    obtain ⟨request, -, rfl⟩ := List.mem_map.mp hp
    exact takes_run request
  let P (trace : List (Transition DeskStep Desk)) (s' : Desk) : Prop :=
    Frozen s.ledger s'.ledger ∧
      ∀ t ∈ trace, Frozen t.before.ledger s'.ledger ∧ Frozen t.after.ledger s'.ledger
  have hstep : ∀ {trace : List (Transition DeskStep Desk)} {t : Transition DeskStep Desk},
      P trace t.before → InTime t.label t.before → Does num t.label t.before t.after →
      P (trace ++ [t]) t.after := by
    intro trace t hP hlabel hdoes
    have hfrozen := hdoes.frozen hlabel
    refine ⟨hP.1.trans hfrozen, ?_⟩
    intro t' ht'
    rcases List.mem_append.mp ht' with hold | hlast
    · exact ⟨(hP.2 t' hold).1.trans hfrozen, (hP.2 t' hold).2.trans hfrozen⟩
    · obtain rfl := List.mem_singleton.mp hlast
      exact ⟨hfrozen, .refl _⟩
  have hstart : P [] s := ⟨.refl _, by simp⟩
  exact hrun.along htakes hintime hstart hstep

/-- An edit of the filed quantity beside the approval of the deposit. -/
def editAndApproval (schedule : List ℕ) :
    List (Transition DeskStep Desk) × Desk ×
      List (Process DeskStep Desk (Except DeskError Unit)) :=
  interleave schedule (sampleDesk sampleFiling)
    ([sampleEdit { quantity := some 12 }, sampleApproval].map fun request =>
      request.run .postgres fun x y => x + y)

/-- The status and the quantity of the filed deposit. -/
def filed (s : Desk) : Option (ReceiptStatus × ℚ) :=
  (s.ledger.receipts.find 1).map fun r => (r.status, r.quantity)

/-- The quantity is edited in time; after the approval an admin corrects the date of deposit, and
five units are held. -/
def approvedThenCorrected :
    List (Transition DeskStep Desk) × Desk ×
      List (Process DeskStep Desk (Except DeskError Unit)) :=
  interleave [0, 0, 1, 2, 2, 3] (sampleDesk sampleFiling)
    ([sampleEdit { quantity := some 12 }, sampleApproval,
      .editDepositAsAdmin 7 1 { dateOfDeposit := some 5 },
      .ledger ⟨⟨103, 0, 2, 3, .stored⟩, .hold
        { tenantId := 7, sourceReceiptId := 1, quantity := 5, heldStatus := .heldWithdrawal
          txnType := .withdrawal, txnId := 50, actorUserId := none
          idempotencyKey := [.text "hold"] }⟩].map fun request =>
      request.run .postgres fun x y => x + y)

/-- The theorem at that run: the twelve units stay, through the correction and the split. -/
theorem structural_fields_freeze_sample :
    approvedThenCorrected.1.map (fun t => filed t.after) =
        [some (.pendingApproval, 10), some (.pendingApproval, 12), some (.active, 12),
          some (.active, 12), some (.active, 12), some (.split, 12)] ∧
      ∀ t ∈ approvedThenCorrected.1, Frozen t.after.ledger approvedThenCorrected.2.1.ledger := by
  constructor
  · decide +kernel
  · intro t ht
    exact ((structural_fields_freeze .postgres (fun x y => x + y) _
      (run_interleave [0, 0, 1, 2, 2, 3] _ _) (by decide +kernel)).2 t ht).2

/-- An edit that loads before the approval and writes after it turns ten approved units
into twelve. -/
theorem late_edit_rewrites_approved :
    (editAndApproval [0, 1, 0]).1.map (fun t => filed t.after) =
        [some (.pendingApproval, 10), some (.active, 10), some (.active, 12)] ∧
      ∃ t ∈ (editAndApproval [0, 1, 0]).1,
        ¬ Frozen t.after.ledger (editAndApproval [0, 1, 0]).2.1.ledger := by
  have hfiled : (editAndApproval [0, 1, 0]).1.map (fun t => filed t.after) =
      [some (.pendingApproval, 10), some (.active, 10), some (.active, 12)] := by
    decide +kernel
  have hlast : filed (editAndApproval [0, 1, 0]).2.1 = some (.active, 12) := by
    decide +kernel
  refine ⟨hfiled, ?_⟩
  have happroved : some (.active, 10) ∈
      (editAndApproval [0, 1, 0]).1.map (fun t => filed t.after) := by
    rw [hfiled]
    simp
  obtain ⟨t, ht, hbefore⟩ := List.mem_map.mp happroved
  refine ⟨t, ht, fun hfrozen => ?_⟩
  obtain ⟨r, hr, hpair⟩ := Option.map_eq_some_iff.mp hbefore
  obtain ⟨r', hr', hpair'⟩ := Option.map_eq_some_iff.mp hlast
  obtain ⟨hstatus, hquantity⟩ := Prod.mk.inj hpair
  obtain ⟨r'', hr'', -, hsame⟩ := hfrozen 1 r hr (by rw [hstatus]; decide)
  rw [hr'] at hr''
  obtain rfl := Option.some_inj.mp hr''
  have hkept : r'.quantity = 10 := hsame.quantity.trans hquantity
  rw [(Prod.mk.inj hpair').2] at hkept
  exact absurd hkept (by norm_num)

end SecureStore.Deposits
