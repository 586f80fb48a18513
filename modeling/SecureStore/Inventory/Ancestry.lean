/-
# The lineage of receipts

Children are minted by the splits only, and a split copies tenant, commodity,
warehouse and root from its source. So in every run the parent links climb to the
root that a receipt names, and the event a receipt names is the event of the split
that minted it.
-/

import SecureStore.Foundation.Forest
import SecureStore.Inventory.Replay

namespace SecureStore.Inventory

open SecureStore.Foundation

/-- Receipts under their parents. -/
def receiptTree : Lineage Receipt Id where
  key := Receipt.id
  parent := Receipt.parentReceiptId

/-- Follow parent links for at most so many steps to a receipt that has no parent. -/
def Ledger.climb (s : Ledger) : ℕ → Receipt → Option Receipt
  | 0, r => if r.parentReceiptId = none then some r else none
  | n + 1, r =>
      match r.parentReceiptId with
      | none => some r
      | some p => (s.receipts.find p).bind (s.climb n)

/-- What a split hands down. -/
structure Kin (parent child : Receipt) : Prop where
  tenantId : child.tenantId = parent.tenantId
  commodityId : child.commodityId = parent.commodityId
  warehouseId : child.warehouseId = parent.warehouseId
  rootReceiptId : child.rootReceiptId = parent.rootReceiptId

/-- The event that minted a receipt: the deposit of a root, the split of a parent. -/
structure MintedBy (r : Receipt) (e : InventoryEvent) : Prop where
  source : r.sourceEventId = some e.id
  root : e.rootReceiptId = r.rootReceiptId
  parent : ∀ p, r.parentReceiptId = some p → e.fromReceiptId = p

section Effects

variable {num : Numeric} {uuids : Uuids} {op : LedgerOp} {s s' : Ledger}
  {events : List InventoryEvent} {change : Change} {result : LedgerResult}

theorem Effect.sameCommodity (h : Effect num uuids s op events change result)
    {before after : Receipt} (hrewritten : change.rewritten = some (before, after)) :
    after.commodityId = before.commodityId := by
  cases h <;> cases hrewritten <;> rfl

theorem Effect.sameGrade (h : Effect num uuids s op events change result)
    {before after : Receipt} (hrewritten : change.rewritten = some (before, after)) :
    after.grade = before.grade := by
  cases h <;> cases hrewritten <;> rfl

/-- A commit turns no receipt into another commodity. -/
theorem Commits.sameCommodity (hcommits : Commits s events change s')
    (heffect : Effect num uuids s op events change result) {r : Receipt} (hr : r ∈ s.receipts) :
    (change.apply r).commodityId = r.commodityId :=
  hcommits.keeps (fun _ _ hrewritten => heffect.sameCommodity hrewritten) hr

/-- A commit regrades no receipt. -/
theorem Commits.sameGrade (hcommits : Commits s events change s')
    (heffect : Effect num uuids s op events change result) {r : Receipt} (hr : r ∈ s.receipts) :
    (change.apply r).grade = r.grade :=
  hcommits.keeps (fun _ _ hrewritten => heffect.sameGrade hrewritten) hr

/-- A created receipt is a root, or a child that takes after the receipt that was split. -/
theorem Effect.minted (h : Effect num uuids s op events change result) {k : Receipt}
    (hk : k ∈ change.created) :
    ∃ e ∈ events, MintedBy k e ∧
      ((k.parentReceiptId = none ∧ k.rootReceiptId = k.id) ∨
        ∃ src, change.rewritten = some (src, supersede src) ∧
          k.parentReceiptId = some src.id ∧ Kin src k) := by
  have child : ∀ {src : Receipt} {e : InventoryEvent}, k.parentReceiptId = some src.id →
      k.sourceEventId = some e.id → e.rootReceiptId = src.rootReceiptId →
        e.fromReceiptId = src.id → Kin src k → MintedBy k e := by
    intro src e hparent hsource hroot hfrom hkin
    constructor
    · exact hsource
    · exact hroot.trans hkin.rootReceiptId.symm
    · intro p hp
      rw [hfrom]
      exact Option.some_inj.mp (hparent.symm.trans hp)
  have primary : ∀ {src : Receipt} {qty : ℚ} {primary : Primary} {number : List Char},
      Kin src (primaryChild num uuids src qty primary number) := ⟨rfl, rfl, rfl, rfl⟩
  have remainder : ∀ {src : Receipt} {qty : ℚ} {number : List Char},
      Kin src (remainderChild num uuids src qty number) := ⟨rfl, rfl, rfl, rfl⟩
  cases h with
  | deposit input positive =>
      obtain rfl := List.mem_singleton.mp hk
      refine ⟨_, List.mem_cons_self, ⟨rfl, rfl, ?_⟩, .inl ⟨rfl, rfl⟩⟩
      intro p hp
      cases hp
  | hold input src =>
      refine ⟨_, List.mem_cons_self, ?_⟩
      rcases List.mem_cons.mp hk with rfl | hk
      · exact ⟨child rfl rfl rfl rfl primary, .inr ⟨src, rfl, rfl, primary⟩⟩
      · obtain rfl := mem_partitionRemainder hk
        exact ⟨child rfl rfl rfl rfl remainder, .inr ⟨src, rfl, rfl, remainder⟩⟩
  | releasePartial input src number number' =>
      refine ⟨_, List.mem_cons_self, ?_⟩
      rcases List.mem_pair.mp hk with rfl | rfl
      · have hkin : Kin src (releasedChild num uuids src input.releaseQuantity number) :=
          ⟨rfl, rfl, rfl, rfl⟩
        exact ⟨child rfl rfl rfl rfl hkin, .inr ⟨src, rfl, rfl, hkin⟩⟩
      · have hkin : Kin src (remainingChild num uuids src input.releaseQuantity number') :=
          ⟨rfl, rfl, rfl, rfl⟩
        exact ⟨child rfl rfl rfl rfl hkin, .inr ⟨src, rfl, rfl, hkin⟩⟩
  | seizePart input src =>
      refine ⟨_, List.mem_cons_self, ?_⟩
      rcases List.mem_cons.mp hk with rfl | hk
      · exact ⟨child rfl rfl rfl rfl primary, .inr ⟨src, rfl, rfl, primary⟩⟩
      · obtain rfl := mem_partitionRemainder hk
        exact ⟨child rfl rfl rfl rfl remainder, .inr ⟨src, rfl, rfl, remainder⟩⟩
  | _ => cases hk

/-- A created receipt ranks above every receipt that was there before. -/
theorem Lifecycle.ranked_step (h : Lifecycle s)
    (hranked : ∃ rank, receiptTree.Ranked s.receipts.rows rank s.receipts.rows.length)
    (heffect : Effect num uuids s op events change result)
    (hcommits : Commits s events change s') :
    ∃ rank, receiptTree.Ranked s'.receipts.rows rank s'.receipts.rows.length := by
  obtain ⟨rank, hincreases, hbounded⟩ := hranked
  let rank' : Id → ℕ := fun id =>
    if id ∈ change.created.map Receipt.id then s.receipts.rows.length else rank id
  have hlen : s'.receipts.rows.length = s.receipts.rows.length + change.created.length := by
    rw [hcommits.rows, List.length_append, List.length_map]
  have rank_old : ∀ r ∈ s.receipts, rank' r.id = rank r.id := by
    intro r hr
    refine if_neg fun hmem => ?_
    obtain ⟨k, hk, hid⟩ := List.mem_map.mp hmem
    exact hcommits.created_ne hk hr hid.symm
  have rank_new : ∀ k ∈ change.created, rank' k.id = s.receipts.rows.length := fun k hk =>
    if_pos (List.mem_map_of_mem hk)
  refine ⟨rank', ?_, ?_⟩
  · intro r hr p hp
    change rank' p < rank' r.id
    rcases hcommits.mem_receipts.mp hr with ⟨r₀, hr₀, rfl⟩ | hcreated
    · have hnode := (hcommits.advance heffect hr₀).1
      have hparent : r₀.parentReceiptId = some p := hnode.parentReceiptId ▸ hp
      obtain ⟨q, hq, rfl, -⟩ := h.child_of_split r₀ hr₀ p hparent
      rw [hnode.id, rank_old q hq, rank_old r₀ hr₀]
      exact hincreases r₀ hr₀ q.id hparent
    · obtain ⟨-, -, -, hroot | ⟨src, hrewritten, hsrc⟩⟩ := heffect.created hcreated
      · rw [show receiptTree.parent r = r.parentReceiptId from rfl, hroot] at hp
        cases hp
      · rw [show receiptTree.parent r = r.parentReceiptId from rfl, hsrc] at hp
        cases hp
        have hmem := Table.mem_of_find (hcommits.found _ _ hrewritten).1
        rw [rank_new r hcreated, rank_old src hmem]
        exact hbounded src hmem
  · intro r hr
    change rank' r.id < _
    rcases hcommits.mem_receipts.mp hr with ⟨r₀, hr₀, rfl⟩ | hcreated
    · rw [hcommits.apply_id, rank_old r₀ hr₀, hlen]
      exact Nat.lt_add_right _ (hbounded r₀ hr₀)
    · rw [rank_new r hcreated, hlen]
      exact Nat.lt_add_of_pos_right (List.length_pos_of_mem hcreated)

/-- Receipts, their parents and their events fit together. -/
structure Ancestry (s : Ledger) : Prop where
  lifecycle : Lifecycle s
  provenance : Provenance s
  ranked : ∃ rank, receiptTree.Ranked s.receipts.rows rank s.receipts.rows.length
  root : ∀ r ∈ s.receipts, r.parentReceiptId = none → r.rootReceiptId = r.id
  parent : ∀ r ∈ s.receipts, ∀ p, r.parentReceiptId = some p →
    ∃ q ∈ s.receipts, q.id = p ∧ Kin q r
  minted : ∀ r ∈ s.receipts, ∃ e ∈ s.events, MintedBy r e

theorem ancestry_empty : Ancestry Ledger.empty where
  lifecycle := lifecycle_empty
  provenance := provenance_empty
  ranked := ⟨fun _ => 0, by simp [Table.empty], by simp [Table.empty]⟩
  root := by simp
  parent := by simp
  minted := by simp

/-- Relatives stay relatives when both are rewritten. -/
theorem Commits.kin (hcommits : Commits s events change s')
    (heffect : Effect num uuids s op events change result) {p r : Receipt} (hp : p ∈ s.receipts)
    (hr : r ∈ s.receipts) (h : Kin p r) : Kin (change.apply p) (change.apply r) := by
  have hnode := (hcommits.advance heffect hr).1
  have hnode' := (hcommits.advance heffect hp).1
  constructor
  · rw [hnode.tenantId, hnode'.tenantId, h.tenantId]
  · rw [hcommits.sameCommodity heffect hr, hcommits.sameCommodity heffect hp, h.commodityId]
  · rw [hcommits.sameWarehouse heffect hr, hcommits.sameWarehouse heffect hp, h.warehouseId]
  · rw [hnode.rootReceiptId, hnode'.rootReceiptId, h.rootReceiptId]

theorem Ancestry.step (h : Ancestry s) (heffect : Effect num uuids s op events change result)
    (hcommits : Commits s events change s') : Ancestry s' where
  lifecycle := h.lifecycle.step heffect hcommits
  provenance := h.provenance.step heffect hcommits
  ranked := h.lifecycle.ranked_step h.ranked heffect hcommits
  root := by
    intro r hr hparent
    rcases hcommits.mem_receipts.mp hr with ⟨r₀, hr₀, rfl⟩ | hcreated
    · have hnode := (hcommits.advance heffect hr₀).1
      rw [hnode.rootReceiptId, hnode.id]
      exact h.root r₀ hr₀ (hnode.parentReceiptId ▸ hparent)
    · obtain ⟨-, -, -, ⟨-, hroot⟩ | ⟨src, -, hsrc, -⟩⟩ := heffect.minted hcreated
      · exact hroot
      · rw [hsrc] at hparent
        cases hparent
  parent := by
    intro r hr p hparent
    rcases hcommits.mem_receipts.mp hr with ⟨r₀, hr₀, rfl⟩ | hcreated
    · have hnode := (hcommits.advance heffect hr₀).1
      obtain ⟨q, hq, hid, hkin⟩ := h.parent r₀ hr₀ p (hnode.parentReceiptId ▸ hparent)
      refine ⟨change.apply q, hcommits.mem_receipts.mpr (.inl ⟨q, hq, rfl⟩), ?_,
        hcommits.kin heffect hq hr₀ hkin⟩
      rw [hcommits.apply_id, hid]
    · obtain ⟨-, -, -, ⟨hnone, -⟩ | ⟨src, hrewritten, hsrc, hkin⟩⟩ := heffect.minted hcreated
      · rw [hnone] at hparent
        cases hparent
      · have hmem := Table.mem_of_find (hcommits.found _ _ hrewritten).1
        refine ⟨change.apply src, hcommits.mem_receipts.mpr (.inl ⟨src, hmem, rfl⟩), ?_, ?_⟩
        · rw [hcommits.apply_id]
          exact Option.some_inj.mp (hsrc.symm.trans hparent)
        · have hnode := (hcommits.advance heffect hmem).1
          constructor
          · rw [hnode.tenantId, hkin.tenantId]
          · rw [hcommits.sameCommodity heffect hmem, hkin.commodityId]
          · rw [hcommits.sameWarehouse heffect hmem, hkin.warehouseId]
          · rw [hnode.rootReceiptId, hkin.rootReceiptId]
  minted := by
    intro r hr
    rcases hcommits.mem_receipts.mp hr with ⟨r₀, hr₀, rfl⟩ | hcreated
    · have hnode := (hcommits.advance heffect hr₀).1
      obtain ⟨e, he, hminted⟩ := h.minted r₀ hr₀
      refine ⟨e, hcommits.mem_events.mpr (.inl he), ?_⟩
      constructor
      · exact hnode.sourceEventId.trans hminted.source
      · exact hminted.root.trans hnode.rootReceiptId.symm
      · intro p hp
        exact hminted.parent p (hnode.parentReceiptId ▸ hp)
    · obtain ⟨e, he, hminted, -⟩ := heffect.minted hcreated
      exact ⟨e, hcommits.mem_events.mpr (.inr he), hminted⟩

end Effects

theorem ancestry_run (num : Numeric) {s : Ledger} (h : Ancestry s) (calls : List LedgerCall) :
    Ancestry (runCalls num calls s) :=
  runCalls_invariant (fun hs _ heffect hcommits => hs.step heffect hcommits) calls h

section Climbing

variable {s : Ledger}

/-- The receipts are a forest under their parent links. -/
theorem Ancestry.forest (h : Ancestry s) : receiptTree.IsForest s.receipts.rows := by
  obtain ⟨rank, hincreases, -⟩ := h.ranked
  constructor
  · intro r hr p hparent
    obtain ⟨q, hq, hid, -⟩ := h.parent r hr p hparent
    exact ⟨q, hq, hid⟩
  · exact ⟨rank, hincreases⟩

/-- Climbing from a receipt ends at the root that it names. -/
theorem Ancestry.climbs (h : Ancestry s) {r : Receipt} (hr : r ∈ s.receipts) :
    ∃ n root, s.climb n r = some root ∧ root ∈ s.receipts ∧ root.parentReceiptId = none ∧
      root.id = r.rootReceiptId := by
  obtain ⟨rank, hincreases, -⟩ := h.ranked
  -- by induction on the rank, which drops from a receipt to its parent
  induction hrank : rank r.id using Nat.strong_induction_on generalizing r with
  | _ n ih =>
      subst hrank
      cases hparent : r.parentReceiptId with
      | none =>
          refine ⟨0, r, ?_, hr, hparent, (h.root r hr hparent).symm⟩
          simp [Ledger.climb, hparent]
      | some p =>
          obtain ⟨q, hq, rfl, hkin⟩ := h.parent r hr p hparent
          have hlower : rank q.id < rank r.id := hincreases r hr q.id hparent
          obtain ⟨m, root, hclimb, hroot, hnone, hid⟩ := ih (rank q.id) hlower hq rfl
          refine ⟨m + 1, root, ?_, hroot, hnone, hid.trans hkin.rootReceiptId.symm⟩
          have hfind : s.receipts.find q.id = some q := Table.find_of_mem hq
          simp only [Ledger.climb, hparent, hfind, Option.bind_some]
          exact hclimb

end Climbing

/-- In every run lineage is well formed: parent links climb to the root a receipt names,
children take after their parents, every receipt names the one event that minted it, every
event is about a receipt of its tree, and no key is on two events. -/
theorem lineage_well_formed (num : Numeric) (calls : List LedgerCall) :
    let s := runCalls num calls Ledger.empty
    (∀ r ∈ s.receipts,
      (∃ n root, s.climb n r = some root ∧ root ∈ s.receipts ∧ root.parentReceiptId = none ∧
        root.id = r.rootReceiptId) ∧
      (∀ p, r.parentReceiptId = some p → ∃ q ∈ s.receipts, q.id = p ∧ Kin q r) ∧
      ∃ e ∈ s.events, MintedBy r e ∧ ∀ e' ∈ s.events, e'.id = e.id → e' = e) ∧
    (∀ e ∈ s.events, ∃ r ∈ s.receipts, r.id = e.fromReceiptId ∧
      ∃ n root, s.climb n r = some root ∧ root.parentReceiptId = none ∧
        root.id = e.rootReceiptId) ∧
    ∀ e ∈ s.events, ∀ e' ∈ s.events, e.idempotencyKey = e'.idempotencyKey → e = e' := by
  intro s
  have hancestry : Ancestry s := ancestry_run num ancestry_empty calls
  refine ⟨?_, ?_, fun e he e' he' => Table.eq_of_key_eq he he'⟩
  · intro r hr
    refine ⟨hancestry.climbs hr, hancestry.parent r hr, ?_⟩
    obtain ⟨e, he, hminted⟩ := hancestry.minted r hr
    refine ⟨e, he, hminted, ?_⟩
    intro e' he' hid
    exact hancestry.provenance.event_ids e' he' e he hid
  · intro e he
    obtain ⟨r, hr, hid, -, hroot⟩ := hancestry.provenance.from_exists e he
    obtain ⟨n, root, hclimb, -, hnone, hrootid⟩ := hancestry.climbs hr
    exact ⟨r, hr, hid, n, root, hclimb, hnone, hrootid.trans hroot⟩

end SecureStore.Inventory
