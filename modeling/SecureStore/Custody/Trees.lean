/-
# Trees of receipts in reachable states

However its requests were interleaved and wherever they stopped, a reachable ledger has grown by
commits. So its receipts are a forest in which no leaf weighs less than nothing and only roots
await approval, the receipts that name a root are those below it, and a receipt weighs as much
as the leaves below it and what its splits have lost.
-/

import SecureStore.Custody.Requests
import SecureStore.Inventory.Ancestry
import SecureStore.Inventory.Recon

namespace SecureStore.Services

open SecureStore.Foundation SecureStore.Inventory

/-- What every commit keeps, a step keeps. -/
theorem Takes.keeps_ledger {num : Numeric} {mine : Issuer → Prop} {P : Ledger → Prop}
    (hstep : ∀ {uuids : Uuids} {s s' : Ledger} {op : LedgerOp} {events : List InventoryEvent}
      {change : Change} {result : LedgerResult}, P s → Effect num uuids s op events change result →
        Commits s events change s' → P s')
    {label : Label} {s s' : Db} (h : Takes num mine label s s') (hs : P s.ledger) :
    P s'.ledger := by
  cases label with
  | read =>
      rw [show s' = s from h]
      exact hs
  | write by_ =>
      rcases h with rfl | ⟨-, hwrite⟩
      · exact hs
      · exact hwrite.ledger ▸ hs
  | ledger by_ op =>
      rcases h with rfl | ⟨-, hledger⟩
      · exact hs
      · obtain ⟨uuids, events, change, result, heffect, hcommits⟩ := hledger.effect
        exact hstep hs heffect hcommits

/-- What every commit keeps, the ledgers of all runs keep. -/
theorem runs_ledger {num : Numeric} {P : Ledger → Prop} (hempty : P Ledger.empty)
    (hstep : ∀ {uuids : Uuids} {s s' : Ledger} {op : LedgerOp} {events : List InventoryEvent}
      {change : Change} {result : LedgerResult}, P s → Effect num uuids s op events change result →
        Commits s events change s' → P s')
    {directory : Directory} {requests : List Request} {trace : List (Transition Label Db)}
    {db : Db} {pool : List (Api Unit)}
    (h : Run (Db.initial directory) (requests.map (Request.run num)) trace db pool) :
    P db.ledger := by
  have hcustody := runs_custody num directory requests h
  apply h.history (P := fun _ db => P db.ledger) hempty
  intro earlier t later htrace hbefore
  obtain ⟨-, htakes, -⟩ := hcustody.each t (by simp [htrace])
  exact Takes.keeps_ledger hstep htakes hbefore

/-! ## Weights and approvals -/

/-- Neither subtraction nor the column of a receipt makes a quantity negative. -/
structure KeepsSign (num : Numeric) : Prop where
  column : ∀ q, 0 ≤ q → 0 ≤ num.numeric18_3 q
  minus : ∀ x y, y ≤ x → 0 ≤ num.minus x y

theorem keepsSign_exact : KeepsSign .exact where
  column _ hq := hq
  minus _ _ h := sub_nonneg.mpr h

theorem keepsSign_postgres : KeepsSign .postgres where
  column _ hq := roundScale_nonneg hq
  minus x y h := by
    change 0 ≤ roundSig 20 (x - y)
    rcases (sub_nonneg.mpr h).eq_or_lt with hzero | hpositive
    · rw [← hzero, roundSig_of_fits (fits_zero 20)]
    · exact (roundSig_pos (by norm_num) hpositive).le

/-- A forest of receipts that weigh something or nothing, in which roots await approval. -/
structure Grown (s : Ledger) : Prop where
  ancestry : Ancestry s
  weight : ∀ r ∈ s.receipts, 0 ≤ r.quantity
  pending : ∀ r ∈ s.receipts, r.status = .pendingApproval → r.parentReceiptId = none

section Steps

variable {num : Numeric} {uuids : Uuids} {op : LedgerOp} {s s' : Ledger}
  {events : List InventoryEvent} {change : Change} {result : LedgerResult}

theorem created_weight (hnum : KeepsSign num)
    (heffect : Effect num uuids s op events change result) {k : Receipt}
    (hk : k ∈ change.created) : 0 ≤ k.quantity := by
  cases heffect with
  | deposit input positive =>
      obtain rfl := List.mem_singleton.mp hk
      exact hnum.column _ positive.le
  | hold input src number number' loaded active approved leaf positive available =>
      rcases List.mem_cons.mp hk with rfl | hk
      · exact hnum.column _ positive.le
      · obtain rfl := mem_partitionRemainder hk
        exact hnum.column _ (hnum.minus _ _ available)
  | releasePartial input src number number' loaded lien positive available =>
      rcases List.mem_pair.mp hk with rfl | rfl
      · exact hnum.column _ positive.le
      · exact hnum.column _ (hnum.minus _ _ available.le)
  | seizePart input r pq number number' loaded loan part positive available =>
      rcases List.mem_cons.mp hk with rfl | hk
      · exact hnum.column _ positive.le
      · obtain rfl := mem_partitionRemainder hk
        exact hnum.column _ (hnum.minus _ _ available.le)
  | _ => cases hk

/-- What is created awaiting approval is a root. -/
theorem created_pending (heffect : Effect num uuids s op events change result) {k : Receipt}
    (hk : k ∈ change.created) (hpending : k.status = .pendingApproval) :
    k.parentReceiptId = none := by
  cases heffect with
  | deposit input positive =>
      obtain rfl := List.mem_singleton.mp hk
      rfl
  | hold input src number number' =>
      rcases List.mem_cons.mp hk with rfl | hk
      · cases hheld : input.heldStatus <;> simp [hheld, HeldStatus.status] at hpending
      · obtain rfl := mem_partitionRemainder hk
        simp at hpending
  | releasePartial input src number number' =>
      rcases List.mem_pair.mp hk with rfl | rfl <;> simp at hpending
  | seizePart input r pq number number' =>
      rcases List.mem_cons.mp hk with rfl | hk
      · simp at hpending
      · obtain rfl := mem_partitionRemainder hk
        simp at hpending
  | _ => cases hk

/-- No receipt moves to await approval. -/
theorem moves_not_pending {before after : ReceiptStatus} (h : Moves before after) :
    after ≠ .pendingApproval := by
  cases h <;> simp

theorem Grown.step (hnum : KeepsSign num) (h : Grown s)
    (heffect : Effect num uuids s op events change result)
    (hcommits : Commits s events change s') : Grown s' where
  ancestry := h.ancestry.step heffect hcommits
  weight := by
    intro r hr
    rcases hcommits.mem_receipts.mp hr with ⟨r₀, hr₀, rfl⟩ | hcreated
    · rw [(hcommits.advance heffect hr₀).1.quantity]
      exact h.weight r₀ hr₀
    · exact created_weight hnum heffect hcreated
  pending := by
    intro r hr hpending
    rcases hcommits.mem_receipts.mp hr with ⟨r₀, hr₀, rfl⟩ | hcreated
    · obtain ⟨hnode, hsame | hmoves⟩ := hcommits.advance heffect hr₀
      · rw [hnode.parentReceiptId]
        exact h.pending r₀ hr₀ (hsame ▸ hpending)
      · exact absurd hpending (moves_not_pending hmoves)
    · exact created_pending heffect hcreated hpending

end Steps

theorem grown_empty : Grown Ledger.empty := ⟨ancestry_empty, by simp, by simp⟩

/-- The ledger of every reachable state has grown. -/
theorem runs_grown {num : Numeric} (hnum : KeepsSign num) {directory : Directory}
    {requests : List Request} {trace : List (Transition Label Db)} {db : Db}
    {pool : List (Api Unit)}
    (h : Run (Db.initial directory) (requests.map (Request.run num)) trace db pool) :
    Grown db.ledger :=
  runs_ledger grown_empty (fun hs heffect hcommits => hs.step hnum heffect hcommits) h

/-! ## Subtrees -/

/-- A receipt and everything below it. -/
def subtree (s : Ledger) (id : Id) : List Receipt := (tree s id).getD []

section Subtrees

variable {s : Ledger} {r x : Receipt}

/-- The recursive query from a receipt stops. -/
theorem tree_subtree (h : Ancestry s) (hr : r ∈ s.receipts) :
    receiptTree.descend s.receipts.rows s.receipts.rows.length [r] = some (subtree s r.id) := by
  obtain ⟨rank, hranked⟩ := h.ranked
  have hstart : s.receipts.rows.filter (fun x => x.id = r.id) = [r] := Table.filter_key hr
  have hlevel : ∀ t ∈ [r], t ∈ s.receipts.rows := by
    intro t ht
    exact List.mem_singleton.mp ht ▸ hr
  obtain ⟨found, hfound⟩ := Lineage.descend_terminates hranked s.receipts.rows.length hlevel
    fun t _ => Nat.le_add_left _ _
  rw [hfound]
  unfold subtree tree
  rw [hstart, hfound]
  rfl

theorem subtree_mem (h : Ancestry s) (hr : r ∈ s.receipts) (hx : x ∈ subtree s r.id) :
    x ∈ s.receipts := by
  refine Lineage.descend_subset ?_ (tree_subtree h hr) x hx
  intro t ht
  exact List.mem_singleton.mp ht ▸ hr

/-- The receipts of a tenant and a root are those below the root. -/
theorem mem_subtree_root (h : Ancestry s) (hr : r ∈ s.receipts) (hroot : r.parentReceiptId = none) :
    x ∈ subtree s r.id ↔ x ∈ s.receipts ∧ x.tenantId = r.tenantId ∧ x.rootReceiptId = r.id := by
  have hfound := tree_subtree h hr
  constructor
  · intro hx
    let named : Receipt → Prop := fun x =>
      x ∈ s.receipts ∧ x.tenantId = r.tenantId ∧ x.rootReceiptId = r.id
    have hnamed : ∀ x ∈ subtree s r.id, named x := by
      refine Lineage.descend_induction (P := named) hfound ?_ ?_
      · intro t ht
        obtain rfl := List.mem_singleton.mp ht
        exact ⟨hr, rfl, h.root t hr hroot⟩
      · rintro p ⟨hp, htenant, hrootId⟩ k hk hparent
        obtain ⟨q, hq, hid, hkin⟩ := h.parent k hk p.id hparent
        obtain rfl : q = p := Table.eq_of_key_eq hq hp hid
        exact ⟨hk, hkin.tenantId.trans htenant, hkin.rootReceiptId.trans hrootId⟩
    exact hnamed x hx
  · rintro ⟨hx, -, hrootId⟩
    obtain ⟨rank, hincreases, -⟩ := h.ranked
    -- by induction on the rank, which drops from a receipt to its parent
    induction hn : rank x.id using Nat.strong_induction_on generalizing x with
    | _ n ih =>
        subst hn
        rw [Lineage.mem_descend_iff hfound]
        cases hparent : x.parentReceiptId with
        | none =>
            have hid : x.id = r.id := (h.root x hx hparent).symm.trans hrootId
            exact .inl (List.mem_singleton.mpr (Table.eq_of_key_eq hx hr hid))
        | some p =>
            obtain ⟨q, hq, rfl, hkin⟩ := h.parent x hx p hparent
            have hlower : rank q.id < rank x.id := hincreases x hx q.id hparent
            exact .inr ⟨hx, q, ih _ hlower hq (hkin.rootReceiptId.symm.trans hrootId) rfl, hparent⟩

/-- A receipt that was not split has nothing below it. -/
theorem subtree_leaf (h : Ancestry s) (hr : r ∈ s.receipts) (hleaf : r.status ≠ .split) :
    subtree s r.id = [r] := by
  have hfound := tree_subtree h hr
  have hchildren : receiptTree.children s.receipts.rows r.id = [] := by
    apply h.lifecycle.childless
    intro x hx hid
    obtain rfl : x = r := Table.eq_of_key_eq hx hr hid
    exact Bool.not_eq_true _ ▸ fun hparent => hleaf ((h.lifecycle.parent_iff x hx).mp hparent)
  obtain ⟨n, hn⟩ := Nat.exists_eq_succ_of_ne_zero (List.length_pos_of_mem hr).ne'
  have hbelow : receiptTree.below s.receipts.rows [r] = [] := by
    rw [Lineage.below, List.flatMap_singleton]
    exact hchildren
  rw [hn, Lineage.descend, hbelow, Lineage.descend] at hfound
  simpa using hfound.symm

/-- A root and what is below it are the receipts of its tenant that name it. -/
theorem subtree_perm (h : Ancestry s) (hr : r ∈ s.receipts) (hroot : r.parentReceiptId = none) :
    (subtree s r.id).Perm (s.receipts.rows.filter fun x =>
      x.tenantId = r.tenantId ∧ (x.rootReceiptId = r.id ∨ x.id = r.id)) := by
  have hkeys : (s.receipts.rows.map receiptTree.key).Nodup := s.receipts.nodup
  have hnodup : s.receipts.rows.Nodup := List.Nodup.of_map _ hkeys
  have honce : (subtree s r.id).Nodup := by
    refine h.forest.nodup_found hkeys ?_ ?_ (List.nodup_singleton r) (tree_subtree h hr)
    · intro t ht
      exact List.mem_singleton.mp ht ▸ hr
    · intro t ht
      exact List.mem_singleton.mp ht ▸ hroot
  apply (List.perm_ext_iff_of_nodup honce (hnodup.filter _)).mpr
  intro x
  rw [mem_subtree_root h hr hroot, List.mem_filter, decide_eq_true_eq]
  constructor
  · rintro ⟨hx, htenant, hrootId⟩
    exact ⟨hx, htenant, .inl hrootId⟩
  · rintro ⟨hx, htenant, hrootId | hid⟩
    · exact ⟨hx, htenant, hrootId⟩
    · obtain rfl : x = r := Table.eq_of_key_eq hx hr hid
      exact ⟨hx, rfl, h.root x hx hroot⟩

/-- Nothing but roots is named as a root. -/
theorem named_root (h : Ancestry s) (hr : r ∈ s.receipts) (hx : x ∈ s.receipts)
    (hrootId : x.rootReceiptId = r.id) : r.parentReceiptId = none := by
  obtain ⟨n, root, -, hroot, hnone, hid⟩ := h.climbs hx
  obtain rfl : root = r := Table.eq_of_key_eq hroot hr (hid.trans hrootId)
  exact hnone

/-- What the splits below a receipt have lost. -/
def splitLoss (s : Ledger) (id : Id) : ℚ :=
  (((subtree s id).filter fun x => x.isParent).map
    (receiptTree.surplus s.receipts.rows Receipt.quantity)).sum

/-- A receipt weighs as much as the leaves below it and what its splits have lost. -/
theorem subtree_weight (h : Ancestry s) (hr : r ∈ s.receipts) :
    r.quantity =
      sumQuantity ((subtree s r.id).filter fun x => x.isParent = false) + splitLoss s r.id := by
  have hsum : ([r].map Receipt.quantity).sum = ((subtree s r.id).map
      (receiptTree.surplus s.receipts.rows Receipt.quantity)).sum :=
    Lineage.sum_surplus (tree_subtree h hr)
  have hleaf : ∀ x ∈ subtree s r.id, x.isParent = false →
      receiptTree.surplus s.receipts.rows Receipt.quantity x = x.quantity := by
    intro x hx hflag
    apply Lineage.surplus_of_childless
    apply h.lifecycle.childless
    intro y hy hid
    obtain rfl : y = x := Table.eq_of_key_eq hy (subtree_mem h hr hx) hid
    exact hflag
  rw [List.map_singleton, List.sum_singleton] at hsum
  rw [hsum, splitLoss, sumQuantity]
  generalize subtree s r.id = found at hleaf
  clear hsum
  induction found with
  | nil => simp
  | cons x found ih =>
      have hrest := ih fun y hy => hleaf y (List.mem_cons_of_mem _ hy)
      cases hflag : x.isParent with
      | true =>
          simp only [List.map_cons, List.sum_cons, List.filter_cons, hflag, hrest]
          simp
          ring
      | false =>
          simp only [List.map_cons, List.sum_cons, List.filter_cons, hflag, hrest,
            hleaf x List.mem_cons_self hflag]
          simp
          ring

end Subtrees

end SecureStore.Services
