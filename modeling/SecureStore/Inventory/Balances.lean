/-
# Balances

A client's balance is computed from two aggregates over the receipts: what is ACTIVE
and approved, and what is held. Each operation posts to these figures; the postings are
what the operation says it moves, and they are what a balance query sees exactly when
the operation splits no receipt or the columns keep both parts of the split.
-/

import SecureStore.Inventory.Recon

namespace SecureStore.Inventory

open SecureStore.Foundation

/-- The columns of a commodity that a balance shows. -/
structure CommodityLabel where
  id : Id
  name : String
  unitOfMeasure : String

structure BalanceEntry where
  commodityId : Id
  commodity : Option String
  unit : Option String
  available : ℚ
  locked : ℚ
  total : ℚ

/-- `groupBy` the commodity, with the sum of the quantities. -/
def groupByCommodity (rows : List Receipt) : List (Id × ℚ) :=
  (rows.map Receipt.commodityId).dedup.map fun id =>
    (id, ((rows.filter fun r => r.commodityId = id).map Receipt.quantity).sum)

/-- Computed, never stored: available is ACTIVE and approved, locked is held. -/
def getBalance (commodities : List CommodityLabel) (tenantId clientId : Id) (s : Ledger) :
    List BalanceEntry :=
  let available := groupByCommodity (s.receipts.rows.filter fun r =>
    r.tenantId = tenantId ∧ r.clientId = clientId ∧ r.status = .active ∧
      r.approvalStatus = .approved)
  let locked := groupByCommodity (s.receipts.rows.filter fun r =>
    r.tenantId = tenantId ∧ r.clientId = clientId ∧ r.status.Held)
  let ids := available.map Prod.fst ++
    (locked.map Prod.fst).filter fun id => id ∉ available.map Prod.fst
  ids.map fun id =>
    let a := (available.lookup id).getD 0
    let l := (locked.lookup id).getD 0
    let label := commodities.find? fun c => c.id = id
    { commodityId := id
      commodity := label.map CommodityLabel.name
      unit := label.map CommodityLabel.unitOfMeasure
      available := a
      locked := l
      total := roundSig 20 (a + l) }

/-- A figure of a balance for a commodity; zero when the commodity is not listed. -/
def figure (f : BalanceEntry → ℚ) (entries : List BalanceEntry) (commodityId : Id) : ℚ :=
  ((entries.find? fun e => e.commodityId = commodityId).map f).getD 0

/-- What a receipt adds to the available figure of its owner. -/
def Receipt.availableQty (r : Receipt) : ℚ :=
  if r.status = .active ∧ r.approvalStatus = .approved then r.quantity else 0

/-- What a receipt adds to the locked figure of its owner. -/
def Receipt.lockedQty (r : Receipt) : ℚ := if r.status.Held then r.quantity else 0

/-- What an operation moves in the figures of one client. -/
structure Posting where
  tenantId : Id
  clientId : Id
  commodityId : Id
  available : ℚ
  locked : ℚ

/-- A posting to the owner of a receipt. -/
def Receipt.posting (r : Receipt) (available locked : ℚ) : Posting where
  tenantId := r.tenantId
  clientId := r.clientId
  commodityId := r.commodityId
  available := available
  locked := locked

/-- What each operation says it moves, given the ledger before it. -/
def LedgerOp.postings (op : LedgerOp) (s : Ledger) : List Posting :=
  let about := fun (id : Id) (f : Receipt → List Posting) => (s.receipts.find id).elim [] f
  match op with
  | .deposit _ => []
  | .approveReceipt _ id => about id fun r => [r.posting r.quantity 0]
  | .rejectReceipt _ _ _ => []
  | .hold input => about input.sourceReceiptId fun r => [r.posting (-input.quantity) input.quantity]
  | .approveHold _ _ => []
  | .release _ id => about id fun r => [r.posting r.quantity (-r.quantity)]
  | .consume _ id => about id fun r => [r.posting 0 (-r.quantity)]
  | .releasePartial input => about input.heldReceiptId fun r =>
      [r.posting input.releaseQuantity (-input.releaseQuantity)]
  | .transitionPledgeToLien _ _ _ => []
  | .seize input => about input.heldLoanReceiptId fun r =>
      match input.partialQuantity with
      | some p => [r.posting (r.quantity - p) (-r.quantity)]
      | none => [r.posting 0 (-r.quantity)]
  | .transferOwnership _ id newOwnerId _ _ => about id fun r =>
      [r.posting (-r.availableQty) (-r.lockedQty),
        { r with clientId := newOwnerId }.posting r.availableQty r.lockedQty]
  | .transferAndRelease _ id newOwnerId _ _ _ => about id fun r =>
      [r.posting 0 (-r.quantity), { r with clientId := newOwnerId }.posting r.quantity 0]
  | .expire _ id => about id fun r => [r.posting (-r.quantity) 0]

/-- What postings add up to for a client and a commodity. -/
def posted (f : Posting → ℚ) (postings : List Posting) (tenantId clientId commodityId : Id) : ℚ :=
  ((postings.filter fun p => p.tenantId = tenantId ∧ p.clientId = clientId ∧
    p.commodityId = commodityId).map f).sum

/-- Every balance changes by what the operation posts to it, and by nothing else. -/
def BalancesMove (op : LedgerOp) (s s' : Ledger) : Prop :=
  ∀ (commodities : List CommodityLabel) (tenantId clientId commodityId : Id),
    figure BalanceEntry.available (getBalance commodities tenantId clientId s') commodityId =
        figure BalanceEntry.available (getBalance commodities tenantId clientId s) commodityId +
          posted Posting.available (op.postings s) tenantId clientId commodityId ∧
      figure BalanceEntry.locked (getBalance commodities tenantId clientId s') commodityId =
        figure BalanceEntry.locked (getBalance commodities tenantId clientId s) commodityId +
          posted Posting.locked (op.postings s) tenantId clientId commodityId

/-- A weight of the receipts of one client and commodity. -/
def Receipt.owned (tenantId clientId commodityId : Id) (w : Receipt → ℚ) (r : Receipt) : ℚ :=
  if r.tenantId = tenantId ∧ r.clientId = clientId ∧ r.commodityId = commodityId then w r else 0

section Queries

variable {s : Ledger}

theorem lookup_groupByCommodity (rows : List Receipt) (id : Id) :
    ((groupByCommodity rows).lookup id).getD 0 =
      ((rows.filter fun r => r.commodityId = id).map Receipt.quantity).sum := by
  unfold groupByCommodity
  have lookup_map : ∀ (ids : List Id) (f : Id → ℚ),
      ((ids.map fun id => (id, f id)).lookup id).getD 0 = if id ∈ ids then f id else 0 := by
    intro ids f
    induction ids with
    | nil => simp
    | cons x ids ih =>
        by_cases hx : id = x
        · simp [hx]
        · have hbeq : (id == x) = false := by simpa using hx
          simp [List.lookup_cons, hbeq, ih, hx]
  rw [lookup_map]
  by_cases hmem : id ∈ (rows.map Receipt.commodityId).dedup
  · rw [if_pos hmem]
  · rw [if_neg hmem]
    rw [List.mem_dedup, List.mem_map] at hmem
    have hnone : (rows.filter fun r => r.commodityId = id) = [] := by
      apply List.filter_eq_nil_iff.mpr
      intro r hr
      simpa using fun hid => hmem ⟨r, hr, hid⟩
    rw [hnone]
    rfl

theorem mem_groupByCommodity {rows : List Receipt} {id : Id} :
    id ∈ (groupByCommodity rows).map Prod.fst ↔ ∃ r ∈ rows, r.commodityId = id := by
  simp [groupByCommodity]

/-- The sum over the receipts of one client and commodity that satisfy a condition. -/
theorem sumOf_owned (p : Receipt → Prop) [DecidablePred p] (tenantId clientId commodityId : Id) :
    (((s.receipts.rows.filter fun r => decide (r.tenantId = tenantId ∧ r.clientId = clientId ∧
        p r)).filter fun r => r.commodityId = commodityId).map Receipt.quantity).sum =
      s.receipts.sumOf (Receipt.owned tenantId clientId commodityId fun r =>
        if p r then r.quantity else 0) := by
  unfold Table.sumOf
  induction s.receipts.rows with
  | nil => rfl
  | cons r rows ih =>
      rw [List.map_cons, List.sum_cons, ← ih]
      unfold Receipt.owned
      by_cases ht : r.tenantId = tenantId <;> by_cases hc : r.clientId = clientId <;>
        by_cases hid : r.commodityId = commodityId <;> by_cases hp : p r <;>
          simp [ht, hc, hid, hp]

/-- A figure of a list with one entry for each of some commodities. -/
theorem figure_map {f : BalanceEntry → ℚ} {entry : Id → BalanceEntry}
    (hentry : ∀ id, (entry id).commodityId = id) (ids : List Id) (commodityId : Id) :
    figure f (ids.map entry) commodityId =
      if commodityId ∈ ids then f (entry commodityId) else 0 := by
  unfold figure
  induction ids with
  | nil => rfl
  | cons id ids ih =>
      by_cases hid : id = commodityId
      · simp [hid, hentry]
      · have hne : commodityId ≠ id := fun h => hid h.symm
        simpa [List.find?_cons, hentry, hid, hne] using ih

/-- A commodity that no row has sums to zero. -/
theorem lookup_of_not_mem {rows : List Receipt} {id : Id}
    (h : id ∉ (groupByCommodity rows).map Prod.fst) :
    ((groupByCommodity rows).lookup id).getD 0 = 0 := by
  rw [lookup_groupByCommodity]
  have hnone : (rows.filter fun r => r.commodityId = id) = [] := by
    apply List.filter_eq_nil_iff.mpr
    intro r hr
    simpa using fun hid => h (mem_groupByCommodity.mpr ⟨r, hr, hid⟩)
  rw [hnone]
  rfl

/-- Both figures of a commodity are sums over the receipts, listed or not. -/
theorem figure_getBalance (commodities : List CommodityLabel) (tenantId clientId : Id)
    (commodityId : Id) :
    figure BalanceEntry.available (getBalance commodities tenantId clientId s) commodityId =
        s.receipts.sumOf (Receipt.owned tenantId clientId commodityId Receipt.availableQty) ∧
      figure BalanceEntry.locked (getBalance commodities tenantId clientId s) commodityId =
        s.receipts.sumOf (Receipt.owned tenantId clientId commodityId Receipt.lockedQty) := by
  unfold getBalance
  constructor
  · refine Eq.trans ?_ (sumOf_owned (fun r => r.status = .active ∧ r.approvalStatus = .approved)
      tenantId clientId commodityId)
    rw [← lookup_groupByCommodity, figure_map fun _ => rfl]
    by_cases hmem : commodityId ∈ (groupByCommodity (s.receipts.rows.filter fun r =>
        r.tenantId = tenantId ∧ r.clientId = clientId ∧ r.status = .active ∧
          r.approvalStatus = .approved)).map Prod.fst
    · rw [if_pos (List.mem_append_left _ hmem)]
    · rw [lookup_of_not_mem hmem]
      exact ite_self 0
  · refine Eq.trans ?_ (sumOf_owned (fun r => r.status.Held) tenantId clientId commodityId)
    rw [← lookup_groupByCommodity, figure_map fun _ => rfl]
    by_cases hmem : commodityId ∈ (groupByCommodity (s.receipts.rows.filter fun r =>
        r.tenantId = tenantId ∧ r.clientId = clientId ∧ r.status.Held)).map Prod.fst
    · rw [if_pos]
      rw [List.mem_append, List.mem_filter, decide_eq_true_eq]
      exact or_iff_not_imp_left.mpr fun hnot => ⟨hmem, hnot⟩
    · rw [lookup_of_not_mem hmem]
      exact ite_self 0

end Queries

/-- What a change adds to the sum of a weight over the receipts. -/
def Change.gain (c : Change) (g : Receipt → ℚ) : ℚ :=
  (c.created.map g).sum +
    match c.rewritten with
    | some (before, after) => g after - g before
    | none => 0

/-- The part of a quantity that a partition leaves to the source's owner. -/
def Numeric.rest (num : Numeric) (q p : ℚ) : ℚ :=
  if 0 < num.minus q p then num.numeric18_3 (num.minus q p) else 0

section Accounting

variable {num : Numeric} {uuids : Uuids} {op : LedgerOp} {s s' : Ledger}
  {events : List InventoryEvent} {change : Change} {result : LedgerResult}

/-- A commit changes every sum over the receipts by what its change gains. -/
theorem Commits.sumOf (h : Commits s events change s') (g : Receipt → ℚ) :
    s'.receipts.sumOf g = s.receipts.sumOf g + change.gain g := by
  have hold : (s.receipts.rows.map fun r => g (change.apply r)).sum =
      s.receipts.sumOf g + match change.rewritten with
        | some (before, after) => g after - g before
        | none => 0 := by
    unfold Table.sumOf Change.apply
    cases hrewritten : change.rewritten with
    | none => simp
    | some pair =>
        obtain ⟨before, after⟩ := pair
        have hmem := Table.mem_of_find (h.found before after hrewritten).1
        obtain ⟨pre, post, hrows, hpre, hpost⟩ := Table.split_at hmem
        have keep : ∀ l : List Receipt, (∀ x ∈ l, Keyed.key x ≠ Keyed.key before) →
            (l.map fun r => g (if r.id = before.id then after else r)) = l.map g := by
          intro l hl
          apply List.map_congr_left
          intro r hr
          have hne : r.id ≠ before.id := hl r hr
          rw [if_neg hne]
        rw [hrows]
        simp only [List.map_append, List.map_cons, List.sum_append, List.sum_cons, if_true,
          keep pre hpre, keep post hpost]
        ring
  unfold Change.gain
  calc s'.receipts.sumOf g
      = (s.receipts.rows.map fun r => g (change.apply r)).sum + (change.created.map g).sum := by
        rw [Table.sumOf, h.rows, List.map_append, List.sum_append, List.map_map]
        rfl
    _ = _ := by
        rw [hold]
        ring

/-- Balances move as posted exactly when the change gains what is posted, for every client and
commodity. -/
theorem balancesMove_iff (h : Commits s events change s') : BalancesMove op s s' ↔
    ∀ tenantId clientId commodityId : Id,
      change.gain (Receipt.owned tenantId clientId commodityId Receipt.availableQty) =
          posted Posting.available (op.postings s) tenantId clientId commodityId ∧
        change.gain (Receipt.owned tenantId clientId commodityId Receipt.lockedQty) =
          posted Posting.locked (op.postings s) tenantId clientId commodityId := by
  unfold BalancesMove
  simp only [figure_getBalance, h.sumOf, add_right_inj]
  exact ⟨fun hmove => hmove [], fun hmove _ => hmove⟩

@[simp]
theorem posted_nil (f : Posting → ℚ) (tenantId clientId commodityId : Id) :
    posted f [] tenantId clientId commodityId = 0 := rfl

/-- A posting to the owner of a receipt counts where the receipt does. -/
theorem posted_posting (f : Posting → ℚ) (r : Receipt) (a l : ℚ) (ps : List Posting)
    (tenantId clientId commodityId : Id) :
    posted f (r.posting a l :: ps) tenantId clientId commodityId =
      r.owned tenantId clientId commodityId (fun _ => f (r.posting a l)) +
        posted f ps tenantId clientId commodityId := by
  unfold posted Receipt.owned
  by_cases hown : r.tenantId = tenantId ∧ r.clientId = clientId ∧ r.commodityId = commodityId
  · rw [List.filter_cons_of_pos (by exact decide_eq_true hown), List.map_cons, List.sum_cons,
      if_pos hown]
  · rw [List.filter_cons_of_neg (by exact fun h => hown (of_decide_eq_true h)), if_neg hown,
      zero_add]

theorem owned_zero (r : Receipt) (tenantId clientId commodityId : Id) :
    r.owned tenantId clientId commodityId (fun _ => 0) = 0 :=
  ite_self 0

/-- Amounts at one owner agree everywhere when they agree. -/
theorem owned_eq_iff (r : Receipt) (x y : ℚ) :
    (∀ tenantId clientId commodityId, r.owned tenantId clientId commodityId (fun _ => x) =
      r.owned tenantId clientId commodityId fun _ => y) ↔ x = y := by
  constructor
  · intro h
    simpa [Receipt.owned] using h r.tenantId r.clientId r.commodityId
  · rintro rfl _ _ _
    rfl

/-- Where a change and its posting are about one owner, balances move as posted exactly when
the owner gains what is posted. -/
theorem balancesMove_iff_of_owner (h : Commits s events change s') {r : Receipt}
    {available locked : ℚ} {w : (Receipt → ℚ) → ℚ}
    (hgain : ∀ f ∈ [Receipt.availableQty, Receipt.lockedQty], ∀ tenantId clientId commodityId,
      change.gain (Receipt.owned tenantId clientId commodityId f) =
        r.owned tenantId clientId commodityId fun _ => w f)
    (hpostings : op.postings s = [r.posting available locked]) :
    BalancesMove op s s' ↔
      w Receipt.availableQty = available ∧ w Receipt.lockedQty = locked := by
  rw [balancesMove_iff h, hpostings, ← owned_eq_iff r (w Receipt.availableQty),
    ← owned_eq_iff r (w Receipt.lockedQty)]
  simp only [posted_posting, posted_nil, add_zero, hgain Receipt.availableQty (by simp),
    hgain Receipt.lockedQty (by simp)]
  constructor
  · intro hmove
    exact ⟨fun t c g => (hmove t c g).1, fun t c g => (hmove t c g).2⟩
  · intro ⟨havailable, hlocked⟩ t c g
    exact ⟨havailable t c g, hlocked t c g⟩

/-- An amendment that keeps the owner. -/
theorem gain_amend {r r' : Receipt} (htenant : r'.tenantId = r.tenantId)
    (hclient : r'.clientId = r.clientId) (hcommodity : r'.commodityId = r.commodityId)
    (f : Receipt → ℚ) (tenantId clientId commodityId : Id) :
    (Change.amend r r').gain (Receipt.owned tenantId clientId commodityId f) =
      r.owned tenantId clientId commodityId fun _ => f r' - f r := by
  simp only [Change.gain, Change.created_amend, Change.rewritten, List.map_nil, List.sum_nil,
    zero_add, Receipt.owned, htenant, hclient, hcommodity]
  by_cases hown : r.tenantId = tenantId ∧ r.clientId = clientId ∧ r.commodityId = commodityId
  · simp only [if_pos hown]
  · simp only [if_neg hown, sub_zero]

/-- An amendment after which the receipt weighs nothing. -/
theorem gain_amend_gone {r r' : Receipt} {f : Receipt → ℚ} (hgone : f r' = 0)
    (tenantId clientId commodityId : Id) :
    (Change.amend r r').gain (Receipt.owned tenantId clientId commodityId f) =
      r.owned tenantId clientId commodityId fun _ => -f r := by
  simp only [Change.gain, Change.created_amend, Change.rewritten, List.map_nil, List.sum_nil,
    zero_add, Receipt.owned, hgone, ite_self, zero_sub]
  by_cases hown : r.tenantId = tenantId ∧ r.clientId = clientId ∧ r.commodityId = commodityId
  · simp only [if_pos hown]
  · simp only [if_neg hown, neg_zero]

theorem availableQty_supersede (r : Receipt) : (supersede r).availableQty = 0 := by
  simp [Receipt.availableQty]

theorem lockedQty_supersede (r : Receipt) : (supersede r).lockedQty = 0 := by
  simp [Receipt.lockedQty, show ¬ ReceiptStatus.split.Held by decide]

/-- A split whose children stay with the owner or weigh nothing. -/
theorem gain_split {src : Receipt} {kids : List Receipt} {f : Receipt → ℚ}
    (hf : f ∈ [Receipt.availableQty, Receipt.lockedQty])
    (hkids : ∀ k ∈ kids, k.tenantId = src.tenantId ∧ k.commodityId = src.commodityId ∧
      (k.clientId = src.clientId ∨ f k = 0))
    (tenantId clientId commodityId : Id) :
    (Change.split src kids).gain (Receipt.owned tenantId clientId commodityId f) =
      src.owned tenantId clientId commodityId fun _ => (kids.map f).sum - f src := by
  have hsuper : f (supersede src) = 0 := by
    rcases List.mem_pair.mp hf with rfl | rfl
    · exact availableQty_supersede src
    · exact lockedQty_supersede src
  have hsum : (kids.map (Receipt.owned tenantId clientId commodityId f)).sum =
      src.owned tenantId clientId commodityId fun _ => (kids.map f).sum := by
    clear hf hsuper
    induction kids with
    | nil => simp [owned_zero]
    | cons k kids ih =>
        obtain ⟨htenant, hcommodity, hclient⟩ := hkids k List.mem_cons_self
        rw [List.map_cons, List.sum_cons, ih fun x hx => hkids x (List.mem_cons_of_mem _ hx)]
        simp only [Receipt.owned, htenant, hcommodity, List.map_cons, List.sum_cons]
        rcases hclient with hclient | hzero
        · rw [hclient]
          by_cases hown : src.tenantId = tenantId ∧ src.clientId = clientId ∧
              src.commodityId = commodityId
          · simp only [if_pos hown]
          · simp only [if_neg hown, add_zero]
        · simp only [hzero, ite_self, zero_add]
  simp only [Change.gain, Change.created_split, Change.rewritten, hsum]
  simp only [Receipt.owned, supersede_tenantId, supersede_clientId, supersede_commodityId, hsuper]
  by_cases hown : src.tenantId = tenantId ∧ src.clientId = clientId ∧ src.commodityId = commodityId
  · simp only [if_pos hown]
    ring
  · simp only [if_neg hown, sub_zero, add_zero]

end Accounting

section Weights

variable {r : Receipt}

theorem availableQty_of_held (h : r.status.Held) : r.availableQty = 0 := by
  unfold Receipt.availableQty
  rw [if_neg]
  intro hactive
  rw [hactive.1] at h
  exact absurd h (by decide)

theorem lockedQty_of_held (h : r.status.Held) : r.lockedQty = r.quantity := if_pos h

theorem availableQty_of_active (h : r.status = .active) (happroved : r.approvalStatus = .approved) :
    r.availableQty = r.quantity :=
  if_pos ⟨h, happroved⟩

theorem availableQty_of_not_active (h : r.status ≠ .active) : r.availableQty = 0 :=
  if_neg fun hactive => h hactive.1

theorem lockedQty_of_not_held (h : ¬ r.status.Held) : r.lockedQty = 0 := if_neg h

theorem lockedQty_of_active (h : r.status = .active) : r.lockedQty = 0 :=
  lockedQty_of_not_held (by rw [h]; decide)

end Weights

/-- The columns keep both parts of a split of p off q. -/
def SplitKept (q p : ℚ) : Prop := HasScale 3 p ∧ roundSig 20 (q - p) = q - p

instance (q p : ℚ) : Decidable (SplitKept q p) := instDecidableAnd

section Parts

variable {q p : ℚ}

theorem rest_of_lt (h : p < q) :
    Numeric.postgres.rest q p = roundScale 3 (roundSig 20 (q - p)) :=
  if_pos (roundSig_pos (by decide) (sub_pos.mpr h))

/-- What is left is kept exactly when the split is. -/
theorem splitKept_iff (hq : HasScale 3 q) :
    roundScale 3 (roundSig 20 (q - p)) = q - p ↔ SplitKept q p := by
  constructor
  · intro hrest
    have hsub : HasScale 3 (q - p) := hrest ▸ hasScale_roundScale 3 _
    refine ⟨?_, (roundScale_roundSig_eq_iff hsub).mp hrest⟩
    have hp := hq.sub hsub
    rwa [sub_sub_cancel] at hp
  · intro h
    exact (roundScale_roundSig_eq_iff (hq.sub h.1)).mpr h.2

/-- Both parts of a hold are kept exactly when the split is. -/
theorem splitKept_iff_hold (hq : HasScale 3 q) (hle : p ≤ q) :
    (Numeric.postgres.rest q p = q - p ∧ roundScale 3 p = p) ↔ SplitKept q p := by
  by_cases hlt : p < q
  · rw [rest_of_lt hlt, splitKept_iff hq, roundScale_eq_self_iff]
    exact ⟨fun h => h.1, fun h => ⟨h, h.1⟩⟩
  · obtain rfl : p = q := le_antisymm hle (not_lt.mp hlt)
    have hzero : roundSig 20 (p - p) = p - p := by
      rw [sub_self]
      exact roundSig_of_fits (fits_zero 20)
    have hrest : Numeric.postgres.rest p p = p - p := by
      unfold Numeric.rest
      rw [if_neg, sub_self]
      change ¬ 0 < roundSig 20 (p - p)
      rw [hzero, sub_self]
      exact lt_irrefl 0
    rw [roundScale_eq_self_iff]
    exact ⟨fun h => ⟨h.2, hzero⟩, fun h => ⟨hrest, h.1⟩⟩

/-- Three decimals below 10¹⁷ are always kept. -/
theorem SplitKept.of_hasScale (hq : HasScale 3 q) (hp : HasScale 3 p) (hle : p ≤ q)
    (hpos : 0 < p) (hbound : q < 10 ^ 17) : SplitKept q p := by
  refine ⟨hp, roundSig_of_fits (fits_of_hasScale (hq.sub hp) ?_)⟩
  rw [abs_of_nonneg (by linarith)]
  linarith

end Parts

section Operations

variable {uuids : Uuids} {op : LedgerOp} {s s' : Ledger} {events : List InventoryEvent}
  {change : Change} {result : LedgerResult}

theorem partition_available {num : Numeric} {src : Receipt} {qty : ℚ} {number : List Char} :
    ((partitionRemainder num uuids src qty number).toList.map Receipt.availableQty).sum =
      num.rest src.quantity qty := by
  unfold partitionRemainder Numeric.rest
  by_cases h : 0 < num.minus src.quantity qty
  · simp [h, Receipt.availableQty]
  · simp [h]

theorem partition_locked {num : Numeric} {src : Receipt} {qty : ℚ} {number : List Char} :
    ((partitionRemainder num uuids src qty number).toList.map Receipt.lockedQty).sum = 0 := by
  unfold partitionRemainder
  by_cases h : 0 < num.minus src.quantity qty
  · simp [h, Receipt.lockedQty, show ¬ ReceiptStatus.active.Held by decide]
  · simp [h]

/-- The quantities in the receipts are within the scale of their column. -/
def Scaled (s : Ledger) : Prop := ∀ r ∈ s.receipts, HasScale 3 r.quantity

theorem Scaled.step (h : Scaled s) (heffect : Effect .postgres uuids s op events change result)
    (hcommits : Commits s events change s') : Scaled s' := by
  intro r hr
  rcases hcommits.mem_receipts.mp hr with ⟨r₀, hr₀, rfl⟩ | hcreated
  · rw [(hcommits.advance heffect hr₀).1.quantity]
    exact h r₀ hr₀
  · have stored : ∀ x, HasScale 3 (Numeric.postgres.numeric18_3 x) := hasScale_roundScale 3
    cases heffect with
    | deposit input positive =>
        obtain rfl := List.mem_singleton.mp hcreated
        exact stored _
    | hold | seizePart =>
        rcases List.mem_cons.mp hcreated with rfl | hk
        · exact stored _
        · obtain rfl := mem_partitionRemainder hk
          exact stored _
    | releasePartial =>
        rcases List.mem_pair.mp hcreated with rfl | rfl <;> exact stored _
    | _ => cases hcreated

/-- Every split that the operation asks for is kept. -/
def LedgerOp.SplitsKept (op : LedgerOp) (s : Ledger) : Prop :=
  ∀ source part, op.splitOf s = some (source, part) → SplitKept source.quantity part

theorem splitsKept_of_none (h : op.splitOf s = none) : op.SplitsKept s := by
  intro source part hsplit
  rw [h] at hsplit
  cases hsplit

theorem splitsKept_iff {source : Receipt} {part : ℚ} (h : op.splitOf s = some (source, part)) :
    op.SplitsKept s ↔ SplitKept source.quantity part := by
  constructor
  · intro hkept
    exact hkept source part h
  · intro hkept source' part' h'
    rw [h] at h'
    cases h'
    exact hkept

/-- An operation that amends a receipt of one owner moves balances as posted. -/
theorem moves_amend (h : Commits s events change s') {r r' : Receipt} {available locked : ℚ}
    (hchange : change = .amend r r') (htenant : r'.tenantId = r.tenantId)
    (hclient : r'.clientId = r.clientId) (hcommodity : r'.commodityId = r.commodityId)
    (hpostings : op.postings s = [r.posting available locked])
    (havailable : r'.availableQty - r.availableQty = available)
    (hlocked : r'.lockedQty - r.lockedQty = locked) : BalancesMove op s s' := by
  subst hchange
  apply (balancesMove_iff_of_owner h (w := fun f => f r' - f r) ?_ hpostings).mpr
  · exact ⟨havailable, hlocked⟩
  · intro f _
    exact gain_amend htenant hclient hcommodity f

/-- An operation that posts nothing and keeps what receipts weigh moves no balance. -/
theorem moves_nothing (h : Commits s events change s') (hpostings : op.postings s = [])
    (hgain : ∀ f ∈ [Receipt.availableQty, Receipt.lockedQty], ∀ tenantId clientId commodityId,
      change.gain (Receipt.owned tenantId clientId commodityId f) = 0) : BalancesMove op s s' := by
  apply (balancesMove_iff h).mpr
  intro t c g
  rw [hpostings, posted_nil, posted_nil]
  exact ⟨hgain _ (by simp) t c g, hgain _ (by simp) t c g⟩

/-- An operation that amends a receipt without changing what it weighs moves no balance. -/
theorem moves_still (h : Commits s events change s') {r r' : Receipt}
    (hchange : change = .amend r r')
    (htenant : r'.tenantId = r.tenantId) (hclient : r'.clientId = r.clientId)
    (hcommodity : r'.commodityId = r.commodityId) (hpostings : op.postings s = [])
    (havailable : r'.availableQty = r.availableQty) (hlocked : r'.lockedQty = r.lockedQty) :
    BalancesMove op s s' := by
  subst hchange
  apply moves_nothing h hpostings
  intro f hf t c g
  rw [gain_amend htenant hclient hcommodity]
  rcases List.mem_pair.mp hf with rfl | rfl
  · rw [havailable, sub_self, owned_zero]
  · rw [hlocked, sub_self, owned_zero]

/-- An operation that hands a receipt to another owner moves balances as posted. -/
theorem moves_transfer (h : Commits s events change s') {r r' : Receipt} {newOwnerId : Id}
    {available locked available' locked' : ℚ} (hchange : change = .amend r r')
    (htenant : r'.tenantId = r.tenantId) (hclient : r'.clientId = newOwnerId)
    (hcommodity : r'.commodityId = r.commodityId)
    (hpostings : op.postings s = [r.posting (-available) (-locked),
      { r with clientId := newOwnerId }.posting available' locked'])
    (havailable : r.availableQty = available ∧ r'.availableQty = available')
    (hlocked : r.lockedQty = locked ∧ r'.lockedQty = locked') : BalancesMove op s s' := by
  subst hchange
  apply (balancesMove_iff h).mpr
  intro t c g
  simp only [hpostings, posted_posting, posted_nil, add_zero]
  simp only [Change.gain, Change.created_amend, Change.rewritten, List.map_nil, List.sum_nil,
    zero_add, Receipt.owned, htenant, hclient, hcommodity, Receipt.posting, havailable.1,
    havailable.2, hlocked.1, hlocked.2]
  constructor
  · by_cases hown : r.tenantId = t ∧ r.clientId = c ∧ r.commodityId = g
    · simp only [if_pos hown]
      ring
    · simp only [if_neg hown, sub_zero, zero_add]
  · by_cases hown : r.tenantId = t ∧ r.clientId = c ∧ r.commodityId = g
    · simp only [if_pos hown]
      ring
    · simp only [if_neg hown, sub_zero, zero_add]

/-- Balances move as posted exactly when the columns keep the split, if there is one. -/
theorem Effect.balancesMove_iff (heffect : Effect .postgres uuids s op events change result)
    (hcommits : Commits s events change s') (hlife : Lifecycle s) (hscaled : Scaled s) :
    BalancesMove op s s' ↔ op.SplitsKept s := by
  have always : op.splitOf s = none → BalancesMove op s s' →
      (BalancesMove op s s' ↔ op.SplitsKept s) := by
    intro hnone hmove
    exact iff_of_true hmove (splitsKept_of_none hnone)
  cases heffect with
  | deposit input positive =>
      apply always rfl (moves_nothing hcommits rfl ?_)
      intro f hf t c g
      rcases List.mem_pair.mp hf with rfl | rfl
      · simp [Change.gain, Change.rewritten, Receipt.owned, Receipt.availableQty]
      · simp [Change.gain, Change.rewritten, Receipt.owned, Receipt.lockedQty,
          show ¬ ReceiptStatus.pendingApproval.Held by decide]
  | @approveReceipt ctx id r loaded pending =>
      have hpending : ¬ r.status.Held := by
        rw [pending]
        decide
      have hpostings : (LedgerOp.approveReceipt ctx id).postings s = [r.posting r.quantity 0] := by
        simp [LedgerOp.postings, loaded.1]
      apply always rfl (moves_amend hcommits rfl rfl rfl rfl hpostings ?_ ?_)
      · rw [availableQty_of_active rfl rfl, availableQty_of_not_active (by simp [pending]),
            sub_zero]
      · rw [lockedQty_of_active rfl, lockedQty_of_not_held hpending, sub_zero]
  | rejectReceipt ctx reason r loaded pending =>
      have hpending : ¬ r.status.Held := by
        rw [pending]
        decide
      apply always rfl (moves_still hcommits rfl rfl rfl rfl rfl ?_ ?_)
      · rw [availableQty_of_not_active (by simp), availableQty_of_not_active (by simp [pending])]
      · rw [lockedQty_of_not_held (show ¬ ReceiptStatus.cancelled.Held by decide),
          lockedQty_of_not_held hpending]
  | hold input src number number' loaded active approved leaf positive available =>
      have hscale := hscaled src (Table.mem_of_find loaded.1)
      have hsplit : (LedgerOp.hold input).splitOf s = some (src, input.quantity) := by
        simp [LedgerOp.splitOf, loaded.1]
      have hpostings : (LedgerOp.hold input).postings s =
          [src.posting (-input.quantity) input.quantity] := by
        simp [LedgerOp.postings, loaded.1]
      have hprimary : (primaryChild .postgres uuids src input.quantity (heldPrimary input src)
          number).status.Held := HeldStatus.held input.heldStatus
      rw [balancesMove_iff_of_owner hcommits (fun f hf => gain_split hf ?_) hpostings,
        splitsKept_iff hsplit, ← splitKept_iff_hold hscale available]
      · simp only [List.map_cons, List.sum_cons, partition_available, partition_locked,
          availableQty_of_held hprimary, lockedQty_of_held hprimary,
          availableQty_of_active active approved, lockedQty_of_active active]
        constructor
        · rintro ⟨havailable, hlocked⟩
          rw [add_zero, sub_zero] at hlocked
          exact ⟨by linarith, hlocked⟩
        · rintro ⟨hrest, hpart⟩
          rw [add_zero, sub_zero]
          exact ⟨by linarith, hpart⟩
      · intro k hk
        rcases List.mem_cons.mp hk with rfl | hk
        · exact ⟨rfl, rfl, .inl rfl⟩
        · obtain rfl := mem_partitionRemainder hk
          exact ⟨rfl, rfl, .inl rfl⟩
  | approveHold ctx r loaded held pending =>
      apply always rfl (moves_still hcommits rfl rfl rfl rfl rfl ?_ ?_)
      · have hstill : ∀ r' : Receipt, r'.status = r.status → r'.availableQty = r.availableQty := by
          intro r' hstatus
          rw [availableQty_of_held held, availableQty_of_held (hstatus ▸ held)]
        exact hstill _ rfl
      · rfl
  | @release ctx id r loaded held =>
      have hpostings : (LedgerOp.release ctx id).postings s =
          [r.posting r.quantity (-r.quantity)] := by
        simp [LedgerOp.postings, loaded.1]
      apply always rfl (moves_amend hcommits rfl rfl rfl rfl hpostings ?_ ?_)
      · rw [availableQty_of_active rfl rfl, availableQty_of_held held, sub_zero]
      · rw [lockedQty_of_active rfl, lockedQty_of_held held, zero_sub]
  | @consume ctx id r loaded held =>
      have hpostings : (LedgerOp.consume ctx id).postings s = [r.posting 0 (-r.quantity)] := by
        simp [LedgerOp.postings, loaded.1]
      apply always rfl (moves_amend hcommits rfl rfl rfl rfl hpostings ?_ ?_)
      · rw [availableQty_of_not_active (by simp), availableQty_of_held held, sub_zero]
      · rw [lockedQty_of_not_held (show ¬ ReceiptStatus.withdrawn.Held by decide),
          lockedQty_of_held held, zero_sub]
  | releasePartial input src number number' loaded lien positive available =>
      have hscale := hscaled src (Table.mem_of_find loaded.1)
      have hheld : src.status.Held := by
        rw [lien]
        decide
      have hsplit : (LedgerOp.releasePartial input).splitOf s =
          some (src, input.releaseQuantity) := by
        simp [LedgerOp.splitOf, loaded.1]
      have hpostings : (LedgerOp.releasePartial input).postings s =
          [src.posting input.releaseQuantity (-input.releaseQuantity)] := by
        simp [LedgerOp.postings, loaded.1]
      have hreleased : (releasedChild .postgres uuids src input.releaseQuantity number).status =
        .active := rfl
      have hremaining : (remainingChild .postgres uuids src input.releaseQuantity
          number').status.Held := show ReceiptStatus.heldLien.Held by decide
      rw [balancesMove_iff_of_owner hcommits (fun f hf => gain_split hf ?_) hpostings,
        splitsKept_iff hsplit]
      · simp only [List.map_cons, List.sum_cons, List.map_nil, List.sum_nil,
          availableQty_of_active hreleased rfl, lockedQty_of_active hreleased,
          availableQty_of_held hremaining, lockedQty_of_held hremaining,
          availableQty_of_held hheld, lockedQty_of_held hheld]
        simp only [add_zero, zero_add, sub_zero]
        change (roundScale 3 input.releaseQuantity = input.releaseQuantity ∧
          roundScale 3 (roundSig 20 (src.quantity - input.releaseQuantity)) - src.quantity =
            -input.releaseQuantity) ↔ _
        rw [← splitKept_iff hscale]
        constructor
        · rintro ⟨_, hlocked⟩
          linarith
        · intro hrest
          have hpart := ((splitKept_iff hscale).mp hrest).1
          exact ⟨roundScale_of_hasScale hpart, by linarith⟩
      · intro k hk
        rcases List.mem_pair.mp hk with rfl | rfl
        · exact ⟨rfl, rfl, .inl rfl⟩
        · exact ⟨rfl, rfl, .inl rfl⟩
  | transitionPledgeToLien ctx pledgeId r loaded pledged =>
      have hheld : r.status.Held := by
        rw [pledged]
        decide
      apply always rfl (moves_still hcommits rfl rfl rfl rfl rfl ?_ ?_)
      · rw [availableQty_of_not_active (by simp), availableQty_of_held hheld]
      · rw [lockedQty_of_held (show ReceiptStatus.heldLien.Held by decide), lockedQty_of_held hheld]
  | seizePart input r pq number number' loaded loan part positive available =>
      have hscale := hscaled r (Table.mem_of_find loaded.1)
      have hheld : r.status.Held := by
        rw [loan]
        decide
      have hsplit : (LedgerOp.seize input).splitOf s = some (r, pq) := by
        simp [LedgerOp.splitOf, part, loaded.1]
      have hpostings : (LedgerOp.seize input).postings s =
          [r.posting (r.quantity - pq) (-r.quantity)] := by
        simp [LedgerOp.postings, part, loaded.1]
      have hseized : (primaryChild .postgres uuids r pq (seizedPrimary input r) number).status =
        .seized := rfl
      have havailable : (primaryChild .postgres uuids r pq (seizedPrimary input r)
          number).availableQty = 0 := availableQty_of_not_active (by simp)
      have hlocked : (primaryChild .postgres uuids r pq (seizedPrimary input r)
          number).lockedQty = 0 := lockedQty_of_not_held (by rw [hseized]; decide)
      rw [balancesMove_iff_of_owner hcommits (fun f hf => gain_split hf ?_) hpostings,
        splitsKept_iff hsplit]
      · simp only [List.map_cons, List.sum_cons, partition_available, partition_locked, havailable,
          hlocked, availableQty_of_held hheld, lockedQty_of_held hheld, rest_of_lt available]
        rw [← splitKept_iff hscale]
        simp
      · intro k hk
        rcases List.mem_cons.mp hk with rfl | hk
        · refine ⟨rfl, rfl, .inr ?_⟩
          rcases List.mem_pair.mp hf with rfl | rfl
          · exact havailable
          · exact hlocked
        · obtain rfl := mem_partitionRemainder hk
          exact ⟨rfl, rfl, .inl rfl⟩
  | seizeAll input r loaded loan whole =>
      have hheld : r.status.Held := by
        rw [loan]
        decide
      have hnone : (LedgerOp.seize input).splitOf s = none := by
        simp [LedgerOp.splitOf, whole]
      have hpostings : (LedgerOp.seize input).postings s = [r.posting 0 (-r.quantity)] := by
        simp [LedgerOp.postings, whole, loaded.1]
      apply always hnone
      apply (balancesMove_iff_of_owner hcommits (fun f hf => gain_amend_gone ?_) hpostings).mpr
      · rw [availableQty_of_held hheld, lockedQty_of_held hheld]
        exact ⟨neg_zero, rfl⟩
      · rcases List.mem_pair.mp hf with rfl | rfl
        · exact availableQty_of_not_active (by simp)
        · exact lockedQty_of_not_held (show ¬ ReceiptStatus.seized.Held by decide)
  | @transferOwnership ctx id newOwnerId txnType txnId r loaded =>
      have hpostings : (LedgerOp.transferOwnership ctx id newOwnerId txnType txnId).postings s =
          [r.posting (-r.availableQty) (-r.lockedQty),
            { r with clientId := newOwnerId }.posting r.availableQty r.lockedQty] := by
        simp [LedgerOp.postings, loaded.1]
      apply always rfl
      exact moves_transfer hcommits rfl rfl rfl rfl hpostings ⟨rfl, rfl⟩ ⟨rfl, rfl⟩
  | @transferAndRelease ctx id newOwnerId txnType txnId withinTx r loaded held work =>
      have hpostings :
          (LedgerOp.transferAndRelease ctx id newOwnerId txnType txnId withinTx).postings s =
            [r.posting (-0) (-r.quantity),
              { r with clientId := newOwnerId }.posting r.quantity 0] := by
        simp [LedgerOp.postings, loaded.1]
      apply always rfl (moves_transfer hcommits rfl rfl rfl rfl hpostings ?_ ?_)
      · exact ⟨availableQty_of_held held, availableQty_of_active rfl rfl⟩
      · exact ⟨lockedQty_of_held held, lockedQty_of_active rfl⟩
  | @expire ctx id r loaded active =>
      have happroved := hlife.active_approved r (Table.mem_of_find loaded.1) active
      have hpostings : (LedgerOp.expire ctx id).postings s = [r.posting (-r.quantity) 0] := by
        simp [LedgerOp.postings, loaded.1]
      apply always rfl (moves_amend hcommits rfl rfl rfl rfl hpostings ?_ ?_)
      · rw [availableQty_of_not_active (by simp), availableQty_of_active active happroved, zero_sub]
      · rw [lockedQty_of_not_held (show ¬ ReceiptStatus.expired.Held by decide),
          lockedQty_of_active active, sub_zero]

end Operations

theorem scaled_run (calls : List LedgerCall) : Scaled (runCalls .postgres calls Ledger.empty) := by
  apply runCalls_invariant (P := Scaled)
  · intro uuids op s s' events change result hs _ heffect hcommits
    exact hs.step heffect hcommits
  · intro r hr
    exact absurd hr (Table.not_mem_empty r)

/-- From every reachable ledger, every operation that commits moves the balances of all clients
and commodities exactly as it posts, if and only if the part it splits off, if any, has at most
three decimals and twenty digits are enough for what it leaves. -/
theorem balances_move_iff (calls : List LedgerCall) (c : LedgerCall) (result : LedgerResult)
    (s' : Ledger)
    (hfree : (runCalls .postgres calls Ledger.empty).events.find c.op.idempotencyKey = none)
    (hcall : c.op.call .postgres c.uuids (runCalls .postgres calls Ledger.empty) =
      .ok (result, s')) :
    BalancesMove c.op (runCalls .postgres calls Ledger.empty) s' ↔
      c.op.SplitsKept (runCalls .postgres calls Ledger.empty) := by
  cases call_outcome hcall with
  | replayed e prior =>
      rw [hfree] at prior
      cases prior
  | committed free events change effect commits =>
      exact effect.balancesMove_iff commits (lifecycle_run .postgres lifecycle_empty calls)
        (scaled_run calls)

/-- The theorem at the sample hold of four of ten units. -/
theorem balances_move_iff_sample :
    ∃ result s', sampleHold.op.call .postgres sampleHold.uuids
        (runCalls .postgres sampleDeposit Ledger.empty) = .ok (result, s') ∧
      BalancesMove sampleHold.op (runCalls .postgres sampleDeposit Ledger.empty) s' := by
  have hfree : (runCalls .postgres sampleDeposit Ledger.empty).events.find
      sampleHold.op.idempotencyKey = none := by decide +kernel
  have hkept : ((sampleHold.op.splitOf (runCalls .postgres sampleDeposit Ledger.empty)).map
      fun p => decide (SplitKept p.1.quantity p.2)) = some true := by decide +kernel
  cases hcall : sampleHold.op.call .postgres sampleHold.uuids
      (runCalls .postgres sampleDeposit Ledger.empty) with
  | error e =>
      have hok : designated (sampleHold.op.call .postgres sampleHold.uuids
          (runCalls .postgres sampleDeposit Ledger.empty)) ≠ none := by decide +kernel
      rw [hcall] at hok
      exact absurd rfl hok
  | ok pair =>
      obtain ⟨result, s'⟩ := pair
      refine ⟨result, s', rfl, ?_⟩
      apply (balances_move_iff sampleDeposit sampleHold result s' hfree hcall).mpr
      intro source part hsplit
      rw [hsplit, Option.map_some, Option.some_inj] at hkept
      exact of_decide_eq_true hkept

/-- A hold of half a thousandth of a unit. -/
def fineHold : LedgerCall :=
  ⟨⟨103, 0, 2, 3, .stored⟩, .hold
    { tenantId := 7, sourceReceiptId := 1, quantity := 1 / 2000
      heldStatus := .heldWithdrawal, txnType := .withdrawal, txnId := 50, actorUserId := none
      idempotencyKey := [.text "hold"] }⟩

/-- Holding a part with four decimals locks twice that part and leaves the whole source
available: both parts are rounded up. -/
theorem fine_hold_moves_more :
    let s := runCalls .postgres sampleDeposit Ledger.empty
    let s' := runCalls .postgres (sampleDeposit ++ [fineHold]) Ledger.empty
    figure BalanceEntry.available (getBalance [] 7 8 s) 9 = 10 ∧
      figure BalanceEntry.locked (getBalance [] 7 8 s) 9 = 0 ∧
      figure BalanceEntry.available (getBalance [] 7 8 s') 9 = 10 ∧
      figure BalanceEntry.locked (getBalance [] 7 8 s') 9 = 1 / 1000 ∧
      ¬ BalancesMove fineHold.op s s' := by
  refine ⟨by decide +kernel, by decide +kernel, by decide +kernel, by decide +kernel, ?_⟩
  intro h
  exact absurd (h [] 7 8 9).2 (by decide +kernel)

end SecureStore.Inventory
