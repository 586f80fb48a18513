/-
# Reference prices

A tenant prices a commodity by rows that are only ever added; the price at a moment is the
latest row that is in effect by then. The services value what they list by these prices: they
look up each key once, keep the prices that they found in a map, and add up quantities times
prices, skipping what has no price. Sums and products of the decimal type round to twenty
significant digits, so the arithmetic is a parameter.
-/

import SecureStore.Foundation.Grouping
import SecureStore.Services.ReleaseRequests

namespace SecureStore.Valuation

open SecureStore.Foundation SecureStore.Inventory SecureStore.Services

/-- The sums and products of decimals. -/
structure Arithmetic where
  plus : ℚ → ℚ → ℚ
  times : ℚ → ℚ → ℚ

namespace Arithmetic

/-- The decimal type rounds to twenty significant digits. -/
def decimalJs : Arithmetic where
  plus x y := roundSig 20 (x + y)
  times x y := roundSig 20 (x * y)

def exact : Arithmetic where
  plus x y := x + y
  times x y := x * y

end Arithmetic

structure CommodityPrice where
  id : Id
  tenantId : Id
  commodityId : Id
  pricePerUnit : ℚ
  currency : String
  effectiveAt : Timestamp
  deriving DecidableEq

instance : Keyed CommodityPrice Id := ⟨CommodityPrice.id⟩

/-- `orderBy: { effectiveAt: 'desc' }` -/
def CommodityPrice.later (p q : CommodityPrice) : Prop := q.effectiveAt ≤ p.effectiveAt

instance : DecidableRel CommodityPrice.later :=
  fun p q => inferInstanceAs (Decidable (q.effectiveAt ≤ p.effectiveAt))

/-- The latest price in effect, if there is one. -/
def currentPrice (prices : Table CommodityPrice) (now : Timestamp) (tenantId commodityId : Id) :
    Option CommodityPrice :=
  ((prices.rows.filter fun p => p.tenantId = tenantId ∧ p.commodityId = commodityId ∧
    p.effectiveAt ≤ now).insertionSort CommodityPrice.later).head?

/-- `for (const key of new Set(keys)) { const p = …; if (p) map.set(key, p); }` -/
def priceMap {κ P : Type} [DecidableEq κ] (keys : List κ) (price : κ → Option P) : κ → Option P :=
  keys.foldl (fun map key => (price key).elim map fun p => Function.update map key (some p))
    fun _ => none

/-- What the rows with a price are worth together. -/
def valueOf {α : Type} (ar : Arithmetic) (price : α → Option CommodityPrice) (quantity : α → ℚ)
    (rows : List α) : ℚ :=
  rows.foldl (fun value x =>
    (price x).elim value fun p => ar.plus value (ar.times p.pricePerUnit (quantity x))) 0

/-- `lien.findMany`, with the receipt of each lien, which is there by its foreign key. -/
def liensWith (db : Db) (keep : Lien → Receipt → Bool) : List (Lien × Receipt) :=
  (db.liens.rows.filterMap fun l => (db.ledger.receipts.find l.receiptId).map fun r =>
    (l, r)).filter fun x => keep x.1 x.2

/-- The statuses of what lies in a warehouse. -/
def inWarehouseStatuses : List ReceiptStatus :=
  [.active, .heldWithdrawal, .heldLoan, .heldTrade, .heldPledgePending, .heldLien]

/-- What one unit is worth; nothing without a price. -/
def worth (price : Option CommodityPrice) : ℚ := (price.map CommodityPrice.pricePerUnit).getD 0

/-! ## Prices -/

section Prices

variable {prices : Table CommodityPrice} {now : Timestamp} {tenantId commodityId : Id}

/-- The current price is in effect, and no later row is. -/
theorem currentPrice_latest {p : CommodityPrice}
    (h : currentPrice prices now tenantId commodityId = some p) :
    p ∈ prices ∧ p.tenantId = tenantId ∧ p.commodityId = commodityId ∧ p.effectiveAt ≤ now ∧
      ∀ q ∈ prices, q.tenantId = tenantId → q.commodityId = commodityId → q.effectiveAt ≤ now →
        q.effectiveAt ≤ p.effectiveAt := by
  have : Std.Total CommodityPrice.later := ⟨fun p q => le_total _ _⟩
  have : IsTrans CommodityPrice CommodityPrice.later := ⟨fun _ _ _ h h' => le_trans h' h⟩
  unfold currentPrice at h
  generalize hrows : prices.rows.filter (fun p => p.tenantId = tenantId ∧
    p.commodityId = commodityId ∧ p.effectiveAt ≤ now) = rows at h
  have hsorted := List.pairwise_insertionSort CommodityPrice.later rows
  obtain ⟨rest, hrest⟩ := List.head?_eq_some_iff.mp h
  have hperm : (p :: rest).Perm rows := hrest ▸ List.perm_insertionSort _ rows
  have hp : p ∈ rows := hperm.mem_iff.mp List.mem_cons_self
  rw [← hrows, List.mem_filter, decide_eq_true_eq] at hp
  refine ⟨hp.1, hp.2.1, hp.2.2.1, hp.2.2.2, ?_⟩
  intro q hq htenant hcommodity hnow
  have hmem : q ∈ rows := by
    rw [← hrows, List.mem_filter, decide_eq_true_eq]
    exact ⟨hq, htenant, hcommodity, hnow⟩
  rw [hrest, List.pairwise_cons] at hsorted
  rcases List.mem_cons.mp (hperm.mem_iff.mpr hmem) with rfl | hlater
  · exact le_rfl
  · exact hsorted.1 q hlater

/-- The map holds the price of each of its keys. -/
theorem priceMap_apply {κ P : Type} [DecidableEq κ] (keys : List κ) (price : κ → Option P)
    (key : κ) : priceMap keys price key = if key ∈ keys then price key else none := by
  unfold priceMap
  induction keys using List.reverseRecOn with
  | nil => rfl
  | append_singleton keys k ih =>
      rw [List.foldl_append, List.foldl_cons, List.foldl_nil]
      by_cases hkey : key = k
      · subst hkey
        rw [if_pos (List.mem_append_right _ List.mem_cons_self)]
        cases hprice : price key with
        | none => rw [Option.elim_none, ih, hprice, ite_self]
        | some p => rw [Option.elim_some, Function.update_self]
      · have hmem : key ∈ keys ++ [k] ↔ key ∈ keys := by simp [hkey]
        simp only [hmem, ← ih]
        cases price k with
        | none => rfl
        | some p => exact Function.update_of_ne hkey _ _

/-- A key of the map has its price. -/
theorem priceMap_of_mem {κ P : Type} [DecidableEq κ] {keys : List κ} {price : κ → Option P}
    {key : κ} (h : key ∈ keys) : priceMap keys price key = price key := by
  rw [priceMap_apply, if_pos h]

/-- In exact arithmetic, rows are worth the sum of what they are worth each. -/
theorem valueOf_exact {α : Type} (price : α → Option CommodityPrice) (quantity : α → ℚ)
    (rows : List α) : valueOf .exact price quantity rows =
      (rows.map fun x => worth (price x) * quantity x).sum := by
  unfold valueOf
  induction rows using List.reverseRecOn with
  | nil => rfl
  | append_singleton rows x ih =>
      rw [List.foldl_append, List.foldl_cons, List.foldl_nil, ih, List.map_append, List.sum_append,
        List.map_singleton, List.sum_singleton]
      cases price x with
      | none => simp [worth]
      | some p => rfl

end Prices

end SecureStore.Valuation
