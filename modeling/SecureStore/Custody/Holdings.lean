/-
# What a client has in the warehouses

Three queries add up a client's receipts by commodity: the balance, from what is available and
what is locked; the list of the client's commodities, in a loop over the receipts; and the
breakdown of the dashboard. The first two count every receipt that is ACTIVE or held. The
breakdown names the statuses it counts, and among them are no pledges and no liens.
-/

import SecureStore.Custody.Trees
import SecureStore.Foundation.Grouping
import SecureStore.Inventory.Balances

namespace SecureStore.Services

open SecureStore.Foundation SecureStore.Inventory

structure Commodity where
  id : Id
  tenantId : Id
  name : String
  code : String
  unitOfMeasure : String
  deriving DecidableEq

instance : Keyed Commodity Id := ⟨Commodity.id⟩

/-! ## The queries -/

/-- The balance, with the sum of what is available and what is locked as a parameter. -/
def getBalanceWith (plus : ℚ → ℚ → ℚ) (commodities : List CommodityLabel) (tenantId clientId : Id)
    (s : Ledger) : List BalanceEntry :=
  (getBalance commodities tenantId clientId s).map fun e =>
    { e with total := plus e.available e.locked }

/-- The decimal type adds up to twenty significant digits. -/
theorem getBalanceWith_decimal (commodities : List CommodityLabel) (tenantId clientId : Id)
    (s : Ledger) :
    getBalanceWith (fun x y => roundSig 20 (x + y)) commodities tenantId clientId s =
      getBalance commodities tenantId clientId s := by
  unfold getBalanceWith getBalance
  rw [List.map_map]
  rfl

structure MyCommodity where
  id : Id
  name : String
  code : String
  unit : String
  totalQuantity : ℚ
  availableQuantity : ℚ
  lockedQuantity : ℚ
  pendingQuantity : ℚ
  deriving DecidableEq

/-- `IN_SYSTEM_STATUSES` -/
def inSystemStatuses : List ReceiptStatus := [.active, .pendingApproval] ++ heldStatuses

/-- The line of a receipt's commodity before anything is counted. -/
def MyCommodity.opening (commodities : Table Commodity) (r : Receipt) : MyCommodity :=
  let commodity := commodities.find r.commodityId
  { id := r.commodityId
    name := (commodity.map Commodity.name).getD ""
    code := (commodity.map Commodity.code).getD ""
    unit := (commodity.map Commodity.unitOfMeasure).getD ""
    totalQuantity := 0, availableQuantity := 0, lockedQuantity := 0, pendingQuantity := 0 }

/-- A receipt is counted in the total and in one of the three columns. -/
def MyCommodity.add (plus : ℚ → ℚ → ℚ) (r : Receipt) (data : MyCommodity) : MyCommodity :=
  let data := { data with totalQuantity := plus data.totalQuantity r.quantity }
  if r.status = .active then
    { data with availableQuantity := plus data.availableQuantity r.quantity }
  else if r.status = .pendingApproval then
    { data with pendingQuantity := plus data.pendingQuantity r.quantity }
  else { data with lockedQuantity := plus data.lockedQuantity r.quantity }

def getMyCommodities (plus : ℚ → ℚ → ℚ) (commodities : Table Commodity) (tenantId clientId : Id)
    (s : Ledger) : List MyCommodity :=
  let receipts := s.receipts.rows.filter fun r =>
    r.tenantId = tenantId ∧ r.clientId = clientId ∧ r.status ∈ inSystemStatuses
  (buckets Receipt.commodityId (MyCommodity.opening commodities) (MyCommodity.add plus)
    receipts).map Prod.snd

structure BreakdownEntry where
  name : String
  quantity : ℚ
  deriving DecidableEq

/-- `commodity?.name || 'Unknown'` -/
def breakdownName (commodity : Option Commodity) : String :=
  ((commodity.map Commodity.name).filter (· ≠ "")).getD "Unknown"

/-- The statuses that the breakdown counts. -/
def breakdownStatuses : List ReceiptStatus := [.active, .heldWithdrawal, .heldLoan, .heldTrade]

/-- `getCommodityBreakdown`, of one client or of the whole tenant. -/
def getCommodityBreakdown (commodities : Table Commodity) (tenantId : Id)
    (forClientId : Option Id) (s : Ledger) : List BreakdownEntry :=
  let breakdown := groupSums Receipt.commodityId Receipt.quantity (s.receipts.rows.filter fun r =>
    r.tenantId = tenantId ∧ (∀ id ∈ forClientId, r.clientId = id) ∧ r.status ∈ breakdownStatuses)
  breakdown.map fun b =>
    { name := breakdownName (commodities.find b.1), quantity := b.2 }

/-! ## What the queries add up -/

/-- What a client has of a commodity in the warehouses. -/
def inWarehouse (tenantId clientId commodityId : Id) (s : Ledger) : ℚ :=
  ((s.receipts.rows.filter fun r => (r.tenantId = tenantId ∧ r.clientId = clientId ∧
    r.commodityId = commodityId) ∧ (r.status = .active ∨ r.status.Held)).map Receipt.quantity).sum

/-- The total that a balance shows for a commodity. -/
def balanceTotal (entries : List BalanceEntry) (commodityId : Id) : ℚ :=
  figure BalanceEntry.total entries commodityId

/-- What a client's list shows as available and as locked of a commodity. -/
def availableAndLocked (entries : List MyCommodity) (commodityId : Id) : ℚ :=
  ((entries.find? fun e => e.id = commodityId).map fun e =>
    e.availableQuantity + e.lockedQuantity).getD 0

/-- What the breakdown shows under a name. -/
def shownUnder (entries : List BreakdownEntry) (name : String) : ℚ :=
  ((entries.find? fun e => e.name = name).map BreakdownEntry.quantity).getD 0

section Queries

variable {s : Ledger} {tenantId clientId commodityId : Id}

/-- A sum over a client's receipts that satisfy a condition, by commodity. -/
theorem sumOn_receipts (p : Receipt → Prop) [DecidablePred p] (w : Receipt → ℚ) :
    sumOn Receipt.commodityId w (s.receipts.rows.filter fun r =>
        r.tenantId = tenantId ∧ r.clientId = clientId ∧ p r) commodityId =
      s.receipts.sumOf (Receipt.owned tenantId clientId commodityId fun r =>
        if p r then w r else 0) := by
  unfold sumOn Table.sumOf Receipt.owned
  rw [List.filter_filter, sum_filter]
  refine congrArg _ (List.map_congr_left fun r _ => ?_)
  by_cases ht : r.tenantId = tenantId <;> by_cases hc : r.clientId = clientId <;>
    by_cases hid : r.commodityId = commodityId <;> by_cases hp : p r <;>
      simp [ht, hc, hid, hp]

theorem inWarehouse_eq_sumOf :
    inWarehouse tenantId clientId commodityId s =
      s.receipts.sumOf (Receipt.owned tenantId clientId commodityId fun r =>
        if r.status = .active ∨ r.status.Held then r.quantity else 0) := by
  unfold inWarehouse Table.sumOf Receipt.owned
  rw [sum_filter]
  refine congrArg _ (List.map_congr_left fun r _ => ?_)
  simp only [decide_eq_true_eq, ite_and]

/-- The balance counts what is ACTIVE, as that is approved, and what is held. -/
theorem balanceTotal_eq (hlife : Lifecycle s) (commodities : List CommodityLabel) :
    balanceTotal (getBalanceWith (· + ·) commodities tenantId clientId s) commodityId =
      inWarehouse tenantId clientId commodityId s := by
  have hsum : balanceTotal (getBalanceWith (· + ·) commodities tenantId clientId s) commodityId =
      figure BalanceEntry.available (getBalance commodities tenantId clientId s) commodityId +
        figure BalanceEntry.locked (getBalance commodities tenantId clientId s) commodityId := by
    unfold balanceTotal figure getBalanceWith
    rw [List.find?_map]
    change (Option.map _ (Option.map _ ((getBalance commodities tenantId clientId s).find?
      fun e => e.commodityId = commodityId))).getD 0 = _
    cases (getBalance commodities tenantId clientId s).find? fun e =>
        e.commodityId = commodityId with
    | none => exact (add_zero 0).symm
    | some e => rfl
  obtain ⟨havailable, hlocked⟩ := figure_getBalance (s := s) commodities tenantId clientId
    commodityId
  rw [hsum, havailable, hlocked, inWarehouse_eq_sumOf]
  unfold Table.sumOf
  rw [← List.sum_map_add]
  refine congrArg _ (List.map_congr_left fun r hr => ?_)
  unfold Receipt.owned Receipt.availableQty Receipt.lockedQty
  have happroved := hlife.active_approved r hr
  by_cases hactive : r.status = .active
  · have hfree : ¬ ReceiptStatus.active.Held := by decide
    simp [hactive, happroved hactive, hfree]
  · simp [hactive]

/-- What a receipt adds to the available and the locked column together. -/
theorem MyCommodity.add_counted (r : Receipt) (data : MyCommodity) :
    (MyCommodity.add (· + ·) r data).availableQuantity +
        (MyCommodity.add (· + ·) r data).lockedQuantity =
      data.availableQuantity + data.lockedQuantity +
        if r.status = .pendingApproval then 0 else r.quantity := by
  unfold MyCommodity.add
  by_cases hactive : r.status = .active
  · rw [if_pos hactive, if_neg (by simp [hactive])]
    exact add_right_comm _ _ _
  · rw [if_neg hactive]
    by_cases hpending : r.status = .pendingApproval
    · rw [if_pos hpending, if_pos hpending, add_zero]
    · rw [if_neg hpending, if_neg hpending]
      exact (add_assoc _ _ _).symm

theorem counted_iff (status : ReceiptStatus) :
    status ∈ inSystemStatuses ∧ status ≠ .pendingApproval ↔ status = .active ∨ status.Held := by
  cases status <;> decide

/-- The list counts as available or as locked what is not awaiting approval. -/
theorem availableAndLocked_eq (commodities : Table Commodity) :
    availableAndLocked (getMyCommodities (· + ·) commodities tenantId clientId s) commodityId =
      inWarehouse tenantId clientId commodityId s := by
  have hid : ∀ (r : Receipt) (data : MyCommodity),
      (MyCommodity.add (· + ·) r data).id = data.id := by
    intro r data
    unfold MyCommodity.add
    split
    · rfl
    · split <;> rfl
  have hopening : ∀ r, (MyCommodity.opening commodities r).id = r.commodityId := fun _ => rfl
  have hfound := find_value (l := s.receipts.rows.filter fun r => r.tenantId = tenantId ∧
      r.clientId = clientId ∧ r.status ∈ inSystemStatuses)
    (v := fun data : MyCommodity => data.availableQuantity + data.lockedQuantity)
    (w := fun r => if r.status = .pendingApproval then 0 else r.quantity)
    (fun _ => add_zero 0) MyCommodity.add_counted hopening hid commodityId
  refine hfound.trans ?_
  rw [sumOn_receipts, inWarehouse_eq_sumOf]
  refine Table.sumOf_congr fun r _ => ?_
  unfold Receipt.owned
  simp only [← counted_iff, ite_and, ite_not]

/-- The breakdown of a client counts the statuses it names, under a name that no other commodity
of the tenant is shown under. -/
theorem shownUnder_eq {commodities : Table Commodity} {m : Commodity} (hm : m ∈ commodities)
    (hname : ∀ x ∈ commodities, x.tenantId = tenantId →
      breakdownName (some x) = breakdownName (some m) → x = m)
    (hcommodity : ∀ r ∈ s.receipts, r.tenantId = tenantId →
      ∃ x ∈ commodities, x.id = r.commodityId ∧ x.tenantId = tenantId) :
    shownUnder (getCommodityBreakdown commodities tenantId (some clientId) s)
        (breakdownName (some m)) =
      s.receipts.sumOf (Receipt.owned tenantId clientId m.id fun r =>
        if r.status ∈ breakdownStatuses then r.quantity else 0) := by
  have hrows : (s.receipts.rows.filter fun r => r.tenantId = tenantId ∧
      (∀ id ∈ some clientId, r.clientId = id) ∧ r.status ∈ breakdownStatuses) =
        s.receipts.rows.filter fun r => r.tenantId = tenantId ∧ r.clientId = clientId ∧
          r.status ∈ breakdownStatuses := by
    refine List.filter_congr fun r _ => ?_
    simp only [Option.mem_def, Option.some_inj, forall_eq']
  unfold shownUnder getCommodityBreakdown
  dsimp only
  rw [hrows, List.find?_map]
  generalize hkept : s.receipts.rows.filter (fun r => r.tenantId = tenantId ∧
    r.clientId = clientId ∧ r.status ∈ breakdownStatuses) = rows
  have hname : ∀ g ∈ groupSums Receipt.commodityId Receipt.quantity rows,
      ((fun e : BreakdownEntry => decide (e.name = breakdownName (some m))) ∘ fun b : Id × ℚ =>
        ({ name := breakdownName (commodities.find b.1), quantity := b.2 } : BreakdownEntry)) g =
          decide (g.1 = m.id) := by
    intro g hg
    obtain ⟨id, hid, rfl⟩ := List.mem_map.mp hg
    obtain ⟨r, hr, rfl⟩ := List.mem_map.mp (List.mem_dedup.mp hid)
    rw [← hkept, List.mem_filter, decide_eq_true_eq] at hr
    obtain ⟨x, hx, hxid, hxtenant⟩ := hcommodity r hr.1 hr.2.1
    have hfind : commodities.find r.commodityId = some x := hxid ▸ Table.find_of_mem hx
    simp only [Function.comp_apply, hfind]
    refine decide_eq_decide.mpr ⟨fun hsame => ?_, fun hsame => ?_⟩
    · rw [← hxid, hname x hx hxtenant hsame]
    · rw [Table.eq_of_key_eq hx hm (hxid.trans hsame)]
  rw [List.find?_congr hname, Option.map_map]
  refine (find_groupSums m.id).trans ?_
  rw [← hkept, sumOn_receipts]

/-- The part of a client's holdings that the breakdown leaves out. -/
theorem inWarehouse_sub (id : Id) :
    inWarehouse tenantId clientId id s =
      s.receipts.sumOf (Receipt.owned tenantId clientId id fun r =>
        if r.status ∈ breakdownStatuses then r.quantity else 0) +
      s.receipts.sumOf (Receipt.owned tenantId clientId id fun r =>
        if r.status = .heldPledgePending ∨ r.status = .heldLien then r.quantity else 0) := by
  rw [inWarehouse_eq_sumOf]
  unfold Table.sumOf
  rw [← List.sum_map_add]
  refine congrArg _ (List.map_congr_left fun r _ => ?_)
  have hparts : ∀ status : ReceiptStatus,
      (if status = .active ∨ status.Held then r.quantity else 0) =
      (if status ∈ breakdownStatuses then r.quantity else 0) +
        if status = .heldPledgePending ∨ status = .heldLien then r.quantity else 0 := by
    intro status
    cases status <;> simp [breakdownStatuses, ReceiptStatus.Held, heldStatuses]
  unfold Receipt.owned
  dsimp only
  rw [hparts]
  split
  · rfl
  · exact (add_zero 0).symm

/-- Holdings that weigh nothing or more sum to nothing when none of them weighs more. -/
theorem sumOf_owned_eq_zero_iff (hweight : ∀ r ∈ s.receipts, 0 ≤ r.quantity)
    (p : Receipt → Prop) [DecidablePred p] (id : Id) :
    s.receipts.sumOf (Receipt.owned tenantId clientId id fun r =>
        if p r then r.quantity else 0) = 0 ↔
      ∀ r ∈ s.receipts, r.tenantId = tenantId → r.clientId = clientId → r.commodityId = id →
        p r → r.quantity = 0 := by
  constructor
  · intro hsum r hr htenant hclient hid hp
    have hzero := List.all_zero_of_le_zero_le_of_sum_eq_zero (l := s.receipts.rows.map _) ?_ hsum
      (List.mem_map_of_mem hr)
    · simpa [Receipt.owned, htenant, hclient, hid, hp] using hzero
    · intro x hx
      obtain ⟨r', hr', rfl⟩ := List.mem_map.mp hx
      unfold Receipt.owned
      dsimp only
      split
      · split
        · exact hweight r' hr'
        · exact le_rfl
      · exact le_rfl
  · intro hnone
    refine Table.sumOf_eq_zero fun r hr => ?_
    unfold Receipt.owned
    dsimp only
    split
    · next hown =>
        split
        · next hp => exact hnone r hr hown.1 hown.2.1 hown.2.2 hp
        · rfl
    · rfl

end Queries

/-- In every reachable state, in exact arithmetic, for every client and every commodity that is
shown under a name of its own: the balance and the client's list show what the client has in the
warehouses, and so does the breakdown exactly when none of it is pledged or under a lien. -/
theorem holdings_agree_iff {num : Numeric} (hnum : KeepsSign num) {directory : Directory}
    {requests : List Request} {trace : List (Transition Label Db)} {db : Db}
    {pool : List (Api Unit)}
    (hrun : Run (Db.initial directory) (requests.map (Request.run num)) trace db pool)
    (labels : List CommodityLabel) {commodities : Table Commodity} {tenantId : Id} {m : Commodity}
    (hm : m ∈ commodities)
    (hname : ∀ x ∈ commodities, x.tenantId = tenantId →
      breakdownName (some x) = breakdownName (some m) → x = m)
    (hcommodity : ∀ r ∈ db.ledger.receipts, r.tenantId = tenantId →
      ∃ x ∈ commodities, x.id = r.commodityId ∧ x.tenantId = tenantId) (clientId : Id) :
    let held := inWarehouse tenantId clientId m.id db.ledger
    (balanceTotal (getBalanceWith (· + ·) labels tenantId clientId db.ledger) m.id = held ∧
        availableAndLocked (getMyCommodities (· + ·) commodities tenantId clientId db.ledger)
          m.id = held ∧
        shownUnder (getCommodityBreakdown commodities tenantId (some clientId) db.ledger)
          (breakdownName (some m)) = held) ↔
      ∀ r ∈ db.ledger.receipts, r.tenantId = tenantId → r.clientId = clientId →
        r.commodityId = m.id → r.status = .heldPledgePending ∨ r.status = .heldLien →
          r.quantity = 0 := by
  intro held
  have hlife : Lifecycle db.ledger :=
    runs_ledger lifecycle_empty (fun hs heffect hcommits => hs.step heffect hcommits) hrun
  rw [balanceTotal_eq hlife, availableAndLocked_eq, shownUnder_eq hm hname hcommodity,
    ← sumOf_owned_eq_zero_iff (runs_grown hnum hrun).weight]
  unfold held
  rw [inWarehouse_sub m.id, left_eq_add]
  simp only [true_and]

def sampleCommodities : Table Commodity := ⟨[⟨60, 1, "Maize", "MZ", "BAG"⟩], by decide⟩

/-- Ten units, deposited and approved, of which six are pledged if the third request runs. -/
def holdingsRun (schedule : List ℕ) : List (Transition Label Db) × Db × List (Api Unit) :=
  interleave schedule (Db.initial sampleDirectory)
    ((sampleStock ++ [samplePledge]).map (Request.run .postgres))

/-- What the three queries show of commodity 60. -/
def sampleViews (s : Ledger) : ℚ × ℚ × ℚ :=
  (balanceTotal (getBalanceWith (· + ·) [] 1 10 s) 60,
    availableAndLocked (getMyCommodities (· + ·) sampleCommodities 1 10 s) 60,
    shownUnder (getCommodityBreakdown sampleCommodities 1 (some 10) s) "Maize")

/-- Without a pledge the queries agree. -/
theorem holdings_agree_sample : sampleViews (holdingsRun [0, 1]).2.1.ledger = (10, 10, 10) := by
  have hcommodity : ∀ r ∈ (holdingsRun [0, 1]).2.1.ledger.receipts.rows, r.tenantId = 1 →
      ∃ x ∈ sampleCommodities.rows, x.id = r.commodityId ∧ x.tenantId = 1 := by decide +kernel
  have hnone : ∀ r ∈ (holdingsRun [0, 1]).2.1.ledger.receipts.rows, r.tenantId = 1 →
      r.clientId = 10 → r.commodityId = 60 →
        r.status = .heldPledgePending ∨ r.status = .heldLien → r.quantity = 0 := by decide +kernel
  have hname : ∀ x ∈ sampleCommodities.rows, x.tenantId = 1 →
      breakdownName (some x) = breakdownName (some ⟨60, 1, "Maize", "MZ", "BAG"⟩) →
        x = ⟨60, 1, "Maize", "MZ", "BAG"⟩ := by decide
  have htotal : inWarehouse 1 10 60 (holdingsRun [0, 1]).2.1.ledger = 10 := by decide +kernel
  obtain ⟨hbalance, hlist, hbreakdown⟩ := (holdings_agree_iff keepsSign_postgres
    (run_interleave _ _ _) [] (m := ⟨60, 1, "Maize", "MZ", "BAG"⟩) List.mem_cons_self hname
    hcommodity 10).mpr hnone
  exact congrArg₂ _ (hbalance.trans htotal)
    (congrArg₂ _ (hlist.trans htotal) (hbreakdown.trans htotal))

/-- With six of ten units pledged, the breakdown shows four. -/
theorem pledged_not_shown :
    let db := (holdingsRun ([0, 1] ++ List.replicate 12 2)).2.1
    inWarehouse 1 10 60 db.ledger = 10 ∧ sampleViews db.ledger = (10, 10, 4) := by
  decide +kernel

end SecureStore.Services
