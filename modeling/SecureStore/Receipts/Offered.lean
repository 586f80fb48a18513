/-
# What a client is offered

The forms for withdrawals and loans offer a client's receipts, the inventory pages count them by
warehouse and commodity, and the dashboard and the badges of the receipts page count them once
more. Some of these queries ask for ACTIVE receipts, some also for approval, some also for
leaves. In a reachable ledger an ACTIVE receipt is an approved leaf, so all of them see the same
receipts, and what they show is what a request is accepted for.
-/

import SecureStore.Access.OnBehalf
import SecureStore.Custody.Holdings
import SecureStore.Services.Receipts

namespace SecureStore.Services

open SecureStore.Foundation SecureStore.Inventory

/-! ## The queries -/

structure OfferedReceipt where
  id : Id
  receiptNumber : List Char
  commodityId : Id
  availableQuantity : ℚ
  warehouseId : Id
  deriving DecidableEq

def offeredReceipt (r : Receipt) : OfferedReceipt :=
  ⟨r.id, r.receiptNumber, r.commodityId, r.quantity, r.warehouseId⟩

/-- `status: 'ACTIVE', approvalStatus: 'APPROVED', isParent: false` among a client's receipts. -/
def eligible (tenantId clientId : Id) (s : Ledger) : List Receipt :=
  s.receipts.rows.filter fun r => r.tenantId = tenantId ∧ r.clientId = clientId ∧
    r.status = .active ∧ r.approvalStatus = .approved ∧ r.isParent = false

def getEligibleReceipts (tenantId clientId : Id) (warehouseIds : Option (List Id))
    (commodityId : Option Id) (s : Ledger) : List OfferedReceipt :=
  ((eligible tenantId clientId s).filter fun r =>
    warehouseIds.all (fun ids => r.warehouseId ∈ ids) ∧
      commodityId.all (fun id => r.commodityId = id)).map offeredReceipt

/-- The receipts that can be pledged for a loan, of any commodity or of one by name. -/
def getPledgeableReceipts (toLowerCase : String → String) (commodities : Table Commodity)
    (tenantId clientId : Id) (commodity : Option String) (warehouseIds : Option (List Id))
    (s : Ledger) : List OfferedReceipt :=
  let receipts := (eligible tenantId clientId s).filter fun r =>
    warehouseIds.all fun ids => r.warehouseId ∈ ids
  -- an empty name asks for nothing
  (receipts.filter fun r => (commodity.filter (· ≠ "")).all fun name =>
    (commodities.find r.commodityId).any fun c =>
      toLowerCase c.name = toLowerCase name).map offeredReceipt

structure InventoryWarehouse where
  id : Id
  eligibleReceiptCount : ℕ
  deriving DecidableEq

def getInventoryWarehouses (warehouses : Table Warehouse) (tenantId userId : Id) (s : Ledger) :
    List InventoryWarehouse :=
  let groups := groupSums Receipt.warehouseId (fun _ => 1) (eligible tenantId userId s)
  (warehouses.rows.filter fun w => w.id ∈ groups.map Prod.fst).map fun w =>
    { id := w.id
      eligibleReceiptCount := ((groups.find? fun g => g.1 = w.id).map Prod.snd).getD 0 }

structure InventoryCommodity where
  id : Id
  name : String
  code : String
  unit : String
  eligibleQuantity : ℚ
  eligibleReceiptCount : ℕ
  deriving DecidableEq

def inventoryCommodity (c : Commodity) (group : ℚ × ℕ) : InventoryCommodity :=
  { id := c.id
    name := c.name
    code := c.code
    unit := c.unitOfMeasure
    eligibleQuantity := group.1
    eligibleReceiptCount := group.2 }

def getInventoryCommodities (commodities : Table Commodity) (tenantId userId warehouseId : Id)
    (s : Ledger) : List InventoryCommodity :=
  let rows := (eligible tenantId userId s).filter fun r => r.warehouseId = warehouseId
  let groups := groupSums Receipt.commodityId (fun r => (r.quantity, 1)) rows
  groups.filterMap fun g => (commodities.find g.1).map fun c => inventoryCommodity c g.2

/-- The receipts of a tenant, or of one client of it, with a status that is asked for. -/
def countReceipts (tenantId : Id) (forClientId : Option Id) (p : ReceiptStatus → Prop)
    [DecidablePred p] (s : Ledger) : ℕ :=
  (s.receipts.rows.filter fun r => r.tenantId = tenantId ∧
    forClientId.all (· = r.clientId) ∧ p r.status).length

structure ReceiptStats where
  total : ℕ
  active : ℕ
  liened : ℕ
  cancelled : ℕ
  totalPledged : ℕ
  totalWithdrawn : ℕ
  deriving DecidableEq

namespace ReceiptsService

/-- The badges of the tabs, and the figures of the older page. -/
def getReceiptStats (tenantId : Id) (forClientId : Option Id) (s : Ledger) : ReceiptStats :=
  let count := fun (p : ReceiptStatus → Prop) [DecidablePred p] =>
    countReceipts tenantId forClientId p s
  { total := count (· ∉ [ReceiptStatus.split])
    active := count (· ∈ statusesForGroup .active)
    liened := count (· ∈ statusesForGroup .liened)
    cancelled := count (· ∈ (statusesForGroup .cancelled).filter (· ≠ .split))
    totalPledged := count (· = .heldLoan)
    totalWithdrawn := count (· = .withdrawn) }

end ReceiptsService

structure DashboardCards where
  totalReceipts : ℕ
  activeReceipts : ℕ
  byCommodity : List (Commodity × ℚ)
  underLien : ℕ
  totalPledged : ℕ
  deriving DecidableEq

structure ReceiptStatusOverview where
  active : ℕ
  liened : ℕ
  cancelled : ℕ
  deriving DecidableEq

/-- The values of the cards that a client's dashboard counts receipts for. -/
def dashboardCards (commodities : Table Commodity) (tenantId userId : Id) (s : Ledger) :
    DashboardCards :=
  let count := fun (p : ReceiptStatus → Prop) [DecidablePred p] =>
    countReceipts tenantId (some userId) p s
  let activeByCommodity := groupSums Receipt.commodityId Receipt.quantity
    (s.receipts.rows.filter fun r =>
      r.tenantId = tenantId ∧ r.clientId = userId ∧ r.status = .active)
  { totalReceipts := count (· ∉ [ReceiptStatus.split])
    activeReceipts := (eligible tenantId userId s).length
    byCommodity := activeByCommodity.filterMap fun g =>
      ((commodities.find g.1).filter fun c => c.tenantId = tenantId).map fun c => (c, g.2)
    underLien := count (· ∈ statusesForGroup .liened)
    totalPledged := count (· = .heldLoan) }

def receiptStatusOverview (tenantId userId : Id) (s : Ledger) : ReceiptStatusOverview :=
  let count := fun (p : ReceiptStatus → Prop) [DecidablePred p] =>
    countReceipts tenantId (some userId) p s
  { active := count (· ∈ statusesForGroup .active)
    liened := count (· ∈ statusesForGroup .liened)
    cancelled := count (· ∈ statusesForGroup .cancelled) }

/-! ## What they agree on -/

section Queries

variable {s : Ledger} {tenantId clientId : Id}

/-- Leaves and approval need not be asked for. -/
theorem eligible_eq (hlife : Lifecycle s) :
    eligible tenantId clientId s = s.receipts.rows.filter fun r =>
      r.tenantId = tenantId ∧ r.clientId = clientId ∧ r.status = .active := by
  apply List.filter_congr
  intro r hr
  have hactive : r.status = .active → r.approvalStatus = .approved ∧ r.isParent = false := by
    intro hstatus
    refine ⟨hlife.active_approved r hr hstatus, ?_⟩
    rw [Bool.eq_false_iff]
    intro hparent
    have hsplit := (hlife.parent_iff r hr).mp hparent
    rw [hstatus] at hsplit
    cases hsplit
  by_cases hstatus : r.status = .active
  · simp [hstatus, hactive hstatus]
  · simp [hstatus]

theorem mem_eligible (hlife : Lifecycle s) {r : Receipt} :
    r ∈ eligible tenantId clientId s ↔
      r ∈ s.receipts ∧ r.tenantId = tenantId ∧ r.clientId = clientId ∧ r.status = .active := by
  rw [eligible_eq hlife, List.mem_filter, decide_eq_true_eq]
  rfl

/-- Counting by one condition or another adds up when exactly one of them holds. -/
theorem countReceipts_add {forClientId : Option Id} {p q t : ReceiptStatus → Prop}
    [DecidablePred p] [DecidablePred q] [DecidablePred t]
    (h : ∀ status, (t status ↔ p status ∨ q status) ∧ ¬ (p status ∧ q status)) :
    countReceipts tenantId forClientId t s =
      countReceipts tenantId forClientId p s + countReceipts tenantId forClientId q s := by
  unfold countReceipts
  induction s.receipts.rows with
  | nil => rfl
  | cons r rows ih =>
      obtain ⟨hone, hboth⟩ := h r.status
      simp only [List.filter_cons]
      by_cases hmine : r.tenantId = tenantId ∧ forClientId.all (· = r.clientId) = true
      · obtain ⟨htenant, hclient⟩ := hmine
        by_cases hp : p r.status
        · have hq : ¬ q r.status := fun hq => hboth ⟨hp, hq⟩
          have ht : t r.status := hone.mpr (.inl hp)
          simp only [htenant, hclient, hp, hq, ht, and_self, and_false, decide_true, decide_false,
            if_true, if_false, List.length_cons, Bool.false_eq_true, ih]
          omega
        · by_cases hq : q r.status
          · have ht : t r.status := hone.mpr (.inr hq)
            simp only [htenant, hclient, hp, hq, ht, and_self, and_false, decide_true, decide_false,
              if_true, if_false, List.length_cons, Bool.false_eq_true, ih]
            omega
          · have ht : ¬ t r.status := fun ht => (hone.mp ht).elim hp hq
            simp only [htenant, hclient, hp, hq, ht, and_false, decide_false, Bool.false_eq_true,
              if_false, ih]
      · have hnone : ∀ P : Prop, ¬ (r.tenantId = tenantId ∧
            forClientId.all (· = r.clientId) = true ∧ P) :=
          fun P hall => hmine ⟨hall.1, hall.2.1⟩
        simp only [hnone, decide_false, Bool.false_eq_true, if_false, ih]

/-- A list without a search has as many receipts as its filter counts. -/
theorem getReceipts_total {db : Db} (toUpperCase : String → String) (status : String)
    (skip take : ℕ) (forClientId : Option Id) :
    (ReceiptsService.getReceipts toUpperCase db tenantId ⟨status, skip, take, fun _ => true⟩
      forClientId).2 =
      countReceipts tenantId forClientId (ReceiptsService.admits (toUpperCase status))
        db.ledger := by
  unfold ReceiptsService.getReceipts countReceipts
  simp only
  congr 1
  apply List.filter_congr
  intro r _
  by_cases htenant : r.tenantId = tenantId <;>
    by_cases hclient : forClientId.all (· = r.clientId) = true <;> simp [htenant, hclient]

/-- The counts of the warehouses add up to the receipts, when every receipt has its warehouse. -/
theorem sum_inventoryWarehouses {warehouses : Table Warehouse}
    (hrefs : ∀ r ∈ s.receipts, ∃ w ∈ warehouses, w.id = r.warehouseId) :
    ((getInventoryWarehouses warehouses tenantId clientId s).map
      InventoryWarehouse.eligibleReceiptCount).sum = (eligible tenantId clientId s).length := by
  have hcount : ∀ id, (((groupSums Receipt.warehouseId (fun _ => (1 : ℕ))
      (eligible tenantId clientId s)).find? fun g => g.1 = id).map Prod.snd).getD 0 =
        sumOn Receipt.warehouseId (fun _ => 1) (eligible tenantId clientId s) id :=
    fun id => find_groupSums id
  have hkeys : ∀ id, id ∈ (groupSums Receipt.warehouseId (fun _ => (1 : ℕ))
      (eligible tenantId clientId s)).map Prod.fst ↔
        id ∈ (eligible tenantId clientId s).map Receipt.warehouseId := by
    intro id
    simp [groupSums]
  unfold getInventoryWarehouses
  simp only [List.map_map, Function.comp_def, hcount, hkeys]
  have hids : (warehouses.rows.filter fun w =>
      w.id ∈ (eligible tenantId clientId s).map Receipt.warehouseId).map (fun w =>
        sumOn Receipt.warehouseId (fun _ => 1) (eligible tenantId clientId s) w.id) =
      ((warehouses.rows.filter fun w =>
        w.id ∈ (eligible tenantId clientId s).map Receipt.warehouseId).map Warehouse.id).map
          (sumOn Receipt.warehouseId (fun _ => 1) (eligible tenantId clientId s)) := by
    rw [List.map_map]
    rfl
  rw [hids, sum_sumOn]
  · simp
  · exact (warehouses.nodup.sublist (List.filter_sublist.map _))
  · intro r hr
    have hmem : r ∈ s.receipts := (List.mem_filter.mp hr).1
    obtain ⟨w, hw, hid⟩ := hrefs r hmem
    refine List.mem_map.mpr ⟨w, List.mem_filter.mpr ⟨hw, ?_⟩, hid⟩
    rw [decide_eq_true_eq, hid]
    exact List.mem_map_of_mem hr

/-- What a page shows as eligible of a commodity. -/
def eligibleOf (entries : List InventoryCommodity) (commodityId : Id) : ℚ × ℕ :=
  ((entries.find? fun e => e.id = commodityId).map fun e =>
    (e.eligibleQuantity, e.eligibleReceiptCount)).getD 0

theorem eligibleOf_eq {commodities : Table Commodity} {c : Commodity} (hc : c ∈ commodities)
    (warehouseId : Id) :
    eligibleOf (getInventoryCommodities commodities tenantId clientId warehouseId s) c.id =
      sumOn Receipt.commodityId (fun r => (r.quantity, 1))
        ((eligible tenantId clientId s).filter fun r => r.warehouseId = warehouseId) c.id := by
  have hrow : commodities.find c.id = some c := Table.find_of_mem hc
  unfold eligibleOf getInventoryCommodities
  simp only
  rw [find_joined commodities.find InventoryCommodity.id inventoryCommodity
    (fun _ _ _ => Table.key_of_find) _ hrow, ← find_groupSums, Option.map_map]
  rfl

/-- What the pages of the warehouses show of a commodity adds up to what is eligible of it. -/
theorem sum_inventoryCommodities {warehouses : Table Warehouse} {commodities : Table Commodity}
    (hrefs : ∀ r ∈ s.receipts, ∃ w ∈ warehouses, w.id = r.warehouseId) {c : Commodity}
    (hc : c ∈ commodities) :
    ((warehouses.rows.map fun w => eligibleOf
      (getInventoryCommodities commodities tenantId clientId w.id s) c.id).map Prod.fst).sum =
      (((eligible tenantId clientId s).filter fun r => r.commodityId = c.id).map
        Receipt.quantity).sum := by
  have hone : ∀ id, (eligibleOf (getInventoryCommodities commodities tenantId clientId id s)
      c.id).1 = sumOn Receipt.warehouseId Receipt.quantity
        ((eligible tenantId clientId s).filter fun r => r.commodityId = c.id) id := by
    intro id
    have hfst : ∀ rows : List Receipt,
        ((rows.map fun r => (r.quantity, (1 : ℕ))).sum).1 = (rows.map Receipt.quantity).sum := by
      intro rows
      induction rows with
      | nil => rfl
      | cons r rows ih =>
          rw [List.map_cons, List.sum_cons, Prod.fst_add, ih, List.map_cons, List.sum_cons]
    rw [eligibleOf_eq hc, sumOn, hfst, sumOn, List.filter_filter, List.filter_filter]
    simp only [Bool.and_comm]
  rw [List.map_map]
  have hids : warehouses.rows.map (Prod.fst ∘ fun w => eligibleOf
      (getInventoryCommodities commodities tenantId clientId w.id s) c.id) =
      (warehouses.rows.map Warehouse.id).map (sumOn Receipt.warehouseId Receipt.quantity
        ((eligible tenantId clientId s).filter fun r => r.commodityId = c.id)) := by
    rw [List.map_map]
    exact List.map_congr_left fun w _ => hone w.id
  rw [hids, sum_sumOn (show (warehouses.rows.map Warehouse.id).Nodup from warehouses.nodup)]
  intro r hr
  have hmem : r ∈ s.receipts := (List.mem_filter.mp (List.mem_filter.mp hr).1).1
  obtain ⟨w, hw, hid⟩ := hrefs r hmem
  exact List.mem_map.mpr ⟨w, hw, hid⟩

/-- What the form of a withdrawal offers of a commodity is what the balance shows as available. -/
theorem offered_eq_available (commodities : List CommodityLabel) (hlife : Lifecycle s)
    (commodityId : Id) :
    ((getEligibleReceipts tenantId clientId none (some commodityId) s).map
        OfferedReceipt.availableQuantity).sum =
      figure BalanceEntry.available (getBalance commodities tenantId clientId s) commodityId := by
  rw [(figure_getBalance commodities tenantId clientId commodityId).1]
  unfold getEligibleReceipts Table.sumOf
  rw [eligible_eq hlife, List.map_map, List.filter_filter, sum_filter]
  refine congrArg _ (List.map_congr_left fun r hr => ?_)
  unfold Receipt.owned Receipt.availableQty
  have happroved := hlife.active_approved r hr
  by_cases ht : r.tenantId = tenantId <;> by_cases hc : r.clientId = clientId <;>
    by_cases hid : r.commodityId = commodityId <;> by_cases hs : r.status = .active <;>
      simp_all [offeredReceipt]

/-- The group of one status counts what is eligible. -/
theorem countReceipts_active (hlife : Lifecycle s) {p : ReceiptStatus → Prop} [DecidablePred p]
    (hp : ∀ status, p status ↔ status = .active) :
    countReceipts tenantId (some clientId) p s = (eligible tenantId clientId s).length := by
  rw [eligible_eq hlife]
  unfold countReceipts
  congr 1
  apply List.filter_congr
  intro r _
  simp only [hp, Option.all_some, decide_eq_true_eq, eq_comm (a := clientId)]

/-- What a dashboard shows of a commodity. -/
def shownOf (entries : List (Commodity × ℚ)) (commodityId : Id) : ℚ :=
  ((entries.find? fun e => e.1.id = commodityId).map Prod.snd).getD 0

theorem shownOf_eq (hlife : Lifecycle s) {commodities : Table Commodity} {c : Commodity}
    (hc : c ∈ commodities) (htenant : c.tenantId = tenantId) :
    shownOf (dashboardCards commodities tenantId clientId s).byCommodity c.id =
      (((eligible tenantId clientId s).filter fun r => r.commodityId = c.id).map
        Receipt.quantity).sum := by
  have hrow : (commodities.find c.id).filter (fun c => c.tenantId = tenantId) = some c := by
    have hfind : commodities.find c.id = some c := Table.find_of_mem hc
    simp [hfind, htenant]
  have hkey : ∀ (id : Id) (c : Commodity) (_ : ℚ),
      (commodities.find id).filter (fun c => c.tenantId = tenantId) = some c → c.id = id :=
    fun id c _ hfound => Table.key_of_find (Option.filter_eq_some_iff.mp hfound).1
  unfold shownOf dashboardCards
  simp only
  rw [find_joined (fun id => (commodities.find id).filter fun c => c.tenantId = tenantId)
    (fun e => e.1.id) Prod.mk hkey _ hrow, Option.map_map, eligible_eq hlife]
  exact find_groupSums c.id

end Queries

/-! ## The agreement -/

/-- What the pages show a client of a tenant of its ACTIVE receipts. -/
structure Agree (num : Numeric) (db : Db) (tenantId clientId : Id) : Prop where
  /-- A request for a receipt of the client that it accepts succeeds when the receipt is offered. -/
  succeeds : ∀ c : Access.Creation, c.tenantId = tenantId → c.Fresh db → c.Valid db →
    ∀ r ∈ db.ledger.receipts, r.id = c.receiptId → r.clientId = clientId → c.Accepts db r →
      (((Access.Entry.direct c).run num).Succeeds db ↔
        offeredReceipt r ∈ getEligibleReceipts tenantId clientId none none db.ledger)
  pledgeable : ∀ (toLowerCase : String → String) (commodities : Table Commodity)
    (warehouseIds : Option (List Id)),
      getPledgeableReceipts toLowerCase commodities tenantId clientId none warehouseIds db.ledger =
        getEligibleReceipts tenantId clientId warehouseIds none db.ledger
  /-- The badge, the card, the chart, the tab and the warehouses count the same receipts. -/
  counted : ∀ (commodities : Table Commodity) (warehouses : Table Warehouse),
    let offered := (getEligibleReceipts tenantId clientId none none db.ledger).length
    (ReceiptsService.getReceiptStats tenantId (some clientId) db.ledger).active = offered ∧
      (dashboardCards commodities tenantId clientId db.ledger).activeReceipts = offered ∧
      (receiptStatusOverview tenantId clientId db.ledger).active = offered ∧
      (∀ (toUpperCase : String → String) (status : String) (skip take : ℕ),
        toUpperCase status = "ACTIVE" →
          (ReceiptsService.getReceipts toUpperCase db tenantId ⟨status, skip, take, fun _ => true⟩
            (some clientId)).2 = offered) ∧
      ((∀ r ∈ db.ledger.receipts, ∃ w ∈ warehouses, w.id = r.warehouseId) →
        ((getInventoryWarehouses warehouses tenantId clientId db.ledger).map
          InventoryWarehouse.eligibleReceiptCount).sum = offered)
  /-- The forms, the balance, the dashboard and the warehouses add up to the same quantities. -/
  weighed : ∀ (commodities : Table Commodity) (labels : List CommodityLabel)
    (warehouses : Table Warehouse), ∀ c ∈ commodities,
      let offered := ((getEligibleReceipts tenantId clientId none (some c.id) db.ledger).map
        OfferedReceipt.availableQuantity).sum
      figure BalanceEntry.available (getBalance labels tenantId clientId db.ledger) c.id =
          offered ∧
        (c.tenantId = tenantId →
          shownOf (dashboardCards commodities tenantId clientId db.ledger).byCommodity c.id =
            offered) ∧
        ((∀ r ∈ db.ledger.receipts, ∃ w ∈ warehouses, w.id = r.warehouseId) →
          ((warehouses.rows.map fun w => eligibleOf (getInventoryCommodities commodities tenantId
            clientId w.id db.ledger) c.id).map Prod.fst).sum = offered)

theorem getEligibleReceipts_all (tenantId clientId : Id) (s : Ledger) :
    getEligibleReceipts tenantId clientId none none s =
      (eligible tenantId clientId s).map offeredReceipt := by
  simp [getEligibleReceipts]

theorem agree_of_lifecycle {num : Numeric} {db : Db} (hlife : Lifecycle db.ledger)
    (tenantId clientId : Id) : Agree num db tenantId clientId where
  succeeds c htenant hfresh hvalid r hr hid hclient haccepts := by
    have hentry : ((Access.Entry.direct c).run num).Succeeds db ↔ c.Admitted db :=
      Access.entry_succeeds hfresh
    rw [hentry, getEligibleReceipts_all]
    have hfind : db.ledger.receipts.find c.receiptId = some r :=
      hid ▸ Table.find_of_mem hr
    constructor
    · rintro ⟨-, r', hloaded, hactive, -⟩
      obtain rfl := Option.some_inj.mp (hfind.symm.trans hloaded.1)
      refine List.mem_map_of_mem ((mem_eligible hlife).mpr ⟨hr, ?_, hclient, hactive⟩)
      exact hloaded.2.trans htenant
    · intro hoffered
      obtain ⟨r', hr', hsame⟩ := List.mem_map.mp hoffered
      obtain ⟨hmem, hrtenant, -, hactive⟩ := (mem_eligible hlife).mp hr'
      obtain rfl : r' = r := by
        refine Table.eq_of_key_eq hmem hr ?_
        exact congrArg OfferedReceipt.id hsame
      have hkept := List.mem_filter.mp hr'
      rw [decide_eq_true_eq] at hkept
      obtain ⟨-, -, -, -, happroved, hleaf⟩ := hkept
      exact ⟨hvalid, r', ⟨hfind, hrtenant.trans htenant.symm⟩, hactive, happroved, hleaf, haccepts⟩
  pledgeable toLowerCase commodities warehouseIds := by
    simp [getPledgeableReceipts, getEligibleReceipts]
  counted commodities warehouses := by
    have hoffered : (getEligibleReceipts tenantId clientId none none db.ledger).length =
        (eligible tenantId clientId db.ledger).length := by
      rw [getEligibleReceipts_all, List.length_map]
    have hgroup : ∀ status : ReceiptStatus,
        status ∈ statusesForGroup .active ↔ status = .active := fun _ => List.mem_singleton
    simp only [hoffered]
    refine ⟨countReceipts_active hlife hgroup, rfl, countReceipts_active hlife hgroup, ?_,
      sum_inventoryWarehouses⟩
    intro toUpperCase status skip take hstatus
    rw [getReceipts_total, hstatus]
    exact countReceipts_active hlife hgroup
  weighed commodities labels warehouses c hc := by
    have hoffered : ((getEligibleReceipts tenantId clientId none (some c.id) db.ledger).map
        OfferedReceipt.availableQuantity).sum =
          (((eligible tenantId clientId db.ledger).filter fun r => r.commodityId = c.id).map
            Receipt.quantity).sum := by
      unfold getEligibleReceipts
      rw [List.map_map]
      simp [offeredReceipt, Function.comp_def]
    refine ⟨(offered_eq_available labels hlife c.id).symm, fun htenant => ?_, fun hrefs => ?_⟩
    · rw [hoffered]
      exact shownOf_eq hlife hc htenant
    · rw [hoffered]
      exact sum_inventoryCommodities hrefs hc

/-- The badges of the tabs add up to their total, and the chart counts what was split as well. -/
theorem stats_add_up (commodities : Table Commodity) (tenantId clientId : Id) (s : Ledger) :
    let stats := ReceiptsService.getReceiptStats tenantId (some clientId) s
    stats.total = stats.active + stats.liened + stats.cancelled ∧
      (dashboardCards commodities tenantId clientId s).totalReceipts = stats.total ∧
      (receiptStatusOverview tenantId clientId s).cancelled =
        stats.cancelled + countReceipts tenantId (some clientId) (· = .split) s := by
  refine ⟨?_, rfl, ?_⟩
  · have hopen : countReceipts tenantId (some clientId) (fun status =>
        status ∈ statusesForGroup .active ∨ status ∈ statusesForGroup .liened) s =
          countReceipts tenantId (some clientId) (· ∈ statusesForGroup .active) s +
            countReceipts tenantId (some clientId) (· ∈ statusesForGroup .liened) s := by
      apply countReceipts_add
      intro status
      cases status <;> decide
    have htotal : countReceipts tenantId (some clientId) (· ∉ [ReceiptStatus.split]) s =
        countReceipts tenantId (some clientId) (fun status =>
          status ∈ statusesForGroup .active ∨ status ∈ statusesForGroup .liened) s +
            countReceipts tenantId (some clientId)
              (· ∈ (statusesForGroup .cancelled).filter (· ≠ .split)) s := by
      apply countReceipts_add
      intro status
      cases status <;> decide
    rw [hopen] at htotal
    exact htotal
  · apply countReceipts_add
    intro status
    cases status <;> decide

/-- In every run, whatever its requests, their interleaving and their crashes, the forms, the
lists, the badges and the dashboard of every client agree on what is ACTIVE, and a request for
one of its receipts succeeds when the forms offer it. -/
theorem offers_agree {num : Numeric} {directory : Directory} {requests : List Request}
    {trace : List (Transition Label Db)} {db : Db} {pool : List (Api Unit)}
    (h : Run (Db.initial directory) (requests.map (Request.run num)) trace db pool)
    (tenantId clientId : Id) :
    Agree num db tenantId clientId ∧ ∀ commodities : Table Commodity,
      let stats := ReceiptsService.getReceiptStats tenantId (some clientId) db.ledger
      stats.total = stats.active + stats.liened + stats.cancelled ∧
        (dashboardCards commodities tenantId clientId db.ledger).totalReceipts = stats.total ∧
        (receiptStatusOverview tenantId clientId db.ledger).cancelled =
          stats.cancelled + countReceipts tenantId (some clientId) (· = .split) db.ledger := by
  have hancestry : Ancestry db.ledger := by
    refine runs_ledger (P := Ancestry) ancestry_empty ?_ h
    exact fun hs heffect hcommits => hs.step heffect hcommits
  exact ⟨agree_of_lifecycle hancestry.lifecycle tenantId clientId,
    fun commodities => stats_add_up commodities tenantId clientId db.ledger⟩

/-- Receipt 102 is deposited and approved, and nothing is asked of it yet. -/
def stockedRun : List (Transition Label Db) × Db × List (Api Unit) :=
  interleave [0, 1] (Db.initial sampleDirectory) (sampleStock.map (Request.run .postgres))

/-- The badge counts what the form offers, which is one receipt. -/
theorem offers_agree_sample :
    (ReceiptsService.getReceiptStats 1 (some 10) stockedRun.2.1.ledger).active = 1 ∧
      (getEligibleReceipts 1 10 none none stockedRun.2.1.ledger).length = 1 := by
  have hone : (ReceiptsService.getReceiptStats 1 (some 10) stockedRun.2.1.ledger).active = 1 := by
    decide +kernel
  have hrun : Run (Db.initial sampleDirectory) (sampleStock.map (Request.run .postgres))
      stockedRun.1 stockedRun.2.1 stockedRun.2.2 := run_interleave _ _ _
  have hagree := (offers_agree hrun 1 10).1.counted Table.empty Table.empty
  exact ⟨hone, hagree.1.symm.trans hone⟩

end SecureStore.Services
