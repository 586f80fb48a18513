/-
# A financier's exposure

The dashboard of a financier values its live liens, wherever they lie, and adds the values up
by commodity, by warehouse and altogether. The financier's list of warehouses values the liens
of one warehouse again, with a query and a loop of its own. All of these agree, whatever has a
price and whatever has none.
-/

import SecureStore.Services.System
import SecureStore.Valuation.Prices
import Mathlib

namespace SecureStore.Valuation

open SecureStore.Foundation SecureStore.Inventory SecureStore.Services

/-- What is selected of commodities and warehouses. -/
structure Labels where
  commodityName : Id → String
  unitOfMeasure : Id → String
  warehouseName : Id → String

/-! ## The dashboard -/

structure CommodityBucket where
  commodity : String
  unit : String
  quantity : ℚ
  value : ℚ
  deriving DecidableEq

structure WarehouseBucket where
  warehouseId : Id
  name : String
  lienedValue : ℚ
  deriving DecidableEq

structure Exposure where
  totalLienedValue : ℚ
  currency : String
  lienCount : ℕ
  warehouseCount : ℕ
  clientCount : ℕ
  deriving DecidableEq

structure FinancierDashboard where
  exposure : Exposure
  pendingPledges : ℕ
  pendingReleaseRequests : ℕ
  byCommodity : List CommodityBucket
  byWarehouse : List WarehouseBucket
  deriving DecidableEq

/-- The parts of `${tenantId}::${commodityId}`; no id has a colon. -/
def pairOf (x : Lien × Receipt) : Id × Id := (x.2.tenantId, x.2.commodityId)

section Dashboard

variable (ar : Arithmetic) (labels : Labels) (prices : Table CommodityPrice) (now : Timestamp)

/-- The value of a lien by a map of prices. -/
def lineValue (prices : Id × Id → Option CommodityPrice) (x : Lien × Receipt) : ℚ :=
  (prices (pairOf x)).elim 0 fun p => ar.times p.pricePerUnit x.1.remainingQuantity

/-- The buckets of the commodities. -/
def commodityBuckets (prices : Id × Id → Option CommodityPrice) (liens : List (Lien × Receipt)) :
    List (Id × CommodityBucket) :=
  buckets (fun x => x.2.commodityId)
    (fun x =>
      { commodity := labels.commodityName x.2.commodityId
        unit := labels.unitOfMeasure x.2.commodityId, quantity := 0, value := 0 })
    (fun x bucket =>
      { bucket with
        quantity := ar.plus bucket.quantity x.1.remainingQuantity
        value := ar.plus bucket.value (lineValue ar prices x) }) liens

/-- The buckets of the warehouses. -/
def warehouseBuckets (prices : Id × Id → Option CommodityPrice) (liens : List (Lien × Receipt)) :
    List (Id × WarehouseBucket) :=
  buckets (fun x => x.2.warehouseId)
    (fun x =>
      { warehouseId := x.2.warehouseId, name := labels.warehouseName x.2.warehouseId
        lienedValue := 0 })
    (fun x bucket =>
      { bucket with lienedValue := ar.plus bucket.lienedValue (lineValue ar prices x) }) liens

/-- The live liens of a financier. -/
def activeLiens (db : Db) (financierOrgId : Id) : List (Lien × Receipt) :=
  liensWith db fun l _ => l.financierOrgId = financierOrgId ∧ l.status.Live

/-- The dashboard of an organisation, without its recent activity. -/
def dashboard (db : Db) (financierOrgId : Id) : FinancierDashboard :=
  let liens := activeLiens db financierOrgId
  let prices := priceMap (liens.map pairOf) fun pair => currentPrice prices now pair.1 pair.2
  let byCommodity := (commodityBuckets ar labels prices liens).map Prod.snd
  let byWarehouse := (warehouseBuckets ar labels prices liens).map Prod.snd
  { exposure :=
      { totalLienedValue := byCommodity.foldl (fun total b => ar.plus total b.value) 0
        currency := "NGN"
        lienCount := liens.length
        warehouseCount := db.directory.warehouseLinks.rows.countP fun l =>
          l.financierOrgId = financierOrgId ∧ l.status = .active
        clientCount := (liens.map fun x => x.1.clientId).dedup.length }
    pendingPledges := db.pledges.rows.countP fun p =>
      p.financierOrgId = financierOrgId ∧ p.status = .pending
    pendingReleaseRequests := db.releaseRequests.rows.countP fun q =>
      q.financierOrgId = financierOrgId ∧ q.status = .pending
    byCommodity, byWarehouse }

def getDashboard (userId : Id) : Api FinancierDashboard := do
  let org ← requireFinancierOrg userId
  Api.query fun db => dashboard ar labels prices now db org.id

end Dashboard

/-! ## The position in one warehouse -/

structure WarehouseRollups where
  clientCount : ℕ
  totalStockValue : ℚ
  lienedValue : ℚ
  currency : String
  deriving DecidableEq

section Rollups

variable (ar : Arithmetic) (prices : Table CommodityPrice) (now : Timestamp)

/-- The financier's live liens in a warehouse. -/
def warehouseLiens (db : Db) (tenantId warehouseId financierOrgId : Id) : List (Lien × Receipt) :=
  liensWith db fun l r => l.financierOrgId = financierOrgId ∧
    (r.warehouseId = warehouseId ∧ r.tenantId = tenantId) ∧ l.status.Live

/-- `computeWarehouseRollups`, the values before they are rounded to two decimals. -/
def warehouseRollups (db : Db) (tenantId warehouseId financierOrgId : Id) : WarehouseRollups :=
  let stock := db.ledger.receipts.rows.filter fun r => r.warehouseId = warehouseId ∧
    r.tenantId = tenantId ∧ r.status ∈ inWarehouseStatuses
  let stockByCommodity := groupSums Receipt.commodityId Receipt.quantity stock
  let liens := warehouseLiens db tenantId warehouseId financierOrgId
  let commodityIds :=
    (stockByCommodity.map Prod.fst ++ liens.map fun x => x.2.commodityId).eraseDups
  let priceByCommodity := priceMap commodityIds (currentPrice prices now tenantId)
  { clientCount := (stock.map Receipt.clientId).dedup.length
    totalStockValue := valueOf ar (fun g => priceByCommodity g.1) Prod.snd stockByCommodity
    lienedValue := valueOf ar (fun x => priceByCommodity x.2.commodityId)
      (fun x => x.1.remainingQuantity) liens
    -- the currency of the commodity that was priced last
    currency := commodityIds.foldl (fun currency id =>
      (currentPrice prices now tenantId id).elim currency CommodityPrice.currency) "NGN" }

def computeWarehouseRollups (db : Db) (tenantId warehouseId financierOrgId : Id) :
    WarehouseRollups :=
  let rollups := warehouseRollups ar prices now db tenantId warehouseId financierOrgId
  { rollups with
    totalStockValue := roundScale 2 rollups.totalStockValue
    lienedValue := roundScale 2 rollups.lienedValue }

end Rollups

/-! ## What adds up -/

section Sums

variable {labels : Labels} {prices : Table CommodityPrice} {now : Timestamp} {db : Db}
  {financierOrgId : Id}

/-- The value of a lien at its tenant's price, if there is one. -/
def lienValue (prices : Table CommodityPrice) (now : Timestamp) (x : Lien × Receipt) : ℚ :=
  worth (currentPrice prices now x.2.tenantId x.2.commodityId) * x.1.remainingQuantity

/-- The map of the dashboard values each of its liens at its tenant's price. -/
theorem lineValue_priceMap {liens : List (Lien × Receipt)} {x : Lien × Receipt} (hx : x ∈ liens) :
    lineValue .exact (priceMap (liens.map pairOf) fun pair =>
      currentPrice prices now pair.1 pair.2) x = lienValue prices now x := by
  unfold lineValue lienValue
  rw [priceMap_of_mem (List.mem_map_of_mem hx)]
  unfold pairOf worth
  cases currentPrice prices now x.2.tenantId x.2.commodityId with
  | none => exact (zero_mul _).symm
  | some p => rfl

/-- The buckets of the commodities hold what the liens are worth. -/
theorem sum_commodityBuckets (value : Id × Id → Option CommodityPrice)
    (liens : List (Lien × Receipt)) :
    ((commodityBuckets .exact labels value liens).map fun b => b.2.value).sum =
      (liens.map (lineValue .exact value)).sum :=
  sum_buckets (fun _ => rfl) fun _ _ => rfl

/-- So do the buckets of the warehouses. -/
theorem sum_warehouseBuckets (value : Id × Id → Option CommodityPrice)
    (liens : List (Lien × Receipt)) :
    ((warehouseBuckets .exact labels value liens).map fun b => b.2.lienedValue).sum =
      (liens.map (lineValue .exact value)).sum :=
  sum_buckets (fun _ => rfl) fun _ _ => rfl

theorem foldl_plus_exact {α : Type} (value : α → ℚ) (l : List α) :
    l.foldl (fun total b => Arithmetic.exact.plus total (value b)) 0 = (l.map value).sum := by
  rw [List.sum_eq_foldl, List.foldl_map]
  rfl

/-- A bucket of a warehouse holds what the liens there are worth. -/
theorem mem_byWarehouse {entry : WarehouseBucket}
    (h : entry ∈ (dashboard .exact labels prices now db financierOrgId).byWarehouse) :
    entry.lienedValue = sumOn (fun x => x.2.warehouseId) (lienValue prices now)
      (activeLiens db financierOrgId) entry.warehouseId := by
  obtain ⟨⟨k, b⟩, hb, rfl⟩ := List.mem_map.mp h
  unfold warehouseBuckets at hb
  have hid : b.warehouseId = k := by
    refine forall_buckets (P := fun (k : Id) (b : WarehouseBucket) => b.warehouseId = k) ?_ ?_ hb
    · exact fun _ => rfl
    · exact fun _ _ h => h
  have hvalue : b.lienedValue = sumOn (fun x => x.2.warehouseId)
      (lineValue .exact (priceMap ((activeLiens db financierOrgId).map pairOf) fun pair =>
        currentPrice prices now pair.1 pair.2)) (activeLiens db financierOrgId) k :=
    measure_bucket (v := WarehouseBucket.lienedValue) (fun _ => rfl) (fun _ _ => rfl) hb
  rw [hid, hvalue]
  unfold sumOn
  refine congrArg _ (List.map_congr_left fun x hx => ?_)
  exact lineValue_priceMap (List.mem_filter.mp hx).1

/-- The financier's liens in a warehouse of a tenant, out of all that it holds. -/
theorem warehouseLiens_eq {warehouseId tenantId : Id}
    (htenant : ∀ r ∈ db.ledger.receipts, r.warehouseId = warehouseId → r.tenantId = tenantId) :
    warehouseLiens db tenantId warehouseId financierOrgId =
      (activeLiens db financierOrgId).filter fun x => x.2.warehouseId = warehouseId := by
  unfold warehouseLiens activeLiens liensWith
  rw [List.filter_filter]
  refine List.filter_congr fun x hx => ?_
  obtain ⟨l, -, hl⟩ := List.mem_filterMap.mp hx
  obtain ⟨r, hr, rfl⟩ := Option.map_eq_some_iff.mp hl
  have htenant := htenant r (Table.mem_of_find hr)
  rw [Bool.eq_iff_iff, Bool.and_eq_true, decide_eq_true_eq, decide_eq_true_eq, decide_eq_true_eq]
  constructor
  · rintro ⟨horg, ⟨hwarehouse, -⟩, hlive⟩
    exact ⟨hwarehouse, horg, hlive⟩
  · rintro ⟨hwarehouse, horg, hlive⟩
    exact ⟨horg, ⟨hwarehouse, htenant hwarehouse⟩, hlive⟩

/-- What the liens in a warehouse of a tenant are worth, before rounding. -/
theorem warehouseRollups_lienedValue {warehouseId tenantId : Id} :
    (warehouseRollups .exact prices now db tenantId warehouseId financierOrgId).lienedValue =
      ((warehouseLiens db tenantId warehouseId financierOrgId).map (lienValue prices now)).sum := by
  refine (valueOf_exact _ _ _).trans (congrArg _ (List.map_congr_left fun x hx => ?_))
  have htenant : x.2.tenantId = tenantId :=
    (of_decide_eq_true (List.mem_filter.mp hx).2).2.1.2
  unfold lienValue
  rw [priceMap_of_mem, htenant]
  rw [List.mem_eraseDups]
  exact List.mem_append_right _ (List.mem_map_of_mem hx)

end Sums

/-- Whatever the live liens and the prices, in exact arithmetic: the total of a financier's
dashboard is what its commodities add up to and what its warehouses add up to, and each
warehouse's value is the one that the list of warehouses computes. -/
theorem exposure_adds_up (labels : Labels) (prices : Table CommodityPrice) (now : Timestamp)
    (db : Db) (financierOrgId : Id)
    (hwarehouses : ∀ r ∈ db.ledger.receipts, ∀ w ∈ db.directory.warehouses,
      w.id = r.warehouseId → w.tenantId = r.tenantId) :
    let board := dashboard .exact labels prices now db financierOrgId
    board.exposure.totalLienedValue = (board.byCommodity.map CommodityBucket.value).sum ∧
      board.exposure.totalLienedValue =
        (board.byWarehouse.map WarehouseBucket.lienedValue).sum ∧
      ∀ entry ∈ board.byWarehouse, ∀ w ∈ db.directory.warehouses, w.id = entry.warehouseId →
        (warehouseRollups .exact prices now db w.tenantId w.id financierOrgId).lienedValue =
            entry.lienedValue ∧
          (computeWarehouseRollups .exact prices now db w.tenantId w.id
            financierOrgId).lienedValue = roundScale 2 entry.lienedValue := by
  intro board
  have htotal : board.exposure.totalLienedValue =
      (board.byCommodity.map CommodityBucket.value).sum := foldl_plus_exact _ _
  refine ⟨htotal, ?_, ?_⟩
  · rw [htotal]
    change ((List.map Prod.snd _).map _).sum = ((List.map Prod.snd _).map _).sum
    rw [List.map_map, List.map_map]
    exact (sum_commodityBuckets _ _).trans (sum_warehouseBuckets _ _).symm
  · intro entry hentry w hw hid
    have htenant : ∀ r ∈ db.ledger.receipts, r.warehouseId = w.id → r.tenantId = w.tenantId :=
      fun r hr hwarehouse => (hwarehouses r hr w hw hwarehouse.symm).symm
    have hvalue : (warehouseRollups .exact prices now db w.tenantId w.id
        financierOrgId).lienedValue = entry.lienedValue := by
      rw [warehouseRollups_lienedValue, warehouseLiens_eq htenant, mem_byWarehouse hentry, hid]
      rfl
    exact ⟨hvalue, congrArg (roundScale 2) hvalue⟩

/-- Tenants 1 and 2, each with a warehouse that organisation 30 is linked to. -/
def twoTenants : Directory where
  users := ⟨[⟨10, 1, none⟩, ⟨11, 1, none⟩, ⟨12, 2, none⟩, ⟨13, 2, none⟩, ⟨20, 1, some 30⟩],
    by decide⟩
  financierOrgs := ⟨[⟨30, .active, none⟩], List.nodup_singleton 30⟩
  warehouseLinks := ⟨[⟨31, 1, 30, 50, .active⟩, ⟨32, 2, 30, 51, .active⟩], by decide⟩
  managerAssignments := Table.empty
  financiers := Table.empty
  warehouses := ⟨[⟨50, 1, true⟩, ⟨51, 2, true⟩], by decide⟩

/-- Ten units, deposited and approved, of which some are under a lien. -/
def lienedStock (n : ℕ) (tenantId clientId adminId commodityId warehouseId : Id) (quantity : ℚ) :
    List Request :=
  [.createDeposit
      { uuids := sampleUuids n, keyUuid := n + 4, checked := .ok (), tenantId := tenantId
        clientId := clientId, commodityId := commodityId, warehouseId := warehouseId
        quantity := 10, grade := none, dateOfDeposit := 0, managerUserId := 14
        currentYear := 2000 + n },
    .approveReceipt (sampleUuids (n + 10)) tenantId (n + 2) adminId,
    .createPledge
      { uuids := sampleUuids (n + 20), pledgeId := n + 7, now := 0, callerUserId := clientId
        receiptId := n + 2, quantity := quantity, financierId := 30, note := none },
    .acceptPledge
      { uuids := sampleUuids (n + 30), lienId := n + 8, now := 0, otp := .ok ()
        callerUserId := 20, pledgeId := n + 7, note := none }]

/-- Six and three units of commodity 60 in tenant 1; four of commodity 61 and five of commodity 62
in tenant 2. -/
def fourLiens (num : Numeric) : Db :=
  runRequests num (lienedStock 100 1 10 11 60 50 6 ++ lienedStock 200 1 10 11 60 50 3 ++
    lienedStock 300 2 12 13 61 51 4 ++ lienedStock 400 2 12 13 62 51 5) (Db.initial twoTenants)

/-- Each tenant prices a commodity of its own; commodity 62 has no price. -/
def samplePrices : Table CommodityPrice :=
  ⟨[⟨70, 1, 60, 3 / 2, "NGN", 0⟩, ⟨71, 2, 61, 2, "NGN", 0⟩], by decide⟩

def sampleLabels : Labels := ⟨fun _ => "Maize", fun _ => "BAG", fun _ => "Kano"⟩

/-- The liens are worth 13.5 in tenant 1 and 8 in tenant 2, and together 21.5. -/
theorem exposure_adds_up_sample :
    let board := dashboard .exact sampleLabels samplePrices 1 (fourLiens .exact) 30
    board.exposure.totalLienedValue = 43 / 2 ∧
      (board.byCommodity.map CommodityBucket.value).sum = 43 / 2 ∧
      board.byWarehouse.map (fun w => (w.warehouseId, w.lienedValue)) = [(50, 27 / 2), (51, 8)] ∧
      (board.byWarehouse.map WarehouseBucket.lienedValue).sum = 43 / 2 := by
  have hwarehouses : ∀ r ∈ (fourLiens .exact).ledger.receipts.rows,
      ∀ w ∈ (fourLiens .exact).directory.warehouses.rows,
        w.id = r.warehouseId → w.tenantId = r.tenantId := by decide +kernel
  have hvalue : (dashboard .exact sampleLabels samplePrices 1 (fourLiens .exact)
      30).exposure.totalLienedValue = 43 / 2 := by decide +kernel
  obtain ⟨hcommodity, hsum, -⟩ :=
    exposure_adds_up sampleLabels samplePrices 1 (fourLiens .exact) 30 hwarehouses
  exact ⟨hvalue, hcommodity.symm.trans hvalue, by decide +kernel, hsum.symm.trans hvalue⟩

end SecureStore.Valuation
