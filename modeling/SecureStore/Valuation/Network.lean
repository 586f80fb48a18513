/-
# The figures of the network

The overview shows one row for each tenant, with what its warehouses store and what of it is
under liens. The list of warehouses shows the same for each warehouse, a page at a time. The
first leaves out the receipts whose status is on a list of those that are gone, the second
counts those whose status is on a list of those that are there, and a deposit awaiting its
approval is on neither list.
-/

import SecureStore.Collateral.Tenancy
import SecureStore.Valuation.Portfolio

namespace SecureStore.Valuation

open SecureStore.Foundation SecureStore.Inventory SecureStore.Services
open SecureStore.Transactions (Text pageText pageOf_pageText slice slice_window windows_eq_take
  le_pages_mul)

structure Tenant where
  id : Id
  name : String
  deriving DecidableEq

instance : Keyed Tenant Id := ⟨Tenant.id⟩

/-- What is selected of users and of warehouses, and how the database searches names when case
does not matter. -/
structure NetworkColumns where
  isClient : Id → Bool
  tenantName : Id → String
  name : Id → String
  code : Id → String
  location : Id → String
  status : Id → String
  createdAt : Id → Timestamp
  contains : String → String → Bool

/-- The statuses of what is gone. -/
def outStatuses : List ReceiptStatus :=
  [.split, .withdrawn, .tradedOut, .seized, .expired, .cancelled]

/-! ## The two listings -/

structure DistributionRow where
  tenantId : Id
  name : String
  warehouses : ℕ
  clients : ℕ
  storedValue : ℚ
  lienedValue : ℚ
  deriving DecidableEq

structure NetworkQuery where
  search : Option String := none
  tenantId : Option Id := none
  page : Option Text := none
  limit : Option Text := none

/-- A warehouse as the list shows it. -/
structure NetworkWarehouse where
  id : Id
  name : String
  code : String
  location : String
  status : String
  managerCount : ℕ
  clientCount : ℕ
  activeReceipts : ℕ
  tenantId : Id
  tenantName : String
  storedValue : ℚ
  lienedValue : ℚ
  deriving DecidableEq

structure NetworkPage where
  items : List NetworkWarehouse
  total : ℕ
  page : Option ℤ
  limit : Option ℤ
  totalPages : ℕ
  deriving DecidableEq

section Listings

variable (ar : Arithmetic) (columns : NetworkColumns) (prices : Table CommodityPrice)
  (now : Timestamp)

/-- The value of a stock, summed by commodity, and that of liens, at the prices of a tenant. -/
def valuesAt (tenantId : Id) (stock : List Receipt) (liens : List (Lien × Receipt)) : ℚ × ℚ :=
  let storedAgg := groupSums Receipt.commodityId Receipt.quantity stock
  let cids := (storedAgg.map Prod.fst ++ liens.map fun x => x.2.commodityId).eraseDups
  let price := priceMap cids (currentPrice prices now tenantId)
  (valueOf ar (fun g => price g.1) Prod.snd storedAgg,
    valueOf ar (fun x => price x.2.commodityId) (fun x => x.1.remainingQuantity) liens)

/-- The row of a tenant, the values before they are rounded to two decimals. -/
def distribution (db : Db) (t : Tenant) : DistributionRow :=
  let values := valuesAt ar prices now t.id
    (db.ledger.receipts.rows.filter fun r => r.tenantId = t.id ∧ r.status ∉ outStatuses)
    (liensWith db fun l _ => l.tenantId = t.id ∧ l.status.Live)
  { tenantId := t.id, name := t.name
    warehouses := db.directory.warehouses.rows.countP fun w => w.tenantId = t.id
    clients := db.directory.users.rows.countP fun u => u.tenantId = t.id ∧ columns.isClient u.id
    storedValue := values.1
    lienedValue := values.2 }

def getDistribution (db : Db) (tenants : Table Tenant) : List DistributionRow :=
  tenants.rows.map fun t =>
    let row := distribution ar columns prices now db t
    { row with
      storedValue := roundScale 2 row.storedValue
      lienedValue := roundScale 2 row.lienedValue }

/-- The row of a warehouse, the values before they are rounded to two decimals. -/
def networkWarehouse (db : Db) (w : Warehouse) : NetworkWarehouse :=
  let values := valuesAt ar prices now w.tenantId
    (db.ledger.receipts.rows.filter fun r =>
      r.warehouseId = w.id ∧ r.status ∈ inWarehouseStatuses)
    (liensWith db fun l r => r.warehouseId = w.id ∧ l.status.Live)
  { id := w.id, name := columns.name w.id, code := columns.code w.id
    location := columns.location w.id, status := columns.status w.id
    managerCount := db.directory.managerAssignments.rows.countP fun a =>
      a.warehouseId = w.id ∧ a.unassignedAt = none
    clientCount := ((db.ledger.receipts.rows.filter fun r =>
      r.warehouseId = w.id ∧ r.status ∉ outStatuses).map Receipt.clientId).dedup.length
    activeReceipts := db.ledger.receipts.rows.countP fun r =>
      r.warehouseId = w.id ∧ r.status ∈ inWarehouseStatuses
    tenantId := w.tenantId, tenantName := columns.tenantName w.tenantId
    storedValue := values.1
    lienedValue := values.2 }

/-- The filter of the list. -/
def NetworkQuery.keeps (query : NetworkQuery) (w : Warehouse) : Bool :=
  decide (∀ id ∈ query.tenantId, w.tenantId = id) &&
    (query.search.filter (· ≠ "")).all fun search =>
      columns.contains (columns.name w.id) search || columns.contains (columns.code w.id) search ||
        columns.contains (columns.location w.id) search ||
        columns.contains (columns.tenantName w.tenantId) search

/-- Newest first. -/
def createdLater (v w : Warehouse) : Prop := columns.createdAt w.id ≤ columns.createdAt v.id

instance : DecidableRel (createdLater columns) := fun v w =>
  inferInstanceAs (Decidable (columns.createdAt w.id ≤ columns.createdAt v.id))

/-- The warehouses that match the filter, in order. -/
def matchingWarehouses (db : Db) (query : NetworkQuery) : List Warehouse :=
  (db.directory.warehouses.rows.filter (query.keeps columns)).insertionSort (createdLater columns)

/-- A page of the list, the values before they are rounded to two decimals. -/
def networkPage (db : Db) (query : NetworkQuery) : Except ApiError NetworkPage := do
  let page := pageArg query.page
  let limit := limitArg query.limit
  let matching := matchingWarehouses columns db query
  let rows ← findPage matching page limit
  pure
    { items := rows.map (networkWarehouse ar columns prices now db)
      total := matching.length, page, limit
      totalPages := (matching.length + (limit.getD 1).toNat - 1) / (limit.getD 1).toNat }

def listNetworkWarehouses (db : Db) (query : NetworkQuery) : Except ApiError NetworkPage := do
  let page ← networkPage ar columns prices now db query
  pure
    { page with
      items := page.items.map fun row =>
        { row with
          storedValue := roundScale 2 row.storedValue
          lienedValue := roundScale 2 row.lienedValue } }

/-- The rows of a page, none of a query that is refused. -/
def pageItems (db : Db) (query : NetworkQuery) : List NetworkWarehouse :=
  (networkPage ar columns prices now db query).toOption.elim [] NetworkPage.items

/-- The rows of all pages, in order. -/
def allPageItems (db : Db) (query : NetworkQuery) : List NetworkWarehouse :=
  let first := networkPage ar columns prices now db { query with page := none }
  let totalPages := first.toOption.elim 0 NetworkPage.totalPages
  (List.range totalPages).flatMap fun i =>
    pageItems ar columns prices now db { query with page := some (pageText (i + 1)) }

end Listings

/-! ## What adds up -/

/-- A receipt of a tenant in a warehouse that is not the tenant's. -/
def Abroad (d : Directory) (t : Id) (r : Receipt) : Prop :=
  r.tenantId = t ∧ ¬ d.Houses r.warehouseId t

/-- A receipt of another tenant in a warehouse of the tenant. -/
def Guest (d : Directory) (t : Id) (r : Receipt) : Prop :=
  r.tenantId ≠ t ∧ d.Houses r.warehouseId t

instance (d : Directory) (warehouseId tenantId : Id) : Decidable (d.Houses warehouseId tenantId) :=
  List.decidableBEx _ d.warehouses.rows

instance (d : Directory) (t : Id) : DecidablePred (Abroad d t) := fun _ => instDecidableAnd

instance (d : Directory) (t : Id) : DecidablePred (Guest d t) := fun _ => instDecidableAnd

/-- What lies in the warehouses. -/
def inStock (db : Db) : List Receipt :=
  db.ledger.receipts.rows.filter fun r => r.status ∈ inWarehouseStatuses

/-- The live liens, with their receipts. -/
def liveLiens (db : Db) : List (Lien × Receipt) := liensWith db fun l _ => l.status.Live

section Sums

variable {columns : NetworkColumns} {prices : Table CommodityPrice} {now : Timestamp} {db : Db}
  {query : NetworkQuery}

/-- What a receipt is worth at the prices of a tenant. -/
def stockValue (prices : Table CommodityPrice) (now : Timestamp) (tenantId : Id) (r : Receipt) :
    ℚ :=
  worth (currentPrice prices now tenantId r.commodityId) * r.quantity

/-- What a lien is worth at the prices of a tenant. -/
def lienValueAt (prices : Table CommodityPrice) (now : Timestamp) (tenantId : Id)
    (x : Lien × Receipt) : ℚ :=
  worth (currentPrice prices now tenantId x.2.commodityId) * x.1.remainingQuantity

/-- Valuing the sums of the commodities is valuing each receipt. -/
theorem valuesAt_stored (tenantId : Id) (stock : List Receipt) (liens : List (Lien × Receipt)) :
    (valuesAt .exact prices now tenantId stock liens).1 =
      (stock.map (stockValue prices now tenantId)).sum := by
  unfold valuesAt
  dsimp only
  rw [valueOf_exact]
  generalize hcids : ((groupSums Receipt.commodityId Receipt.quantity stock).map Prod.fst ++
    liens.map fun x => x.2.commodityId).eraseDups = cids
  have hsum : ((groupSums Receipt.commodityId Receipt.quantity stock).map fun g =>
      worth (priceMap cids (currentPrice prices now tenantId) g.1) * g.2).sum =
        (stock.map fun r => worth (priceMap cids (currentPrice prices now tenantId)
          r.commodityId) * r.quantity).sum :=
    sum_groupSums fun id =>
      AddMonoidHom.mulLeft (worth (priceMap cids (currentPrice prices now tenantId) id))
  refine hsum.trans (congrArg _ (List.map_congr_left fun r hr => ?_))
  have hmem : r.commodityId ∈ cids := by
    rw [← hcids, List.mem_eraseDups]
    refine List.mem_append_left _ ?_
    unfold groupSums
    rw [List.map_map, List.mem_map]
    exact ⟨r.commodityId, List.mem_dedup.mpr (List.mem_map_of_mem hr), rfl⟩
  rw [priceMap_of_mem hmem]
  rfl

theorem valuesAt_liened (tenantId : Id) (stock : List Receipt) (liens : List (Lien × Receipt)) :
    (valuesAt .exact prices now tenantId stock liens).2 =
      (liens.map (lienValueAt prices now tenantId)).sum := by
  refine (valueOf_exact _ _ _).trans (congrArg _ (List.map_congr_left fun x hx => ?_))
  rw [priceMap_of_mem]
  · rfl
  · rw [List.mem_eraseDups]
    exact List.mem_append_right _ (List.mem_map_of_mem hx)

/-- All pages together list every warehouse that matches, if their size is a number. -/
theorem allPageItems_eq {ar : Arithmetic} (hlimit : limitArg query.limit ≠ none) :
    allPageItems ar columns prices now db query =
      (matchingWarehouses columns db query).map
        (networkWarehouse ar columns prices now db) := by
  obtain ⟨n, hn⟩ := Option.ne_none_iff_exists'.mp hlimit
  have hpos : 1 ≤ n := by
    obtain ⟨m, -, rfl⟩ := Option.map_eq_some_iff.mp hn
    omega
  obtain ⟨k, rfl⟩ := Int.eq_ofNat_of_zero_le (by omega : 0 ≤ n)
  have hk : 0 < k := by omega
  have hfirst : pageArg none = some 1 := by decide
  generalize hrows : matchingWarehouses columns db query = rows
  have hpages : (networkPage ar columns prices now db { query with page := none }).toOption.elim 0
      NetworkPage.totalPages = (rows.length + k - 1) / k := by
    unfold networkPage findPage
    simp only [hfirst, hn, reduceCtorEq, or_self, if_false]
    exact congrArg (fun rows : List Warehouse => (rows.length + k - 1) / k) hrows
  have hpage : ∀ i, pageItems ar columns prices now db
      { query with page := some (pageText (i + 1)) } =
        ((rows.take ((i + 1) * k)).drop (i * k)).map
          (networkWarehouse ar columns prices now db) := by
    intro i
    have hnumber : pageArg (some (pageText (i + 1))) = some ((i + 1 : ℕ) : ℤ) := pageOf_pageText i
    unfold pageItems networkPage findPage
    simp only [hnumber, hn, reduceCtorEq, or_self, if_false]
    change ((slice (matchingWarehouses columns db query) _ _).map _) = _
    rw [hrows, slice_window]
  unfold allPageItems
  dsimp only
  rw [hpages, funext hpage, ← List.map_flatMap, windows_eq_take, List.take_of_length_le]
  exact le_pages_mul rows.length hk

/-- Rows in a tenant's warehouses sum to the same, one warehouse after the other or at once. -/
theorem sum_warehouses {α : Type} (warehouse : α → Id) (v : α → ℚ) (rows : List α) (t : Id) :
    ((db.directory.warehouses.rows.filter fun w => w.tenantId = t).map fun w =>
        ((rows.filter fun a => warehouse a = w.id).map v).sum).sum =
      ((rows.filter fun a => db.directory.Houses (warehouse a) t).map v).sum := by
  generalize hws : (db.directory.warehouses.rows.filter fun w => w.tenantId = t) = ws
  have hmem : ∀ w, w ∈ ws ↔ w ∈ db.directory.warehouses ∧ w.tenantId = t := by
    intro w
    rw [← hws, List.mem_filter, decide_eq_true_eq]
    rfl
  have hrows : ∀ w ∈ ws, (rows.filter fun a => warehouse a = w.id) =
      (rows.filter fun a => db.directory.Houses (warehouse a) t).filter fun a =>
        warehouse a = w.id := by
    intro w hw
    obtain ⟨hw, htenant⟩ := (hmem w).mp hw
    rw [List.filter_filter]
    refine List.filter_congr fun a ha => ?_
    rw [Bool.eq_iff_iff, Bool.and_eq_true, decide_eq_true_eq, decide_eq_true_eq]
    exact (and_iff_left_of_imp fun hid => ⟨w, hw, hid.symm, htenant⟩).symm
  have hsums : (ws.map fun w => ((rows.filter fun a => warehouse a = w.id).map v).sum) =
      (ws.map Warehouse.id).map
        (sumOn warehouse v (rows.filter fun a => db.directory.Houses (warehouse a) t)) := by
    rw [List.map_map]
    refine List.map_congr_left fun w hw => ?_
    rw [hrows w hw]
    rfl
  rw [hsums]
  apply sum_sumOn
  · rw [← hws]
    exact db.directory.warehouses.nodup.sublist (List.filter_sublist.map _)
  · intro a ha
    obtain ⟨w, hw, hid, htenant⟩ := of_decide_eq_true (List.mem_filter.mp ha).2
    rw [← hid]
    exact List.mem_map_of_mem ((hmem w).mpr ⟨hw, htenant⟩)

/-- Rows of a tenant and rows in its warehouses differ in those of either kind only. -/
theorem sum_tenant_add_guests {α : Type} (d : Directory) (x : α → Receipt) (v : α → ℚ)
    (rows : List α) (t : Id) :
    ((rows.filter fun a => (x a).tenantId = t).map v).sum +
        ((rows.filter fun a => Guest d t (x a)).map v).sum =
      ((rows.filter fun a => d.Houses (x a).warehouseId t).map v).sum +
        ((rows.filter fun a => Abroad d t (x a)).map v).sum := by
  rw [sum_filter, sum_filter, sum_filter, sum_filter, ← List.sum_map_add, ← List.sum_map_add]
  refine congrArg _ (List.map_congr_left fun a _ => ?_)
  by_cases ht : (x a).tenantId = t <;> by_cases hhouses : d.Houses (x a).warehouseId t <;>
    simp [ht, hhouses, Guest, Abroad]

/-- The rows of a tenant on all pages, for a query that does not exclude any of them. -/
theorem perm_tenantWarehouses {t : Id} (hsearch : query.search = none)
    (htenant : ∀ id ∈ query.tenantId, id = t) :
    ((matchingWarehouses columns db query).filter fun w => w.tenantId = t).Perm
      (db.directory.warehouses.rows.filter fun w => w.tenantId = t) := by
  unfold matchingWarehouses
  refine ((List.perm_insertionSort _ _).filter _).trans (.of_eq ?_)
  rw [List.filter_filter]
  refine List.filter_congr fun w _ => ?_
  unfold NetworkQuery.keeps
  rw [hsearch, Bool.eq_iff_iff, Bool.and_eq_true, decide_eq_true_eq]
  refine and_iff_left_of_imp fun hw => ?_
  rw [Bool.and_eq_true, decide_eq_true_eq]
  exact ⟨fun id hid => hw.trans (htenant id hid).symm, rfl⟩

/-- What the rows of a tenant on all pages show sums to what is shown of its warehouses. -/
theorem sum_allPageItems {t : Id} (hsearch : query.search = none)
    (htenant : ∀ id ∈ query.tenantId, id = t) (hlimit : limitArg query.limit ≠ none)
    (value : NetworkWarehouse → ℚ) :
    (((allPageItems .exact columns prices now db query).filter fun row =>
        row.tenantId = t).map value).sum =
      ((db.directory.warehouses.rows.filter fun w => w.tenantId = t).map fun w =>
        value (networkWarehouse .exact columns prices now db w)).sum := by
  rw [allPageItems_eq hlimit, List.filter_map, List.map_map]
  exact ((perm_tenantWarehouses hsearch htenant).map _).sum_eq

theorem out_iff (status : ReceiptStatus) :
    status ∉ outStatuses ↔ status ∈ inWarehouseStatuses ∨ status = .pendingApproval := by
  cases status <;> decide

/-- A tenant's row shows what lies in the warehouses and what awaits approval. -/
theorem distribution_storedValue (t : Tenant) :
    (distribution .exact columns prices now db t).storedValue =
      (((inStock db).filter fun r => r.tenantId = t.id).map (stockValue prices now t.id)).sum +
      ((db.ledger.receipts.rows.filter fun r =>
        r.tenantId = t.id ∧ r.status = .pendingApproval).map (stockValue prices now t.id)).sum := by
  refine (valuesAt_stored _ _ _).trans ?_
  unfold inStock
  rw [List.filter_filter, sum_filter, sum_filter, sum_filter, ← List.sum_map_add]
  refine congrArg _ (List.map_congr_left fun r _ => ?_)
  have hapart : r.status = .pendingApproval → r.status ∉ inWarehouseStatuses := by
    intro hpending
    rw [hpending]
    decide
  by_cases ht : r.tenantId = t.id <;> by_cases hpending : r.status = .pendingApproval <;>
    by_cases hin : r.status ∈ inWarehouseStatuses <;> simp_all [out_iff]

/-- What the pages show as stored is what lies in the warehouses of the tenant. -/
theorem sum_storedValue {t : Id} (hsearch : query.search = none)
    (htenant : ∀ id ∈ query.tenantId, id = t) (hlimit : limitArg query.limit ≠ none) :
    (((allPageItems .exact columns prices now db query).filter fun row =>
        row.tenantId = t).map NetworkWarehouse.storedValue).sum =
      (((inStock db).filter fun r => db.directory.Houses r.warehouseId t).map
        (stockValue prices now t)).sum := by
  rw [sum_allPageItems hsearch htenant hlimit, ← sum_warehouses]
  refine congrArg _ (List.map_congr_left fun w hw => ?_)
  have htenant : w.tenantId = t := of_decide_eq_true (List.mem_filter.mp hw).2
  unfold networkWarehouse inStock
  dsimp only
  rw [valuesAt_stored, htenant, List.filter_filter]
  simp only [Bool.decide_and]

/-- What the pages show under liens is what is under liens in the warehouses of the tenant. -/
theorem sum_lienedValue {t : Id} (hsearch : query.search = none)
    (htenant : ∀ id ∈ query.tenantId, id = t) (hlimit : limitArg query.limit ≠ none) :
    (((allPageItems .exact columns prices now db query).filter fun row =>
        row.tenantId = t).map NetworkWarehouse.lienedValue).sum =
      (((liveLiens db).filter fun x => db.directory.Houses x.2.warehouseId t).map
        (lienValueAt prices now t)).sum := by
  rw [sum_allPageItems hsearch htenant hlimit, ← sum_warehouses]
  refine congrArg _ (List.map_congr_left fun w hw => ?_)
  have htenant : w.tenantId = t := of_decide_eq_true (List.mem_filter.mp hw).2
  unfold networkWarehouse liveLiens liensWith
  dsimp only
  rw [valuesAt_liened, htenant, List.filter_filter]
  simp only [Bool.decide_and]

/-- A tenant's row shows the liens on its receipts, when liens are of their receipts' tenants. -/
theorem distribution_lienedValue (t : Tenant)
    (htenanted : ∀ l ∈ db.liens, OfTenant db.ledger l.receiptId l.tenantId) :
    (distribution .exact columns prices now db t).lienedValue =
      (((liveLiens db).filter fun x => x.2.tenantId = t.id).map
        (lienValueAt prices now t.id)).sum := by
  have hsame : ∀ x ∈ liveLiens db,
      decide (x.2.tenantId = t.id) = decide (x.1.tenantId = t.id) := by
    intro x hx
    obtain ⟨hl, hfind, -⟩ := mem_liensWith.mp hx
    obtain ⟨r, hr, hid, htenant⟩ := htenanted x.1 hl
    have hfound : some x.2 = some r := hfind.symm.trans (hid ▸ Table.find_of_mem hr)
    obtain rfl := Option.some_inj.mp hfound
    rw [htenant]
  rw [List.filter_congr hsame]
  unfold distribution liveLiens liensWith
  dsimp only
  rw [valuesAt_liened, List.filter_filter]
  simp only [Bool.decide_and]

end Sums

/-- In every reachable state, in exact arithmetic, whatever the prices: what a tenant's row
shows as stored and as under liens is what the rows of its warehouses show on all pages, exactly
when its deposits that await approval and what it has in the warehouses of others are worth as
much as what others have in its warehouses, and the same of what is under liens there. -/
theorem network_adds_up_iff {num : Numeric} {directory : Directory} {requests : List Request}
    {trace : List (Transition Label Db)} {db : Db} {pool : List (Api Unit)}
    (hrun : Run (Db.initial directory) (requests.map (Request.run num)) trace db pool)
    (columns : NetworkColumns) (prices : Table CommodityPrice) (now : Timestamp) (t : Tenant)
    (query : NetworkQuery) (hsearch : query.search = none)
    (htenant : ∀ id ∈ query.tenantId, id = t.id) (hlimit : limitArg query.limit ≠ none) :
    let row := distribution .exact columns prices now db t
    let rows := (allPageItems .exact columns prices now db query).filter fun row =>
      row.tenantId = t.id
    let pending := ((db.ledger.receipts.rows.filter fun r =>
      r.tenantId = t.id ∧ r.status = .pendingApproval).map (stockValue prices now t.id)).sum
    let stored (p : Receipt → Bool) :=
      (((inStock db).filter fun r => p r).map (stockValue prices now t.id)).sum
    let liened (p : Receipt → Bool) :=
      (((liveLiens db).filter fun x => p x.2).map (lienValueAt prices now t.id)).sum
    (row.storedValue = (rows.map NetworkWarehouse.storedValue).sum ∧
        row.lienedValue = (rows.map NetworkWarehouse.lienedValue).sum) ↔
      pending + stored (fun r => Abroad directory t.id r) =
          stored (fun r => Guest directory t.id r) ∧
        liened (fun r => Abroad directory t.id r) = liened (fun r => Guest directory t.id r) := by
  intro row rows pending stored liened
  have hdirectory : db.directory = directory :=
    (custody_later (runs_custody num directory requests hrun).rely).directory
  subst hdirectory
  refine and_congr ?_ ?_
  · have hrow : row.storedValue = stored (fun r => r.tenantId = t.id) + pending :=
      distribution_storedValue t
    have hpages : (rows.map NetworkWarehouse.storedValue).sum =
        stored fun r => db.directory.Houses r.warehouseId t.id :=
      sum_storedValue hsearch htenant hlimit
    have hsplit : stored (fun r => r.tenantId = t.id) +
      stored (fun r => Guest db.directory t.id r) =
        stored (fun r => db.directory.Houses r.warehouseId t.id) +
          stored (fun r => Abroad db.directory t.id r) :=
      sum_tenant_add_guests db.directory id _ (inStock db) t.id
    rw [hrow, hpages]
    constructor <;> intro h <;> linarith
  · have hrow : row.lienedValue = liened (fun r => r.tenantId = t.id) :=
      distribution_lienedValue t (runs_tenanted hrun).liens
    have hpages : (rows.map NetworkWarehouse.lienedValue).sum =
        liened fun r => db.directory.Houses r.warehouseId t.id :=
      sum_lienedValue hsearch htenant hlimit
    have hsplit : liened (fun r => r.tenantId = t.id) +
      liened (fun r => Guest db.directory t.id r) =
        liened (fun r => db.directory.Houses r.warehouseId t.id) +
          liened (fun r => Abroad db.directory t.id r) :=
      sum_tenant_add_guests db.directory Prod.snd _ (liveLiens db) t.id
    rw [hrow, hpages]
    constructor <;> intro h <;> linarith

/-- When deposits are into warehouses of their tenants, nothing lies in a warehouse of another
tenant, and the deposits that await approval alone make the difference. -/
theorem none_abroad {num : Numeric} {directory : Directory} {requests : List Request}
    (hdeposits : DepositsHoused directory requests) {trace : List (Transition Label Db)} {db : Db}
    {pool : List (Api Unit)}
    (hrun : Run (Db.initial directory) (requests.map (Request.run num)) trace db pool) (t : Id) :
    ∀ r ∈ db.ledger.receipts, ¬ Abroad directory t r ∧ ¬ Guest directory t r := by
  intro r hr
  obtain ⟨w, hw, hid, htenant⟩ := runs_housed hdeposits hrun r hr
  constructor
  · rintro ⟨rfl, hnot⟩
    exact hnot ⟨w, hw, hid, htenant⟩
  · rintro ⟨hother, w', hw', hid', rfl⟩
    obtain rfl : w' = w := Table.eq_of_key_eq hw' hw (hid'.trans hid.symm)
    exact hother htenant.symm

/-- What the sample directory selects; the search finds nothing. -/
def networkColumns : NetworkColumns where
  isClient _ := true
  tenantName _ := "Silos"
  name _ := "Kano"
  code _ := "KN"
  location _ := "Kano"
  status _ := "ACTIVE"
  createdAt _ := 0
  contains _ _ := false

/-- Warehouse 50 belongs to tenant 1. -/
def housedDirectory : Directory :=
  { sampleDirectory with warehouses := ⟨[⟨50, 1, true⟩], List.nodup_singleton 50⟩ }

/-- Ten units are deposited and, as far as the requests run, approved; six of them are pledged
and the pledge is accepted. -/
def networkRequests : List Request := sampleStock ++ [samplePledge, sampleAcceptance]

def networkRun (schedule : List ℕ) : List (Transition Label Db) × Db × List (Api Unit) :=
  interleave schedule (Db.initial housedDirectory) (networkRequests.map (Request.run .postgres))

/-- What is shown of tenant 1 as stored and as under liens, in its row and on all pages. -/
def networkFigures (db : Db) : (ℚ × ℚ) × ℚ × ℚ :=
  let row := distribution .exact networkColumns samplePrices 1 db ⟨1, "Silos"⟩
  let rows := (allPageItems .exact networkColumns samplePrices 1 db {}).filter fun row =>
    row.tenantId = 1
  ((row.storedValue, row.lienedValue),
    (rows.map NetworkWarehouse.storedValue).sum, (rows.map NetworkWarehouse.lienedValue).sum)

/-- The steps up to the acceptance of the pledge. -/
def networkSchedule : List ℕ := [0, 1] ++ List.replicate 12 2 ++ List.replicate 14 3

/-- With the deposit approved, the figures agree. -/
theorem network_adds_up_sample :
    networkFigures (networkRun networkSchedule).2.1 = ((15, 9), 15, 9) := by
  have hrun : Run (Db.initial housedDirectory) (networkRequests.map (Request.run .postgres))
      (networkRun networkSchedule).1 (networkRun networkSchedule).2.1
      (networkRun networkSchedule).2.2 := run_interleave _ _ _
  have hrow : (networkFigures (networkRun networkSchedule).2.1).1 = (15, 9) := by decide +kernel
  obtain ⟨hstored, hliened⟩ := (network_adds_up_iff hrun networkColumns samplePrices 1
    ⟨1, "Silos"⟩ {} rfl (by simp) (by decide)).mpr (by decide +kernel)
  obtain ⟨hrow₁, hrow₂⟩ := Prod.mk.inj hrow
  exact congrArg₂ _ hrow (congrArg₂ _ (hstored.symm.trans hrow₁) (hliened.symm.trans hrow₂))

/-- Before the approval, the tenant's row shows ten units that no warehouse has. -/
theorem pending_in_one_listing :
    networkFigures (networkRun [0]).2.1 = ((15, 0), 0, 0) := by
  decide +kernel

end SecureStore.Valuation
