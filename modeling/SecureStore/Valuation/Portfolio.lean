/-
# The lien portfolio

A financier lists its liens a page at a time, and opens one of them. Both value a lien at the
current price of its commodity, the list through a map of the prices of the commodities on the
page. The map is filled with the prices of one tenant, that of the first lien on the page, so
the list and the detail agree as long as the tenants on the page price alike what they share a
page with.
-/

import SecureStore.Transactions.Listing
import SecureStore.Valuation.Exposure

namespace SecureStore.Valuation

open SecureStore.Foundation SecureStore.Inventory SecureStore.Services
open SecureStore.Transactions (Text parseInt truthy pageOf slice)

/-- `status`, as the enumeration spells it. -/
def lienStatusText : LienStatus → String
  | .active => "ACTIVE"
  | .partiallyReleased => "PARTIALLY_RELEASED"
  | .released => "RELEASED"
  | .forceReleased => "FORCE_RELEASED"

def lienStatuses : List LienStatus := [.active, .partiallyReleased, .released, .forceReleased]

/-- `Math.max(1, parseInt(page || '1', 10))` -/
def pageArg (arg : Option Text) : Option ℤ := pageOf { page := arg }

/-- `Math.min(100, Math.max(1, parseInt(limit || '20', 10)))` -/
def limitArg (arg : Option Text) : Option ℤ :=
  (parseInt ((truthy arg).getD ['2', '0'])).map fun n => min 100 (max 1 n)

/-- `skip` and `take` of a query, which refuses what is no number. -/
def findPage {α : Type} (rows : List α) (page limit : Option ℤ) : Except ApiError (List α) :=
  if page = none ∨ limit = none then .error .invalidNumber else .ok (slice rows page limit)

structure LienQuery where
  status : Option String := none
  clientId : Option Id := none
  warehouseId : Option Id := none
  commodity : Option String := none
  page : Option Text := none
  limit : Option Text := none

/-- What is selected of the rows that a lien refers to, the time it was placed at, and how the
database compares names when case does not matter. -/
structure LienColumns extends Labels where
  placedAt : Id → Timestamp
  clientName : Id → String × String
  financierName : Id → String
  logoUrl : Id → Option String
  sameName : String → String → Bool

structure LienReceipt where
  id : Id
  receiptNumber : List Char
  commodity : String
  grade : Option String
  unit : String
  deriving DecidableEq

/-- A lien as the table of the portfolio shows it. -/
structure LienItem where
  id : Id
  pledgeId : Id
  receipt : LienReceipt
  clientId : Id
  clientName : String
  financierId : Id
  financierName : String
  logoUrl : Option String
  warehouseId : Id
  warehouseName : String
  quantity : ℚ
  remainingQuantity : ℚ
  currentValuation : Option ℚ
  currency : String
  status : LienStatus
  placedAt : Timestamp
  releasedAt : Option Timestamp
  deriving DecidableEq

structure LienPage where
  items : List LienItem
  total : ℕ
  page : Option ℤ
  limit : Option ℤ
  totalPages : ℕ
  deriving DecidableEq

section Portfolio

variable (ar : Arithmetic) (columns : LienColumns) (prices : Table CommodityPrice)
  (now : Timestamp)

/-- A status to filter by; the enumeration refuses what is none of its values. -/
def statusArg (arg : Option String) : Except ApiError (Option LienStatus) :=
  match arg.filter (· ≠ "") with
  | none => .ok none
  | some text =>
      match lienStatuses.find? fun status => lienStatusText status = text with
      | none => .error (.badRequest text)
      | some status => .ok (some status)

/-- The filter of the list. -/
def lienFilter (financierOrgId : Id) (query : LienQuery) :
    Except ApiError (Lien → Receipt → Bool) := do
  let status ← statusArg query.status
  pure fun l r =>
    l.financierOrgId = financierOrgId ∧ (∀ s ∈ status, l.status = s) ∧
      (∀ id ∈ query.clientId, l.clientId = id) ∧ (∀ id ∈ query.warehouseId, r.warehouseId = id) ∧
        ∀ name ∈ query.commodity.filter (· ≠ ""),
          columns.sameName (columns.commodityName r.commodityId) name = true

/-- Newest first. -/
def placedLater (x y : Lien × Receipt) : Prop := columns.placedAt y.1.id ≤ columns.placedAt x.1.id

instance : DecidableRel (placedLater columns) := fun x y =>
  inferInstanceAs (Decidable (columns.placedAt y.1.id ≤ columns.placedAt x.1.id))

/-- What matches the filter, in order. -/
def matchingLiens (db : Db) (keep : Lien → Receipt → Bool) : List (Lien × Receipt) :=
  (liensWith db keep).insertionSort (placedLater columns)

def projectLien (x : Lien × Receipt) (price : Id → Option CommodityPrice) : LienItem :=
  let found := price x.2.commodityId
  { id := x.1.id, pledgeId := x.1.pledgeId
    receipt :=
      { id := x.2.id, receiptNumber := x.2.receiptNumber
        commodity := columns.commodityName x.2.commodityId, grade := x.2.grade
        unit := columns.unitOfMeasure x.2.commodityId }
    clientId := x.1.clientId
    clientName := (columns.clientName x.1.clientId).1 ++ " " ++ (columns.clientName x.1.clientId).2
    financierId := x.1.financierOrgId
    financierName := columns.financierName x.1.financierOrgId
    logoUrl := columns.logoUrl x.1.financierOrgId
    warehouseId := x.2.warehouseId, warehouseName := columns.warehouseName x.2.warehouseId
    quantity := x.1.quantity, remainingQuantity := x.1.remainingQuantity
    currentValuation := found.map fun p => ar.times p.pricePerUnit x.1.remainingQuantity
    currency := (found.map CommodityPrice.currency).getD "NGN"
    status := x.1.status, placedAt := columns.placedAt x.1.id, releasedAt := x.1.releasedAt }

/-- The prices of the commodities on a page: those of the first lien's tenant. -/
def pagePrices (rows : List (Lien × Receipt)) : Id → Option CommodityPrice :=
  priceMap (rows.map fun x => x.2.commodityId) fun commodityId =>
    rows.head?.bind fun x => currentPrice prices now x.1.tenantId commodityId

def listFinancierLiens (callerUserId : Id) (query : LienQuery) : Api LienPage := do
  let org ← requireFinancierOrg callerUserId
  let keep ← Attempt.ofExcept (lienFilter columns org.id query)
  let page := pageArg query.page
  let limit := limitArg query.limit
  let matching ← Api.query fun db => matchingLiens columns db keep
  let rows ← Attempt.ofExcept (findPage matching page limit)
  pure
    { items := rows.map fun x => projectLien ar columns x (pagePrices prices now rows)
      total := matching.length, page, limit
      totalPages := (matching.length + (limit.getD 1).toNat - 1) / (limit.getD 1).toNat }

/-- A lien of the organisation, with its receipt. -/
def findLien (financierOrgId lienId : Id) (db : Db) : Option (Lien × Receipt) := do
  let l ← (db.liens.find lienId).filter fun l => l.financierOrgId = financierOrgId
  let r ← db.ledger.receipts.find l.receiptId
  pure (l, r)

def getFinancierLienDetail (callerUserId lienId : Id) : Api LienItem := do
  let org ← requireFinancierOrg callerUserId
  let found ← Api.query (findLien org.id lienId)
  let x ← Api.orThrow found (.notFound "Lien not found")
  pure (projectLien ar columns x (priceMap [x.2.commodityId] fun commodityId =>
    currentPrice prices now x.1.tenantId commodityId))

/-- The liens on a page. -/
def pageRows (db : Db) (financierOrgId : Id) (query : LienQuery) :
    Except ApiError (List (Lien × Receipt)) := do
  let keep ← lienFilter columns financierOrgId query
  findPage (matchingLiens columns db keep) (pageArg query.page) (limitArg query.limit)

/-! ## One value for a lien -/

/-- Two prices show a lien alike: with no value, or with one value in one currency. -/
def ShowAlike (l : Lien) (price price' : Option CommodityPrice) : Prop :=
  price.map (fun p => ar.times p.pricePerUnit l.remainingQuantity) =
      price'.map (fun p => ar.times p.pricePerUnit l.remainingQuantity) ∧
    (price.map CommodityPrice.currency).getD "NGN" = (price'.map CommodityPrice.currency).getD "NGN"

instance (l : Lien) (price price' : Option CommodityPrice) :
    Decidable (ShowAlike ar l price price') := instDecidableAnd

end Portfolio

section Agreement

variable {ar : Arithmetic} {columns : LienColumns} {prices : Table CommodityPrice}
  {now : Timestamp} {db : Db} {org : FinancierOrg} {callerUserId : Id}

theorem mem_liensWith {keep : Lien → Receipt → Bool} {x : Lien × Receipt} :
    x ∈ liensWith db keep ↔ x.1 ∈ db.liens ∧ db.ledger.receipts.find x.1.receiptId = some x.2 ∧
      keep x.1 x.2 = true := by
  unfold liensWith
  rw [List.mem_filter, List.mem_filterMap]
  constructor
  · rintro ⟨⟨l, hl, hfound⟩, hkeep⟩
    obtain ⟨r, hr, rfl⟩ := Option.map_eq_some_iff.mp hfound
    exact ⟨hl, hr, hkeep⟩
  · rintro ⟨hl, hr, hkeep⟩
    exact ⟨⟨x.1, hl, by rw [hr]; rfl⟩, hkeep⟩

theorem mem_slice {α : Type} {items : List α} {page limit : Option ℤ} {x : α}
    (h : x ∈ slice items page limit) : x ∈ items := by
  cases page with
  | none => simp [slice] at h
  | some page =>
      cases limit with
      | none => simp [slice] at h
      | some limit => exact List.mem_of_mem_take (List.mem_of_mem_drop h)

/-- A lien is shown alike exactly when its value and its currency are. -/
theorem projectLien_eq_iff {x : Lien × Receipt} {price price' : Id → Option CommodityPrice} :
    projectLien ar columns x price = projectLien ar columns x price' ↔
      ShowAlike ar x.1 (price x.2.commodityId) (price' x.2.commodityId) := by
  unfold projectLien ShowAlike
  simp only [LienItem.mk.injEq, true_and, and_true]

/-- The detail of a lien of the caller's organisation, at its own tenant's price. -/
theorem getFinancierLienDetail_exec {x : Lien × Receipt}
    (horg : (requireFinancierOrg callerUserId).exec db = (.ok org, db)) (hl : x.1 ∈ db.liens)
    (hr : db.ledger.receipts.find x.1.receiptId = some x.2) (hown : x.1.financierOrgId = org.id) :
    ((getFinancierLienDetail ar columns prices now callerUserId x.1.id).exec db).1 =
      .ok (projectLien ar columns x (priceMap [x.2.commodityId] fun commodityId =>
        currentPrice prices now x.1.tenantId commodityId)) := by
  have hfind : (db.liens.find x.1.id).filter (fun l => l.financierOrgId = org.id) = some x.1 := by
    rw [← key_lien, Table.find_of_mem hl, Option.filter_some, if_pos (decide_eq_true hown)]
  have hread : (Api.query (findLien org.id x.1.id)).exec db = (.ok (some x), db) := by
    have hfound : findLien org.id x.1.id db = some x := by
      unfold findLien
      rw [hfind]
      exact congrArg (fun o : Option Receipt => o.bind fun r => some (x.1, r)) hr
    rw [← hfound]
    rfl
  unfold getFinancierLienDetail
  rw [Attempt.exec_bind_ok horg, Attempt.exec_bind_ok hread]
  rfl

/-- The list, when its arguments are accepted. -/
theorem listFinancierLiens_exec {query : LienQuery} {rows : List (Lien × Receipt)}
    (horg : (requireFinancierOrg callerUserId).exec db = (.ok org, db))
    (hrows : pageRows columns db org.id query = .ok rows) :
    ∃ page, ((listFinancierLiens ar columns prices now callerUserId query).exec db).1 = .ok page ∧
      page.items = rows.map fun x => projectLien ar columns x (pagePrices prices now rows) := by
  obtain ⟨keep, hkeep, hfound⟩ := bind_ok.mp hrows
  have hread : (Api.query fun db => matchingLiens columns db keep).exec db =
    (.ok (matchingLiens columns db keep), db) := rfl
  unfold listFinancierLiens
  rw [Attempt.exec_bind_ok horg, hkeep, Attempt.exec_bind_ok (Attempt.exec_ofExcept _ _)]
  dsimp only
  rw [Attempt.exec_bind_ok hread, hfound, Attempt.exec_bind_ok (Attempt.exec_ofExcept _ _)]
  exact ⟨_, rfl, rfl⟩

/-- A lien on a page is one of the organisation's. -/
theorem mem_pageRows {query : LienQuery} {rows : List (Lien × Receipt)}
    (hrows : pageRows columns db org.id query = .ok rows) {x : Lien × Receipt} (hx : x ∈ rows) :
    x.1 ∈ db.liens ∧ db.ledger.receipts.find x.1.receiptId = some x.2 ∧
      x.1.financierOrgId = org.id := by
  obtain ⟨keep, hkeep, hfound⟩ := bind_ok.mp hrows
  have hmatch : x ∈ matchingLiens columns db keep := by
    unfold findPage at hfound
    split at hfound
    · cases hfound
    · cases hfound
      exact mem_slice hx
  obtain ⟨hl, hr, hkept⟩ := mem_liensWith.mp
    ((List.perm_insertionSort (placedLater columns) _).mem_iff.mp hmatch)
  refine ⟨hl, hr, ?_⟩
  obtain ⟨status, -, hkeep⟩ := bind_ok.mp hkeep
  cases hkeep
  exact (of_decide_eq_true hkept).1

/-- The organisation of a user, when it is not suspended. -/
theorem requireFinancierOrg_exec {user : User} {orgId : Id}
    (huser : db.directory.users.find callerUserId = some user)
    (hmember : user.financierOrgId = some orgId)
    (hfound : db.directory.financierOrgs.find orgId = some org)
    (hactive : org.status ≠ .suspended) :
    (requireFinancierOrg callerUserId).exec db = (.ok org, db) := by
  have hread : (Api.query fun db => (do
      let user ← db.directory.users.find callerUserId
      let orgId ← user.financierOrgId
      db.directory.financierOrgs.find orgId : Option FinancierOrg)).exec db =
        (.ok (some org), db) := by
    have hfind : (do
        let user ← db.directory.users.find callerUserId
        let orgId ← user.financierOrgId
        db.directory.financierOrgs.find orgId : Option FinancierOrg) = some org := by
      rw [huser, Option.bind_eq_bind, Option.bind_some, hmember, Option.bind_eq_bind,
        Option.bind_some, hfound]
    exact congrArg (fun o => (Except.ok o, db)) hfind
  unfold requireFinancierOrg
  rw [Attempt.exec_bind_ok hread]
  refine (Attempt.exec_bind_ok (Attempt.exec_orThrow_some _ _ _)).trans ?_
  exact Attempt.exec_bind_ok ((Attempt.exec_throwIf _ _ _).trans (if_neg hactive))

end Agreement

/-- A page shows each of its liens as the detail does exactly when each is valued alike at the
price that the first lien's tenant has for its commodity and at its own tenant's. -/
theorem list_detail_agree_iff (ar : Arithmetic) (columns : LienColumns)
    (prices : Table CommodityPrice) (now : Timestamp) (db : Db) {org : FinancierOrg}
    {callerUserId : Id} {query : LienQuery} {rows : List (Lien × Receipt)}
    (horg : (requireFinancierOrg callerUserId).exec db = (.ok org, db))
    (hrows : pageRows columns db org.id query = .ok rows) :
    ∃ page, ((listFinancierLiens ar columns prices now callerUserId query).exec db).1 = .ok page ∧
      page.items.map LienItem.id = rows.map (fun x => x.1.id) ∧
      ((∀ item ∈ page.items,
          ((getFinancierLienDetail ar columns prices now callerUserId item.id).exec db).1 =
            .ok item) ↔
        ∀ first ∈ rows.head?, ∀ x ∈ rows, ShowAlike ar x.1
          (currentPrice prices now first.1.tenantId x.2.commodityId)
          (currentPrice prices now x.1.tenantId x.2.commodityId)) := by
  obtain ⟨page, hpage, hitems⟩ :=
    @listFinancierLiens_exec ar columns prices now db org callerUserId query rows horg hrows
  refine ⟨page, hpage, by rw [hitems, List.map_map]; rfl, ?_⟩
  cases hfirst : rows.head? with
  | none =>
      have hnone : rows = [] := List.head?_eq_none_iff.mp hfirst
      simp [hitems, hnone]
  | some first =>
      have hlisted : ∀ x ∈ rows, pagePrices prices now rows x.2.commodityId =
          currentPrice prices now first.1.tenantId x.2.commodityId := by
        intro x hx
        unfold pagePrices
        rw [hfirst, priceMap_of_mem (List.mem_map_of_mem hx)]
        rfl
      have hown : ∀ x : Lien × Receipt, priceMap [x.2.commodityId] (fun commodityId =>
          currentPrice prices now x.1.tenantId commodityId) x.2.commodityId =
            currentPrice prices now x.1.tenantId x.2.commodityId :=
        fun x => priceMap_of_mem List.mem_cons_self
      have hone : ∀ x ∈ rows,
          (((getFinancierLienDetail ar columns prices now callerUserId x.1.id).exec db).1 =
              .ok (projectLien ar columns x (pagePrices prices now rows)) ↔
            ShowAlike ar x.1 (currentPrice prices now first.1.tenantId x.2.commodityId)
              (currentPrice prices now x.1.tenantId x.2.commodityId)) := by
        intro x hx
        obtain ⟨hl, hr, horgId⟩ := mem_pageRows hrows hx
        rw [getFinancierLienDetail_exec horg hl hr horgId, Except.ok.injEq, eq_comm,
          projectLien_eq_iff, hlisted x hx, hown]
      rw [hitems]
      simp only [List.forall_mem_map, Option.mem_def, Option.some_inj, forall_eq']
      exact forall₂_congr hone

def sampleColumns : LienColumns where
  toLabels := sampleLabels
  placedAt id := id
  clientName _ := ("A", "O")
  financierName _ := "Bank"
  logoUrl _ := none
  sameName name name' := name = name'

/-- The page with the two liens of tenant 1 agrees with their details. -/
theorem list_detail_agree_sample :
    ∃ page, ((listFinancierLiens .decimalJs sampleColumns samplePrices 1 20
        { warehouseId := some 50 }).exec (fourLiens .postgres)).1 = .ok page ∧
      page.items.map LienItem.id = [208, 108] ∧ ∀ item ∈ page.items,
        ((getFinancierLienDetail .decimalJs sampleColumns samplePrices 1 20 item.id).exec
          (fourLiens .postgres)).1 = .ok item := by
  have huser : (fourLiens .postgres).directory.users.find 20 = some ⟨20, 1, some 30⟩ := by
    decide +kernel
  have horg : (requireFinancierOrg 20).exec (fourLiens .postgres) =
      (.ok ⟨30, .active, none⟩, fourLiens .postgres) :=
    requireFinancierOrg_exec huser rfl (by decide +kernel) (by decide)
  have halike : (pageRows sampleColumns (fourLiens .postgres) 30 { warehouseId := some 50 }).map
      (fun rows => (rows.map fun x => x.1.id,
        decide (∀ first ∈ rows.head?, ∀ x ∈ rows, ShowAlike .decimalJs x.1
          (currentPrice samplePrices 1 first.1.tenantId x.2.commodityId)
          (currentPrice samplePrices 1 x.1.tenantId x.2.commodityId)))) =
        .ok ([208, 108], true) := by decide +kernel
  cases hrows : pageRows sampleColumns (fourLiens .postgres) 30 { warehouseId := some 50 } with
  | error e =>
      rw [hrows] at halike
      cases halike
  | ok rows =>
      rw [hrows] at halike
      obtain ⟨hids, hshow⟩ := Prod.mk.inj (Except.ok.inj halike)
      obtain ⟨page, hpage, hlisted, hagree⟩ := list_detail_agree_iff .decimalJs sampleColumns
        samplePrices 1 (fourLiens .postgres) horg hrows
      exact ⟨page, hpage, hlisted.trans hids, hagree.mpr (of_decide_eq_true hshow)⟩

/-- On a page that a lien of tenant 2 heads, those of tenant 1 are shown without a value. -/
theorem priced_lien_unvalued :
    ¬ ∀ page, ((listFinancierLiens .decimalJs sampleColumns samplePrices 1 20 {}).exec
        (fourLiens .postgres)).1 = .ok page → ∀ item ∈ page.items,
          ((getFinancierLienDetail .decimalJs sampleColumns samplePrices 1 20 item.id).exec
            (fourLiens .postgres)).1 = .ok item := by
  intro hagree
  have hlist : ((listFinancierLiens .decimalJs sampleColumns samplePrices 1 20 {}).exec
      (fourLiens .postgres)).1.map (fun page => page.items.map fun item =>
        (item.id, item.currentValuation)) =
          .ok [(408, none), (308, some 8), (208, none), (108, none)] := by decide +kernel
  have hdetail : ((getFinancierLienDetail .decimalJs sampleColumns samplePrices 1 20 108).exec
      (fourLiens .postgres)).1.map LienItem.currentValuation = .ok (some 9) := by decide +kernel
  cases hpage : ((listFinancierLiens .decimalJs sampleColumns samplePrices 1 20 {}).exec
      (fourLiens .postgres)).1 with
  | error e =>
      rw [hpage] at hlist
      cases hlist
  | ok page =>
      rw [hpage] at hlist
      have hitems : page.items.map (fun item => (item.id, item.currentValuation)) =
        [(408, none), (308, some 8), (208, none), (108, none)] := Except.ok.inj hlist
      have hmem : ((108 : Id), (none : Option ℚ)) ∈ page.items.map fun item =>
          (item.id, item.currentValuation) := by
        rw [hitems]
        simp
      obtain ⟨item, hitem, hpair⟩ := List.mem_map.mp hmem
      obtain ⟨hid, hvalue⟩ := Prod.mk.inj hpair
      have hsame := hagree page hpage item hitem
      rw [hid] at hsame
      rw [hsame] at hdetail
      exact absurd (hvalue.symm.trans (Except.ok.inj hdetail)) (by decide +kernel)

end SecureStore.Valuation
