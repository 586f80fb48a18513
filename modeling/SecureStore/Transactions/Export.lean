/-
# The export of transactions

Both exports ask the list for its first page with ten thousand rows, and the list cuts the page
to two hundred. An export is therefore the first two hundred of the transactions that match,
and complete when there are no more.
-/

import SecureStore.Transactions.Csv

namespace SecureStore.Transactions

open SecureStore.Foundation

/-! ## Services -/

/-- What an export returns. -/
inductive Exported
  | json (rows : List Transaction)
  | csv (text : Text)
  deriving DecidableEq

/-- The arguments of the tenant-admin list. -/
structure AdminQuery where
  type : Option Text := none
  warehouseId : Option Text := none
  clientId : Option Text := none
  fromDate : Option Text := none
  toDate : Option Text := none
  page : Option Text := none
  limit : Option Text := none
  deriving DecidableEq

/-- The arguments of the tenant-admin export. -/
structure ExportQuery where
  format : Option Text := none
  type : Option Text := none
  warehouseId : Option Text := none
  fromDate : Option Text := none
  toDate : Option Text := none
  deriving DecidableEq

/-- What the tenant-admin list passes on. -/
def AdminQuery.options (query : AdminQuery) : ListOptions :=
  { type := query.type, clientId := query.clientId, warehouseId := query.warehouseId
    fromDate := query.fromDate.map .text, toDate := query.toDate.map .text
    page := query.page, limit := query.limit }

namespace Admin

/-- `AdminTransactionsService.getTransactions` -/
def getTransactions (rt : Runtime) (db : Sources) (scope : Option (List Text)) (tenantId : Text)
    (query : AdminQuery) : Page :=
  listTransactions rt db scope tenantId query.options

/-- The query that an export makes of the list. -/
def exportQuery (query : ExportQuery) : AdminQuery :=
  { type := query.type, warehouseId := query.warehouseId, fromDate := query.fromDate
    toDate := query.toDate, page := some "1".toList, limit := some "10000".toList }

/-- The rows of an export. -/
def exportRows (rt : Runtime) (db : Sources) (scope : Option (List Text)) (tenantId : Text)
    (query : ExportQuery) : List Transaction :=
  (getTransactions rt db scope tenantId (exportQuery query)).data

/-- `AdminTransactionsService.exportTransactions` -/
def exportTransactions (rt : Runtime) (db : Sources) (scope : Option (List Text))
    (tenantId : Text) (query : ExportQuery) : Exported :=
  let data := exportRows rt db scope tenantId query
  if query.format = some "csv".toList then
    .csv (toCsv adminHeaders (data.map Transaction.toRow))
  else .json data

end Admin

namespace Legacy

/-- The rows of an export. -/
def exportRows (rt : Runtime) (db : Sources) (scope : Option (List Text)) (tenantId : Text) :
    List Transaction :=
  (listTransactions rt db scope tenantId { limit := some "10000".toList }).data

/-- `TransactionsService.exportTransactions` -/
def exportTransactions (rt : Runtime) (db : Sources) (scope : Option (List Text))
    (tenantId : Text) (format : Option Text) : Except String Exported :=
  let lower := (truthy format).map rt.toLowerCase
  if lower.any (· ∉ ["csv".toList, "json".toList]) then
    .error "Unsupported format. Use csv or json."
  else
    let data := exportRows rt db scope tenantId
    if lower = some "csv".toList then
      .ok (.csv (toCsv legacyHeaders (data.map Transaction.toRow)))
    else .ok (.json data)

end Legacy

/-! ## Completeness -/

/-- Rows are all transactions that match a filter, each once, in the order in which the pages
of any size list them. -/
structure Complete (rt : Runtime) (db : Sources) (scope : Option (List Text)) (tenantId : Text)
    (opts : ListOptions) (rows : List Transaction) : Prop where
  exact : rows.Perm ((gather db tenantId none scope).filter (Matches rt opts ·))
  once : (rows.map Transaction.key).Nodup
  ordered : ∀ limit, limitOf { opts with limit := some limit } ≠ none →
    rows = allPages rt db scope tenantId opts limit

section Completeness

variable {rt : Runtime} {db : Sources} {scope : Option (List Text)} {tenantId : Text}
  {opts : ListOptions}

/-- The first page of ten thousand has the first two hundred of what matches. -/
theorem first_page_eq (hpage : truthy opts.page = none ∨ opts.page = some "1".toList)
    (hlimit : opts.limit = some "10000".toList) :
    (listTransactions rt db scope tenantId opts).data =
      (matching rt db scope tenantId opts).take 200 := by
  have hnumber : pageOf opts = some 1 := by
    unfold pageOf
    rcases hpage with hnone | hone
    · rw [hnone]
      decide
    · rw [hone]
      decide
  have hsize : limitOf opts = some 200 := by
    unfold limitOf
    rw [hlimit]
    decide
  change slice (matching rt db scope tenantId opts) (pageOf opts) (limitOf opts) = _
  rw [hnumber, hsize]
  rfl

/-- The first rows of what matches are complete when they are all. -/
theorem complete_take_iff :
    Complete rt db scope tenantId opts ((matching rt db scope tenantId opts).take 200) ↔
      ((gather db tenantId none scope).filter (Matches rt opts ·)).length ≤ 200 := by
  have hperm : (matching rt db scope tenantId opts).Perm
      ((gather db tenantId none scope).filter (Matches rt opts ·)) := matching_perm
  rw [← hperm.length_eq]
  constructor
  · intro hcomplete
    have hlength := (hcomplete.exact.trans hperm.symm).length_eq
    rw [List.length_take] at hlength
    omega
  · intro hfew
    rw [List.take_of_length_le hfew]
    refine ⟨hperm, ?_, fun limit hlimit => (allPages_eq hlimit).symm⟩
    apply ((hperm.map Transaction.key).nodup_iff).mpr
    exact (gather_nodup none).sublist (List.filter_sublist.map _)

end Completeness

/-- The rows of the tenant-admin export are complete for its filter, and those of the legacy
export for no filter, exactly when at most two hundred transactions match. -/
theorem exports_complete_iff (rt : Runtime) (db : Sources) (scope : Option (List Text))
    (tenantId : Text) (query : ExportQuery) :
    (Complete rt db scope tenantId (Admin.exportQuery query).options
        (Admin.exportRows rt db scope tenantId query) ↔
      ((gather db tenantId none scope).filter
        (Matches rt (Admin.exportQuery query).options ·)).length ≤ 200) ∧
    (Complete rt db scope tenantId {} (Legacy.exportRows rt db scope tenantId) ↔
      ((gather db tenantId none scope).filter (Matches rt {} ·)).length ≤ 200) := by
  constructor
  · rw [← complete_take_iff]
    unfold Admin.exportRows Admin.getTransactions
    rw [first_page_eq (.inr rfl) rfl]
  · rw [← complete_take_iff]
    unfold Legacy.exportRows
    rw [first_page_eq (.inl rfl) rfl]
    rfl

/-- Deposits that differ in their ids only, of one tenant. -/
def manyDeposits (n : ℕ) : Sources where
  receipts :=
    { rows := (List.range n).map fun i =>
        { id := List.replicate i 'x', tenantId := ['t'], parentReceiptId := none
          clientId := ['c'], client := ⟨['A'], ['O']⟩, status := "ACTIVE".toList
          receipt := ⟨['r'], ['w'], ['m'], .finite ⟨['5'], by simp⟩⟩, createdAt := 0 }
      nodup := by
        rw [List.map_map]
        apply List.nodup_range.map
        intro i j heq
        exact (List.length_replicate).symm.trans ((congrArg List.length heq).trans
          List.length_replicate) }
  withdrawals := .empty
  loans := .empty
  trades := .empty

/-- A runtime that changes no text and knows no dates. -/
def plainRuntime : Runtime := ⟨id, id, fun _ => none⟩

/-- Of two hundred and one deposits both exports leave one out. -/
theorem exports_leave_out :
    let db := manyDeposits 201
    (gather db ['t'] none none).length = 201 ∧
      (Admin.exportRows plainRuntime db none ['t'] {}).length = 200 ∧
      (Legacy.exportRows plainRuntime db none ['t']).length = 200 ∧
      ¬ Complete plainRuntime db none ['t'] (Admin.exportQuery {}).options
        (Admin.exportRows plainRuntime db none ['t'] {}) ∧
      ¬ Complete plainRuntime db none ['t'] {} (Legacy.exportRows plainRuntime db none ['t']) := by
  refine ⟨by decide +kernel, by decide +kernel, by decide +kernel, ?_, ?_⟩
  · intro hcomplete
    exact absurd hcomplete.exact.length_eq (by decide +kernel)
  · intro hcomplete
    exact absurd hcomplete.exact.length_eq (by decide +kernel)

end SecureStore.Transactions
