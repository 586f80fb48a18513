/-
# A client's own transactions

A client lists his own deposits, withdrawals, loans and trades, and a report counts them. A
trade is his when he sells or buys. The list of the tenant, filtered by the client, keeps a
trade only for its seller, so the two lists agree as long as the client buys nothing.
-/

import SecureStore.Transactions.Listing

namespace SecureStore.Transactions

open SecureStore.Foundation

/-! ## The client's list -/

structure MyTransaction where
  id : Text
  type : TransactionType
  reference : Text
  status : Text
  commodity : Text
  unit : Text
  quantity : JsNumber
  receiptId : Text
  receiptNumber : Text
  warehouseId : Text
  counterparty : Option Text
  date : ℤ
  deriving DecidableEq

def MyTransaction.key (t : MyTransaction) : TransactionType × Text := (t.type, t.id)

/-- The tables of a client's list; the unit of a commodity is known by its name, which is
unique. -/
structure MySources extends Sources where
  unitOfMeasure : Text → Text

namespace MySources

variable (db : MySources)

def ofDeposit (r : DepositRow) : MyTransaction :=
  { id := r.id, type := .deposit, reference := r.receipt.receiptNumber, status := r.status
    commodity := r.receipt.commodity, unit := db.unitOfMeasure r.receipt.commodity
    quantity := r.receipt.quantity, receiptId := r.id, receiptNumber := r.receipt.receiptNumber
    warehouseId := r.receipt.warehouseId, counterparty := none, date := r.createdAt }

def ofWithdrawal (w : WithdrawalRow) : MyTransaction :=
  { id := w.id, type := .withdrawal, reference := w.reference, status := w.status
    commodity := w.receipt.commodity, unit := db.unitOfMeasure w.receipt.commodity
    quantity := w.quantity, receiptId := w.receiptId, receiptNumber := w.receipt.receiptNumber
    warehouseId := w.receipt.warehouseId, counterparty := none, date := w.createdAt }

def ofLoan (l : LoanRow) : MyTransaction :=
  { id := l.id, type := .loan, reference := l.reference, status := l.status
    commodity := l.receipt.commodity, unit := db.unitOfMeasure l.receipt.commodity
    quantity := l.receipt.quantity, receiptId := l.receiptId
    receiptNumber := l.receipt.receiptNumber, warehouseId := l.receipt.warehouseId
    counterparty := some l.financier, date := l.createdAt }

def ofTrade (userId : Text) (t : TradeRow) : MyTransaction :=
  { id := t.id, type := .trade, reference := t.reference, status := t.status
    commodity := t.receipt.commodity, unit := db.unitOfMeasure t.receipt.commodity
    quantity := t.quantity, receiptId := t.receiptId, receiptNumber := t.receipt.receiptNumber
    warehouseId := t.receipt.warehouseId
    counterparty := some (if t.sellerId = userId then "SELL".toList else "BUY".toList)
    date := t.createdAt }

/-- `createdAt: { gte: fromDate, lte: toDate }` -/
def inRange (fromDate toDate : Option ℤ) (createdAt : ℤ) : Bool :=
  (∀ fd ∈ fromDate, fd ≤ createdAt) ∧ ∀ td ∈ toDate, createdAt ≤ td

/-- The client's rows, table after table. -/
def gatherMine (tenantId userId : Text) (fromDate toDate : Option ℤ) : List MyTransaction :=
  (db.receipts.rows.filter fun r => r.tenantId = tenantId ∧ r.clientId = userId ∧
      r.parentReceiptId = none ∧ inRange fromDate toDate r.createdAt).map db.ofDeposit ++
    (db.withdrawals.rows.filter fun w => w.tenantId = tenantId ∧ w.clientId = userId ∧
      inRange fromDate toDate w.createdAt).map db.ofWithdrawal ++
    (db.loans.rows.filter fun l => l.tenantId = tenantId ∧ l.clientId = userId ∧
      inRange fromDate toDate l.createdAt).map db.ofLoan ++
    (db.trades.rows.filter fun t => t.tenantId = tenantId ∧
      (t.sellerId = userId ∨ t.buyerId = some userId) ∧
      inRange fromDate toDate t.createdAt).map (db.ofTrade userId)

end MySources

/-- Newest first. -/
def MyTransaction.newer (a b : MyTransaction) : Prop := b.date ≤ a.date

instance : DecidableRel MyTransaction.newer :=
  fun a b => inferInstanceAs (Decidable (b.date ≤ a.date))

def collectMyTransactions (db : MySources) (tenantId userId : Text)
    (fromDate toDate : Option ℤ) : List MyTransaction :=
  (db.gatherMine tenantId userId fromDate toDate).insertionSort MyTransaction.newer

structure MyListOptions where
  type : Option Text := none
  fromText : Option Text := none
  toText : Option Text := none
  search : Option Text := none
  page : Option Text := none
  limit : Option Text := none
  deriving DecidableEq

structure MyPage where
  data : List MyTransaction
  info : PageMeta
  deriving DecidableEq

/-- A bound of the query; the query refuses a date that is none. -/
def queryDate (rt : Runtime) (arg : Option Text) : Except String (Option ℤ) :=
  match truthy arg with
  | none => .ok none
  | some s =>
      match rt.newDate s with
      | none => .error "Provided Date object is invalid. Expected Date."
      | some ms => .ok (some ms)

/-- Filter by an argument, if it is given. -/
def filterMine {α : Type} (arg : Option α) (keep : α → MyTransaction → Bool)
    (items : List MyTransaction) : List MyTransaction :=
  match arg with
  | none => items
  | some a => items.filter (keep a)

/-- `MeService.listTransactions` -/
def listMyTransactions (rt : Runtime) (db : MySources) (tenantId userId : Text)
    (opts : MyListOptions) : Except String MyPage := do
  let fromDate ← queryDate rt opts.fromText
  let toDate ← queryDate rt opts.toText
  let items := collectMyTransactions db tenantId userId fromDate toDate
  let items := filterMine (wantedType rt { type := opts.type })
    (fun norm i => i.type.name = norm) items
  let items := filterMine ((truthy opts.search).map rt.toLowerCase)
    (fun q i => contains rt q i.reference || contains rt q i.commodity) items
  let page := pageOf { page := opts.page }
  let limit := limitOf { limit := opts.limit }
  pure
    { data := slice items page limit
      info :=
        { total := items.length, page := page, limit := limit
          totalPages := totalPages items.length limit } }

structure TransactionStats where
  totalTransactions : ℕ
  withdrawals : ℕ
  deposits : ℕ
  pledges : ℕ
  dispatches : ℕ
  deriving DecidableEq, Repr

def getTransactionStats (db : MySources) (tenantId userId : Text) : TransactionStats :=
  let deposits := db.receipts.rows.countP fun r =>
    r.tenantId = tenantId ∧ r.clientId = userId ∧ r.parentReceiptId = none
  let withdrawals := db.withdrawals.rows.countP fun w =>
    w.tenantId = tenantId ∧ w.clientId = userId
  let loans := db.loans.rows.countP fun l => l.tenantId = tenantId ∧ l.clientId = userId
  let trades := db.trades.rows.countP fun t =>
    t.tenantId = tenantId ∧ (t.sellerId = userId ∨ t.buyerId = some userId)
  let dispatches := db.withdrawals.rows.countP fun w =>
    w.tenantId = tenantId ∧ w.clientId = userId ∧ w.status = "COMPLETED".toList
  { totalTransactions := deposits + withdrawals + loans + trades
    withdrawals, deposits, pledges := loans, dispatches }

/-- The rows of all pages of the client's list, in order. -/
def allMyPages (rt : Runtime) (db : MySources) (tenantId userId limit : Text) :
    Except String (List MyTransaction) := do
  let first ← listMyTransactions rt db tenantId userId { limit := some limit }
  let pages ← (List.range first.info.totalPages).mapM fun i =>
    listMyTransactions rt db tenantId userId
      { page := some (pageText (i + 1)), limit := some limit }
  pure (pages.flatMap MyPage.data)

/-! ## Which transactions are listed -/

section Own

variable {rt : Runtime} {db : MySources} {tenantId userId : Text}

/-- The client's rows are those that the tenant's list collects for him. -/
theorem gatherMine_keys :
    (db.gatherMine tenantId userId none none).map MyTransaction.key =
      (gather db.toSources tenantId (some userId) none).map Transaction.key := by
  simp only [MySources.gatherMine, gather, List.map_append, List.map_map]
  refine congrArg₂ _ (congrArg₂ _ (congrArg₂ _ ?_ ?_) ?_) ?_
  · refine congrArg _ (List.filter_congr fun r _ => ?_)
    simp [MySources.inRange, ofClient, inScope, and_comm]
  · refine congrArg _ (List.filter_congr fun w _ => ?_)
    simp [MySources.inRange, ofClient, inScope]
  · refine congrArg _ (List.filter_congr fun l _ => ?_)
    simp [MySources.inRange, ofClient, inScope]
  · refine congrArg _ (List.filter_congr fun t _ => ?_)
    simp [MySources.inRange, ofClient, inScope]

/-- A page of the client's list, when no filter is given. -/
theorem listMyTransactions_plain (hupper : rt.toUpperCase [] = []) (page limit : Option Text) :
    listMyTransactions rt db tenantId userId { page, limit } = .ok
      { data := slice (collectMyTransactions db tenantId userId none none)
          (pageOf { page := page }) (limitOf { limit := limit })
        info :=
          { total := (collectMyTransactions db tenantId userId none none).length
            page := pageOf { page := page }, limit := limitOf { limit := limit }
            totalPages := totalPages (collectMyTransactions db tenantId userId none none).length
              (limitOf { limit := limit }) } } := by
  have htype : wantedType rt { type := none } = none := by
    simp [wantedType, hupper, truthy]
  unfold listMyTransactions
  rw [htype]
  rfl

theorem mapM_ok {α β ε : Type} (f : α → β) (l : List α) :
    l.mapM (fun a => (.ok (f a) : Except ε β)) = .ok (l.map f) :=
  List.mapM_pure

/-- The pages of the client's list are all that is his. -/
theorem allMyPages_eq (hupper : rt.toUpperCase [] = []) {limit : Text}
    (hlimit : limitOf { limit := some limit } ≠ none) :
    allMyPages rt db tenantId userId limit =
      .ok (collectMyTransactions db tenantId userId none none) := by
  unfold allMyPages
  simp only [listMyTransactions_plain hupper, bind, Except.bind]
  rw [mapM_ok]
  refine congrArg Except.ok ?_
  rw [List.flatMap_map]
  exact slices_eq (collectMyTransactions db tenantId userId none none) hlimit

/-- A key of the client's deposits, withdrawals and loans. -/
def FiledKey (db : Sources) (tenantId userId : Text) (k : TransactionType × Text) : Prop :=
  ((∃ r ∈ db.receipts.rows, (r.tenantId = tenantId ∧ r.parentReceiptId = none ∧
        r.clientId = userId) ∧ (.deposit, r.id) = k) ∨
      ∃ w ∈ db.withdrawals.rows, (w.tenantId = tenantId ∧ w.clientId = userId) ∧
        (.withdrawal, w.id) = k) ∨
    ∃ l ∈ db.loans.rows, (l.tenantId = tenantId ∧ l.clientId = userId) ∧ (.loan, l.id) = k

theorem FiledKey.type_ne {k : TransactionType × Text}
    (h : FiledKey db.toSources tenantId userId k) : k.1 ≠ .trade := by
  rcases h with (⟨r, -, -, rfl⟩ | ⟨w, -, -, rfl⟩) | ⟨l, -, -, rfl⟩ <;> simp

/-- What the client lists: he sells or buys the trades. -/
theorem mem_own_keys {k : TransactionType × Text} :
    k ∈ (gather db.toSources tenantId (some userId) none).map Transaction.key ↔
      FiledKey db.toSources tenantId userId k ∨ ∃ t ∈ db.trades.rows, (t.tenantId = tenantId ∧
        (t.sellerId = userId ∨ t.buyerId = some userId)) ∧ (.trade, t.id) = k := by
  simp only [gather, List.map_append, List.map_map, List.mem_append, List.mem_map,
    List.mem_filter, FiledKey, ofClient, inScope, decide_eq_true_eq, and_true, and_assoc]
  exact Iff.rfl

/-- What the tenant's list keeps of a client: he sells the trades. -/
theorem mem_listed_keys {k : TransactionType × Text} :
    k ∈ ((gather db.toSources tenantId none none).filter (·.clientId = userId)).map
        Transaction.key ↔
      FiledKey db.toSources tenantId userId k ∨ ∃ t ∈ db.trades.rows,
        (t.tenantId = tenantId ∧ t.sellerId = userId) ∧ (.trade, t.id) = k := by
  simp only [gather, List.filter_append, List.filter_map, List.filter_filter, List.map_append,
    List.map_map, List.mem_append, List.mem_map, List.mem_filter, FiledKey, ofClient, inScope,
    Function.comp_apply, Bool.and_eq_true, decide_eq_true_eq, and_true, true_or]
  simp only [Transaction.key, DepositRow.toTransaction, WithdrawalRow.toTransaction,
    LoanRow.toTransaction, TradeRow.toTransaction, and_assoc, and_left_comm]

theorem inRange_none (createdAt : ℤ) : MySources.inRange none none createdAt = true := by
  simp [MySources.inRange]

/-- The report counts what the client's list lists. -/
theorem length_gatherMine : (db.gatherMine tenantId userId none none).length =
    (getTransactionStats db tenantId userId).totalTransactions := by
  simp only [MySources.gatherMine, getTransactionStats, inRange_none, List.length_append,
    List.length_map, List.countP_eq_length_filter, and_true]

/-- Each of the client's transactions is listed once. -/
theorem mine_keys_nodup :
    ((collectMyTransactions db tenantId userId none none).map MyTransaction.key).Nodup := by
  have hperm : (collectMyTransactions db tenantId userId none none).Perm
      (db.gatherMine tenantId userId none none) := List.perm_insertionSort _ _
  rw [(hperm.map MyTransaction.key).nodup_iff, gatherMine_keys]
  exact gather_nodup (some userId)

theorem mem_mine_keys {k : TransactionType × Text} :
    k ∈ (collectMyTransactions db tenantId userId none none).map MyTransaction.key ↔
      k ∈ (gather db.toSources tenantId (some userId) none).map Transaction.key := by
  have hperm : (collectMyTransactions db tenantId userId none none).Perm
      (db.gatherMine tenantId userId none none) := List.perm_insertionSort _ _
  rw [(hperm.map MyTransaction.key).mem_iff, gatherMine_keys]

/-- The tenant's list of a client's transactions. -/
theorem mem_matching_keys (hupper : rt.toUpperCase [] = []) (huser : userId ≠ [])
    {k : TransactionType × Text} :
    k ∈ (matching rt db.toSources none tenantId { clientId := some userId }).map
        Transaction.key ↔
      k ∈ ((gather db.toSources tenantId none none).filter (·.clientId = userId)).map
        Transaction.key := by
  have hmatches : ∀ t, Matches rt { clientId := some userId } t ↔ t.clientId = userId := by
    intro t
    simp [Matches, wantedType, hupper, truthy, truthyDate, huser, Option.filter]
  rw [(matching_perm.map Transaction.key).mem_iff]
  simp only [hmatches]

end Own

/-! ## One definition of a client's transactions -/

/-- The client's list and the tenant's list of the client have the same transactions, as many as
the report counts, exactly when the client buys nothing that he does not sell. -/
theorem clientTransactions_agree_iff {rt : Runtime} (hupper : rt.toUpperCase [] = [])
    {clientId limit limit' : Text} (hclient : clientId ≠ [])
    (hlimit : limitOf { limit := some limit } ≠ none)
    (hlimit' : limitOf { limit := some limit' } ≠ none) (db : MySources) (tenantId : Text) :
    (∃ mine, allMyPages rt db tenantId clientId limit = .ok mine ∧
      (mine.map MyTransaction.key).toFinset = ((allPages rt db.toSources none tenantId
        { clientId := some clientId } limit').map Transaction.key).toFinset ∧
      (mine.map MyTransaction.key).toFinset.card =
        (getTransactionStats db tenantId clientId).totalTransactions) ↔
      ∀ t ∈ db.trades, t.tenantId = tenantId → t.buyerId = some clientId →
        t.sellerId = clientId := by
  rw [allMyPages_eq hupper hlimit, allPages_eq hlimit']
  have hsize : ((collectMyTransactions db tenantId clientId none none).map
      MyTransaction.key).toFinset.card =
        (getTransactionStats db tenantId clientId).totalTransactions := by
    rw [List.toFinset_card_of_nodup mine_keys_nodup, List.length_map, ← length_gatherMine]
    exact (List.perm_insertionSort _ _).length_eq
  constructor
  · rintro ⟨mine, hmine, hsame, -⟩ t ht htenant hbuyer
    obtain rfl := Except.ok.inj hmine
    -- the trade is the client's, so it is listed, as a trade that he sells
    have hown : (TransactionType.trade, t.id) ∈
        (collectMyTransactions db tenantId clientId none none).map MyTransaction.key :=
      mem_mine_keys.mpr (mem_own_keys.mpr (.inr ⟨t, ht, ⟨htenant, .inr hbuyer⟩, rfl⟩))
    rw [← List.mem_toFinset, hsame, List.mem_toFinset, mem_matching_keys hupper hclient,
      mem_listed_keys] at hown
    rcases hown with hfiled | ⟨t', ht', ⟨-, hseller⟩, hid⟩
    · exact absurd rfl hfiled.type_ne
    · obtain rfl := Table.eq_of_key_eq ht' ht (Prod.mk.inj hid).2
      exact hseller
  · intro hbuys
    refine ⟨_, rfl, ?_, hsize⟩
    ext k
    rw [List.mem_toFinset, List.mem_toFinset, mem_mine_keys, mem_matching_keys hupper hclient,
      mem_own_keys, mem_listed_keys]
    refine or_congr_right (exists_congr fun t => and_congr_right fun ht => ?_)
    refine and_congr_left fun _ => and_congr_right fun htenant => ?_
    constructor
    · rintro (hseller | hbuyer)
      · exact hseller
      · exact hbuys t ht htenant hbuyer
    · exact .inl

/-- A runtime that changes no text and knows no dates. -/
def literalRuntime : Runtime := ⟨id, id, fun _ => none⟩

/-- A settled trade of ten bags. -/
def settledTrade : TradeRow :=
  { id := ['t', '1'], tenantId := ['t'], sellerId := ['s'], buyerId := some ['b']
    seller := ⟨['A'], ['O']⟩, reference := ['T', '1'], status := "SETTLED".toList
    quantity := .finite ⟨['1', '0'], by simp⟩, receiptId := ['r']
    receipt := ⟨['R', '1'], ['w'], ['m'], .finite ⟨['1', '0'], by simp⟩⟩, createdAt := 0 }

/-- The trade is all that happened. -/
def oneTrade : MySources where
  receipts := .empty
  withdrawals := .empty
  loans := .empty
  trades := { rows := [settledTrade], nodup := List.nodup_singleton _ }
  unitOfMeasure := fun _ => ['k', 'g']

/-- The lists agree for the seller. -/
theorem clientTransactions_agree_seller :
    ∃ mine, allMyPages literalRuntime oneTrade ['t'] ['s'] ['2', '0'] = .ok mine ∧
      (mine.map MyTransaction.key).toFinset = ((allPages literalRuntime oneTrade.toSources none
        ['t'] { clientId := some ['s'] } ['5', '0']).map Transaction.key).toFinset ∧
      (mine.map MyTransaction.key).toFinset.card =
        (getTransactionStats oneTrade ['t'] ['s']).totalTransactions := by
  refine (clientTransactions_agree_iff rfl (by decide) (by decide) (by decide) oneTrade
    ['t']).mpr ?_
  intro t ht _ _
  obtain rfl : t = settledTrade := List.mem_singleton.mp ht
  rfl

/-- The buyer lists the trade as his, and the tenant's list of him is empty. -/
theorem bought_trade_unlisted :
    ¬ ∃ mine, allMyPages literalRuntime oneTrade ['t'] ['b'] ['2', '0'] = .ok mine ∧
      (mine.map MyTransaction.key).toFinset = ((allPages literalRuntime oneTrade.toSources none
        ['t'] { clientId := some ['b'] } ['5', '0']).map Transaction.key).toFinset := by
  rw [allMyPages_eq rfl (by decide), allPages_eq (by decide)]
  rintro ⟨mine, hmine, hsame⟩
  obtain rfl := Except.ok.inj hmine
  have hown : (TransactionType.trade, ['t', '1']) ∈
      ((collectMyTransactions oneTrade ['t'] ['b'] none none).map
        MyTransaction.key).toFinset := by decide
  rw [hsame] at hown
  exact absurd hown (by decide)

end SecureStore.Transactions
