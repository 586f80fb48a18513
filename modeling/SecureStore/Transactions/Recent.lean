/-
# Recent activity

The dashboard of a client takes the eight newest rows of each table, puts them together and shows
the eight newest of those: the beginning of the client's list. The dashboard of a tenant takes
five of each and shows ten, which is the beginning of the tenant's list as long as no table has
more than five among the ten newest.
-/

import SecureStore.Foundation.Newest
import SecureStore.Transactions.Own

namespace SecureStore.Transactions

open SecureStore.Foundation

/-! ## The dashboards -/

/-- `orderBy: { createdAt: 'desc' }, take: k` -/
def latest {ρ : Type} (createdAt : ρ → ℤ) (k : ℕ) (rows : List ρ) : List ρ :=
  newest (fun a b => createdAt b ≤ createdAt a) k rows

/-- An entry of a client's dashboard. -/
structure Activity where
  id : Text
  type : TransactionType
  reference : Text
  status : Text
  commodity : Text
  quantity : JsNumber
  receiptId : Text
  receiptNumber : Text
  date : ℤ
  deriving DecidableEq

def DepositRow.activity (r : DepositRow) : Activity :=
  { id := r.id, type := .deposit, reference := r.receipt.receiptNumber, status := r.status
    commodity := r.receipt.commodity, quantity := r.receipt.quantity, receiptId := r.id
    receiptNumber := r.receipt.receiptNumber, date := r.createdAt }

def WithdrawalRow.activity (w : WithdrawalRow) : Activity :=
  { id := w.id, type := .withdrawal, reference := w.reference, status := w.status
    commodity := w.receipt.commodity, quantity := w.quantity, receiptId := w.receiptId
    receiptNumber := w.receipt.receiptNumber, date := w.createdAt }

def LoanRow.activity (l : LoanRow) : Activity :=
  { id := l.id, type := .loan, reference := l.reference, status := l.status
    commodity := l.receipt.commodity, quantity := l.receipt.quantity, receiptId := l.receiptId
    receiptNumber := l.receipt.receiptNumber, date := l.createdAt }

def TradeRow.activity (t : TradeRow) : Activity :=
  { id := t.id, type := .trade, reference := t.reference, status := t.status
    commodity := t.receipt.commodity, quantity := t.quantity, receiptId := t.receiptId
    receiptNumber := t.receipt.receiptNumber, date := t.createdAt }

/-- `recentActivities` of `MeService.getDashboard` -/
def myRecentActivities (db : Sources) (tenantId userId : Text) : List Activity :=
  let recentDeposits := latest DepositRow.createdAt 8 (db.receipts.rows.filter fun r =>
    r.tenantId = tenantId ∧ r.clientId = userId ∧ r.parentReceiptId = none)
  let recentWithdrawals := latest WithdrawalRow.createdAt 8 (db.withdrawals.rows.filter fun w =>
    w.tenantId = tenantId ∧ w.clientId = userId)
  let recentLoans := latest LoanRow.createdAt 8 (db.loans.rows.filter fun l =>
    l.tenantId = tenantId ∧ l.clientId = userId)
  let recentTrades := latest TradeRow.createdAt 8 (db.trades.rows.filter fun t =>
    t.tenantId = tenantId ∧ (t.sellerId = userId ∨ t.buyerId = some userId))
  latest Activity.date 8
    (recentDeposits.map DepositRow.activity ++ recentWithdrawals.map WithdrawalRow.activity ++
      recentLoans.map LoanRow.activity ++ recentTrades.map TradeRow.activity)

/-- An entry of a tenant's dashboard. -/
structure RecentActivity where
  id : Text
  type : TransactionType
  title : Text
  timestamp : ℤ
  status : Text
  reference : Text
  deriving DecidableEq

def DepositRow.recent (r : DepositRow) : RecentActivity :=
  ⟨r.id, .deposit, "New Deposit".toList, r.createdAt, r.status, r.receipt.receiptNumber⟩

def WithdrawalRow.recent (w : WithdrawalRow) : RecentActivity :=
  ⟨w.id, .withdrawal, "Withdrawal Request".toList, w.createdAt, w.status, w.reference⟩

def LoanRow.recent (l : LoanRow) : RecentActivity :=
  ⟨l.id, .loan, "Loan Approved".toList, l.createdAt, l.status, l.reference⟩

def TradeRow.recent (t : TradeRow) : RecentActivity :=
  ⟨t.id, .trade, "Trade Settled".toList, t.createdAt, t.status, t.reference⟩

/-- `DashboardService.getRecentActivities` -/
def getRecentActivities (db : Sources) (tenantId : Text) (forClientId : Option Text) :
    List RecentActivity :=
  let receipts := latest DepositRow.createdAt 5 (db.receipts.rows.filter fun r =>
    r.tenantId = tenantId ∧ ofClient forClientId r.clientId ∧ r.parentReceiptId = none)
  let withdrawals := latest WithdrawalRow.createdAt 5 (db.withdrawals.rows.filter fun w =>
    w.tenantId = tenantId ∧ ofClient forClientId w.clientId)
  let loans := latest LoanRow.createdAt 5 (db.loans.rows.filter fun l =>
    l.tenantId = tenantId ∧ ofClient forClientId l.clientId)
  let trades := latest TradeRow.createdAt 5 (db.trades.rows.filter fun t =>
    t.tenantId = tenantId ∧ (ofClient forClientId t.sellerId ∨ t.buyerId = forClientId))
  latest RecentActivity.timestamp 10
    (receipts.map DepositRow.recent ++ withdrawals.map WithdrawalRow.recent ++
      loans.map LoanRow.recent ++ trades.map TradeRow.recent)

/-! ## The lists that they begin -/

/-- What a client's dashboard shows of a transaction. -/
def MyTransaction.activity (t : MyTransaction) : Activity :=
  ⟨t.id, t.type, t.reference, t.status, t.commodity, t.quantity, t.receiptId, t.receiptNumber,
    t.date⟩

/-- The title of a kind of activity. -/
def TransactionType.title : TransactionType → Text
  | .deposit => "New Deposit".toList
  | .withdrawal => "Withdrawal Request".toList
  | .loan => "Loan Approved".toList
  | .trade => "Trade Settled".toList

/-- What a tenant's dashboard shows of a transaction. -/
def Transaction.recent (t : Transaction) : RecentActivity :=
  ⟨t.id, t.type, t.type.title, t.date, t.status, t.reference⟩

section Latest

variable {ρ σ : Type}

instance laterTotal (date : ρ → ℤ) : Std.Total fun a b : ρ => date b ≤ date a :=
  ⟨fun a b => le_total (date b) (date a)⟩

instance laterTrans (date : ρ → ℤ) : IsTrans ρ fun a b => date b ≤ date a :=
  ⟨fun _ _ _ hab hbc => le_trans hbc hab⟩

/-- What keeps the dates may be applied before or after. -/
theorem map_latest {date : ρ → ℤ} {date' : σ → ℤ} {f : ρ → σ} (h : ∀ a, date' (f a) = date a)
    (k : ℕ) (rows : List ρ) : (latest date k rows).map f = latest date' k (rows.map f) := by
  unfold latest
  apply map_newest
  intro a b
  rw [h, h]

end Latest

section Mine

variable {db : MySources} {tenantId userId : Text}

/-- The client's rows, a list for each table. -/
def MySources.mineParts (db : MySources) (tenantId userId : Text) : List (List MyTransaction) :=
  [(db.receipts.rows.filter fun r => r.tenantId = tenantId ∧ r.clientId = userId ∧
      r.parentReceiptId = none).map db.ofDeposit,
    (db.withdrawals.rows.filter fun w => w.tenantId = tenantId ∧ w.clientId = userId).map
      db.ofWithdrawal,
    (db.loans.rows.filter fun l => l.tenantId = tenantId ∧ l.clientId = userId).map db.ofLoan,
    (db.trades.rows.filter fun t => t.tenantId = tenantId ∧
      (t.sellerId = userId ∨ t.buyerId = some userId)).map (db.ofTrade userId)]

theorem mineParts_flatten :
    (db.mineParts tenantId userId).flatten = db.gatherMine tenantId userId none none := by
  simp only [MySources.mineParts, MySources.gatherMine, inRange_none, and_true,
    List.flatten_cons, List.flatten_nil, List.append_nil, List.append_assoc]

/-- A row is shown as the transaction that the client's list makes of it. -/
theorem map_activity {ρ : Type} (createdAt : ρ → ℤ) (f : ρ → MyTransaction) (g : ρ → Activity)
    (hdate : ∀ a, (f a).date = createdAt a) (hg : ∀ a, g a = (f a).activity) (k : ℕ)
    (rows : List ρ) : (latest createdAt k rows).map g =
      (latest MyTransaction.date k (rows.map f)).map MyTransaction.activity := by
  rw [← map_latest hdate, List.map_map]
  exact List.map_congr_left fun a _ => hg a

theorem myRecentActivities_parts :
    myRecentActivities db.toSources tenantId userId =
      (latest MyTransaction.date 8 ((db.mineParts tenantId userId).map
        (latest MyTransaction.date 8)).flatten).map MyTransaction.activity := by
  have hdate : ∀ t : MyTransaction, t.activity.date = t.date := fun _ => rfl
  unfold myRecentActivities
  simp only
  rw [map_latest hdate,
    map_activity DepositRow.createdAt db.ofDeposit DepositRow.activity (fun _ => rfl)
      fun _ => rfl,
    map_activity WithdrawalRow.createdAt db.ofWithdrawal WithdrawalRow.activity (fun _ => rfl)
      fun _ => rfl,
    map_activity LoanRow.createdAt db.ofLoan LoanRow.activity (fun _ => rfl)
      fun _ => rfl,
    map_activity TradeRow.createdAt (db.ofTrade userId) TradeRow.activity (fun _ => rfl)
      fun _ => rfl]
  simp only [MySources.mineParts, List.map_cons, List.map_nil, List.flatten_cons,
    List.flatten_nil, List.append_nil, List.map_append, List.append_assoc]

/-- The dashboard shows the beginning of the client's list. -/
theorem myRecentActivities_eq :
    myRecentActivities db.toSources tenantId userId =
      ((collectMyTransactions db tenantId userId none none).take 8).map
        MyTransaction.activity := by
  have hnodup : (db.mineParts tenantId userId).flatten.Nodup := by
    rw [mineParts_flatten]
    exact (List.perm_insertionSort _ _).nodup_iff.mp mine_keys_nodup.of_map
  have hcut : latest MyTransaction.date 8 ((db.mineParts tenantId userId).map
      (latest MyTransaction.date 8)).flatten =
        latest MyTransaction.date 8 (db.mineParts tenantId userId).flatten :=
    newest_trimmed (le_refl 8) hnodup
  rw [myRecentActivities_parts, hcut, mineParts_flatten]
  rfl

end Mine

section Tenant

variable {db : Sources} {tenantId : Text} {forClientId : Option Text}

/-- The rows of one type of a tenant or of one client of it. -/
def Sources.part (db : Sources) (tenantId : Text) (forClientId : Option Text) :
    TransactionType → List Transaction
  | .deposit => (db.receipts.rows.filter fun r => r.tenantId = tenantId ∧
      ofClient forClientId r.clientId ∧ r.parentReceiptId = none).map DepositRow.toTransaction
  | .withdrawal => (db.withdrawals.rows.filter fun w => w.tenantId = tenantId ∧
      ofClient forClientId w.clientId).map WithdrawalRow.toTransaction
  | .loan => (db.loans.rows.filter fun l => l.tenantId = tenantId ∧
      ofClient forClientId l.clientId).map LoanRow.toTransaction
  | .trade => (db.trades.rows.filter fun t => t.tenantId = tenantId ∧
      (ofClient forClientId t.sellerId ∨ t.buyerId = forClientId)).map TradeRow.toTransaction

def Sources.parts (db : Sources) (tenantId : Text) (forClientId : Option Text) :
    List (List Transaction) :=
  [TransactionType.deposit, .withdrawal, .loan, .trade].map (db.part tenantId forClientId)

theorem parts_flatten :
    (db.parts tenantId forClientId).flatten = gather db tenantId forClientId none := by
  simp only [Sources.parts, Sources.part, gather, inScope, and_true, List.map_cons, List.map_nil,
    List.flatten_cons, List.flatten_nil, List.append_nil, List.append_assoc]
  refine congrArg₂ _ (congrArg _ (List.filter_congr fun r _ => ?_)) rfl
  simp [and_comm]

/-- A row is shown as the transaction that the tenant's list makes of it. -/
theorem map_recent {ρ : Type} (createdAt : ρ → ℤ) (f : ρ → Transaction) (g : ρ → RecentActivity)
    (hdate : ∀ a, (f a).date = createdAt a) (hg : ∀ a, g a = (f a).recent) (k : ℕ)
    (rows : List ρ) : (latest createdAt k rows).map g =
      (latest Transaction.date k (rows.map f)).map Transaction.recent := by
  rw [← map_latest hdate, List.map_map]
  exact List.map_congr_left fun a _ => hg a

theorem getRecentActivities_parts :
    getRecentActivities db tenantId forClientId =
      (latest Transaction.date 10 ((db.parts tenantId forClientId).map
        (latest Transaction.date 5)).flatten).map Transaction.recent := by
  have hdate : ∀ t : Transaction, t.recent.timestamp = t.date := fun _ => rfl
  unfold getRecentActivities
  simp only
  rw [map_latest hdate,
    map_recent DepositRow.createdAt DepositRow.toTransaction DepositRow.recent (fun _ => rfl)
      fun _ => rfl,
    map_recent WithdrawalRow.createdAt WithdrawalRow.toTransaction WithdrawalRow.recent
      (fun _ => rfl) fun _ => rfl,
    map_recent LoanRow.createdAt LoanRow.toTransaction LoanRow.recent (fun _ => rfl)
      fun _ => rfl,
    map_recent TradeRow.createdAt TradeRow.toTransaction TradeRow.recent (fun _ => rfl)
      fun _ => rfl]
  simp only [Sources.parts, Sources.part, List.map_cons, List.map_nil, List.flatten_cons,
    List.flatten_nil, List.append_nil, List.map_append, List.append_assoc]

theorem type_of_mem_part {type : TransactionType} {t : Transaction}
    (h : t ∈ db.part tenantId forClientId type) : t.type = type := by
  cases type <;>
    · obtain ⟨_, -, rfl⟩ := List.mem_map.mp h
      rfl

/-- A transaction of the tenant is of the part of its type. -/
theorem mem_part_iff {type : TransactionType} {t : Transaction}
    (ht : t ∈ (db.parts tenantId forClientId).flatten) :
    t ∈ db.part tenantId forClientId type ↔ t.type = type := by
  refine ⟨type_of_mem_part, fun htype => ?_⟩
  obtain ⟨part, hpart, hmem⟩ := List.mem_flatten.mp ht
  obtain ⟨type', -, rfl⟩ := List.mem_map.mp hpart
  rwa [← htype, type_of_mem_part hmem]

/-- What the dashboard shows of a transaction tells which it is. -/
theorem recent_inj {l l' : List Transaction}
    (hl : l ⊆ gather db tenantId forClientId none) (hl' : l' ⊆ gather db tenantId forClientId none)
    (h : l.map Transaction.recent = l'.map Transaction.recent) : l = l' := by
  induction l generalizing l' with
  | nil => exact (List.map_eq_nil_iff.mp h.symm).symm
  | cons t l ih =>
      cases l' with
      | nil => cases h
      | cons t' l' =>
          obtain ⟨hhead, htail⟩ := List.cons.inj h
          have hkey : t.key = t'.key :=
            congrArg₂ Prod.mk (congrArg RecentActivity.type hhead)
              (congrArg RecentActivity.id hhead)
          obtain rfl : t = t' := List.inj_on_of_nodup_map (gather_nodup forClientId)
            (hl List.mem_cons_self) (hl' List.mem_cons_self) hkey
          rw [ih (fun _ hx => hl (List.mem_cons_of_mem _ hx))
            (fun _ hx => hl' (List.mem_cons_of_mem _ hx)) htail]

/-- The dashboard shows the beginning of the tenant's list exactly when no type has more than
five of its first ten. -/
theorem getRecentActivities_eq_iff :
    getRecentActivities db tenantId forClientId =
        ((collectTransactions db tenantId forClientId none).take 10).map Transaction.recent ↔
      ∀ type, (((collectTransactions db tenantId forClientId none).take 10).filter fun t =>
        t.type = type).length ≤ 5 := by
  have hnodup : (db.parts tenantId forClientId).flatten.Nodup := by
    rw [parts_flatten]
    exact (gather_nodup forClientId).of_map
  have hfirst : (collectTransactions db tenantId forClientId none).take 10 =
      latest Transaction.date 10 (db.parts tenantId forClientId).flatten := by
    rw [parts_flatten]
    rfl
  have hcut : latest Transaction.date 10 ((db.parts tenantId forClientId).map
      (latest Transaction.date 5)).flatten =
        latest Transaction.date 10 (db.parts tenantId forClientId).flatten ↔
      ∀ part ∈ db.parts tenantId forClientId, ((latest Transaction.date 10
        (db.parts tenantId forClientId).flatten).filter fun t => t ∈ part).length ≤ 5 :=
    newest_trimmed_iff hnodup
  have hall : ∀ {k : ℕ} {items : List Transaction}, latest Transaction.date k items ⊆ items :=
    fun ht => (List.mem_insertionSort _).mp (List.mem_of_mem_take ht)
  have hparts : ((db.parts tenantId forClientId).map (latest Transaction.date 5)).flatten ⊆
      (db.parts tenantId forClientId).flatten := by
    intro t ht
    obtain ⟨cut, hmem, htcut⟩ := List.mem_flatten.mp ht
    obtain ⟨part, hpart, rfl⟩ := List.mem_map.mp hmem
    exact List.mem_flatten.mpr ⟨part, hpart, hall htcut⟩
  have htype : ∀ type, ((latest Transaction.date 10
      (db.parts tenantId forClientId).flatten).filter fun t =>
        t ∈ db.part tenantId forClientId type) =
      (latest Transaction.date 10 (db.parts tenantId forClientId).flatten).filter fun t =>
        t.type = type := by
    intro type
    refine List.filter_congr fun t ht => ?_
    simp only [mem_part_iff (hall ht)]
  rw [getRecentActivities_parts, hfirst]
  constructor
  · intro h type
    have hsame := recent_inj (parts_flatten ▸ fun _ ht => hparts (hall ht)) (parts_flatten ▸ hall) h
    rw [← htype]
    refine hcut.mp hsame _ (List.mem_map_of_mem ?_)
    cases type <;> decide
  · intro hfew
    rw [hcut.mpr]
    intro part hpart
    obtain ⟨type, -, rfl⟩ := List.mem_map.mp hpart
    rw [htype]
    exact hfew type

end Tenant

/-! ## The dashboards and the lists -/

/-- A client's dashboard shows the first page of eight of his list; a tenant's dashboard, of all
its clients or of one, shows the first ten of the list exactly when no type has more than five of
them. -/
theorem recent_activities {rt : Runtime} (hupper : rt.toUpperCase [] = []) (db : MySources)
    (tenantId : Text) :
    (∀ userId, ∃ page, listMyTransactions rt db tenantId userId { limit := some ['8'] } = .ok page ∧
      myRecentActivities db.toSources tenantId userId = page.data.map MyTransaction.activity) ∧
    ∀ forClientId, getRecentActivities db.toSources tenantId forClientId =
        ((collectTransactions db.toSources tenantId forClientId none).take 10).map
          Transaction.recent ↔
      ∀ type, (((collectTransactions db.toSources tenantId forClientId none).take 10).filter
        fun t => t.type = type).length ≤ 5 := by
  refine ⟨fun userId => ⟨_, listMyTransactions_plain hupper none (some ['8']), ?_⟩,
    fun _ => getRecentActivities_eq_iff⟩
  rw [myRecentActivities_eq]
  rfl

/-- A trade of the platform's only row, filed at a time. -/
def tradeAt (n : ℕ) : TradeRow :=
  { id := pageText n, tenantId := ['t'], sellerId := ['s'], buyerId := none
    seller := ⟨['A'], ['O']⟩, reference := ['T'], status := "LISTED".toList
    quantity := .nan, receiptId := ['r'], receipt := ⟨['R'], ['w'], ['m'], .nan⟩, createdAt := n }

/-- Six trades are filed and nothing else. -/
def sixTrades : MySources where
  receipts := .empty
  withdrawals := .empty
  loans := .empty
  trades := { rows := (List.range 6).map tradeAt, nodup := by decide }
  unitOfMeasure := fun _ => ['k', 'g']

/-- The client sees all six trades, the tenant only five of them. -/
theorem recent_activities_sample :
    (myRecentActivities sixTrades.toSources ['t'] ['s']).length = 6 ∧
      getRecentActivities sixTrades.toSources ['t'] none ≠
        ((collectTransactions sixTrades.toSources ['t'] none none).take 10).map
          Transaction.recent := by
  have hupper : (Runtime.mk id id fun _ => none).toUpperCase [] = [] := rfl
  have hrecent := recent_activities hupper sixTrades ['t']
  refine ⟨by decide, fun hsame => ?_⟩
  exact absurd ((hrecent.2 none).mp hsame .trade) (by decide)

end SecureStore.Transactions
