/-
# Who holds a receipt

A held receipt has one live transaction at most, whose row points at it. The page names that of
a withdrawal, a loan or a trade whose row is in the tenant of the receipt, and never names a
pledge or a lien. A hold for a loan or a trade is placed before its row is written, and stays
without one when the row is refused, which happens if the reference it drew is taken.
-/

import SecureStore.Receipts.OneByOne
import SecureStore.Services.Receipts

namespace SecureStore.Services

open SecureStore.Foundation SecureStore.Inventory

/-- A business transaction that can hold a receipt. -/
inductive Transaction where
  | withdrawal (w : Withdrawal)
  | loan (l : Loan)
  | trade (t : Trade)
  | pledge (p : Pledge)
  | lien (l : Lien)

/-- The live transactions whose rows point at a receipt. -/
inductive HoldsReceipt (db : Db) (receiptId : Id) : Transaction → Prop where
  | withdrawal {w : Withdrawal} (row : w ∈ db.withdrawals) (points : w.receiptId = receiptId)
      (live : w.status.Holds) : HoldsReceipt db receiptId (.withdrawal w)
  | loan {l : Loan} (row : l ∈ db.loans) (points : l.receiptId = receiptId)
      (live : l.status.Holds) : HoldsReceipt db receiptId (.loan l)
  | trade {t : Trade} (row : t ∈ db.trades) (points : t.receiptId = receiptId)
      (live : t.status.Holds) : HoldsReceipt db receiptId (.trade t)
  | pledge {p : Pledge} (row : p ∈ db.pledges) (points : p.heldReceiptId = some receiptId)
      (live : p.status = .pending) : HoldsReceipt db receiptId (.pledge p)
  | lien {l : Lien} (row : l ∈ db.liens) (points : l.receiptId = receiptId)
      (live : l.status.Live) : HoldsReceipt db receiptId (.lien l)

/-- What is shown of a request identifies the transaction. -/
def RequestInfo.Names (info : RequestInfo) : Transaction → Prop
  | .withdrawal w => info = w.requestInfo
  | .loan l => info = l.requestInfo
  | .trade t => info = t.requestInfo
  | .pledge p => info.id = p.id
  | .lien l => info.id = l.id

/-- The request that is shown with a receipt names the one live transaction that holds it. -/
def NamesHolder (db : Db) (r : Receipt) (request : Option RequestInfo) : Prop :=
  ∃ info txn, request = some info ∧ HoldsReceipt db r.id txn ∧
    (∀ txn', HoldsReceipt db r.id txn' → txn' = txn) ∧ info.Names txn

/-- The receipt is held for a withdrawal, or for a loan or a trade that has its row in the
tenant of the receipt. -/
def Attributable (db : Db) (r : Receipt) : Prop :=
  r.status = .heldWithdrawal ∨
    (r.status = .heldLoan ∧
      ∃ l ∈ db.loans, r.sourceTxnId = some l.id ∧ l.tenantId = r.tenantId) ∨
    (r.status = .heldTrade ∧
      ∃ t ∈ db.trades, r.sourceTxnId = some t.id ∧ t.tenantId = r.tenantId)

/-- The rows that point at a receipt are of the transaction it was minted for. -/
structure PointedFor (db : Db) (r : Receipt) : Prop where
  withdrawals : ∀ w ∈ db.withdrawals, w.receiptId = r.id → MintedFor r .withdrawal w.id
  loans : ∀ l ∈ db.loans, l.receiptId = r.id → MintedFor r .loan l.id
  trades : ∀ t ∈ db.trades, t.receiptId = r.id → MintedFor r .trade t.id
  pledges : ∀ p ∈ db.pledges, p.heldReceiptId = some r.id → MintedFor r .pledge p.id
  liens : ∀ l ∈ db.liens, l.receiptId = r.id → MintedFor r .pledge l.pledgeId

theorem Custody.pointedFor {db : Db} (hs : Custody db) {r : Receipt}
    (hr : r ∈ db.ledger.receipts) (hheld : r.status.Held) : PointedFor db r := by
  have hminted : ∀ {txnType txnId}, HeldFor db.ledger r.id txnType txnId →
      MintedFor r txnType txnId := by
    rintro txnType txnId ⟨r', hfind, hminted⟩
    obtain rfl := Option.some_inj.mp ((Table.find_of_mem hr).symm.trans hfind)
    exact hminted hheld
  constructor
  · rintro w hw hpoints
    exact hminted (hpoints ▸ (hs.withdrawals w hw).1)
  · rintro l hl hpoints
    exact hminted (hpoints ▸ hs.loans l hl)
  · rintro t ht hpoints
    exact hminted (hpoints ▸ hs.trades t ht)
  · rintro p hp hpoints
    exact hminted (hs.pledges p hp r.id hpoints)
  · rintro l hl hpoints
    exact hminted (hpoints ▸ hs.liens l hl)

namespace ReceiptsService

section Lookup

variable {db : Db} {tenantId : Id} {ids : List Id} {receiptId : Id}

/-- A receipt that no row of the tenant points at has no request. -/
theorem loadHeldRequests_none
    (hwithdrawals : ∀ w ∈ db.withdrawals, w.tenantId = tenantId → w.receiptId ≠ receiptId)
    (hloans : ∀ l ∈ db.loans, l.tenantId = tenantId → l.receiptId ≠ receiptId)
    (htrades : ∀ t ∈ db.trades, t.tenantId = tenantId → t.receiptId ≠ receiptId) :
    loadHeldRequests db tenantId ids receiptId = none := by
  unfold loadHeldRequests
  rw [setAll_of_not_mem, setAll_of_not_mem, setAll_of_not_mem]
  · intro w hw
    obtain ⟨hmem, hwhere⟩ := List.mem_filter.mp hw
    exact hwithdrawals w hmem (of_decide_eq_true hwhere).1
  · intro l hl
    obtain ⟨hmem, hwhere⟩ := List.mem_filter.mp hl
    exact hloans l hmem (of_decide_eq_true hwhere).1
  · intro t ht
    obtain ⟨hmem, hwhere⟩ := List.mem_filter.mp ht
    exact htrades t hmem (of_decide_eq_true hwhere).1

theorem loadHeldRequests_withdrawal {w : Withdrawal} (hw : w ∈ db.withdrawals)
    (htenant : w.tenantId = tenantId) (hid : w.receiptId ∈ ids)
    (hunique : ∀ w' ∈ db.withdrawals, w'.receiptId = w.receiptId → w' = w)
    (hloans : ∀ l ∈ db.loans, l.receiptId ≠ w.receiptId)
    (htrades : ∀ t ∈ db.trades, t.receiptId ≠ w.receiptId) :
    loadHeldRequests db tenantId ids w.receiptId = some w.requestInfo := by
  unfold loadHeldRequests
  rw [setAll_of_not_mem, setAll_of_not_mem, setAll_of_unique]
  · exact List.mem_filter.mpr ⟨hw, decide_eq_true ⟨htenant, hid⟩⟩
  · exact fun w' hw' hsame => hunique w' (List.mem_filter.mp hw').1 hsame
  · exact fun l hl => hloans l (List.mem_filter.mp hl).1
  · exact fun t ht => htrades t (List.mem_filter.mp ht).1

theorem loadHeldRequests_loan {l : Loan} (hl : l ∈ db.loans) (htenant : l.tenantId = tenantId)
    (hid : l.receiptId ∈ ids) (hunique : ∀ l' ∈ db.loans, l'.receiptId = l.receiptId → l' = l)
    (htrades : ∀ t ∈ db.trades, t.receiptId ≠ l.receiptId) :
    loadHeldRequests db tenantId ids l.receiptId = some l.requestInfo := by
  unfold loadHeldRequests
  rw [setAll_of_not_mem, setAll_of_unique]
  · exact List.mem_filter.mpr ⟨hl, decide_eq_true ⟨htenant, hid⟩⟩
  · exact fun l' hl' hsame => hunique l' (List.mem_filter.mp hl').1 hsame
  · exact fun t ht => htrades t (List.mem_filter.mp ht).1

theorem loadHeldRequests_trade {t : Trade} (ht : t ∈ db.trades) (htenant : t.tenantId = tenantId)
    (hid : t.receiptId ∈ ids) (hunique : ∀ t' ∈ db.trades, t'.receiptId = t.receiptId → t' = t) :
    loadHeldRequests db tenantId ids t.receiptId = some t.requestInfo := by
  unfold loadHeldRequests
  rw [setAll_of_unique]
  · exact List.mem_filter.mpr ⟨ht, decide_eq_true ⟨htenant, hid⟩⟩
  · exact fun t' ht' hsame => hunique t' (List.mem_filter.mp ht').1 hsame

end Lookup

end ReceiptsService

section Holders

variable {db : Db} {r : Receipt} {ids : List Id}

open ReceiptsService

theorem MintedFor.unique {txnType txnType' : TxnType} {txnId txnId' : Id}
    (h : MintedFor r txnType txnId) (h' : MintedFor r txnType' txnId') :
    txnType = txnType' ∧ txnId = txnId' :=
  ⟨Option.some_inj.mp (h.1.symm.trans h'.1), Option.some_inj.mp (h.2.symm.trans h'.2)⟩

/-- A receipt points back at the transactions that hold it, so there is one at most. -/
theorem PointedFor.withdrawal_unique (h : PointedFor db r) {w : Withdrawal}
    (hw : w ∈ db.withdrawals) (hpoints : w.receiptId = r.id) {txn : Transaction}
    (htxn : HoldsReceipt db r.id txn) : txn = .withdrawal w := by
  have hminted := h.withdrawals w hw hpoints
  cases htxn with
  | withdrawal row points =>
      have hsame := ((h.withdrawals _ row points).unique hminted).2
      exact congrArg Transaction.withdrawal (Table.eq_of_key_eq row hw hsame)
  | loan row points => cases ((h.loans _ row points).unique hminted).1
  | trade row points => cases ((h.trades _ row points).unique hminted).1
  | pledge row points => cases ((h.pledges _ row points).unique hminted).1
  | lien row points => cases ((h.liens _ row points).unique hminted).1

theorem PointedFor.loan_unique (h : PointedFor db r) {l : Loan} (hl : l ∈ db.loans)
    (hpoints : l.receiptId = r.id) {txn : Transaction} (htxn : HoldsReceipt db r.id txn) :
    txn = .loan l := by
  have hminted := h.loans l hl hpoints
  cases htxn with
  | withdrawal row points => cases ((h.withdrawals _ row points).unique hminted).1
  | loan row points =>
      have hsame := ((h.loans _ row points).unique hminted).2
      exact congrArg Transaction.loan (Table.eq_of_key_eq row hl hsame)
  | trade row points => cases ((h.trades _ row points).unique hminted).1
  | pledge row points => cases ((h.pledges _ row points).unique hminted).1
  | lien row points => cases ((h.liens _ row points).unique hminted).1

theorem PointedFor.trade_unique (h : PointedFor db r) {t : Trade} (ht : t ∈ db.trades)
    (hpoints : t.receiptId = r.id) {txn : Transaction} (htxn : HoldsReceipt db r.id txn) :
    txn = .trade t := by
  have hminted := h.trades t ht hpoints
  cases htxn with
  | withdrawal row points => cases ((h.withdrawals _ row points).unique hminted).1
  | loan row points => cases ((h.loans _ row points).unique hminted).1
  | trade row points =>
      have hsame := ((h.trades _ row points).unique hminted).2
      exact congrArg Transaction.trade (Table.eq_of_key_eq row ht hsame)
  | pledge row points => cases ((h.pledges _ row points).unique hminted).1
  | lien row points => cases ((h.liens _ row points).unique hminted).1

/-- A row that points at a held receipt holds it. -/
theorem live_of_points {receiptId : Id} {holds : Prop} (hr : r ∈ db.ledger.receipts)
    (hheld : r.status.Held) (hpoints : receiptId = r.id)
    (hfree : ¬ holds → FreeAt db.ledger receiptId) : holds := by
  by_contra hover
  obtain ⟨r', hfind, hnot⟩ := hfree hover
  rw [hpoints, show db.ledger.receipts.find r.id = some r from Table.find_of_mem hr] at hfind
  cases hfind
  exact hnot hheld

/-- A receipt that is held for a withdrawal shows it. -/
theorem names_withdrawal (h : Accounted db) (hr : r ∈ db.ledger.receipts) (hid : r.id ∈ ids)
    (hstatus : r.status = .heldWithdrawal) :
    NamesHolder db r (loadHeldRequests db r.tenantId ids r.id) := by
  have hheld : r.status.Held := by rw [hstatus]; decide
  have hpoints := h.custody.pointedFor hr hheld
  obtain ⟨w, hw, hreceipt, htenant⟩ := h.rows.paid r hr hstatus
  have hminted := hpoints.withdrawals w hw hreceipt
  have hlive := live_of_points hr hheld hreceipt (h.rows.withdrawals w hw)
  refine ⟨w.requestInfo, .withdrawal w, ?_, .withdrawal hw hreceipt hlive,
    fun _ => hpoints.withdrawal_unique hw hreceipt, rfl⟩
  rw [← hreceipt] at hid ⊢
  apply loadHeldRequests_withdrawal hw htenant hid
  · intro w' hw' hreceipt'
    have hsame := (hpoints.withdrawals w' hw' (hreceipt'.trans hreceipt)).unique hminted
    exact Table.eq_of_key_eq hw' hw hsame.2
  · intro l hl hreceipt'
    cases ((hpoints.loans l hl (hreceipt'.trans hreceipt)).unique hminted).1
  · intro t ht hreceipt'
    cases ((hpoints.trades t ht (hreceipt'.trans hreceipt)).unique hminted).1

/-- A loan's row points at the receipt that was minted for the loan. -/
theorem Accounted.leaf_unique (h : Accounted db) (hr : r ∈ db.ledger.receipts)
    {txnType : TxnType} {txnId receiptId : Id} (hpledge : txnType ≠ .pledge)
    (hminted : MintedFor r txnType txnId) (hat : MintedAt db.ledger receiptId txnType txnId) :
    receiptId = r.id := by
  obtain ⟨r', hfind, hminted'⟩ := hat
  obtain rfl := h.leaves.single r' (Table.mem_of_find hfind) r hr txnType txnId hpledge hminted'
    hminted
  exact (Table.key_of_find hfind).symm

/-- A receipt that is held for a loan shows it, if its row is in the tenant. -/
theorem names_loan (h : Accounted db) (hr : r ∈ db.ledger.receipts) (hid : r.id ∈ ids)
    (hheld : r.status.Held) (htype : r.sourceTxnType = some .loan) {l : Loan} (hl : l ∈ db.loans)
    (hsource : r.sourceTxnId = some l.id) (htenant : l.tenantId = r.tenantId) :
    NamesHolder db r (loadHeldRequests db r.tenantId ids r.id) := by
  have hpoints := h.custody.pointedFor hr hheld
  have hreceipt := h.leaf_unique hr (by decide) ⟨htype, hsource⟩ (h.rows.loans l hl).minted
  have hlive := live_of_points hr hheld hreceipt (h.rows.loans l hl).free
  refine ⟨l.requestInfo, .loan l, ?_, .loan hl hreceipt hlive,
    fun _ => hpoints.loan_unique hl hreceipt, rfl⟩
  rw [← hreceipt] at hid ⊢
  apply loadHeldRequests_loan hl htenant hid
  · intro l' hl' hreceipt'
    have hsame := (hpoints.loans l' hl' (hreceipt'.trans hreceipt)).unique ⟨htype, hsource⟩
    exact Table.eq_of_key_eq hl' hl hsame.2
  · intro t ht hreceipt'
    cases ((hpoints.trades t ht (hreceipt'.trans hreceipt)).unique ⟨htype, hsource⟩).1

theorem names_trade (h : Accounted db) (hr : r ∈ db.ledger.receipts) (hid : r.id ∈ ids)
    (hheld : r.status.Held) (htype : r.sourceTxnType = some .trade) {t : Trade}
    (ht : t ∈ db.trades) (hsource : r.sourceTxnId = some t.id) (htenant : t.tenantId = r.tenantId) :
    NamesHolder db r (loadHeldRequests db r.tenantId ids r.id) := by
  have hpoints := h.custody.pointedFor hr hheld
  have hreceipt := h.leaf_unique hr (by decide) ⟨htype, hsource⟩ (h.rows.trades t ht).minted
  have hlive := live_of_points hr hheld hreceipt (h.rows.trades t ht).free
  refine ⟨t.requestInfo, .trade t, ?_, .trade ht hreceipt hlive,
    fun _ => hpoints.trade_unique ht hreceipt, rfl⟩
  rw [← hreceipt] at hid ⊢
  apply loadHeldRequests_trade ht htenant hid
  intro t' ht' hreceipt'
  have hsame := (hpoints.trades t' ht' (hreceipt'.trans hreceipt)).unique ⟨htype, hsource⟩
  exact Table.eq_of_key_eq ht' ht hsame.2

/-- Other held receipts show nothing. -/
theorem names_none (h : Accounted db) (hr : r ∈ db.ledger.receipts) (hheld : r.status.Held)
    (hnot : ¬ Attributable db r) : loadHeldRequests db r.tenantId ids r.id = none := by
  have hpoints := h.custody.pointedFor hr hheld
  obtain ⟨txnType, htype, hheldAs⟩ := h.custody.heldAs r hr hheld
  apply loadHeldRequests_none
  · intro w hw _ hreceipt
    obtain rfl := Option.some_inj.mp (htype.symm.trans (hpoints.withdrawals w hw hreceipt).1)
    exact hnot (.inl hheldAs.withdrawal_status)
  · intro l hl htenant hreceipt
    have hminted := hpoints.loans l hl hreceipt
    obtain rfl := Option.some_inj.mp (htype.symm.trans hminted.1)
    generalize hstatus : r.status = status at hheldAs
    cases hheldAs
    exact hnot (.inr (.inl ⟨hstatus, l, hl, hminted.2, htenant⟩))
  · intro t ht htenant hreceipt
    have hminted := hpoints.trades t ht hreceipt
    obtain rfl := Option.some_inj.mp (htype.symm.trans hminted.1)
    generalize hstatus : r.status = status at hheldAs
    cases hheldAs
    exact hnot (.inr (.inr ⟨hstatus, t, ht, hminted.2, htenant⟩))

/-- The lookup names the holder of exactly the receipts that can be attributed. -/
theorem names_holder_iff (h : Accounted db) (hr : r ∈ db.ledger.receipts) (hid : r.id ∈ ids)
    (hheld : r.status.Held) :
    NamesHolder db r (loadHeldRequests db r.tenantId ids r.id) ↔ Attributable db r := by
  constructor
  · rintro ⟨info, txn, hshown, -⟩
    by_contra hnot
    rw [names_none h hr hheld hnot] at hshown
    cases hshown
  · obtain ⟨txnType, htype, hheldAs⟩ := h.custody.heldAs r hr hheld
    rintro (hstatus | ⟨hstatus, l, hl, hsource, htenant⟩ | ⟨hstatus, t, ht, hsource, htenant⟩)
    · exact names_withdrawal h hr hid hstatus
    · rw [hstatus] at hheldAs
      cases hheldAs
      exact names_loan h hr hid hheld htype hl hsource htenant
    · rw [hstatus] at hheldAs
      cases hheldAs
      exact names_trade h hr hid hheld htype ht hsource htenant

end Holders

/-- The list and the detail show with every held receipt what names it. -/
def HoldersNamed (toUpperCase : String → String) (db : Db) (tenantId : Id)
    (forClientId : Option Id) (names : Receipt → Option RequestInfo → Prop) : Prop :=
  (∀ filters, ∀ row ∈ (ReceiptsService.getReceipts toUpperCase db tenantId filters forClientId).1,
    row.status.Held → ∃ r, db.ledger.receipts.find row.id = some r ∧ names r row.request) ∧
  ∀ id r request, ReceiptsService.getReceiptDetail db tenantId id forClientId =
    .ok (r, request) → r.status.Held → names r request

open ReceiptsService in
/-- After any requests that ran one at a time on an empty store, the list and the detail name the
holder of exactly the held receipts that can be attributed. -/
theorem held_receipts_name_holder_iff (num : Numeric) (toUpperCase : String → String)
    (directory : Directory) (requests : List Request) (tenantId : Id) (forClientId : Option Id) :
    let db := runRequests num requests (Db.initial directory)
    HoldersNamed toUpperCase db tenantId forClientId fun r request =>
      NamesHolder db r request ↔ Attributable db r := by
  intro db
  have h : Accounted db := runRequests_accounted requests (accounted_initial directory)
  constructor
  · intro filters row hrow hheld
    obtain ⟨r, hr, rfl⟩ := List.mem_map.mp hrow
    have hfound := List.mem_of_mem_drop (List.mem_of_mem_take hr)
    obtain ⟨hmem, hwhere⟩ := List.mem_filter.mp (List.mem_reverse.mp hfound)
    obtain ⟨rfl, -⟩ := of_decide_eq_true hwhere
    refine ⟨r, Table.find_of_mem hmem, ?_⟩
    have hid : r.id ∈ (List.filter (fun r => r.status.Held) _).map Receipt.id :=
      List.mem_map_of_mem (List.mem_filter.mpr ⟨hr, decide_eq_true hheld⟩)
    dsimp only [receiptRow]
    rw [if_neg (List.ne_nil_of_mem hid)]
    exact names_holder_iff h hmem hid hheld
  · intro id r request hdetail hheld
    unfold getReceiptDetail at hdetail
    split at hdetail
    · cases hdetail
    · rename_i detail hfound
      cases hdetail
      obtain ⟨hfind, hwhere⟩ := Option.filter_eq_some_iff.mp hfound
      obtain ⟨rfl, -⟩ := of_decide_eq_true hwhere
      obtain rfl := Table.key_of_find hfind
      rw [if_pos hheld]
      exact names_holder_iff h (Table.mem_of_find hfind) List.mem_cons_self hheld

/-- Pledge 7 holds receipt 122, and the list names no request for it. -/
theorem pledged_receipt_unnamed :
    ¬ ∀ (num : Numeric) (toUpperCase : String → String) (directory : Directory)
        (requests : List Request) (tenantId : Id) (forClientId : Option Id),
      HoldersNamed toUpperCase (runRequests num requests (Db.initial directory)) tenantId
        forClientId (NamesHolder (runRequests num requests (Db.initial directory))) := by
  intro hclaim
  have hnamed := (hclaim .decimalJs id sampleDirectory (sampleStock ++ [samplePledge]) 1 none).1
    ⟨"", 0, 20, fun _ => true⟩
  have hunnamed : ∃ row ∈ (ReceiptsService.getReceipts id
      (runRequests .decimalJs (sampleStock ++ [samplePledge]) (Db.initial sampleDirectory)) 1
      ⟨"", 0, 20, fun _ => true⟩ none).1, row.status.Held ∧ row.request = none := by
    decide +kernel
  obtain ⟨row, hrow, hheld, hnone⟩ := hunnamed
  obtain ⟨r, -, info, txn, hshown, -⟩ := hnamed row hrow hheld
  rw [hnone] at hshown
  cases hshown

end SecureStore.Services
