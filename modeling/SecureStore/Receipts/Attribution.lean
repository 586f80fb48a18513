/-
# Rows and the receipts they point at

When requests run one at a time, a row that holds no more points at a receipt that is not
held, and a receipt held for a withdrawal has a row that points at it. The row of a loan or a
trade is written once its leaf is held, so it always points at the leaf minted for it.
-/

import SecureStore.Collateral.Rows
import SecureStore.Custody.Transactions

namespace SecureStore.Services

open SecureStore.Foundation SecureStore.Inventory

/-- A withdrawal holds its receipt from the payment to the decision against it or the dispatch. -/
def WithdrawalStatus.Holds (status : WithdrawalStatus) : Prop :=
  status ∈ [.paidPendingApproval, .approved]

instance : DecidablePred WithdrawalStatus.Holds := fun _ => List.instDecidableMemOfLawfulBEq _ _

def LoanStatus.Holds (status : LoanStatus) : Prop := status ∈ [.pending, .approved, .active]

instance : DecidablePred LoanStatus.Holds := fun _ => List.instDecidableMemOfLawfulBEq _ _

def TradeStatus.Holds (status : TradeStatus) : Prop := status ∈ [.listed, .pendingSettlement]

instance : DecidablePred TradeStatus.Holds := fun _ => List.instDecidableMemOfLawfulBEq _ _

/-- The receipt is there and was minted for the transaction. -/
def MintedAt (s : Ledger) (receiptId : Id) (txnType : TxnType) (txnId : Id) : Prop :=
  ∃ r, s.receipts.find receiptId = some r ∧ MintedFor r txnType txnId

/-- The receipt was minted for the transaction, and is free unless the transaction holds. -/
structure OwnLeaf (s : Ledger) (txnType : TxnType) (txnId receiptId : Id)
    (holds : Prop) : Prop where
  minted : MintedAt s receiptId txnType txnId
  free : ¬ holds → FreeAt s receiptId

/-- Between two requests, rows tell what holds the receipts. -/
structure Attributed (s : Db) : Prop where
  withdrawals : ∀ w ∈ s.withdrawals, ¬ w.status.Holds → FreeAt s.ledger w.receiptId
  loans : ∀ l ∈ s.loans, OwnLeaf s.ledger .loan l.id l.receiptId l.status.Holds
  trades : ∀ t ∈ s.trades, OwnLeaf s.ledger .trade t.id t.receiptId t.status.Holds
  paid : ∀ r ∈ s.ledger.receipts, r.status = .heldWithdrawal →
    ∃ w ∈ s.withdrawals, w.receiptId = r.id ∧ w.tenantId = r.tenantId

theorem attributed_initial (directory : Directory) : Attributed (Db.initial directory) := by
  constructor <;> simp [Db.initial]

section Steps

variable {num : Numeric} {by_ : Issuer} {op : LedgerOp} {s s' : Db}

theorem MintedAt.later {s s' : Ledger} {receiptId txnId : Id} {txnType : TxnType}
    (h : MintedAt s receiptId txnType txnId) (hlater : Later s s') :
    MintedAt s' receiptId txnType txnId := by
  obtain ⟨r, hfind, hminted⟩ := h
  obtain ⟨r', hfind', hnode, -⟩ := hlater.find hfind
  exact ⟨r', hfind', (MintedFor.of_sameNode hnode).mpr hminted⟩

theorem OwnLeaf.later {s s' : Ledger} {receiptId txnId : Id} {txnType : TxnType} {holds : Prop}
    (h : OwnLeaf s txnType txnId receiptId holds) (hlater : Later s s') :
    OwnLeaf s' txnType txnId receiptId holds :=
  ⟨h.minted.later hlater, fun hover => (h.free hover).later hlater⟩

theorem HeldAs.withdrawal_status {status : ReceiptStatus} (h : HeldAs .withdrawal status) :
    status = .heldWithdrawal := by
  cases h
  rfl

/-- A receipt held for a withdrawal was so before, unless the step confirms the payment. -/
theorem LedgerStep.heldWithdrawal (h : LedgerStep num by_ op s s') {r : Receipt}
    (hr : r ∈ s'.ledger.receipts) (hstatus : r.status = .heldWithdrawal) :
    (∃ r₀ ∈ s.ledger.receipts, r₀.id = r.id ∧ r₀.tenantId = r.tenantId ∧
        r₀.status = .heldWithdrawal) ∨
      ∃ id, by_ = .confirmPayment id ∧ MintedFor r .withdrawal id := by
  obtain ⟨uuids, events, change, result, heffect, hcommits⟩ := h.effect
  rcases hcommits.mem_receipts.mp hr with ⟨r₀, hr₀, rfl⟩ | hcreated
  · left
    obtain ⟨hnode, hsame | hmove⟩ := hcommits.advance heffect hr₀
    · exact ⟨r₀, hr₀, hnode.id.symm, hnode.tenantId.symm, hsame.symm.trans hstatus⟩
    · -- nothing moves into the hold of a withdrawal
      rw [hstatus] at hmove
      generalize r₀.status = before at hmove
      cases hmove
  · right
    have hheld : r.status.Held := by rw [hstatus]; decide
    rcases h.rightful.calls.created_held heffect hcreated hheld with
      ⟨input, rfl, hinput, hminted⟩ | ⟨input, src, -, -, -, hlien, -⟩
    · rw [hstatus] at hinput
      cases h.rightful.calls with
      | confirmPayment key status txnType txnId => exact ⟨_, rfl, txnId ▸ txnType ▸ hminted⟩
      | createPledge key status => rw [status] at hinput; cases hinput
      | createLoan key status => rw [status] at hinput; cases hinput
      | createTrade key status => rw [status] at hinput; cases hinput
    · rw [hstatus] at hlien
      cases hlien

/-- A call of another request than the confirmation of a payment. -/
theorem Attributed.ledgerStep (h : Attributed s) (hstep : LedgerStep num by_ op s s')
    (hpay : ∀ id, by_ ≠ .confirmPayment id)
    (htrades : ∀ t ∈ s'.trades, OwnLeaf s'.ledger .trade t.id t.receiptId t.status.Holds) :
    Attributed s' where
  withdrawals := by
    rw [hstep.withdrawals]
    exact fun w hw hover => (h.withdrawals w hw hover).later hstep.later.ledger
  loans := by
    rw [hstep.loans]
    exact fun l hl => (h.loans l hl).later hstep.later.ledger
  trades := htrades
  paid := by
    rw [hstep.withdrawals]
    intro r hr hstatus
    rcases hstep.heldWithdrawal hr hstatus with ⟨r₀, hr₀, hid, htenant, hstatus₀⟩ | ⟨id, hby, -⟩
    · obtain ⟨w, hw, hreceipt, hwtenant⟩ := h.paid r₀ hr₀ hstatus₀
      exact ⟨w, hw, hreceipt.trans hid, hwtenant.trans htenant⟩
    · exact absurd hby (hpay id)

/-- A rightful call, new or repeated. -/
theorem Attributed.call (h : Attributed s) (hright : Rightful s by_ op)
    (hpay : ∀ id, by_ ≠ .confirmPayment id) {uuids : Uuids} {result : LedgerResult}
    {ledger : Ledger} (houtcome : Outcome num uuids op s.ledger result ledger) :
    Attributed { s with ledger } := by
  cases houtcome with
  | replayed e prior reconstructs same =>
      subst same
      exact h
  | committed free events change effect commits =>
      have hstep := hright.ledgerStep free effect commits
      exact h.ledgerStep hstep hpay fun t ht => (h.trades t ht).later hstep.later.ledger

/-- A rightful call that returns keeps custody and what was there. -/
theorem rightful_keeps (hs : Custody s) (hright : Rightful s by_ op) {uuids : Uuids}
    {result : LedgerResult} {ledger : Ledger}
    (houtcome : Outcome num uuids op s.ledger result ledger) :
    Custody { s with ledger } ∧ s.Later { s with ledger } := by
  have hkeeps : Custody { s with ledger } ∧
      Takes num (fun _ => True) (.ledger by_ op) s { s with ledger } :=
    rightful_takes hs trivial hright houtcome
  exact ⟨hkeeps.1, hkeeps.2.later⟩

/-- The child that a hold returns, new or found again, is held for the hold's transaction. -/
theorem minted_of_hold (hs : Custody s) {input : HoldInput} (hcalls : Calls by_ (.hold input))
    {uuids : Uuids} {result : HoldResult} {ledger : Ledger} {held : Receipt}
    (houtcome : Outcome num uuids (.hold input) s.ledger (.held result) ledger)
    (hheld : result.held = some held) :
    ledger.receipts.find held.id = some held ∧ held.status.Held ∧
      MintedFor held input.txnType input.txnId := by
  obtain ⟨r, hfind, hminted⟩ := held_of_hold hs hcalls houtcome hheld
  have hmem : held ∈ ledger.receipts ∧ held.status.Held := by
    cases houtcome with
    | replayed e prior reconstructs same =>
        obtain ⟨source, -, hresult⟩ := reconstructs
        cases hresult
        subst same
        exact ⟨(Ledger.mem_byEvent.mp (List.mem_of_find?_eq_some hheld)).1,
          by simpa using List.find?_some hheld⟩
    | committed free events change effect commits =>
        cases effect with
        | hold _ src number number' =>
            cases hheld
            exact ⟨Table.mem_of_find (commits.find_created List.mem_cons_self),
              HeldStatus.held input.heldStatus⟩
  have hself := Table.find_of_mem hmem.1
  obtain rfl := Option.some_inj.mp (hself.symm.trans hfind)
  exact ⟨hself, hmem.2, hminted hmem.2⟩

/-- The hold of a payment leaves two kinds of receipts held for withdrawals: the child of the
hold, and those that rows of other withdrawals point at. -/
theorem Attributed.hold (h : Attributed s) (hs : Custody s) {w : Withdrawal}
    (hw : w ∈ s.withdrawals) {input : HoldInput}
    (hcalls : Calls (.confirmPayment w.id) (.hold input)) (htenant : input.tenantId = w.tenantId)
    {uuids : Uuids} {result : HoldResult} {ledger : Ledger} {held : Receipt}
    (houtcome : Outcome num uuids (.hold input) s.ledger (.held result) ledger)
    (hheld : result.held = some held) :
    held.tenantId = w.tenantId ∧ ∀ r ∈ ledger.receipts, r.status = .heldWithdrawal →
      r = held ∨
        ∃ w' ∈ s.withdrawals, w'.id ≠ w.id ∧ w'.receiptId = r.id ∧ w'.tenantId = r.tenantId := by
  obtain ⟨hself, hstatus, hminted⟩ := minted_of_hold hs hcalls houtcome hheld
  have hright : Rightful s (.confirmPayment w.id) (.hold input) :=
    ⟨hcalls, by rintro _ ⟨⟩, trivial⟩
  have hs' := (rightful_keeps hs hright houtcome).1
  obtain ⟨htype, hid⟩ : input.txnType = .withdrawal ∧ input.txnId = w.id := by
    cases hcalls with
    | confirmPayment key status txnType txnId => exact ⟨txnType, txnId⟩
  rw [htype, hid] at hminted
  -- a row that points at a receipt held for a withdrawal is of that withdrawal
  have hrow : ∀ w' ∈ s.withdrawals, ∀ r ∈ ledger.receipts, r.status.Held → w'.receiptId = r.id →
      MintedFor r .withdrawal w'.id := by
    intro w' hw' r hr hheld' hreceipt
    obtain ⟨r', hfind, hminted'⟩ := (hs'.withdrawals w' hw').1
    rw [hreceipt] at hfind
    obtain rfl := Option.some_inj.mp ((Table.find_of_mem hr).symm.trans hfind)
    exact hminted' hheld'
  have hsingle : ∀ r ∈ ledger.receipts, MintedFor r .withdrawal w.id → r = held :=
    fun r hr hminted' => Table.eq_of_key_eq hr (Table.mem_of_find hself)
      (hs'.single r hr held (Table.mem_of_find hself) w.id hminted' hminted)
  have hbefore : ∀ r ∈ ledger.receipts, r.status = .heldWithdrawal →
      MintedFor r .withdrawal w.id ∨
        ∃ w' ∈ s.withdrawals, w'.receiptId = r.id ∧ w'.tenantId = r.tenantId := by
    intro r hr hheldW
    cases houtcome with
    | replayed e prior reconstructs same =>
        subst same
        exact .inr (h.paid r hr hheldW)
    | committed free events change effect commits =>
        rcases (hright.ledgerStep free effect commits).heldWithdrawal hr hheldW with
          ⟨r₀, hr₀, hid₀, htenant₀, hstatus₀⟩ | ⟨id, hby, hminted'⟩
        · obtain ⟨w', hw', hreceipt, hwtenant⟩ := h.paid r₀ hr₀ hstatus₀
          exact .inr ⟨w', hw', hreceipt.trans hid₀, hwtenant.trans htenant₀⟩
        · cases hby
          exact .inl hminted'
  refine ⟨?_, fun r hr hheldW => ?_⟩
  · cases houtcome with
    | replayed e prior reconstructs same =>
        subst same
        obtain ⟨txnType, htxn, hheldAs⟩ := hs.heldAs held (Table.mem_of_find hself) hstatus
        obtain rfl := Option.some_inj.mp (hminted.1.symm.trans htxn)
        obtain ⟨w', hw', hreceipt, hwtenant⟩ :=
          h.paid held (Table.mem_of_find hself) hheldAs.withdrawal_status
        have hid' := (hrow w' hw' held (Table.mem_of_find hself) hstatus hreceipt).2
        obtain rfl : w' = w :=
          Table.eq_of_key_eq hw' hw (Option.some_inj.mp (hid'.symm.trans hminted.2))
        exact hwtenant.symm
    | committed free events change effect commits =>
        cases effect with
        | hold _ src number number' loaded =>
            cases hheld
            exact loaded.2.trans htenant
  · rcases hbefore r hr hheldW with hminted' | ⟨w', hw', hreceipt, hwtenant⟩
    · exact .inl (hsingle r hr hminted')
    · have hheld' : r.status.Held := by rw [hheldW]; decide
      have hminted' := hrow w' hw' r hr hheld' hreceipt
      by_cases hsame : w'.id = w.id
      · exact .inl (hsingle r hr (hsame ▸ hminted'))
      · exact .inr ⟨w', hw', hsame, hreceipt, hwtenant⟩

end Steps

end SecureStore.Services
