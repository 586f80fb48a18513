/-
# Racing for a withdrawal

Payment, approval, rejection and dispatch read the row, move the ledger and write the
status without looking at it again; only the cron looks. The ledger keeps them apart: the
receipt is minted once, and released or consumed once. The row is not kept in step when
a final status is overwritten, when a rejection is recorded on a receipt that is held
or gone, and when the fee of a dispatch cannot be computed.
-/

import SecureStore.Receipts.Attribution

namespace SecureStore.Services

open SecureStore.Foundation SecureStore.Inventory

/-- A withdrawal that is not to change any more. -/
def WithdrawalStatus.Final (status : WithdrawalStatus) : Prop := status ∈ [.rejected, .completed]

instance : DecidablePred WithdrawalStatus.Final := fun _ => List.instDecidableMemOfLawfulBEq _ _

/-- A withdrawal for which nothing is to be held. -/
def WithdrawalStatus.Unheld (status : WithdrawalStatus) : Prop :=
  status ∈ [.pendingPayment, .rejected]

instance : DecidablePred WithdrawalStatus.Unheld := fun _ => List.instDecidableMemOfLawfulBEq _ _

/-- A receipt that the payment of withdrawal w minted. -/
structure PaidWith (w : Id) (s : Ledger) (r : Receipt) : Prop where
  there : r ∈ s.receipts
  minted : MintedFor r .withdrawal w

/-- Row and receipt of withdrawal w say the same. -/
structure WithdrawalAgrees (w : Id) (s : Db) : Prop where
  completed : ∀ x, s.withdrawals.find w = some x → x.status = .completed →
    ∃ r, PaidWith w s.ledger r ∧ r.id = x.receiptId ∧ r.status = .withdrawn
  withdrawn : ∀ x, s.withdrawals.find w = some x → ∀ r, PaidWith w s.ledger r →
    r.status = .withdrawn → x.status = .completed
  rejected : ∀ x, s.withdrawals.find w = some x → x.status = .rejected →
    ∀ r ∈ s.ledger.receipts, r.sourceTxnId = some w → r.status ≠ .heldWithdrawal
  held : ∀ x, s.withdrawals.find w = some x → x.status.Holds →
    ∃ r, s.ledger.receipts.find x.receiptId = some r ∧ r.status = .heldWithdrawal

/-- Row and receipt agree, and nothing was minted before the payment. -/
structure WithdrawalRests (w : Id) (s : Db) : Prop extends WithdrawalAgrees w s where
  unpaid : ∀ x, s.withdrawals.find w = some x → x.status = .pendingPayment →
    ∀ r, ¬ PaidWith w s.ledger r

/-- A REJECTED or COMPLETED withdrawal is left so. -/
def FinalKept (w : Id) (s s' : Db) : Prop :=
  ∀ x, s.withdrawals.find w = some x → x.status.Final →
    ∃ x', s'.withdrawals.find w = some x' ∧ x'.status = x.status

/-- What a row tells of the receipt that its payment minted, also while requests are under
way. -/
structure Withdrawal.Fits (x : Withdrawal) (w : Id) (s : Ledger) : Prop where
  pending : x.status = .pendingPayment → ∀ r, PaidWith w s r →
    r.status.Held ∧ r.id ≠ x.receiptId
  points : x.status.Holds ∨ x.status = .completed → ∃ r, PaidWith w s r ∧ r.id = x.receiptId
  rejected : x.status = .rejected → ∀ r, PaidWith w s r →
    r.status ≠ .withdrawn ∧ (r.id = x.receiptId → ¬ r.status.Held)
  completed : x.status = .completed → ∀ r, PaidWith w s r → r.status = .withdrawn

/-- Withdrawal w between two steps. -/
structure WithdrawalStanding (w : Id) (s : Db) : Prop where
  custody : Custody s
  leaves : TransactionLeaves s.ledger
  dispatches : DispatchesDone s.ledger
  row : ∀ x, s.withdrawals.find w = some x → x.Fits w s.ledger

/-- What requests on withdrawal w leave to each other: a row that points at its receipt goes on
to do so. -/
structure WithdrawalLater (w : Id) (s s' : Db) : Prop where
  ledger : Later s.ledger s'.ledger
  row : ∀ x, s.withdrawals.find w = some x → ∃ x', s'.withdrawals.find w = some x' ∧
    ∀ r, PaidWith w s.ledger r → r.id = x.receiptId → x'.receiptId = x.receiptId

/-- What the row of a withdrawal may lag behind: the payment, or the release or dispatch. -/
inductive Due where
  | payment
  | decision

/-- The statuses of a row that lags behind. -/
def Due.Concerns : Due → WithdrawalStatus → Prop
  | payment => WithdrawalStatus.Unheld
  | decision => WithdrawalStatus.Holds

instance (due : Due) : DecidablePred due.Concerns := by
  cases due <;> unfold Due.Concerns <;> infer_instance

/-- The statuses of a receipt that a row lags behind. -/
def Due.Meets : Due → ReceiptStatus → Prop
  | payment => fun status => status.Held
  | decision => fun status => ¬ status.Held

/-- The row of withdrawal w lags behind its receipt. -/
def Due.Owed (due : Due) (w : Id) (s : Db) : Prop :=
  ∃ x r, s.withdrawals.find w = some x ∧ due.Concerns x.status ∧ PaidWith w s.ledger r ∧
    due.Meets r.status

section Standing

variable {w : Id} {s s' : Db} {x x' : Withdrawal} {r r' : Receipt}

theorem PaidWith.unique (hl : TransactionLeaves s.ledger) (h : PaidWith w s.ledger r)
    (h' : PaidWith w s.ledger r') : r = r' :=
  hl.single r h.there r' h'.there .withdrawal w (by decide) h.minted h'.minted

theorem PaidWith.later {s s' : Ledger} (h : PaidWith w s r) (hlater : Later s s') :
    ∃ r', PaidWith w s' r' ∧ r'.id = r.id ∧
      Relation.ReflTransGen Moves r.status r'.status := by
  obtain ⟨r', hr', hnode, hmoves⟩ := hlater.receipts r h.there
  exact ⟨r', ⟨hr', (MintedFor.of_sameNode hnode).mpr h.minted⟩, hnode.id, hmoves⟩

/-- A held receipt that was minted for a withdrawal is held for it. -/
theorem PaidWith.heldWithdrawal (hs : Custody s) (h : PaidWith w s.ledger r)
    (hheld : r.status.Held) : r.status = .heldWithdrawal := by
  obtain ⟨txnType, htype, hheldAs⟩ := hs.heldAs r h.there hheld
  obtain rfl := Option.some_inj.mp (h.minted.1.symm.trans htype)
  exact hheldAs.withdrawal_status

/-- A row that points at its receipt is not awaiting payment, nor is it rejected while the
receipt is held. -/
theorem Withdrawal.Fits.holds (h : x.Fits w s.ledger) (hpaid : PaidWith w s.ledger r)
    (hpoints : r.id = x.receiptId) (hheld : r.status.Held) : x.status.Holds := by
  cases hstatus : x.status with
  | pendingPayment => exact absurd hpoints (h.pending hstatus r hpaid).2
  | paidPendingApproval => decide
  | approved => decide
  | rejected => exact absurd hheld ((h.rejected hstatus r hpaid).2 hpoints)
  | completed =>
      rw [h.completed hstatus r hpaid] at hheld
      exact absurd hheld (by decide)

theorem Withdrawal.Fits.of_holds {s : Ledger} (hholds : x.status.Holds) (hpaid : PaidWith w s r)
    (hpoints : r.id = x.receiptId) : x.Fits w s where
  pending hstatus := by
    rw [hstatus] at hholds
    exact absurd hholds (by decide)
  points _ := ⟨r, hpaid, hpoints⟩
  rejected hstatus := by
    rw [hstatus] at hholds
    exact absurd hholds (by decide)
  completed hstatus := by
    rw [hstatus] at hholds
    exact absurd hholds (by decide)

theorem WithdrawalLater.refl (w : Id) (s : Db) : WithdrawalLater w s s :=
  ⟨.refl s.ledger, fun x hfind => ⟨x, hfind, fun _ _ _ => rfl⟩⟩

theorem WithdrawalLater.trans {s'' : Db} (h : WithdrawalLater w s s')
    (h' : WithdrawalLater w s' s'') : WithdrawalLater w s s'' := by
  refine ⟨h.ledger.trans h'.ledger, fun x hfind => ?_⟩
  obtain ⟨x', hfind', hpoints⟩ := h.row x hfind
  obtain ⟨x'', hfind'', hpoints'⟩ := h'.row x' hfind'
  refine ⟨x'', hfind'', fun r hpaid hid => ?_⟩
  obtain ⟨r', hpaid', hid', -⟩ := hpaid.later h.ledger
  have hx' := hpoints r hpaid hid
  exact (hpoints' r' hpaid' (hid'.trans (hid.trans hx'.symm))).trans hx'

/-- A row that points at its receipt finds it later. -/
theorem WithdrawalLater.points (h : WithdrawalLater w s s')
    (hfind : s.withdrawals.find w = some x) (hpaid : PaidWith w s.ledger r)
    (hid : r.id = x.receiptId) (hfind' : s'.withdrawals.find w = some x') :
    x'.receiptId = x.receiptId ∧ ∃ r', PaidWith w s'.ledger r' ∧ r'.id = x'.receiptId ∧
      Relation.ReflTransGen Moves r.status r'.status := by
  obtain ⟨x'', hfind'', hpoints⟩ := h.row x hfind
  obtain rfl := Option.some_inj.mp (hfind'.symm.trans hfind'')
  have hsame := hpoints r hpaid hid
  obtain ⟨r', hpaid', hid', hmoves⟩ := hpaid.later h.ledger
  exact ⟨hsame, r', hpaid', hid'.trans (hid.trans hsame.symm), hmoves⟩

/-- A withdrawal at rest stands. -/
theorem WithdrawalRests.standing (h : WithdrawalRests w s) (hs : Custody s)
    (hl : TransactionLeaves s.ledger) (hd : DispatchesDone s.ledger) : WithdrawalStanding w s := by
  refine ⟨hs, hl, hd, fun x hfind => ⟨?_, ?_, ?_, ?_⟩⟩
  · exact fun hstatus r hpaid => absurd hpaid (h.unpaid x hfind hstatus r)
  · rintro (hholds | hcompleted)
    · obtain ⟨r, hr, hstatus⟩ := h.held x hfind hholds
      obtain ⟨r', hr', hminted⟩ := (hs.withdrawals x (Table.mem_of_find hfind)).1
      obtain rfl := Option.some_inj.mp (hr.symm.trans hr')
      rw [show x.id = w from Table.key_of_find hfind] at hminted
      refine ⟨r, ⟨Table.mem_of_find hr, hminted (by rw [hstatus]; decide)⟩, ?_⟩
      exact Table.key_of_find hr
    · obtain ⟨r, hpaid, hid, -⟩ := h.completed x hfind hcompleted
      exact ⟨r, hpaid, hid⟩
  · intro hstatus r hpaid
    refine ⟨fun hgone => ?_, fun _ hheld => ?_⟩
    · have hcompleted := h.withdrawn x hfind r hpaid hgone
      rw [hstatus] at hcompleted
      cases hcompleted
    · exact h.rejected x hfind hstatus r hpaid.there hpaid.minted.2 (hpaid.heldWithdrawal hs hheld)
  · intro hstatus r hpaid
    obtain ⟨r', hpaid', -, hgone⟩ := h.completed x hfind hstatus
    exact (hpaid.unique hl hpaid').symm ▸ hgone

/-- A withdrawal at rest lags behind nothing. -/
theorem WithdrawalRests.settled (h : WithdrawalRests w s) (hs : WithdrawalStanding w s)
    (due : Due) : ¬ due.Owed w s := by
  rintro ⟨x, r, hfind, hstatus, hpaid, hr⟩
  cases due with
  | payment =>
      rcases List.mem_pair.mp hstatus with hpending | hrejected
      · exact h.unpaid x hfind hpending r hpaid
      · exact h.rejected x hfind hrejected r hpaid.there hpaid.minted.2
          (hpaid.heldWithdrawal hs.custody hr)
  | decision =>
      obtain ⟨r', hr', hheld⟩ := h.held x hfind hstatus
      obtain ⟨r'', hpaid'', hid⟩ := (hs.row x hfind).points (.inl hstatus)
      obtain rfl := hpaid.unique hs.leaves hpaid''
      have hself : s.ledger.receipts.find x.receiptId = some r :=
        hid ▸ Table.find_of_mem hpaid.there
      obtain rfl := Option.some_inj.mp (hself.symm.trans hr')
      exact hr (by rw [hheld]; decide)

/-- A withdrawal that lags behind nothing is at rest. -/
theorem WithdrawalStanding.rests (hs : WithdrawalStanding w s)
    (hsettled : ∀ due : Due, ¬ due.Owed w s) : WithdrawalRests w s where
  completed x hfind hstatus := by
    obtain ⟨r, hpaid, hid⟩ := (hs.row x hfind).points (.inr hstatus)
    exact ⟨r, hpaid, hid, (hs.row x hfind).completed hstatus r hpaid⟩
  withdrawn x hfind r hpaid hgone := by
    have hnot : ¬ r.status.Held := by
      rw [hgone]
      decide
    cases hstatus : x.status with
    | pendingPayment => exact absurd ((hs.row x hfind).pending hstatus r hpaid).1 hnot
    | rejected => exact absurd hgone ((hs.row x hfind).rejected hstatus r hpaid).1
    | completed => rfl
    | _ =>
        have hholds : x.status.Holds := by
          rw [hstatus]
          decide
        exact absurd ⟨x, r, hfind, hholds, hpaid, hnot⟩ (hsettled .decision)
  rejected x hfind hstatus r hr htxn hheldAs := by
    have hheld : r.status.Held := by
      rw [hheldAs]
      decide
    obtain ⟨txnType, htype, hkind⟩ := hs.custody.heldAs r hr hheld
    rw [hheldAs] at hkind
    cases hkind
    exact hsettled .payment
      ⟨x, r, hfind, List.mem_pair.mpr (.inr hstatus), ⟨hr, htype, htxn⟩, hheld⟩
  held x hfind hholds := by
    obtain ⟨r, hpaid, hid⟩ := (hs.row x hfind).points (.inl hholds)
    refine ⟨r, hid ▸ Table.find_of_mem hpaid.there, ?_⟩
    apply hpaid.heldWithdrawal hs.custody
    by_contra hnot
    exact hsettled .decision ⟨x, r, hfind, hholds, hpaid, hnot⟩
  unpaid x hfind hstatus r hpaid :=
    hsettled .payment ⟨x, r, hfind, List.mem_pair.mpr (.inl hstatus), hpaid,
      ((hs.row x hfind).pending hstatus r hpaid).1⟩

/-- How a write may change the row of a withdrawal. -/
structure Advance (w : Id) (s : Ledger) (x x' : Withdrawal) : Prop where
  custody : x'.InCustody s
  fits : x'.Fits w s
  points : ∀ r, PaidWith w s r → r.id = x.receiptId → x'.receiptId = x.receiptId
  final : x.status.Final → x'.status = x.status
  due : ∀ due : Due, ∀ r, PaidWith w s r → due.Meets r.status → due.Concerns x'.status →
    due.Concerns x.status

/-- A row that is not final comes to point at the receipt of its payment, and holds it. -/
theorem WithdrawalStanding.advance_holds (hs : WithdrawalStanding w s)
    (hfind : s.withdrawals.find w = some x) (hopen : ¬ x.status.Final)
    (hpaid : PaidWith w s.ledger r) (hid : x'.id = x.id) (hpoints : r.id = x'.receiptId)
    (hholds : x'.status.Holds) (happroval : x'.status = .approved →
      ∃ e ∈ s.ledger.events, e.idempotencyKey = withdrawalKey w "approveHold") :
    Advance w s.ledger x x' where
  custody := by
    rw [Withdrawal.InCustody, hid.trans (Table.key_of_find hfind)]
    exact ⟨⟨r, hpoints ▸ Table.find_of_mem hpaid.there, fun _ => hpaid.minted⟩, happroval⟩
  fits := .of_holds hholds hpaid hpoints
  points r' hpaid' hpoints' := by
    rw [← hpoints', ← hpoints, hpaid'.unique hs.leaves hpaid]
  final hfinal := absurd hfinal hopen
  due due r' hpaid' hmeets hconcerns := by
    cases due with
    | payment =>
        cases hstatus : x'.status <;> rw [hstatus] at hholds hconcerns <;>
          first | exact absurd hholds (by decide) | exact absurd hconcerns (by decide)
    | decision =>
        cases hstatus : x.status with
        | pendingPayment => exact absurd ((hs.row x hfind).pending hstatus r' hpaid').1 hmeets
        | rejected => exact absurd (by rw [hstatus]; decide) hopen
        | completed => exact absurd (by rw [hstatus]; decide) hopen
        | _ => decide

theorem WithdrawalStanding.advance_refl (hs : WithdrawalStanding w s)
    (hfind : s.withdrawals.find w = some x) : Advance w s.ledger x x where
  custody := hs.custody.withdrawals x (Table.mem_of_find hfind)
  fits := hs.row x hfind
  points _ _ _ := rfl
  final _ := rfl
  due _ _ _ _ hconcerns := hconcerns

/-- The row of a payment that did not come in time is rejected. -/
theorem WithdrawalStanding.advance_expired {reason : Option String}
    (hs : WithdrawalStanding w s) (hfind : s.withdrawals.find w = some x)
    (hpending : x.status = .pendingPayment) :
    Advance w s.ledger x { x with status := .rejected, rejectionReason := reason } where
  custody := ⟨(hs.custody.withdrawals x (Table.mem_of_find hfind)).1, nofun⟩
  fits := by
    refine ⟨nofun, ?_, fun _ r hpaid => ?_, nofun⟩
    · rintro (hholds | hcompleted)
      · exact absurd hholds (by decide : ¬ WithdrawalStatus.Holds .rejected)
      · cases hcompleted
    · obtain ⟨hheld, hother⟩ := (hs.row x hfind).pending hpending r hpaid
      refine ⟨fun hgone => ?_, fun hpoints => absurd hpoints hother⟩
      rw [hgone] at hheld
      exact absurd hheld (by decide)
  points _ _ _ := rfl
  final hfinal := by
    rw [hpending] at hfinal
    exact absurd hfinal (by decide)
  due due _ _ _ hconcerns := by
    cases due with
    | payment =>
        rw [hpending]
        decide
    | decision => exact absurd hconcerns (by decide : ¬ WithdrawalStatus.Holds .rejected)

/-- What one step of a request keeps. -/
structure WithdrawalStep (w : Id) (s s' : Db) : Prop where
  standing : WithdrawalStanding w s'
  later : WithdrawalLater w s s'
  kept : FinalKept w s s'

/-- Advancing the row lags behind nothing new. -/
theorem WithdrawalStanding.rewrite {t : Table Withdrawal} {g : Withdrawal → Withdrawal}
    (hs : WithdrawalStanding w s) (hcustody : Custody { s with withdrawals := t })
    (hfind : t.find w = (s.withdrawals.find w).map g)
    (hadvance : ∀ x, s.withdrawals.find w = some x → Advance w s.ledger x (g x)) :
    WithdrawalStep w s { s with withdrawals := t } ∧
      ∀ due : Due, due.Owed w { s with withdrawals := t } → due.Owed w s := by
  have hback : ∀ x', t.find w = some x' → ∃ x, s.withdrawals.find w = some x ∧ g x = x' := by
    intro x' hx'
    rw [hfind] at hx'
    exact Option.map_eq_some_iff.mp hx'
  have hforth : ∀ x, s.withdrawals.find w = some x → t.find w = some (g x) := by
    intro x hx
    rw [hfind, hx, Option.map_some]
  refine ⟨⟨⟨hcustody, hs.leaves, hs.dispatches, ?_⟩, ⟨.refl s.ledger, ?_⟩, ?_⟩, ?_⟩
  · intro x' hx'
    obtain ⟨x, hx, rfl⟩ := hback x' hx'
    exact (hadvance x hx).fits
  · exact fun x hx => ⟨g x, hforth x hx, (hadvance x hx).points⟩
  · exact fun x hx hfinal => ⟨g x, hforth x hx, (hadvance x hx).final hfinal⟩
  · rintro due ⟨x', r, hx', hconcerns, hpaid, hmeets⟩
    obtain ⟨x, hx, rfl⟩ := hback x' hx'
    exact ⟨x, r, hx, (hadvance x hx).due due r hpaid hmeets hconcerns, hpaid, hmeets⟩

/-- A rightful ledger call keeps what is known of the ledger, and does not touch the row. -/
theorem WithdrawalStanding.call {num : Numeric} {by_ : Issuer} {op : LedgerOp} {uuids : Uuids}
    {result : LedgerResult} {ledger : Ledger} (hs : WithdrawalStanding w s)
    (hright : Rightful s by_ op) (houtcome : Outcome num uuids op s.ledger result ledger)
    (hfits : ∀ x, s.withdrawals.find w = some x → x.Fits w ledger) :
    WithdrawalStep w s { s with ledger } := by
  obtain ⟨hcustody, hlater⟩ := rightful_keeps hs.custody hright houtcome
  have hledger : TransactionLeaves ledger ∧ DispatchesDone ledger := by
    cases houtcome with
    | replayed e prior reconstructs same =>
        subst same
        exact ⟨hs.leaves, hs.dispatches⟩
    | committed free events change effect commits =>
        have hstep := hright.ledgerStep free effect commits
        exact ⟨hstep.transactionLeaves hs.custody hs.leaves, hstep.dispatchesDone hs.dispatches⟩
  exact ⟨⟨hcustody, hledger.1, hledger.2, hfits⟩,
    ⟨hlater.ledger, fun x hfind => ⟨x, hfind, fun _ _ _ => rfl⟩⟩,
    fun x hfind _ => ⟨x, hfind, rfl⟩⟩

/-- The payment mints the receipt of a withdrawal whose row points elsewhere. -/
theorem WithdrawalStanding.pay {num : Numeric} {uuids : Uuids} {input : HoldInput}
    {result : HoldResult} {ledger : Ledger} (hs : WithdrawalStanding w s)
    (hcalls : Calls (.confirmPayment w) (.hold input))
    (houtcome : Outcome num uuids (.hold input) s.ledger (.held result) ledger) :
    WithdrawalStep w s { s with ledger } ∧ (ledger = s.ledger ∨ ∃ held, result.held = some held) ∧
      (Due.decision.Owed w { s with ledger } → Due.decision.Owed w s) := by
  have hright : Rightful s (.confirmPayment w) (.hold input) :=
    ⟨hcalls, by rintro _ ⟨⟩, trivial⟩
  have hstep := houtcome
  cases houtcome with
  | replayed e prior reconstructs same =>
      subst same
      exact ⟨hs.call hright hstep hs.row, .inl rfl, id⟩
  | committed free events change effect commits =>
      have hledger := hright.ledgerStep free effect commits
      obtain ⟨hkey, hinput⟩ : input.idempotencyKey = withdrawalKey w "hold" ∧
          input.txnType = .withdrawal ∧ input.txnId = w := by
        cases hcalls with
        | confirmPayment key status txnType txnId => exact ⟨key, txnType, txnId⟩
      have hunpaid : ∀ r, ¬ PaidWith w s.ledger r := fun r hpaid =>
        hledger.unpaid hs.custody hkey hpaid.there hpaid.minted
      have hheld : ∃ held, result.held = some held := by
        cases effect with
        | hold => exact ⟨_, rfl⟩
      obtain ⟨held, hsome⟩ := hheld
      obtain ⟨hself, hstatus, hminted⟩ := minted_of_hold hs.custody hcalls hstep hsome
      rw [hinput.1, hinput.2] at hminted
      have hpaid : PaidWith w ledger held := ⟨Table.mem_of_find hself, hminted⟩
      have honly : ∀ r, PaidWith w ledger r → r = held := fun r hr =>
        hr.unique (hledger.transactionLeaves hs.custody hs.leaves) hpaid
      -- the row points at a receipt that was there, and the held one is new
      have helse : ∀ x, s.withdrawals.find w = some x → held.id ≠ x.receiptId := by
        intro x hfind heq
        obtain ⟨r, hr, -⟩ := (hs.custody.withdrawals x (Table.mem_of_find hfind)).1
        obtain ⟨r', hr', hnode, -⟩ := hledger.later.ledger.find hr
        have hsame : r' = held := Option.some_inj.mp (hr'.symm.trans (heq ▸ hself))
        exact hunpaid r ⟨Table.mem_of_find hr,
          (MintedFor.of_sameNode hnode).mp (hsame ▸ hminted)⟩
      have hrow : ∀ x, s.withdrawals.find w = some x →
          x.status = .pendingPayment ∨ x.status = .rejected := by
        intro x hfind
        cases hrow : x.status with
        | pendingPayment => exact .inl rfl
        | rejected => exact .inr rfl
        | completed =>
            obtain ⟨r, hr, -⟩ := (hs.row x hfind).points (.inr hrow)
            exact absurd hr (hunpaid r)
        | _ =>
            obtain ⟨r, hr, -⟩ := (hs.row x hfind).points (.inl (by rw [hrow]; decide))
            exact absurd hr (hunpaid r)
      refine ⟨hs.call hright hstep fun x hfind => ⟨?_, ?_, ?_, ?_⟩, .inr ⟨held, hsome⟩, ?_⟩
      · intro _ r hr
        obtain rfl := honly r hr
        exact ⟨hstatus, helse x hfind⟩
      · rcases hrow x hfind with hx | hx <;> rw [hx] <;> rintro (h | h) <;>
          exact absurd h (by decide)
      · intro _ r hr
        obtain rfl := honly r hr
        refine ⟨fun hgone => ?_, fun heq => absurd heq (helse x hfind)⟩
        rw [hgone] at hstatus
        exact absurd hstatus (by decide)
      · intro hx
        rcases hrow x hfind with hx' | hx' <;> rw [hx'] at hx <;> cases hx
      · rintro ⟨x, r, hfind, hholds, hr, hnot⟩
        obtain rfl := honly r hr
        exact absurd hstatus hnot

/-- The approval of the hold leaves the receipt held. -/
theorem WithdrawalStanding.approve {num : Numeric} {uuids : Uuids} {ctx : ActorCtx}
    {receiptId : Id} {result : LedgerResult} {ledger : Ledger} (hs : WithdrawalStanding w s)
    (hright : Rightful s (.approveWithdrawal w) (.approveHold ctx receiptId))
    (houtcome : Outcome num uuids (.approveHold ctx receiptId) s.ledger result ledger) :
    WithdrawalStep w s { s with ledger } ∧
      ∀ due : Due, due.Owed w { s with ledger } → due.Owed w s := by
  have hstep := houtcome
  rcases houtcome.of_approveHold with ⟨-, rfl⟩ | ⟨-, r₀, e, hr₀, -, -, -, -, -, hcommits⟩
  · exact ⟨hs.call hright hstep hs.row, fun _ h => h⟩
  have hstays : ∀ r ∈ s.ledger.receipts, ∃ r' ∈ ledger.receipts, SameNode r r' ∧
      r'.status = r.status := by
    intro r hr
    refine ⟨_, hcommits.mem_receipts.mpr (.inl ⟨r, hr, rfl⟩), ?_⟩
    by_cases hid : r.id = r₀.id
    · obtain rfl : r = r₀ := Table.eq_of_key_eq hr (Table.mem_of_find hr₀) hid
      rw [Change.apply_amend_self]
      exact ⟨⟨rfl, rfl, rfl, rfl, rfl, rfl, rfl, rfl, rfl⟩, rfl⟩
    · rw [Change.apply_amend_of_ne hid]
      exact ⟨.refl r, rfl⟩
  have hpaid : ∀ r', PaidWith w ledger r' → ∃ r, PaidWith w s.ledger r ∧ r.id = r'.id ∧
      r.status = r'.status := by
    intro r' hr'
    rcases hcommits.mem_receipts.mp hr'.there with ⟨r, hr, rfl⟩ | hcreated
    · obtain ⟨r'', hr'', hnode, hstatus⟩ := hstays r hr
      obtain rfl : r'' = _ := Table.eq_of_key_eq hr'' hr'.there
        (hnode.id.trans (hcommits.apply_id r).symm)
      exact ⟨r, ⟨hr, (MintedFor.of_sameNode hnode).mp hr'.minted⟩, hnode.id.symm, hstatus.symm⟩
    · cases hcreated
  refine ⟨hs.call hright hstep fun x hfind => ⟨?_, ?_, ?_, ?_⟩, ?_⟩
  · intro hstatus r' hr'
    obtain ⟨r, hr, hid, hsame⟩ := hpaid r' hr'
    rw [← hid, ← hsame]
    exact (hs.row x hfind).pending hstatus r hr
  · intro hstatus
    obtain ⟨r, hr, hid⟩ := (hs.row x hfind).points hstatus
    obtain ⟨r', hr', hnode, -⟩ := hstays r hr.there
    exact ⟨r', ⟨hr', (MintedFor.of_sameNode hnode).mpr hr.minted⟩, hnode.id.trans hid⟩
  · intro hstatus r' hr'
    obtain ⟨r, hr, hid, hsame⟩ := hpaid r' hr'
    rw [← hid, ← hsame]
    exact (hs.row x hfind).rejected hstatus r hr
  · intro hstatus r' hr'
    obtain ⟨r, hr, -, hsame⟩ := hpaid r' hr'
    exact hsame ▸ (hs.row x hfind).completed hstatus r hr
  · rintro due ⟨x, r', hfind, hconcerns, hr', hmeets⟩
    obtain ⟨r, hr, -, hsame⟩ := hpaid r' hr'
    exact ⟨x, r, hfind, hconcerns, hr, hsame ▸ hmeets⟩

/-- A call that frees or consumes the receipt that the row points at. -/
theorem WithdrawalStanding.decide {num : Numeric} {by_ : Issuer} {op : LedgerOp} {uuids : Uuids}
    {result : LedgerResult} {ledger : Ledger} {e : InventoryEvent} {after : Receipt}
    (hs : WithdrawalStanding w s) (hright : Rightful s by_ op)
    (houtcome : Outcome num uuids op s.ledger result ledger)
    (hcommits : Commits s.ledger [e] (.amend r after) ledger) (hnode : SameNode r after)
    (hpaid : PaidWith w s.ledger r) (hheld : r.status.Held)
    (hpoints : ∀ x, s.withdrawals.find w = some x → r.id = x.receiptId) :
    WithdrawalStep w s { s with ledger } ∧ PaidWith w ledger after ∧
      ¬ Due.payment.Owed w { s with ledger } := by
  have hafter : PaidWith w ledger after := by
    have hfind := hcommits.find_receipt (Table.find_of_mem hpaid.there)
    rw [Change.apply_amend_self] at hfind
    exact ⟨Table.mem_of_find hfind, (MintedFor.of_sameNode hnode).mpr hpaid.minted⟩
  have hholds : ∀ x, s.withdrawals.find w = some x → x.status.Holds := fun x hfind =>
    (hs.row x hfind).holds hpaid (hpoints x hfind) hheld
  refine ⟨hs.call hright houtcome fun x hfind => ?_, hafter, ?_⟩
  · exact .of_holds (hholds x hfind) hafter (hnode.id.trans (hpoints x hfind))
  · rintro ⟨x, r', hfind, hconcerns, -⟩
    have hstatus := hholds x hfind
    rcases List.mem_pair.mp hconcerns with hx | hx <;> rw [hx] at hstatus <;>
      exact absurd hstatus (by decide)

end Standing

/-! ## The requests -/

/-- The withdrawal that a step records a payment or an approval of. -/
def Label.withdrawalAdvanced : Label → Option Id
  | .write (.confirmPayment withdrawalId) => some withdrawalId
  | .write (.approveWithdrawal withdrawalId) => some withdrawalId
  | _ => none

/-- The withdrawal that a step records the rejection of. -/
def Label.withdrawalRejected : Label → Option Id
  | .write (.rejectWithdrawal withdrawalId) => some withdrawalId
  | _ => none

/-- A payment or an approval of withdrawal w is recorded on a final row, or a rejection on a row
whose receipt is held or gone. -/
def WithdrawalOverruled (w : Id) (label : Label) (s : Db) : Prop :=
  (label.withdrawalAdvanced = some w ∧ ∃ x ∈ s.withdrawals.find w, x.status.Final) ∨
    (label.withdrawalRejected = some w ∧ ∃ x ∈ s.withdrawals.find w,
      ∃ r ∈ s.ledger.receipts.find x.receiptId, r.status.Held ∨ r.status = .withdrawn)

instance (w : Id) (label : Label) (s : Db) : Decidable (WithdrawalOverruled w label s) := by
  unfold WithdrawalOverruled
  infer_instance

theorem FinalKept.refl (w : Id) (s : Db) : FinalKept w s s := fun x hfind _ => ⟨x, hfind, rfl⟩

/-- Requests on withdrawal w that leave no debt of one kind. -/
def withdrawalCalls (w : Id) (due : Due) : Contract Label Db where
  inv := WithdrawalStanding w
  rely := WithdrawalLater w
  admits label s := ¬ WithdrawalOverruled w label s
  guar _ s s' := WithdrawalLater w s s' ∧ FinalKept w s s'
  debt := due.Owed w
  rely_refl := .refl w
  rely_trans := .trans
  guar_refl _ s := ⟨.refl w s, .refl w s⟩
  guar_rely _ hguar := hguar.1

section Requests

variable {num : Numeric} {w : Id} {due : Due} {s : Db} {by_ : Issuer} {f : Withdrawal → Withdrawal}
  {hf : ∀ r, Keyed.key (f r) = Keyed.key r}

/-- A withdrawal that was found. -/
theorem safe_loadWithdrawal {tenantId : Id} {g : Withdrawal → Api Unit}
    (hnext : ∀ s' x, WithdrawalStanding w s' → s'.withdrawals.find w = some x → x.id = w →
      (withdrawalCalls w due).Safe (g x) s') :
    (withdrawalCalls w due).Safe (loadWithdrawal tenantId w >>= g : Api Unit) s := by
  apply Contract.safe_find
  intro s' x _ hinv hx
  have hfind := (Option.filter_eq_some_iff.mp hx).1
  exact hnext s' x hinv hfind (Table.key_of_find hfind)

/-- The write of an admitted status. -/
theorem safe_advance (hadvance : ∀ s' x, WithdrawalLater w s s' → WithdrawalStanding w s' →
    ¬ WithdrawalOverruled w (.write by_) s' → s'.withdrawals.find w = some x →
      Advance w s'.ledger x (f x)) :
    (withdrawalCalls w due).Safe (updateWithdrawal by_ w f hf) s := by
  apply Contract.safe_write_last
  intro s' a s'' hlater hs hadmits hok
  obtain ⟨t, hupdate, hresult⟩ := map_ok.mp hok
  cases hresult
  have hrow := fun x => hadvance s' x hlater hs hadmits
  have hcustody := hs.custody.updateWithdrawals hupdate fun x hfind => (hrow x hfind).custody
  obtain ⟨x, hfind, rfl⟩ := updateRow_ok.mp hupdate
  obtain ⟨hstep, hdue⟩ := hs.rewrite hcustody (g := f) (by rw [Table.find_modify, if_pos rfl]) hrow
  exact ⟨hstep.standing, ⟨hstep.later, hstep.kept⟩, hdue due⟩

/-- A process whose last step writes a status that does not lag behind owes nothing but that
step: the row is there. -/
theorem owes_status {x : Withdrawal} (hfind : s.withdrawals.find w = some x)
    (hstatus : ∀ x, ¬ due.Concerns (f x).status) :
    (withdrawalCalls w due).Owes (updateWithdrawal by_ w f hf) s := by
  intro s' hlater _ _
  left
  obtain ⟨x', hfind', -⟩ := hlater.row x hfind
  have hok : (updateRow s'.withdrawals w f hf).map (fun t => ((), { s' with withdrawals := t })) =
      .ok ((), { s' with withdrawals := s'.withdrawals.modify w f hf }) :=
    map_ok.mpr ⟨_, updateRow_ok.mpr ⟨x', hfind', rfl⟩, rfl⟩
  dsimp only
  rw [hok]
  rintro ⟨x'', r, hfind'', hconcerns, -⟩
  rw [show s'.withdrawals.modify w f hf = _ from rfl, Table.find_modify_self hfind'] at hfind''
  obtain rfl := Option.some_inj.mp hfind''
  exact hstatus x' hconcerns

/-- A process that reads first owes what it owes afterwards. -/
theorem owes_read {c : Contract Label Db} {α : Type} {q : Db → α} {g : α → Api Unit}
    (h : ∀ s', c.rely s s' → c.Owes (g (q s')) s') :
    c.Owes (Api.query q >>= g : Api Unit) s :=
  fun s' hrely _ _ => .inr (h s' hrely)

theorem confirmPayment_settles (uuids : Uuids) (tenantId actorUserId : Id)
    (actorRoles : List Role) : (withdrawalCalls w due).Safe
      (confirmPayment num uuids tenantId w actorUserId actorRoles) s := by
  apply safe_loadWithdrawal
  intro s₁ x hs₁ hfind hid
  apply Contract.safe_bind safe_requireParty
  intro _ s₂ hlater₂
  apply Contract.safe_throwIf
  intro _
  rw [hid]
  apply keeps_ledger (fun _ _ => trivial) rfl
  intro s₃ result ledger hlater₃ hs₃ _ houtcome
  have hcalls : ∀ input : HoldInput, input.idempotencyKey = withdrawalKey w "hold" →
      input.heldStatus = .heldWithdrawal → input.txnType = .withdrawal → input.txnId = w →
      Calls (.confirmPayment w) (.hold input) := fun _ => .confirmPayment
  obtain ⟨hstep, hledger, hdecision⟩ := hs₃.pay (hcalls _ rfl rfl rfl rfl) houtcome
  refine ⟨hstep.standing, ⟨hstep.later, hstep.kept⟩, fun hdebt => ?_, ?_⟩
  · cases due with
    | decision => exact .inl (hdecision hdebt)
    | payment =>
        rcases hledger with rfl | ⟨held, hheld⟩
        · exact .inl hdebt
        · right
          obtain ⟨x₃, hfind₃, -⟩ := (hlater₂.trans hlater₃).row x hfind
          unfold Api.heldOf
          rw [hheld]
          exact owes_status hfind₃ fun _ =>
            (by decide : ¬ Due.payment.Concerns .paidPendingApproval)
  · apply Contract.safe_orThrow
    intro held hheld
    obtain ⟨hself, hstatus, hminted⟩ :=
      minted_of_hold hs₃.custody (hcalls _ rfl rfl rfl rfl) houtcome hheld
    have hpaid : PaidWith w ledger held := ⟨Table.mem_of_find hself, hminted⟩
    apply safe_advance
    intro s₄ x₄ hlater₄ hs₄ hadmits hfind₄
    obtain ⟨r, hr, hheldId, -⟩ := hpaid.later hlater₄.ledger
    exact hs₄.advance_holds hfind₄ (fun hfinal => hadmits (.inl ⟨rfl, x₄, hfind₄, hfinal⟩)) hr rfl
      hheldId (by decide : WithdrawalStatus.Holds .paidPendingApproval) nofun

/-- A row that holds points at the receipt of its payment. -/
theorem WithdrawalStanding.paid {x : Withdrawal} (hs : WithdrawalStanding w s)
    (hfind : s.withdrawals.find w = some x) (hholds : x.status.Holds) :
    ∃ r, PaidWith w s.ledger r ∧ r.id = x.receiptId :=
  (hs.row x hfind).points (.inl hholds)

/-- The receipt of a payment is held, if at all, for its withdrawal. -/
theorem PaidWith.heldFor {r : Receipt} {receiptId : Id} (h : PaidWith w s.ledger r)
    (hid : r.id = receiptId) : HeldFor s.ledger receiptId .withdrawal w :=
  ⟨r, hid ▸ Table.find_of_mem h.there, fun _ => h.minted⟩

theorem approveWithdrawal_settles (uuids : Uuids) (tenantId : Id) (actorUserId : Option Id) :
    (withdrawalCalls w due).Safe (approveWithdrawal num uuids tenantId w actorUserId) s := by
  apply safe_loadWithdrawal
  intro s₁ x hs₁ hfind hid
  apply Contract.safe_throwIf
  intro hpaid
  obtain ⟨r, hr, hpoints⟩ := hs₁.paid hfind (by rw [not_not.mp hpaid]; decide)
  rw [hid]
  have hcall : ∀ ctx receiptId, (LedgerOp.approveHold ctx receiptId).call num uuids =
      .node <$> Inventory.approveHold num uuids ctx receiptId := fun _ _ => rfl
  apply keeps_ledger (fun _ _ => trivial) (hcall _ _)
  intro s₂ a ledger hlater₂ hs₂ _ houtcome
  have hright : Rightful s₂ (.approveWithdrawal w) (.approveHold
      { tenantId, actorUserId, idempotencyKey := withdrawalKey w "approveHold" } x.receiptId) := by
    refine ⟨.approveWithdrawal rfl, ?_, trivial⟩
    rintro _ ⟨⟩
    exact ⟨_, _, rfl, (hr.heldFor hpoints).later hlater₂.ledger⟩
  obtain ⟨hstep, hdue⟩ := hs₂.approve hright houtcome
  refine ⟨hstep.standing, ⟨hstep.later, hstep.kept⟩, fun hdebt => .inl (hdue due hdebt), ?_⟩
  have hlogged : ∃ e ∈ ledger.events, e.idempotencyKey = withdrawalKey w "approveHold" := by
    rcases houtcome.of_approveHold with ⟨hused, rfl⟩ | ⟨-, _, e, -, -, -, hnew, -, -, hcommits⟩
    · exact hused
    · exact ⟨e, hcommits.mem_events.mpr (.inr (List.mem_singleton.mpr rfl)), hnew⟩
  obtain ⟨e, he, hkey⟩ := hlogged
  apply safe_advance
  intro s₃ x₃ hlater₃ hs₃ hadmits hfind₃
  have hlater : WithdrawalLater w s₁ s₃ := (hlater₂.trans hstep.later).trans hlater₃
  obtain ⟨hsame, r₃, hr₃, hpoints₃, -⟩ := hlater.points hfind hr hpoints hfind₃
  exact hs₃.advance_holds hfind₃ (fun hfinal => hadmits (.inl ⟨rfl, x₃, hfind₃, hfinal⟩)) hr₃ rfl
    hpoints₃ (by decide : WithdrawalStatus.Holds .approved)
      fun _ => ⟨e, hlater₃.ledger.events e he, hkey⟩

/-- A held receipt that the row pointed at was minted by its payment, and the row held it. -/
theorem WithdrawalStanding.paid_of_held {x : Withdrawal} {linked : Receipt} {ledger : Ledger}
    (hs : WithdrawalStanding w s) (hfind : s.withdrawals.find w = some x)
    (hlater : Later s.ledger ledger) (hlinked : ledger.receipts.find x.receiptId = some linked)
    (hheld : linked.status.Held) :
    ∃ r, PaidWith w s.ledger r ∧ r.id = x.receiptId ∧ x.status.Holds := by
  obtain ⟨r, hr, hminted⟩ := (hs.custody.withdrawals x (Table.mem_of_find hfind)).1
  obtain ⟨r', hr', -, hmoves⟩ := hlater.find hr
  obtain rfl := Option.some_inj.mp (hr'.symm.trans hlinked)
  have hbefore : r.status.Held := held_reached hmoves hheld
  rw [show x.id = w from Table.key_of_find hfind] at hminted
  have hpaid : PaidWith w s.ledger r := ⟨Table.mem_of_find hr, hminted hbefore⟩
  have hpoints : r.id = x.receiptId := Table.key_of_find hr
  exact ⟨r, hpaid, hpoints, (hs.row x hfind).holds hpaid hpoints hbefore⟩

/-- The receipt that a row pointed at is still its receipt, and the row still points at it. -/
theorem WithdrawalLater.points_at {s' : Db} {x : Withdrawal} {r r' : Receipt}
    (h : WithdrawalLater w s s') (hfind : s.withdrawals.find w = some x)
    (hpaid : PaidWith w s.ledger r) (hpoints : r.id = x.receiptId)
    (hr' : s'.ledger.receipts.find x.receiptId = some r') :
    PaidWith w s'.ledger r' ∧ ∀ x', s'.withdrawals.find w = some x' → r'.id = x'.receiptId := by
  obtain ⟨r'', hpaid'', hid, -⟩ := hpaid.later h.ledger
  have hid' : r'.id = x.receiptId := Table.key_of_find hr'
  obtain rfl : r'' = r' := Table.eq_of_key_eq hpaid''.there (Table.mem_of_find hr')
    (hid.trans (hpoints.trans hid'.symm))
  refine ⟨hpaid'', fun x' hfind' => ?_⟩
  rw [(h.points hfind hpaid hpoints hfind').1]
  exact hid'

/-- An admitted rejection. -/
theorem safe_rejection {reason : Option String} :
    (withdrawalCalls w due).Safe (updateWithdrawal (.rejectWithdrawal w) w fun r =>
      { r with status := .rejected, rejectionReason := reason }) s := by
  apply safe_advance
  intro s' x _ hs hadmits hfind
  have hfits := hs.row x hfind
  -- the receipt that the row points at is neither held nor gone
  have hfree : ∀ r, PaidWith w s'.ledger r → r.id = x.receiptId →
      ¬ (r.status.Held ∨ r.status = .withdrawn) := by
    intro r hr hpoints hstatus
    exact hadmits (.inr ⟨rfl, x, hfind, r, hpoints ▸ Table.find_of_mem hr.there, hstatus⟩)
  have hunheld : ∀ r, PaidWith w s'.ledger r → r.status.Held ∨ r.status = .withdrawn →
      x.status.Unheld := by
    intro r hr hstatus
    have hpointed : ∀ r', PaidWith w s'.ledger r' → r'.id ≠ x.receiptId := by
      intro r' hr' hpoints
      rw [hr'.unique hs.leaves hr] at hpoints
      exact hfree r hr hpoints hstatus
    cases hx : x.status with
    | pendingPayment => decide
    | rejected => decide
    | completed =>
        obtain ⟨r', hr', hpoints⟩ := hfits.points (.inr hx)
        exact absurd hpoints (hpointed r' hr')
    | _ =>
        obtain ⟨r', hr', hpoints⟩ := hfits.points (.inl (by rw [hx]; decide))
        exact absurd hpoints (hpointed r' hr')
  constructor
  · exact ⟨(hs.custody.withdrawals x (Table.mem_of_find hfind)).1, nofun⟩
  · refine ⟨nofun, ?_, fun _ r hr => ?_, nofun⟩
    · rintro (hholds | hcompleted)
      · exact absurd hholds (by decide : ¬ WithdrawalStatus.Holds .rejected)
      · cases hcompleted
    · refine ⟨fun hgone => ?_, fun hpoints hheld => hfree r hr hpoints (.inl hheld)⟩
      rcases List.mem_pair.mp (hunheld r hr (.inr hgone)) with hpending | hrejected
      · have hheld := (hfits.pending hpending r hr).1
        rw [hgone] at hheld
        exact absurd hheld (by decide)
      · exact (hfits.rejected hrejected r hr).1 hgone
  · exact fun _ _ _ => rfl
  · intro hfinal
    rcases List.mem_pair.mp hfinal with hrejected | hcompleted
    · exact hrejected.symm
    · obtain ⟨r, hr, hpoints⟩ := hfits.points (.inr hcompleted)
      exact absurd (.inr (hfits.completed hcompleted r hr)) (hfree r hr hpoints)
  · intro due r hr hmeets hconcerns
    cases due with
    | decision => exact absurd hconcerns (by decide : ¬ WithdrawalStatus.Holds .rejected)
    | payment => exact hunheld r hr (.inl hmeets)

theorem rejectWithdrawal_settles (uuids : Uuids) (tenantId : Id) (actorUserId : Option Id)
    (reason : Option String) :
    (withdrawalCalls w due).Safe (rejectWithdrawal num uuids tenantId w actorUserId reason) s := by
  apply safe_loadWithdrawal
  intro s₁ x hs₁ hfind hid
  apply Contract.safe_throwIf
  intro _
  unfold releaseLinked
  rw [hid, Attempt.bind_assoc]
  let last : Api Unit := if x.status = .rejected then pure ()
    else updateWithdrawal (.rejectWithdrawal w) w fun r =>
      { r with status := .rejected, rejectionReason := reason }
  have hlast : ∀ s', (withdrawalCalls w due).Safe last s' := by
    intro s'
    dsimp only [last]
    split
    · trivial
    · exact safe_rejection
  apply Contract.safe_read
  intro s₂ hlater₂ _
  cases hlinked : s₂.ledger.receipts.find x.receiptId with
  | none => exact hlast s₂
  | some linked =>
      dsimp only
      split
      · rename_i hheld
        obtain ⟨r, hr, hpoints, hholds⟩ :=
          hs₁.paid_of_held hfind hlater₂.ledger hlinked hheld
        rw [Attempt.bind_assoc]
        apply keeps_ledger (g := fun _ => last) (fun _ _ => trivial) rfl
        intro s₃ a ledger hlater₃ hs₃ _ houtcome
        have hlater : WithdrawalLater w s₁ s₃ := hlater₂.trans hlater₃
        have hright : Rightful s₃ (.rejectWithdrawal w) (.release
            { tenantId, actorUserId,
              idempotencyKey := withdrawalKey w "release" } x.receiptId) := by
          refine ⟨.rejectWithdrawal rfl, ?_, trivial⟩
          rintro _ ⟨⟩
          exact ⟨_, _, rfl, (hr.heldFor hpoints).later hlater.ledger⟩
        have hstep := houtcome
        rcases houtcome.of_release with ⟨-, rfl⟩ | ⟨-, r₃, e, hr₃, hheld₃, -, -, -, hcommits⟩
        · have hsame := hs₃.call hright hstep hs₃.row
          exact ⟨hsame.standing, ⟨hsame.later, hsame.kept⟩, .inl, hlast _⟩
        · obtain ⟨hpaid₃, hpoints₃⟩ := hlater.points_at hfind hr hpoints hr₃
          obtain ⟨hdone, -, hpayment⟩ := hs₃.decide hright hstep hcommits
            ⟨rfl, rfl, rfl, rfl, rfl, rfl, rfl, rfl, rfl⟩ hpaid₃ hheld₃ hpoints₃
          refine ⟨hdone.standing, ⟨hdone.later, hdone.kept⟩, fun hdebt => ?_, hlast _⟩
          cases due with
          | payment => exact absurd hdebt hpayment
          | decision =>
              right
              have hopen : x.status ≠ .rejected := by
                intro hrejected
                rw [hrejected] at hholds
                exact absurd hholds (by decide)
              obtain ⟨x₃, hfind₃, -⟩ := hlater.row x hfind
              dsimp only [last]
              rw [if_neg hopen]
              exact owes_status hfind₃ fun _ => (by decide : ¬ WithdrawalStatus.Holds .rejected)
      · exact hlast s₂

/-- A logged dispatch has withdrawn the receipt of its withdrawal. -/
theorem WithdrawalStanding.dispatched (hs : WithdrawalStanding w s) {e : InventoryEvent}
    (he : s.ledger.events.find (withdrawalKey w "consume") = some e) :
    ∃ r, PaidWith w s.ledger r ∧ r.status = .withdrawn := by
  have hmem := Table.mem_of_find he
  have hkey : e.idempotencyKey = withdrawalKey w "consume" := Table.key_of_find he
  obtain ⟨r, hr, hfrom, hgone⟩ := hs.dispatches e hmem w hkey
  obtain ⟨r', hr', hfrom', hminted, -⟩ := hs.leaves.ended e hmem .withdrawal w (by
    rw [hkey]
    exact List.mem_cons_of_mem _ (List.mem_singleton.mpr rfl))
  obtain rfl : r = r' := Table.eq_of_key_eq hr hr' (hfrom.trans hfrom'.symm)
  exact ⟨r, ⟨hr, hminted⟩, hgone⟩

/-- The status of a dispatch, recorded on the row of the receipt that is gone. -/
theorem safe_completion {x : Withdrawal} {r : Receipt} {fee : ℚ} {handling : ℚ}
    (hfind : s.withdrawals.find w = some x) (hpaid : PaidWith w s.ledger r)
    (hpoints : r.id = x.receiptId) (hgone : r.status = .withdrawn) :
    (withdrawalCalls w due).Safe (updateWithdrawal (.completeWithdrawal w) w fun r =>
      { r with status := .completed, storageFee := fee, totalFee := fee + handling }) s := by
  apply safe_advance
  intro s' x' hlater hs _ hfind'
  obtain ⟨-, r', hr', hpoints', hmoves⟩ := hlater.points hfind hpaid hpoints hfind'
  have hgone' : r'.status = .withdrawn := by
    rw [terminal_stays hmoves (by rw [hgone]; decide), hgone]
  have honly : ∀ r'', PaidWith w s'.ledger r'' → r''.status = .withdrawn := fun r'' hr'' =>
    (hr''.unique hs.leaves hr').symm ▸ hgone'
  constructor
  · exact ⟨(hs.custody.withdrawals x' (Table.mem_of_find hfind')).1, nofun⟩
  · exact ⟨nofun, fun _ => ⟨r', hr', hpoints'⟩, nofun, fun _ => honly⟩
  · exact fun _ _ _ => rfl
  · intro hfinal
    rcases List.mem_pair.mp hfinal with hrejected | hcompleted
    · exact absurd hgone' ((hs.row x' hfind').rejected hrejected r' hr').1
    · exact hcompleted.symm
  · intro due r'' _ _ hconcerns
    cases due with
    | payment => exact absurd hconcerns (by decide : ¬ WithdrawalStatus.Unheld .completed)
    | decision => exact absurd hconcerns (by decide : ¬ WithdrawalStatus.Holds .completed)

theorem completeWithdrawal_settles (uuids : Uuids) (fee : ℚ) (tenantId : Id)
    (actorUserId : Option Id) : (withdrawalCalls w due).Safe
      (completeWithdrawal num uuids (.ok fee) tenantId w actorUserId) s := by
  apply safe_loadWithdrawal
  intro s₁ x hs₁ hfind hid
  apply Contract.safe_throwIf
  intro happroved
  have happroved : x.status = .approved := not_not.mp happroved
  obtain ⟨r, hr, hpoints⟩ := hs₁.paid hfind (by rw [happroved]; decide)
  rw [hid]
  apply keeps_ledger (fun _ _ => trivial) rfl
  intro s₂ a ledger hlater₂ hs₂ _ houtcome
  have hright : Rightful s₂ (.completeWithdrawal w) (.consume
      { tenantId, actorUserId, idempotencyKey := withdrawalKey w "consume" } x.receiptId) := by
    refine ⟨.completeWithdrawal rfl, ?_, ?_⟩
    · rintro _ ⟨⟩
      exact ⟨_, _, rfl, (hr.heldFor hpoints).later hlater₂.ledger⟩
    · obtain ⟨e, he, hkey⟩ :=
        (hs₁.custody.withdrawals x (Table.mem_of_find hfind)).2 happroved
      exact ⟨e, hlater₂.ledger.events e he, hid ▸ hkey⟩
  -- the receipt is gone, now or before
  have hdone : WithdrawalStep w s₂ { s₂ with ledger } ∧
      (∃ r', PaidWith w ledger r' ∧ r'.status = .withdrawn) ∧
        (ledger = s₂.ledger ∨ ¬ Due.payment.Owed w { s₂ with ledger }) := by
    have hstep := houtcome
    cases houtcome with
    | replayed e prior reconstructs same =>
        subst same
        exact ⟨hs₂.call hright hstep hs₂.row, hs₂.dispatched prior, .inl rfl⟩
    | committed free events change effect commits =>
        cases effect with
        | consume ctx r₂ loaded held =>
            obtain ⟨hpaid₂, hpoints₂⟩ := hlater₂.points_at hfind hr hpoints loaded.1
            obtain ⟨hdone, hafter, hpayment⟩ := hs₂.decide hright hstep commits
              ⟨rfl, rfl, rfl, rfl, rfl, rfl, rfl, rfl, rfl⟩ hpaid₂ held hpoints₂
            exact ⟨hdone, ⟨_, hafter, rfl⟩, .inr hpayment⟩
  obtain ⟨hstep, ⟨r', hr', hgone⟩, hpayment⟩ := hdone
  have hlater : WithdrawalLater w s₁ { s₂ with ledger } := hlater₂.trans hstep.later
  have hnext : ∀ s', WithdrawalLater w { s₂ with ledger } s' →
      ∃ x' r, s'.withdrawals.find w = some x' ∧ s'.ledger.receipts.find x.receiptId = some r ∧
        PaidWith w s'.ledger r ∧ r.id = x'.receiptId := by
    intro s' hlater'
    obtain ⟨x', hfind', -⟩ := (hlater.trans hlater').row x hfind
    obtain ⟨hsame, r, hr, hid, -⟩ := (hlater.trans hlater').points hfind hr hpoints hfind'
    exact ⟨x', r, hfind', hsame ▸ hid ▸ Table.find_of_mem hr.there, hr, hid⟩
  refine ⟨hstep.standing, ⟨hstep.later, hstep.kept⟩, fun hdebt => ?_, ?_⟩
  · cases due with
    | payment =>
        rcases hpayment with rfl | hpayment
        · exact .inl hdebt
        · exact absurd hdebt hpayment
    | decision =>
        right
        apply owes_read
        intro s' hlater'
        obtain ⟨x', r, hfind', hread, -⟩ := hnext s' hlater'
        rw [hread]
        exact owes_status hfind' fun _ => (by decide : ¬ WithdrawalStatus.Holds .completed)
  · apply Contract.safe_read
    intro s₃ hlater₃ hs₃
    obtain ⟨x₃, r₃, hfind₃, -, hr₃, hpoints₃⟩ := hnext s₃ hlater₃
    apply Contract.safe_orThrow
    intro _ _
    obtain ⟨r₃', hr₃', -, hmoves⟩ := hr'.later hlater₃.ledger
    have hgone₃ : r₃.status = .withdrawn := by
      rw [hr₃.unique hs₃.leaves hr₃', terminal_stays hmoves (by rw [hgone]; decide), hgone]
    exact safe_completion hfind₃ hr₃ hpoints₃ hgone₃

/-- The cron rejects a row only while it awaits its payment. -/
theorem expirePendingPayment_settles (now : Timestamp) :
    (withdrawalCalls w due).Safe (expirePendingPayment now) s := by
  apply Contract.safe_read
  intro s₁ _ _
  split
  · trivial
  · apply Contract.safe_write_last
    intro s₂ a s₃ _ hs hadmits hok
    cases hok
    have hcustody := hs.custody.rewriteWithdrawals
      (p := fun x => x.id ∈ ((s₁.withdrawals.rows.filter fun x => x.status = .pendingPayment ∧
        x.createdAt < pendingPaymentCutoff now).map Withdrawal.id) ∧ x.status = .pendingPayment)
      (f := fun r => { r with
        status := .rejected
        rejectionReason := some "Auto-expired: payment confirmation was not received in time." })
      (fun _ => rfl) (fun _ => rfl) fun _ => by simp
    obtain ⟨hstep, hdue⟩ := hs.rewrite hcustody (Table.find_modifyWhere _ _) fun x hfind => by
      split
      · rename_i hexpired
        exact hs.advance_expired hfind hexpired.2
      · exact hs.advance_refl hfind
    exact ⟨hstep.standing, ⟨hstep.later, hstep.kept⟩, hdue due⟩

/-- The requests on withdrawal w, and the cron. -/
def Request.DecidesWithdrawal (w : Id) : Request → Prop
  | .confirmPayment _ _ withdrawalId _ _ => withdrawalId = w
  | .approveWithdrawal _ _ withdrawalId _ => withdrawalId = w
  | .rejectWithdrawal _ _ withdrawalId _ _ => withdrawalId = w
  | .completeWithdrawal _ _ _ withdrawalId _ => withdrawalId = w
  | .expirePendingPayment _ => True
  | _ => False

/-- The fee of a dispatch can be computed. -/
def Request.FeeResolves : Request → Prop
  | .completeWithdrawal _ storageFee _ _ _ => ∃ fee, storageFee = .ok fee
  | _ => True

theorem Request.decidesWithdrawal_safe {request : Request}
    (hdecides : request.DecidesWithdrawal w) (hfee : request.FeeResolves) :
    (withdrawalCalls w due).Safe (request.run num) s := by
  cases request with
  | confirmPayment uuids tenantId withdrawalId actorUserId actorRoles =>
      obtain rfl : withdrawalId = w := hdecides
      exact confirmPayment_settles uuids tenantId actorUserId actorRoles
  | approveWithdrawal uuids tenantId withdrawalId actorUserId =>
      obtain rfl : withdrawalId = w := hdecides
      exact approveWithdrawal_settles uuids tenantId actorUserId
  | rejectWithdrawal uuids tenantId withdrawalId actorUserId reason =>
      obtain rfl : withdrawalId = w := hdecides
      exact rejectWithdrawal_settles uuids tenantId actorUserId reason
  | completeWithdrawal uuids storageFee tenantId withdrawalId actorUserId =>
      obtain rfl : withdrawalId = w := hdecides
      obtain ⟨fee, rfl⟩ : ∃ fee, storageFee = .ok fee := hfee
      exact completeWithdrawal_settles uuids fee tenantId actorUserId
  | expirePendingPayment now => exact expirePendingPayment_settles now
  | _ => exact hdecides.elim

end Requests

/-- From any reachable state in which withdrawal w is at rest, any number of payments, approvals,
rejections, dispatches and cron runs, interleaved in any way, never leave REJECTED or COMPLETED
and end at rest, as long as no payment and no approval is recorded on a final row, no rejection
on a row whose receipt is held or gone, and the fees of the dispatches resolve. -/
theorem withdrawal_rests (num : Numeric) {directory : Directory} {earlier : List Request}
    {trace₀ : List (Transition Label Db)} {s : Db} {pool₀ : List (Api Unit)}
    (hreached : Run (Db.initial directory) (earlier.map (Request.run num)) trace₀ s pool₀)
    {w : Id} (hstart : WithdrawalRests w s) (requests : List Request)
    (hdecides : ∀ request ∈ requests, request.DecidesWithdrawal w)
    (hfees : ∀ request ∈ requests, request.FeeResolves)
    {trace : List (Transition Label Db)} {s' : Db} {pool : List (Api Unit)}
    (hrun : Run s (requests.map (Request.run num)) trace s' pool)
    (hadmits : ∀ t ∈ trace, ¬ WithdrawalOverruled w t.label t.before) :
    (∀ t ∈ trace, FinalKept w t.before t.after) ∧ (Quiescent pool → WithdrawalRests w s') := by
  have hcustody := (runs_custody num directory earlier hreached).final.inv
  obtain ⟨hleaves, hdispatches⟩ := runs_transactions hreached
  have hstanding := hstart.standing hcustody hleaves hdispatches
  have hholds : ∀ due, (withdrawalCalls w due).Holds s (requests.map (Request.run num)) := by
    intro due
    refine ⟨hstanding, fun process hprocess => ?_, fun howed =>
      absurd howed (hstart.settled hstanding due)⟩
    obtain ⟨request, hrequest, rfl⟩ := List.mem_map.mp hprocess
    exact Request.decidesWithdrawal_safe (hdecides request hrequest) (hfees request hrequest)
  have hrunHolds := fun due => (hholds due).run hrun hadmits
  refine ⟨fun t ht => ?_, fun hquiet => ?_⟩
  · obtain ⟨-, hguar, -⟩ := (hrunHolds .payment).each t ht
    exact hguar.2
  · exact (hrunHolds .payment).final.inv.rests fun due => (hrunHolds due).final.settled hquiet

/-- Withdrawal 9 of four units, approved, on receipt 152. -/
def approvedRun : List (Transition Label Db) × Db × List (Api Unit) :=
  interleave ([0, 1, 2, 3, 4].flatMap (List.replicate 10)) (Db.initial sampleDirectory)
    ((sampleStock ++ sampleWithdrawal.take 3).map (Request.run .postgres))

theorem approvedRun_rests : WithdrawalRests 9 approvedRun.2.1 := by
  have hrow : (approvedRun.2.1.withdrawals.find 9).map (fun x => (x.status, x.receiptId)) =
      some (.approved, 152) := by
    decide +kernel
  have hheld : (approvedRun.2.1.ledger.receipts.find 152).map Receipt.status =
      some .heldWithdrawal := by
    decide +kernel
  have hthere : ∀ r ∈ approvedRun.2.1.ledger.receipts.rows, r.status ≠ .withdrawn := by
    decide +kernel
  obtain ⟨x, hfind, hx⟩ := Option.map_eq_some_iff.mp hrow
  obtain ⟨hstatus, hreceipt⟩ := Prod.mk.inj hx
  have honly : ∀ x', approvedRun.2.1.withdrawals.find 9 = some x' → x' = x := fun x' hfind' =>
    Option.some_inj.mp (hfind'.symm.trans hfind)
  refine ⟨⟨?_, ?_, ?_, ?_⟩, ?_⟩
  · intro x' hfind' hcompleted
    rw [honly x' hfind', hstatus] at hcompleted
    cases hcompleted
  · exact fun _ _ r hpaid hgone => absurd hgone (hthere r hpaid.there)
  · intro x' hfind' hrejected
    rw [honly x' hfind', hstatus] at hrejected
    cases hrejected
  · intro x' hfind' _
    rw [honly x' hfind', hreceipt]
    exact Option.map_eq_some_iff.mp hheld
  · intro x' hfind' hpending
    rw [honly x' hfind', hstatus] at hpending
    cases hpending

/-- The dispatch and the rejection of withdrawal 9 under a schedule. -/
def withdrawalRace (choices : List ℕ) :
    List (Transition Label Db) × Db × List (Process Label Db (Except ApiError Unit)) :=
  interleave choices approvedRun.2.1
    ([.completeWithdrawal (sampleUuids 170) (.ok 0) 1 9 (some 12),
      .rejectWithdrawal (sampleUuids 180) 1 9 (some 11) none].map (Request.run .postgres))

/-- Both read the row as approved, and the rejection releases the receipt first. -/
theorem withdrawal_rests_sample :
    (∀ t ∈ (withdrawalRace [0, 1, 1, 1, 0, 1]).1, FinalKept 9 t.before t.after) ∧
      (Quiescent (withdrawalRace [0, 1, 1, 1, 0, 1]).2.2 →
        WithdrawalRests 9 (withdrawalRace [0, 1, 1, 1, 0, 1]).2.1) := by
  refine withdrawal_rests .postgres (run_interleave _ (Db.initial sampleDirectory) _)
    approvedRun_rests _ ?_ ?_ (run_interleave _ _ _) (by decide +kernel)
  · simp [Request.DecidesWithdrawal]
  · simp [Request.FeeResolves]

/-- When the dispatch comes first, the rejection that read the row before is recorded over it. -/
example : ((withdrawalRace [1, 0, 0, 0, 0, 1, 1]).2.1.withdrawals.find 9).map Withdrawal.status =
      some .rejected ∧
    ((withdrawalRace [1, 0, 0, 0, 0, 1, 1]).2.1.ledger.receipts.find 152).map Receipt.status =
      some .withdrawn := by
  decide +kernel

end SecureStore.Services
