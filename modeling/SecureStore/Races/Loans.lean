/-
# Racing decisions on a loan

Approval approves the hold, rejection and repayment release it, each under a key of
its own, and each writes the status afterwards without looking at it again. The
leaf keeps rejection and repayment apart, and it keeps an approval from following a
rejection; it does not keep a rejection from following an approval, nor the status
of a late approval from replacing the status of a repayment.
-/

import SecureStore.Races.Settlement

namespace SecureStore.Services

open SecureStore.Foundation SecureStore.Inventory

/-- How far the ledger is with a loan. -/
inductive LoanPhase where
  | pending
  | approved
  | repaid
  | rejected
  deriving DecidableEq

namespace LoanPhase

/-- The statuses that the loan's row can have in a phase. -/
def Row : LoanPhase → LoanStatus → Prop
  | pending, status => status = .pending
  | approved, status => status = .pending ∨ status = .active
  | repaid, status => status = .active ∨ status = .repaid
  | rejected, status => status = .pending ∨ status = .rejected

def leafStatus : LoanPhase → ReceiptStatus
  | pending => .heldLoan
  | approved => .heldLoan
  | repaid => .active
  | rejected => .active

def releases : LoanPhase → ℕ
  | pending => 0
  | approved => 0
  | repaid => 1
  | rejected => 1

end LoanPhase

/-- Loan l on leaf h in a phase. -/
structure LoanStanding (l h : Id) (phase : LoanPhase) (s : Db) : Prop where
  row : ∃ x, s.loans.find l = some x ∧ x.receiptId = h ∧ phase.Row x.status
  leaf : ∃ r, s.ledger.receipts.find h = some r ∧ r.status = phase.leafStatus
  approval : s.ledger.Used (loanKey l "approveHold") ↔ phase = .approved ∨ phase = .repaid
  repayment : s.ledger.Used (loanKey l "repay-release") ↔ phase = .repaid
  rejection : s.ledger.Used (loanKey l "release") ↔ phase = .rejected
  released : (releasesOf s.ledger h).length = phase.releases

/-- The leaf was released and the row does not say so yet. -/
def LoanOwed (l h : Id) (s : Db) : Prop :=
  ∃ x r, s.loans.find l = some x ∧ (x.status = .pending ∨ x.status = .active) ∧
    s.ledger.receipts.find h = some r ∧ r.status = .active

/-- A rejected or repaid status of the loan is not overwritten. -/
def LoanKept (l : Id) (s s' : Db) : Prop :=
  ∀ x, s.loans.find l = some x → x.status = .rejected ∨ x.status = .repaid →
    ∃ x', s'.loans.find l = some x' ∧ x'.status = x.status

/-- The loan is open exactly while its receipt is held, and a loan that ended had its
collateral released exactly once. -/
structure LoanSecured (l h : Id) (s : Db) : Prop where
  held : ∀ x, s.loans.find l = some x →
    (x.status = .pending ∨ x.status = .active ↔
      ∃ r, s.ledger.receipts.find x.receiptId = some r ∧ r.status = .heldLoan)
  ended : ∀ x, s.loans.find l = some x → x.status = .rejected ∨ x.status = .repaid →
    x.receiptId = h ∧ (releasesOf s.ledger h).length = 1

section Standing

variable {l h : Id} {phase : LoanPhase} {s : Db} {ledger : Ledger} {num : Numeric}
  {uuids : Uuids} {ctx : ActorCtx} {result : LedgerResult}

theorem LoanStanding.of_find {x : Loan} (hs : LoanStanding l h phase s)
    (hfind : s.loans.find l = some x) : x.receiptId = h ∧ phase.Row x.status := by
  obtain ⟨x', hfind', hreceipt, hrow⟩ := hs.row
  obtain rfl : x' = x := Option.some_inj.mp (hfind'.symm.trans hfind)
  exact ⟨hreceipt, hrow⟩

theorem LoanStanding.leafStatus {r : Receipt} (hs : LoanStanding l h phase s)
    (hr : s.ledger.receipts.find h = some r) : r.status = phase.leafStatus := by
  obtain ⟨r', hr', hstatus⟩ := hs.leaf
  obtain rfl : r' = r := Option.some_inj.mp (hr'.symm.trans hr)
  exact hstatus

theorem LoanStanding.ended (hs : LoanStanding l h phase s) {x : Loan}
    (hfind : s.loans.find l = some x) (hended : x.status = .rejected ∨ x.status = .repaid) :
    x.receiptId = h ∧ (releasesOf s.ledger h).length = 1 := by
  obtain ⟨hreceipt, hrow⟩ := hs.of_find hfind
  refine ⟨hreceipt, ?_⟩
  rw [hs.released]
  cases phase <;> rcases hended with hstatus | hstatus <;> simp_all [LoanPhase.Row] <;> rfl

/-- Where nothing is owed, the loan is secured. -/
theorem LoanStanding.secured (hs : LoanStanding l h phase s) (hclear : ¬ LoanOwed l h s) :
    LoanSecured l h s := by
  refine ⟨fun x hfind => ?_, fun x hfind => hs.ended hfind⟩
  obtain ⟨hreceipt, hrow⟩ := hs.of_find hfind
  obtain ⟨r, hr, hleaf⟩ := hs.leaf
  rw [hreceipt]
  constructor
  · intro hopen
    refine ⟨r, hr, ?_⟩
    by_contra hfree
    refine hclear ⟨x, r, hfind, hopen, hr, ?_⟩
    rw [hleaf] at hfree ⊢
    cases phase <;> simp_all [LoanPhase.leafStatus]
  · rintro ⟨r', hr', hheld⟩
    obtain rfl : r = r' := Option.some_inj.mp (hr.symm.trans hr')
    rw [hheld] at hleaf
    cases phase with
    | pending => exact .inl hrow
    | approved => exact hrow
    | _ => cases hleaf

/-- A new event about the leaf under one of the loan's keys, with what it does to the leaf,
moves the loan to another phase. -/
theorem LoanStanding.move {phase' : LoanPhase} {r after : Receipt} {e : InventoryEvent}
    (hs : LoanStanding l h phase s) (hr : s.ledger.receipts.find h = some r)
    (hcommits : Commits s.ledger [e] (.amend r after) ledger)
    (hrow : ∀ x, s.loans.find l = some x → phase'.Row x.status)
    (hstatus : after.status = phase'.leafStatus)
    (happroval : (phase' = .approved ∨ phase' = .repaid) ↔
      (phase = .approved ∨ phase = .repaid) ∨ e.idempotencyKey = loanKey l "approveHold")
    (hrepayment : phase' = .repaid ↔ phase = .repaid ∨ e.idempotencyKey = loanKey l "repay-release")
    (hrejection : phase' = .rejected ↔ phase = .rejected ∨ e.idempotencyKey = loanKey l "release")
    (hreleases : phase'.releases = phase.releases +
      if e.eventType = .holdReleased ∧ e.fromReceiptId = h then 1 else 0) :
    LoanStanding l h phase' { s with ledger } := by
  constructor
  · obtain ⟨x, hfind, hreceipt, -⟩ := hs.row
    exact ⟨x, hfind, hreceipt, hrow x hfind⟩
  · have hfind := hcommits.find_receipt hr
    rw [Change.apply_amend_self] at hfind
    exact ⟨after, hfind, hstatus⟩
  · simpa [hcommits.used_iff, hs.approval] using happroval.symm
  · simpa [hcommits.used_iff, hs.repayment] using hrepayment.symm
  · simpa [hcommits.used_iff, hs.rejection] using hrejection.symm
  · rw [hreleases, ← hs.released]
    exact releasesOf_commits hcommits

/-- The approval of the hold, made now or before. -/
theorem LoanStanding.approve (hs : LoanStanding l h phase s)
    (hkey : ctx.idempotencyKey = loanKey l "approveHold")
    (houtcome : Outcome num uuids (.approveHold ctx h) s.ledger result ledger) :
    ∃ phase', LoanStanding l h phase' { s with ledger } ∧
      phase'.leafStatus = phase.leafStatus := by
  rcases houtcome.of_approveHold with
    ⟨-, rfl⟩ | ⟨hfree, r, e, hr, hheld, -, hnew, htype, -, hcommits⟩
  · exact ⟨phase, hs, rfl⟩
  · have hstatus := hs.leafStatus hr
    rw [hstatus] at hheld
    rw [hkey, hs.approval] at hfree
    rw [hkey] at hnew
    obtain rfl : phase = .pending := by
      cases phase with
      | pending => rfl
      | approved => exact absurd (.inl rfl) hfree
      | _ => exact absurd hheld (by decide)
    refine ⟨.approved, ?_, rfl⟩
    refine hs.move hr hcommits (fun x hfind => .inl (hs.of_find hfind).2) hstatus ?_ ?_ ?_ ?_
    all_goals simp [hnew, htype, loanKey, LoanPhase.releases]

/-- The repayment of an approved loan releases the leaf, now or before. -/
theorem LoanStanding.repay (hs : LoanStanding l h phase s)
    (hkey : ctx.idempotencyKey = loanKey l "repay-release")
    (hrow : ∀ x, s.loans.find l = some x → x.status ≠ .pending)
    (houtcome : Outcome num uuids (.release ctx h) s.ledger result ledger) :
    LoanStanding l h .repaid { s with ledger } := by
  rcases houtcome.of_release with
    ⟨hused, rfl⟩ | ⟨-, r, e, hr, hheld, hnew, htype, hfrom, hcommits⟩
  · rw [hkey, hs.repayment] at hused
    exact hused ▸ hs
  · rw [hs.leafStatus hr] at hheld
    rw [hkey] at hnew
    obtain ⟨x, hfind, -, hstatus⟩ := hs.row
    have hstarted := hrow x hfind
    obtain rfl : phase = .approved := by
      cases phase with
      | pending => exact absurd hstatus hstarted
      | approved => rfl
      | _ => exact absurd hheld (by decide)
    have hactive : x.status = .active := hstatus.resolve_left hstarted
    refine hs.move hr hcommits ?_ rfl ?_ ?_ ?_ ?_
    · intro x' hfind'
      obtain rfl : x = x' := Option.some_inj.mp (hfind.symm.trans hfind')
      exact .inl hactive
    all_goals simp [hnew, htype, hfrom, loanKey, LoanPhase.releases]

/-- The rejection of a loan whose hold is not approved releases the leaf, now or before. -/
theorem LoanStanding.reject (hs : LoanStanding l h phase s)
    (hkey : ctx.idempotencyKey = loanKey l "release") (hopen : phase ≠ .approved)
    (houtcome : Outcome num uuids (.release ctx h) s.ledger result ledger) :
    LoanStanding l h .rejected { s with ledger } := by
  rcases houtcome.of_release with
    ⟨hused, rfl⟩ | ⟨-, r, e, hr, hheld, hnew, htype, hfrom, hcommits⟩
  · rw [hkey, hs.rejection] at hused
    exact hused ▸ hs
  · rw [hs.leafStatus hr] at hheld
    rw [hkey] at hnew
    obtain rfl : phase = .pending := by
      cases phase with
      | pending => rfl
      | approved => exact absurd rfl hopen
      | _ => exact absurd hheld (by decide)
    refine hs.move hr hcommits (fun x hfind => .inl (hs.of_find hfind).2) rfl ?_ ?_ ?_ ?_
    all_goals simp [hnew, htype, hfrom, loanKey, LoanPhase.releases]

/-- A status write in a phase that knows the status. -/
theorem LoanStanding.record {loans : Table Loan} {f : Loan → Loan}
    {hf : ∀ r, Keyed.key (f r) = Keyed.key r} {status : LoanStatus}
    (hs : LoanStanding l h phase s) (hupdate : updateRow s.loans l f hf = .ok loans)
    (hreceipt : ∀ r, (f r).receiptId = r.receiptId) (hstatus : ∀ r, (f r).status = status)
    (hrow : phase.Row status)
    (hkept : ∀ x, s.loans.find l = some x → x.status = .rejected ∨ x.status = .repaid →
      x.status = status) :
    LoanStanding l h phase { s with loans } ∧ LoanKept l s { s with loans } ∧
      ∃ x, loans.find l = some x ∧ x.status = status := by
  obtain ⟨x, hfind, rfl⟩ := updateRow_ok.mp hupdate
  have hself : (s.loans.modify l f hf).find l = some (f x) := Table.find_modify_self hfind
  have hx := (hs.of_find hfind).1
  refine ⟨{ hs with row := ?_ }, ?_, f x, hself, hstatus x⟩
  · exact ⟨f x, hself, (hreceipt x).trans hx, (hstatus x).symm ▸ hrow⟩
  · intro x' hfind' hended
    exact ⟨f x, hself, (hstatus x).trans (hkept x' hfind' hended).symm⟩

end Standing

/-- The loan whose approval a step records. -/
def Label.loanApproved : Label → Option Id
  | .write (.approveLoan loanId) => some loanId
  | _ => none

/-- The loan whose rejection moves the ledger. -/
def Label.loanRejected : Label → Option Id
  | .ledger (.rejectLoan loanId) _ => some loanId
  | _ => none

/-- An approval of loan l is recorded on a loan that has ended, or a rejection comes to its
release with the hold approved. -/
def LoanOverruled (l h : Id) (label : Label) (s : Db) : Prop :=
  (label.loanApproved = some l ∧
      ((s.loans.find l).map Loan.status = some .rejected ∨
        (s.loans.find l).map Loan.status = some .repaid)) ∨
    (label.loanRejected = some l ∧ s.ledger.Used (loanKey l "approveHold") ∧
      (s.ledger.receipts.find h).map Receipt.status = some .heldLoan)

instance (l h : Id) (label : Label) (s : Db) : Decidable (LoanOverruled l h label s) :=
  inferInstanceAs (Decidable (_ ∨ _))

/-- Logged keys stay, and a loan that is not pending any more stays so. -/
structure LoanLater (l : Id) (s s' : Db) : Prop where
  used : ∀ key, s.ledger.Used key → s'.ledger.Used key
  started : ∀ x, s.loans.find l = some x → x.status ≠ .pending →
    ∃ x', s'.loans.find l = some x' ∧ x'.status ≠ .pending

theorem LoanLater.refl (l : Id) (s : Db) : LoanLater l s s :=
  ⟨fun _ hused => hused, fun x hfind hstarted => ⟨x, hfind, hstarted⟩⟩

theorem LoanLater.trans {l : Id} {s s' s'' : Db} (h : LoanLater l s s')
    (h' : LoanLater l s' s'') : LoanLater l s s'' := by
  refine ⟨fun key hused => h'.used key (h.used key hused), fun x hfind hstarted => ?_⟩
  obtain ⟨x', hfind', hstarted'⟩ := h.started x hfind hstarted
  exact h'.started x' hfind' hstarted'

/-- Requests that approve, reject or repay loan l. A process that released the leaf owes
the status that says so. -/
def loanDecisions (l h : Id) : Contract Label Db where
  inv s := ∃ phase, LoanStanding l h phase s
  rely := LoanLater l
  admits label s := ¬ LoanOverruled l h label s
  guar _ s s' := LoanLater l s s' ∧ LoanKept l s s'
  debt := LoanOwed l h
  rely_refl := LoanLater.refl l
  rely_trans := LoanLater.trans
  guar_refl _ s := ⟨.refl l s, fun x hfind _ => ⟨x, hfind, rfl⟩⟩
  guar_rely _ hguar := hguar.1

section Requests

variable {num : Numeric} {l h : Id} {s : Db} {by_ : Issuer}

/-- What a ledger step of the loan's requests guarantees. -/
theorem guar_of_outcome {uuids : Uuids} {op : LedgerOp} {ledger : Ledger} {result : LedgerResult}
    {label : Label} (houtcome : Outcome num uuids op s.ledger result ledger) :
    (loanDecisions l h).guar label s { s with ledger } := by
  refine ⟨⟨fun key hused => ?_, fun x hfind hstarted => ⟨x, hfind, hstarted⟩⟩, ?_⟩
  · exact houtcome.used hused
  · exact fun x hfind _ => ⟨x, hfind, rfl⟩

/-- A loan that was found. -/
theorem safe_loadLoan {tenantId : Id} {g : Loan → Api Unit}
    (hnext : ∀ s' x phase, LoanStanding l h phase s' → s'.loans.find l = some x →
      x.receiptId = h → x.id = l → (loanDecisions l h).Safe (g x) s') :
    (loanDecisions l h).Safe (loadLoan tenantId l >>= g : Api Unit) s := by
  apply Contract.safe_find
  intro s' x _ hinv hx
  obtain ⟨phase, hs⟩ := hinv
  have hfind := (Option.filter_eq_some_iff.mp hx).1
  exact hnext s' x phase hs hfind (hs.of_find hfind).1 (Table.key_of_find hfind)

/-- A loan whose leaf was released stays where it is. -/
theorem LoanStanding.stays {phase : LoanPhase} {s s' : Db} (hs : LoanStanding l h phase s)
    (hended : phase = .repaid ∨ phase = .rejected) (hlater : LoanLater l s s')
    (hs' : ∃ phase', LoanStanding l h phase' s') : LoanStanding l h phase s' := by
  obtain ⟨phase', hs'⟩ := hs'
  rcases hended with rfl | rfl
  · exact hs'.repayment.mp (hlater.used _ (hs.repayment.mpr rfl)) ▸ hs'
  · exact hs'.rejection.mp (hlater.used _ (hs.rejection.mpr rfl)) ▸ hs'

/-- The phase in which a loan has ended with a status. -/
def Ended (phase : LoanPhase) (status : LoanStatus) : Prop :=
  phase = .repaid ∧ status = .repaid ∨ phase = .rejected ∧ status = .rejected

/-- The write of the status with which the loan has ended leaves nothing owed. -/
theorem LoanStanding.status_written {phase : LoanPhase} {status : LoanStatus} {s' s'' : Db}
    {f : Loan → Loan} {hf : ∀ r, Keyed.key (f r) = Keyed.key r} {a : Unit}
    (hs : LoanStanding l h phase s) (hended : Ended phase status)
    (hreceipt : ∀ r, (f r).receiptId = r.receiptId) (hstatus : ∀ r, (f r).status = status)
    (hlater : LoanLater l s s') (hinv : ∃ phase', LoanStanding l h phase' s')
    (hok : (updateRow s'.loans l f hf).map (fun loans => ((), { s' with loans })) =
      .ok (a, s'')) :
    LoanStanding l h phase s'' ∧ LoanLater l s' s'' ∧ LoanKept l s' s'' ∧
      ¬ LoanOwed l h s'' := by
  obtain ⟨loans, hupdate, hresult⟩ := map_ok.mp hok
  cases hresult
  have hs' := hs.stays (hended.imp And.left And.left) hlater hinv
  have hrow : phase.Row status := by
    rcases hended with ⟨rfl, rfl⟩ | ⟨rfl, rfl⟩ <;> exact .inr rfl
  have hkept : ∀ x, s'.loans.find l = some x → x.status = .rejected ∨ x.status = .repaid →
      x.status = status := by
    intro x hfind hx
    have hrow' := (hs'.of_find hfind).2
    rcases hended with ⟨rfl, rfl⟩ | ⟨rfl, rfl⟩ <;>
      rcases hx with hx | hx <;> simp_all [LoanPhase.Row]
  obtain ⟨hstanding, hguar, x, hfind, hx⟩ := hs'.record hupdate hreceipt hstatus hrow hkept
  refine ⟨hstanding, ⟨fun _ hused => hused, fun _ _ _ => ⟨x, hfind, ?_⟩⟩, hguar, ?_⟩
  · rw [hx]
    rcases hended with ⟨-, rfl⟩ | ⟨-, rfl⟩ <;> decide
  · rintro ⟨x', r, hfind', hopen, -⟩
    obtain rfl : x = x' := Option.some_inj.mp (hfind.symm.trans hfind')
    rw [hx] at hopen
    rcases hended with ⟨-, rfl⟩ | ⟨-, rfl⟩ <;> simp at hopen

/-- A process that is about to write how the loan has ended owes nothing but that write,
which goes through: the row is there. -/
theorem LoanStanding.owes_status {phase : LoanPhase} {status : LoanStatus} {f : Loan → Loan}
    {hf : ∀ r, Keyed.key (f r) = Keyed.key r} (hs : LoanStanding l h phase s)
    (hended : Ended phase status) (hreceipt : ∀ r, (f r).receiptId = r.receiptId)
    (hstatus : ∀ r, (f r).status = status) :
    (loanDecisions l h).Owes (updateLoan by_ l f hf) s := by
  intro s' hlater hinv _
  left
  obtain ⟨phase', hs'⟩ := hinv
  obtain ⟨x, hfind, -⟩ := hs'.row
  have hok : (updateRow s'.loans l f hf).map (fun loans => ((), { s' with loans })) =
      .ok ((), { s' with loans := s'.loans.modify l f hf }) :=
    map_ok.mpr ⟨_, updateRow_ok.mpr ⟨x, hfind, rfl⟩, rfl⟩
  have hwritten := hs.status_written hended hreceipt hstatus hlater ⟨phase', hs'⟩ hok
  dsimp only
  rw [hok]
  exact hwritten.2.2.2

theorem LoanStanding.safe_status {phase : LoanPhase} {status : LoanStatus} {f : Loan → Loan}
    {hf : ∀ r, Keyed.key (f r) = Keyed.key r} (hs : LoanStanding l h phase s)
    (hended : Ended phase status) (hreceipt : ∀ r, (f r).receiptId = r.receiptId)
    (hstatus : ∀ r, (f r).status = status) :
    (loanDecisions l h).Safe (updateLoan by_ l f hf) s := by
  apply Contract.safe_write_last
  intro s' a s'' hlater hinv _ hok
  obtain ⟨hstanding, hlater', hkept, hclear⟩ :=
    hs.status_written hended hreceipt hstatus hlater hinv hok
  exact ⟨⟨_, hstanding⟩, ⟨hlater', hkept⟩, fun hdebt => absurd hdebt hclear⟩

theorem approveLoan_decides (uuids : Uuids) (tenantId : Id) (actorUserId : Option Id) :
    (loanDecisions l h).Safe (approveLoan num uuids tenantId l actorUserId) s := by
  apply safe_loadLoan
  intro s₁ x phase₁ _ _ hreceipt hid
  apply Contract.safe_throwIf
  intro _
  rw [hreceipt, hid]
  apply keeps_ledger (fun _ _ => trivial) rfl
  intro s₂ r ledger _ hinv _ houtcome
  obtain ⟨phase₂, hs₂⟩ := hinv
  obtain ⟨phase₃, hs₃, hleaf⟩ := hs₂.approve rfl houtcome
  have hused : ledger.Used (loanKey l "approveHold") := by
    rcases houtcome.of_approveHold with ⟨hused, rfl⟩ | ⟨-, _, e, -, -, -, hnew, -, -, hcommits⟩
    · exact hused
    · exact hcommits.used_iff.mpr (.inr ⟨e, List.mem_singleton.mpr rfl, hnew⟩)
  refine ⟨⟨_, hs₃⟩, guar_of_outcome houtcome, ?_, ?_⟩
  · -- the approval does not release the leaf
    rintro ⟨x', r', hfind, hopen, hr, hactive⟩
    left
    obtain ⟨r₂, hr₂, hstatus⟩ := hs₂.leaf
    refine ⟨x', r₂, hfind, hopen, hr₂, ?_⟩
    rw [hstatus, ← hleaf, ← hs₃.leafStatus hr, hactive]
  · apply Contract.safe_write_last
    intro s₄ a s₅ hlater hinv hadmits hok
    obtain ⟨phase₄, hs₄⟩ := hinv
    obtain ⟨loans, hupdate, hresult⟩ := map_ok.mp hok
    cases hresult
    have hphase := hs₄.approval.mp (hlater.used _ hused)
    have hopen : ∀ x, s₄.loans.find l = some x → ¬ (x.status = .rejected ∨ x.status = .repaid) := by
      intro x hfind hended
      refine hadmits (.inl ⟨rfl, ?_⟩)
      rw [hfind]
      exact hended.imp (congrArg some) (congrArg some)
    have hrow : phase₄.Row .active := by
      rcases hphase with rfl | rfl
      · exact .inr rfl
      · exact .inl rfl
    obtain ⟨hstanding, hkept, x₅, hfind₅, hactive⟩ := hs₄.record hupdate (fun _ => rfl)
      (fun _ => rfl) hrow fun x hfind hended => absurd hended (hopen x hfind)
    refine ⟨⟨_, hstanding⟩, ⟨⟨fun _ hused => hused, fun _ _ _ => ⟨x₅, hfind₅, ?_⟩⟩, hkept⟩, ?_⟩
    · rw [hactive]
      decide
    · -- what is owed now was owed before
      rintro ⟨_, r₅, -, -, hr, hfree⟩
      obtain ⟨x₄, hfind₄, -, hrow₄⟩ := hs₄.row
      refine ⟨x₄, r₅, hfind₄, ?_, hr, hfree⟩
      have hx₄ := hopen x₄ hfind₄
      rcases hphase with rfl | rfl
      · exact hrow₄
      · exact hrow₄.elim .inr fun hrepaid => absurd (.inr hrepaid) hx₄

theorem rejectLoan_decides (uuids : Uuids) (tenantId : Id) (actorUserId : Option Id) :
    (loanDecisions l h).Safe (rejectLoan num uuids tenantId l actorUserId) s := by
  apply safe_loadLoan
  intro s₁ x phase₁ _ _ hreceipt hid
  apply Contract.safe_throwIf
  intro _
  rw [hreceipt, hid]
  apply keeps_ledger (fun _ _ => trivial) rfl
  intro s₂ r ledger _ hinv hadmits houtcome
  obtain ⟨phase₂, hs₂⟩ := hinv
  have hopen : phase₂ ≠ .approved := by
    rintro rfl
    obtain ⟨r₂, hr₂, hstatus⟩ := hs₂.leaf
    refine hadmits (.inr ⟨rfl, hs₂.approval.mpr (.inl rfl), ?_⟩)
    rw [hr₂, Option.map_some, hstatus]
    rfl
  have hs₃ := hs₂.reject rfl hopen houtcome
  refine ⟨⟨_, hs₃⟩, guar_of_outcome houtcome, fun _ => .inr ?_, ?_⟩
  · exact hs₃.owes_status (.inr ⟨rfl, rfl⟩) (fun _ => rfl) fun _ => rfl
  · exact hs₃.safe_status (.inr ⟨rfl, rfl⟩) (fun _ => rfl) fun _ => rfl

theorem repayLoan_decides (uuids : Uuids) (tenantId : Id) (actorUserId : Option Id) :
    (loanDecisions l h).Safe (repayLoan num uuids tenantId l actorUserId) s := by
  apply safe_loadLoan
  intro s₁ x phase₁ _ hfind hreceipt hid
  apply Contract.safe_throwIf
  intro hactive
  rw [hreceipt, hid]
  apply keeps_ledger (fun _ _ => trivial) rfl
  intro s₂ r ledger hlater hinv _ houtcome
  obtain ⟨phase₂, hs₂⟩ := hinv
  -- the loan was read as active, so it is not pending any more
  have hstarted : ∀ x', s₂.loans.find l = some x' → x'.status ≠ .pending := by
    intro x' hfind'
    have hx : x.status ≠ .pending := by
      rw [not_not.mp hactive]
      decide
    obtain ⟨x₂, hfind₂, hx₂⟩ := hlater.started x hfind hx
    obtain rfl : x₂ = x' := Option.some_inj.mp (hfind₂.symm.trans hfind')
    exact hx₂
  have hs₃ := hs₂.repay rfl hstarted houtcome
  refine ⟨⟨_, hs₃⟩, guar_of_outcome houtcome, fun _ => .inr ?_, ?_⟩
  · exact hs₃.owes_status (.inl ⟨rfl, rfl⟩) (fun _ => rfl) fun _ => rfl
  · exact hs₃.safe_status (.inl ⟨rfl, rfl⟩) (fun _ => rfl) fun _ => rfl

/-- The requests that approve, reject or repay loan l. -/
def Request.DecidesLoan (l : Id) : Request → Prop
  | .approveLoan _ _ loanId _ => loanId = l
  | .rejectLoan _ _ loanId _ => loanId = l
  | .repayLoan _ _ loanId _ => loanId = l
  | _ => False

theorem Request.decidesLoan_safe {request : Request} (hdecides : request.DecidesLoan l) :
    (loanDecisions l h).Safe (request.run num) s := by
  cases request with
  | approveLoan uuids tenantId loanId actorUserId =>
      obtain rfl : loanId = l := hdecides
      exact approveLoan_decides uuids tenantId actorUserId
  | rejectLoan uuids tenantId loanId actorUserId =>
      obtain rfl : loanId = l := hdecides
      exact rejectLoan_decides uuids tenantId actorUserId
  | repayLoan uuids tenantId loanId actorUserId =>
      obtain rfl : loanId = l := hdecides
      exact repayLoan_decides uuids tenantId actorUserId
  | _ => exact hdecides.elim

end Requests

/-- Any number of approvals, rejections and repayments of a loan, interleaved in any way,
leave it open exactly while its receipt is held, release the collateral of an ended
loan once and never overwrite how it ended, as long as no approval is recorded on an
ended loan and no rejection releases an approved hold. -/
theorem loan_collateral_agrees (num : Numeric) {l h : Id} {phase : LoanPhase} {s s' : Db}
    (hstart : LoanStanding l h phase s) (hclear : ¬ LoanOwed l h s) (requests : List Request)
    (hdecides : ∀ request ∈ requests, request.DecidesLoan l)
    {trace : List (Transition Label Db)} {pool : List (Api Unit)}
    (hrun : Run s (requests.map (Request.run num)) trace s' pool)
    (hadmits : ∀ t ∈ trace, ¬ LoanOverruled l h t.label t.before) :
    (∀ t ∈ trace, LoanKept l t.before t.after) ∧
      (∀ x, s'.loans.find l = some x → x.status = .rejected ∨ x.status = .repaid →
        x.receiptId = h ∧ (releasesOf s'.ledger h).length = 1) ∧
      (Quiescent pool → LoanSecured l h s') := by
  have hholds : (loanDecisions l h).Holds s (requests.map (Request.run num)) := by
    refine ⟨⟨phase, hstart⟩, fun process hprocess => ?_, fun howed => absurd howed hclear⟩
    obtain ⟨request, hrequest, rfl⟩ := List.mem_map.mp hprocess
    exact Request.decidesLoan_safe (hdecides request hrequest)
  have hrunHolds := hholds.run hrun hadmits
  obtain ⟨phase', hfinal⟩ := hrunHolds.final.inv
  refine ⟨fun t ht => ?_, fun x hfind => hfinal.ended hfind, fun hquiet => ?_⟩
  · obtain ⟨-, hguar, -⟩ := hrunHolds.each t ht
    exact hguar.2
  · exact hfinal.secured (hrunHolds.final.settled hquiet)

/-- Loan 14 on receipt 102. -/
def sampleLoan : Request :=
  .createLoan
    { uuids := sampleUuids 210, loanId := 14, reference := "LN-2026-1", auth := .ok ()
      tenantId := 1, receiptId := 102, financierId := 20, amount := 500, notes := none
      clientId := 10, actorUserId := none }

/-- The store with loan 14 pending on receipt 212. -/
def borrowedStore : Db :=
  runRequests .postgres (sampleStock ++ [sampleLoan]) (Db.initial sampleDirectory)

theorem borrowedStore_standing : LoanStanding 14 212 .pending borrowedStore := by
  constructor
  · have hrow : (borrowedStore.loans.find 14).map (fun x => (x.receiptId, x.status)) =
        some (212, .pending) := by
      decide +kernel
    obtain ⟨x, hfind, hx⟩ := Option.map_eq_some_iff.mp hrow
    exact ⟨x, hfind, congrArg Prod.fst hx, congrArg Prod.snd hx⟩
  · have hleaf : (borrowedStore.ledger.receipts.find 212).map Receipt.status = some .heldLoan := by
      decide +kernel
    exact Option.map_eq_some_iff.mp hleaf
  · have hunused : ¬ borrowedStore.ledger.Used (loanKey 14 "approveHold") := by decide +kernel
    simpa using hunused
  · have hunused : ¬ borrowedStore.ledger.Used (loanKey 14 "repay-release") := by decide +kernel
    simpa using hunused
  · have hunused : ¬ borrowedStore.ledger.Used (loanKey 14 "release") := by decide +kernel
    simpa using hunused
  · decide +kernel

theorem borrowedStore_clear : ¬ LoanOwed 14 212 borrowedStore := by
  have hleaf : (borrowedStore.ledger.receipts.find 212).map Receipt.status = some .heldLoan := by
    decide +kernel
  rintro ⟨x, r, -, -, hr, hfree⟩
  rw [hr, Option.map_some, hfree] at hleaf
  cases hleaf

/-- The approval and the rejection of loan 14 under a schedule. -/
def loanRace (choices : List ℕ) :
    List (Transition Label Db) × Db × List (Process Label Db (Except ApiError Unit)) :=
  interleave choices borrowedStore
    ([.approveLoan (sampleUuids 220) 1 14 (some 11),
      .rejectLoan (sampleUuids 230) 1 14 (some 11)].map
      (Request.run .postgres))

/-- Both read the loan as pending, the approval approves the hold, the rejection releases it
and is recorded, and the approval overwrites it: an active loan on a free receipt. -/
theorem loan_active_unsecured :
    ¬ ∀ (num : Numeric) (l h : Id) (s s' : Db), LoanStanding l h .pending s → ¬ LoanOwed l h s →
      ∀ requests : List Request, (∀ request ∈ requests, request.DecidesLoan l) →
        ∀ (trace : List (Transition Label Db)) (pool : List (Api Unit)),
          Run s (requests.map (Request.run num)) trace s' pool →
            (∀ t ∈ trace, LoanKept l t.before t.after) ∧
              (∀ x, s'.loans.find l = some x → x.status = .rejected ∨ x.status = .repaid →
                x.receiptId = h ∧ (releasesOf s'.ledger h).length = 1) ∧
              (Quiescent pool → LoanSecured l h s') := by
  intro hclaim
  have hdecides : ∀ request ∈ [Request.approveLoan (sampleUuids 220) 1 14 (some 11),
      .rejectLoan (sampleUuids 230) 1 14 (some 11)], request.DecidesLoan 14 := by
    simp [Request.DecidesLoan]
  obtain ⟨-, -, hsecured⟩ := hclaim .postgres 14 212 _ _ borrowedStore_standing
    borrowedStore_clear _ hdecides _ _ (run_interleave [0, 1, 0, 1, 1, 0] _ _)
  have hquiet : Quiescent (loanRace [0, 1, 0, 1, 1, 0]).2.2 := by decide +kernel
  have hrow : ((loanRace [0, 1, 0, 1, 1, 0]).2.1.loans.find 14).map
      (fun x => (x.receiptId, x.status)) = some (212, .active) := by
    decide +kernel
  have hleaf : ((loanRace [0, 1, 0, 1, 1, 0]).2.1.ledger.receipts.find 212).map Receipt.status =
      some .active := by
    decide +kernel
  obtain ⟨x, hfind, hx⟩ := Option.map_eq_some_iff.mp hrow
  simp only [Prod.mk.injEq] at hx
  obtain ⟨hreceipt, hactive⟩ := hx
  obtain ⟨r, hr, hheld⟩ := ((hsecured hquiet).held x hfind).mp (.inr hactive)
  rw [hreceipt] at hr
  have hstatus : (some r).map Receipt.status = some .active := hr ▸ hleaf
  rw [Option.map_some, hheld] at hstatus
  cases hstatus

/-- The rejection releases the hold before the approval comes to it. -/
theorem loan_collateral_agrees_sample :
    (∀ t ∈ (loanRace [0, 1, 1, 0, 1]).1, LoanKept 14 t.before t.after) ∧
      (∀ x, (loanRace [0, 1, 1, 0, 1]).2.1.loans.find 14 = some x →
        x.status = .rejected ∨ x.status = .repaid →
          x.receiptId = 212 ∧
            (releasesOf (loanRace [0, 1, 1, 0, 1]).2.1.ledger 212).length = 1) ∧
      (Quiescent (loanRace [0, 1, 1, 0, 1]).2.2 →
        LoanSecured 14 212 (loanRace [0, 1, 1, 0, 1]).2.1) :=
  loan_collateral_agrees .postgres borrowedStore_standing borrowedStore_clear _
    (by simp [Request.DecidesLoan]) (run_interleave _ _ _) (by decide +kernel)

end SecureStore.Services
