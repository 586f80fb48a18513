/-
# Loans with and without their terms

The requests about loans stand twice: on the database, with the requests of the other services,
and with the rates and the terms of loans beside it. With the terms they do to the database what
they do without, step for step, so their runs are runs of the system there.
-/

import SecureStore.Services.LoanTerms
import SecureStore.Services.System
import SecureStore.Foundation.Projection

namespace SecureStore.Services.Terms

open SecureStore.Foundation SecureStore.Inventory

/-- A step as the database sees it. -/
def TermsLabel.onDb : TermsLabel → Label
  | .base label => label
  | .create loanId => .write (.createLoan loanId)
  | .edit loan _ _ => .write (.editLoan loan.id)
  | .setRates _ => .read

/-- A request as the system has it. -/
def TermsRequest.system : TermsRequest → Option Request
  | .createLoan dto => some (.createLoan dto)
  | .editLoan dto => some (.editLoan dto)
  | .approveLoan uuids tenantId loanId actorUserId =>
      some (.approveLoan uuids tenantId loanId actorUserId)
  | .rejectLoan uuids tenantId loanId actorUserId =>
      some (.rejectLoan uuids tenantId loanId actorUserId)
  | .repayLoan uuids tenantId loanId actorUserId =>
      some (.repayLoan uuids tenantId loanId actorUserId)
  | .setRates _ _ => none

/-- What a request does to the database. -/
def TermsRequest.runOnDb (num : Numeric) (request : TermsRequest) : Api Unit :=
  match request.system with
  | some request => request.run num
  | none => pure ()

section Projects

variable {num : Numeric}

theorem projects_onDb {α : Type} (p : Api α) :
    (onDb p).Projects TermsLabel.onDb TermsDb.db Eq p :=
  projects_zoom (fun _ _ => rfl) (fun _ => rfl) p

/-- A financier is found with its rates where it is found without. -/
theorem projects_findFinancier (tenantId financierId : Id) :
    (findFinancier tenantId financierId).Projects TermsLabel.onDb TermsDb.db
      (Option.Rel fun found financier => found.1 = financier)
      (Services.findFinancier tenantId financierId) := by
  apply projects_read rfl
  intro t
  cases (t.db.directory.financiers.find financierId).filter fun f => f.tenantId = tenantId with
  | none => exact .none
  | some financier => exact .some rfl

theorem createLoan_projects (dto : CreateLoan) :
    (createLoan num dto).Projects TermsLabel.onDb TermsDb.db Eq
      (Services.createLoan num dto) := by
  apply projects_bind (projects_onDb _)
  intro _ _ _
  apply projects_bind (projects_onDb _)
  rintro _ found rfl
  apply projects_bind projects_orThrow_self
  rintro _ receipt rfl
  apply projects_bind (projects_findFinancier dto.tenantId dto.financierId)
  intro found financier hfound
  apply projects_bind (projects_orThrow hfound)
  rintro financier _ rfl
  apply projects_bind (projects_throwIf Iff.rfl)
  intro _ _ _
  apply projects_bind (projects_onDb _)
  rintro _ holdResult rfl
  apply projects_bind (projects_onDb _)
  rintro _ held rfl
  apply projects_write rfl
  · intro t e hwrite
    unfold TermsDb.createLoan at hwrite
    cases hfind : t.db.loans.find dto.loanId with
    | some loan =>
        rw [hfind] at hwrite
        cases hwrite
    | none =>
        rw [hfind] at hwrite
        exact map_error.mpr (map_error.mp hwrite)
  · intro t _ t' hwrite
    unfold TermsDb.createLoan at hwrite
    cases hfind : t.db.loans.find dto.loanId with
    | some loan =>
        rw [hfind] at hwrite
        cases hwrite
        exact ⟨(), rfl, rfl⟩
    | none =>
        rw [hfind] at hwrite
        obtain ⟨loans, hcreated, hresult⟩ := map_ok.mp hwrite
        cases hresult
        exact ⟨(), map_ok.mpr ⟨loans, hcreated, rfl⟩, rfl⟩

/-- A changed financier is looked up with its rates as it is without. -/
theorem projects_nextFinancier (tenantId : Id) (financierId : Option Id) :
    (nextFinancier tenantId financierId).Projects TermsLabel.onDb TermsDb.db
      (fun _ _ => True) (checkFinancier tenantId financierId) := by
  unfold nextFinancier checkFinancier
  cases financierId with
  | none => exact projects_pure trivial
  | some id =>
      apply projects_bind (projects_findFinancier tenantId id)
      intro found financier hfound
      apply projects_bind (projects_orThrow hfound)
      intro _ _ _
      exact projects_pure trivial

/-- The columns of the loan that an edit changes, whatever becomes of the terms. -/
theorem editData_columns (loan : Loan) (terms : LoanTerms) (dto : EditLoan)
    (next : Option (Financier × Rates)) :
    (editData loan terms dto next).financierId = edited dto.financierId loan.financierId ∧
      (editData loan terms dto next).amount = edited dto.amount loan.amount ∧
        (editData loan terms dto next).notes = edited (dto.notes.map some) loan.notes := by
  unfold editData
  dsimp only
  split
  · exact ⟨rfl, rfl, rfl⟩
  · exact ⟨rfl, rfl, rfl⟩

/-- The terms change with the amount and the financier only. -/
theorem editData_eq_empty {loan : Loan} {terms : LoanTerms} {dto : EditLoan}
    {next : Option (Financier × Rates)} :
    editData loan terms dto next = {} ↔ edited dto.financierId loan.financierId = none ∧
      edited dto.amount loan.amount = none ∧ edited (dto.notes.map some) loan.notes = none := by
  obtain ⟨hfinancier, hamount, hnotes⟩ := editData_columns loan terms dto next
  constructor
  · intro hempty
    rw [← hfinancier, ← hamount, ← hnotes, hempty]
    exact ⟨rfl, rfl, rfl⟩
  · rintro ⟨hfinancier, hamount, hnotes⟩
    simp [editData, hfinancier, hamount, hnotes]

theorem editLoan_projects (dto : EditLoan) :
    (editLoan dto).Projects TermsLabel.onDb TermsDb.db Eq (Services.editLoan dto) := by
  unfold editLoan Services.editLoan loadLoan
  rw [Attempt.bind_assoc]
  have hread : (Attempt.read (.base .read) fun s : TermsDb =>
      ((s.db.loans.find dto.loanId).filter fun l => l.tenantId = dto.tenantId).map
        fun l => (l, s.terms l.id) : TermsApi _).Projects TermsLabel.onDb TermsDb.db
      (Option.Rel fun found loan => found.1 = loan)
      (Api.query fun db => (db.loans.find dto.loanId).filter fun l =>
        l.tenantId = dto.tenantId) := by
    apply projects_read rfl
    intro t
    cases (t.db.loans.find dto.loanId).filter fun l => l.tenantId = dto.tenantId with
    | none => exact .none
    | some loan => exact .some rfl
  apply projects_bind hread
  intro found loan hfound
  apply projects_bind (projects_orThrow hfound)
  rintro ⟨loan, terms⟩ _ rfl
  apply projects_bind (projects_throwIf Iff.rfl)
  intro _ _ _
  apply projects_bind (projects_onDb _)
  intro _ _ _
  apply projects_bind (projects_throwIf Iff.rfl)
  intro _ _ _
  apply projects_bind (projects_throwIf Iff.rfl)
  intro _ _ _
  apply projects_bind (projects_nextFinancier _ _)
  intro next _ _
  obtain ⟨hfinancier, hamount, hnotes⟩ := editData_columns loan terms dto next
  dsimp only
  by_cases hempty : editData loan terms dto next = {}
  · rw [if_pos hempty, if_pos (editData_eq_empty.mp hempty)]
    exact projects_pure rfl
  · rw [if_neg hempty, if_neg fun h => hempty (editData_eq_empty.mpr h)]
    have hrewrite : (fun r : Loan => { r with
        financierId := (edited dto.financierId loan.financierId).getD r.financierId
        amount := (edited dto.amount loan.amount).getD r.amount
        notes := (edited (dto.notes.map some) loan.notes).getD r.notes }) =
          (editData loan terms dto next).rewrite := by
      funext r
      rw [← hfinancier, ← hamount, ← hnotes]
      rfl
    apply projects_write rfl
    · intro t e hwrite
      simp only [hrewrite]
      exact map_error.mpr (map_error.mp hwrite)
    · intro t _ t' hwrite
      obtain ⟨loans, hupdated, hresult⟩ := map_ok.mp hwrite
      cases hresult
      simp only [hrewrite]
      exact ⟨(), map_ok.mpr ⟨loans, hupdated, rfl⟩, trivial⟩

/-- With the terms, a request does to the database what it does without. -/
theorem TermsRequest.projects (request : TermsRequest) :
    (request.run num).Projects TermsLabel.onDb TermsDb.db Eq (request.runOnDb num) := by
  cases request with
  | createLoan dto => exact createLoan_projects dto
  | editLoan dto => exact editLoan_projects dto
  | approveLoan uuids tenantId loanId actorUserId => exact projects_onDb _
  | rejectLoan uuids tenantId loanId actorUserId => exact projects_onDb _
  | repayLoan uuids tenantId loanId actorUserId => exact projects_onDb _
  | setRates financierId rates =>
      have hbeside : (Terms.setRates financierId rates).Projects TermsLabel.onDb TermsDb.db Eq
          (pure () : Api Unit) := by
        unfold Terms.setRates
        apply projects_beside
        exact fun t => ⟨(), _, rfl, rfl, rfl⟩
      exact hbeside

end Projects

/-- However they are interleaved, the requests with the terms are, on the database, a run of the
system's requests. -/
theorem runs_onDb {num : Numeric} {requests : List TermsRequest} {s s' : TermsDb}
    {trace : List (Transition TermsLabel TermsDb)} {pool : List (TermsApi Unit)}
    (hrun : Run s (requests.map (TermsRequest.run num)) trace s' pool) :
    ∃ (trace' : List (Transition Label Db)) (pool' : List (Api Unit)),
      Run s.db (requests.map (TermsRequest.runOnDb num)) trace' s'.db pool' :=
  hrun.projects_map fun request _ => request.projects

end SecureStore.Services.Terms
