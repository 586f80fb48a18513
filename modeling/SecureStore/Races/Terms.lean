/-
# Stale terms of a loan

An edit computes the interest and the instalments from the row it loaded and writes only
what differs from that row. Where the row still is as it was loaded, in the fields that the
edit leaves out, what is stored afterwards is what was computed; where another edit came in
between, the row mixes the terms of two versions. In the same way the status that allowed a
new amount may be gone when the amount is written.
-/

import SecureStore.Services.LoanTerms
import SecureStore.Services.System

namespace SecureStore.Services.Terms

open SecureStore.Foundation SecureStore.Inventory

/-- The interest and the instalment are those of the amount. -/
def Consistent (loan : Loan) (terms : LoanTerms) : Prop :=
  terms.totalInterest = loan.amount * terms.interestRate / 100 ∧
    terms.monthlyPayment = (loan.amount + terms.totalInterest) / terms.tenureMonths

instance (loan : Loan) (terms : LoanTerms) : Decidable (Consistent loan terms) :=
  inferInstanceAs (Decidable (_ ∧ _))

def TermsConsistent (s : TermsDb) : Prop :=
  ∀ x ∈ s.db.loans.rows, Consistent x (s.terms x.id)

instance (s : TermsDb) : Decidable (TermsConsistent s) := List.decidableBAll _ _

/-- Every loan that has left PENDING keeps its amount and its financier. -/
def Settled (s s' : TermsDb) : Prop :=
  ∀ id x, s.db.loans.find id = some x → x.status ≠ .pending →
    ∃ x', s'.db.loans.find id = some x' ∧ x'.status ≠ .pending ∧
      x'.amount = x.amount ∧ x'.financierId = x.financierId

/-- An edit of the amount or the financier, as opposed to one of the notes. -/
def EditData.Material (data : EditData) : Prop := data.amount ≠ none ∨ data.financierId ≠ none

instance (data : EditData) : Decidable data.Material := inferInstanceAs (Decidable (_ ∨ _))

/-- The terms that an edit leaves out are on the row as the edit loaded them. -/
structure EditData.AsLoaded (data : EditData) (loan : Loan) (terms : LoanTerms) (row : Loan)
    (rowTerms : LoanTerms) : Prop where
  amount : data.amount = none → row.amount = loan.amount
  interestRate : data.interestRate = none → rowTerms.interestRate = terms.interestRate
  tenureMonths : data.tenureMonths = none → rowTerms.tenureMonths = terms.tenureMonths
  totalInterest : data.totalInterest = none → rowTerms.totalInterest = terms.totalInterest
  monthlyPayment : data.monthlyPayment = none → rowTerms.monthlyPayment = terms.monthlyPayment

instance (data : EditData) (loan : Loan) (terms : LoanTerms) (row : Loan)
    (rowTerms : LoanTerms) : Decidable (data.AsLoaded loan terms row rowTerms) :=
  decidable_of_iff
    ((data.amount = none → row.amount = loan.amount) ∧
      (data.interestRate = none → rowTerms.interestRate = terms.interestRate) ∧
      (data.tenureMonths = none → rowTerms.tenureMonths = terms.tenureMonths) ∧
      (data.totalInterest = none → rowTerms.totalInterest = terms.totalInterest) ∧
      (data.monthlyPayment = none → rowTerms.monthlyPayment = terms.monthlyPayment))
    ⟨fun ⟨ha, hr, hn, ht, hm⟩ => ⟨ha, hr, hn, ht, hm⟩,
      fun h => ⟨h.amount, h.interestRate, h.tenureMonths, h.totalInterest, h.monthlyPayment⟩⟩

/-- A material edit is written while the loan still is pending and the terms it leaves out
still are as it loaded them. -/
def Fresh : TermsLabel → TermsDb → Prop
  | .edit loan terms data, s => data.Material → ∀ row ∈ s.db.loans.find loan.id,
      row.status = .pending ∧ data.AsLoaded loan terms row (s.terms loan.id)
  | _, _ => True

instance (label : TermsLabel) (s : TermsDb) : Decidable (Fresh label s) :=
  match label with
  | .edit loan terms data =>
      inferInstanceAs (Decidable (data.Material → ∀ row ∈ s.db.loans.find loan.id,
        row.status = .pending ∧ data.AsLoaded loan terms row (s.terms loan.id)))
  | .base _ | .create _ | .setRates _ => inferInstanceAs (Decidable True)

/-- What the steps of approvals, rejections and repayments do to the loans. -/
inductive Decides (s s' : Db) : Prop where
  | untouched (same : s'.loans = s.loans)
  | decided (id : Id) (status : LoanStatus) (started : status ≠ .pending)
      (after : s'.loans = s.loans.modify id fun r => { r with status })

/-- What a step does. -/
inductive Does : TermsLabel → TermsDb → TermsDb → Prop where
  | nothing (label : TermsLabel) (s : TermsDb) : Does label s s
  | base {s : TermsDb} {db : Db} (label : Label) (decides : Decides s.db db) :
      Does (.base label) s { s with db }
  | create {s : TermsDb} {loan : Loan} {terms : LoanTerms} {loans : Table Loan}
      (consistent : Consistent loan terms) (inserted : s.db.loans.insert loan = some loans) :
      Does (.create loan.id) s
        { s with
          db := { s.db with loans }, terms := Function.update s.terms loan.id terms }
  | edit {s s' : TermsDb} {loan : Loan} {terms : LoanTerms} (dto : EditLoan)
      (next : Option (Financier × Rates))
      (done : TermsDb.editLoan loan.id (editData loan terms dto next) s = .ok ((), s')) :
      Does (.edit loan terms (editData loan terms dto next)) s s'
  | setRates {s : TermsDb} (financierId : Id) (rates : Id → Rates) :
      Does (.setRates financierId) s { s with rates }

section Takes

variable {num : Numeric} {s s' : Db}

theorem takes_onDb {α : Type} {p : Api α} (h : Process.Takes (fun _ => Decides) p) :
    Process.Takes Does (onDb p) := by
  apply takes_zoom h
  intro l t s' hdecides
  exact .base l hdecides

theorem decides_ledger {α : Type} {by_ : Issuer} {op : LedgerOp} {tx : Tx α} :
    Process.Takes (fun _ => Decides) (Api.ledger by_ op tx) := by
  apply takes_write
  · intro s a s' hwrite
    obtain ⟨ledger, -, rfl⟩ := Api.within_ok hwrite
    exact .untouched rfl
  · intro s _ _
    exact .untouched rfl

theorem decides_updateLoan {by_ : Issuer} {id : Id} {status : LoanStatus}
    (hstarted : status ≠ .pending) :
    Process.Takes (fun _ => Decides) (updateLoan by_ id fun r => { r with status }) := by
  apply takes_write
  · intro s a s' hwrite
    obtain ⟨loans, hupdate, hpair⟩ := map_ok.mp hwrite
    obtain ⟨-, rfl⟩ := Prod.mk.inj hpair
    obtain ⟨_, -, rfl⟩ := updateRow_ok.mp hupdate
    exact .decided id status hstarted rfl
  · intro s _ _
    exact .untouched rfl

/-- A decision on a loan: the row is loaded, the ledger moves, the status is written. -/
theorem decides_decision {α : Type} {tenantId loanId : Id} {p : Loan → Api α} {e : Loan → ApiError}
    {cond : Loan → Prop} [DecidablePred cond] {by_ : Loan → Issuer} {status : LoanStatus}
    (hstarted : status ≠ .pending) (hp : ∀ loan, Process.Takes (fun _ => Decides) (p loan)) :
    Process.Takes (fun _ => Decides) (do
      let loan ← loadLoan tenantId loanId
      Api.throwIf (cond loan) (e loan)
      let _ ← p loan
      updateLoan (by_ loan) loanId fun r => { r with status } : Api Unit) := by
  unfold loadLoan
  rw [Attempt.bind_assoc]
  apply takes_read fun _ => .untouched rfl
  intro s
  apply takes_orThrow
  intro loan _
  apply takes_throwIf
  intro _
  apply takes_bind (hp loan)
  intro _
  exact decides_updateLoan hstarted

theorem decides_requireParty {tenantId actorUserId clientId receiptId : Id}
    {actorRoles : List Role} {e : ApiError} :
    Process.Takes (fun _ => Decides)
      (requireParty tenantId actorUserId actorRoles clientId receiptId e) := by
  unfold requireParty
  split
  · trivial
  · split
    · apply takes_read fun _ => .untouched rfl
      intro s
      apply takes_orThrow
      intro receipt _
      apply takes_read fun _ => .untouched rfl
      intro s
      unfold Api.throwIf Attempt.throwIf
      split
      · trivial
      · trivial
    · trivial

theorem takes_findFinancier {β : Type} {tenantId financierId : Id}
    {g : Option (Financier × Rates) → TermsApi β} (hg : ∀ o, Process.Takes Does (g o)) :
    Process.Takes Does (findFinancier tenantId financierId >>= g : TermsApi β) :=
  takes_read (fun s => .nothing _ s) fun _ => hg _

theorem consistent_computeTerms {loan : Loan} {interestRate : ℚ} {tenureMonths : ℤ} :
    Consistent loan (computeTerms loan.amount interestRate tenureMonths) := ⟨rfl, rfl⟩

theorem createLoan_takes (dto : CreateLoan) : Process.Takes Does (createLoan num dto) := by
  unfold createLoan
  apply takes_bind
  · apply takes_onDb
    trivial
  · intro _
    apply takes_bind
    · apply takes_onDb
      intro s
      exact ⟨.untouched rfl, trivial⟩
    · intro receipt
      apply takes_orThrow
      intro receipt _
      apply takes_findFinancier
      intro financier
      apply takes_orThrow
      intro financier _
      apply takes_throwIf
      intro _
      apply takes_bind
      · exact takes_onDb decides_ledger
      · intro holdResult
        apply takes_bind
        · apply takes_onDb
          unfold Api.heldOf Api.orThrow Attempt.orThrow
          split
          · trivial
          · trivial
        · intro held
          apply takes_write
          · intro s a s' hwrite
            unfold TermsDb.createLoan at hwrite
            split at hwrite
            · obtain ⟨-, rfl⟩ := Prod.mk.inj (Except.ok.inj hwrite)
              exact .nothing _ s
            · obtain ⟨loans, hcreated, hpair⟩ := map_ok.mp hwrite
              obtain ⟨-, rfl⟩ := Prod.mk.inj hpair
              exact .create consistent_computeTerms (createRow_ok.mp hcreated).2
          · intro s _ _
            exact .nothing _ s

theorem editLoan_takes (dto : EditLoan) : Process.Takes Does (editLoan dto) := by
  unfold editLoan
  apply takes_read fun s => .nothing _ s
  intro s
  apply takes_orThrow
  rintro ⟨loan, terms⟩ _
  apply takes_throwIf
  intro _
  apply takes_bind
  · exact takes_onDb decides_requireParty
  · intro _
    apply takes_throwIf
    intro _
    apply takes_throwIf
    intro _
    apply takes_bind
    · unfold nextFinancier
      split
      · trivial
      · apply takes_findFinancier
        intro found
        apply takes_orThrow
        intro financier _
        trivial
    · intro next
      dsimp only
      split
      · trivial
      · apply takes_write
        · intro s _ s' hwrite
          exact .edit dto next hwrite
        · intro s _ _
          exact .nothing _ s

/-- Every request takes steps of the relation only. -/
theorem TermsRequest.run_takes (request : TermsRequest) :
    Process.Takes Does (request.run num) := by
  cases request with
  | createLoan dto => exact createLoan_takes dto
  | editLoan dto => exact editLoan_takes dto
  | approveLoan uuids tenantId loanId actorUserId =>
      apply takes_onDb
      apply decides_decision
      · decide
      · intro loan
        exact decides_ledger
  | rejectLoan uuids tenantId loanId actorUserId =>
      apply takes_onDb
      apply decides_decision
      · decide
      · intro loan
        exact decides_ledger
  | repayLoan uuids tenantId loanId actorUserId =>
      apply takes_onDb
      apply decides_decision
      · decide
      · intro loan
        exact decides_ledger
  | setRates financierId rates =>
      unfold run Terms.setRates
      apply takes_write
      · intro s _ s' hwrite
        obtain ⟨-, rfl⟩ := Prod.mk.inj (Except.ok.inj hwrite)
        exact .setRates financierId _
      · intro s _ hwrite
        cases hwrite

end Takes

section Steps

variable {s s' : TermsDb}

theorem Settled.refl (s : TermsDb) : Settled s s :=
  fun _ x hfind hstarted => ⟨x, hfind, hstarted, rfl, rfl⟩

theorem Settled.trans {s s' s'' : TermsDb} (h : Settled s s') (h' : Settled s' s'') :
    Settled s s'' := by
  intro id x hfind hstarted
  obtain ⟨x', hfind', hstarted', hamount, hfinancier⟩ := h id x hfind hstarted
  obtain ⟨x'', hfind'', hstarted'', hamount', hfinancier'⟩ := h' id x' hfind' hstarted'
  exact ⟨x'', hfind'', hstarted'', hamount'.trans hamount, hfinancier'.trans hfinancier⟩

/-- A decision writes the status of a loan and nothing else. -/
theorem Decides.find {s s' : Db} (h : Decides s s') {id : Id} {x' : Loan}
    (hfind : s'.loans.find id = some x') :
    ∃ x, s.loans.find id = some x ∧ x'.amount = x.amount ∧ x'.financierId = x.financierId ∧
      (x.status ≠ .pending → x'.status ≠ .pending) := by
  cases h with
  | untouched same =>
      rw [same] at hfind
      exact ⟨x', hfind, rfl, rfl, fun h => h⟩
  | decided id' status started after =>
      rw [after, Table.find_modify] at hfind
      split at hfind
      · rename_i hid
        obtain ⟨x, hx, rfl⟩ := Option.map_eq_some_iff.mp hfind
        exact ⟨x, hid ▸ hx, rfl, rfl, fun _ => started⟩
      · exact ⟨x', hfind, rfl, rfl, fun h => h⟩

theorem Decides.kept {s s' : Db} (h : Decides s s') {id : Id} {x : Loan}
    (hfind : s.loans.find id = some x) : ∃ x', s'.loans.find id = some x' := by
  cases h with
  | untouched same => exact ⟨x, same ▸ hfind⟩
  | decided id' status started after =>
      rw [after, Table.find_modify]
      split
      · rename_i hid
        rw [← hid, hfind]
        exact ⟨_, rfl⟩
      · exact ⟨x, hfind⟩

/-- A value that is written if it differs is what is stored afterwards, if the stored value
did not change in between. -/
theorem edited_getD {α : Type} [DecidableEq α] {computed loaded present : α}
    (h : edited (some computed) loaded = none → present = loaded) :
    (edited (some computed) loaded).getD present = computed := by
  unfold edited at h ⊢
  by_cases hsame : computed = loaded
  · have hpresent := h (by simp [Option.filter, hsame])
    simp [Option.filter, hsame, hpresent]
  · simp [Option.filter, hsame]

/-- A material edit of a row that is as it was loaded stores consistent terms. -/
theorem editData_consistent {loan row : Loan} {terms rowTerms : LoanTerms} {dto : EditLoan}
    {next : Option (Financier × Rates)} (hmaterial : (editData loan terms dto next).Material)
    (h : (editData loan terms dto next).AsLoaded loan terms row rowTerms) :
    Consistent ((editData loan terms dto next).rewrite row)
      ((editData loan terms dto next).reprice rowTerms) := by
  have htouches : edited dto.amount loan.amount ≠ none ∨
      edited dto.financierId loan.financierId ≠ none := by
    by_contra hnone
    have hmaterial' := hmaterial
    unfold EditData.Material editData at hmaterial'
    rw [if_neg hnone] at hmaterial'
    exact hnone hmaterial'
  unfold editData at h ⊢
  rw [if_pos htouches] at h ⊢
  -- every field holds the value that was computed, written or not
  have hamount : (edited dto.amount loan.amount).getD row.amount =
      (edited dto.amount loan.amount).getD loan.amount := by
    cases hedited : edited dto.amount loan.amount with
    | none => exact h.amount hedited
    | some amount => rfl
  have hrate := edited_getD h.interestRate
  have htenure := edited_getD h.tenureMonths
  have htotal := edited_getD h.totalInterest
  have hmonthly := edited_getD h.monthlyPayment
  unfold Consistent
  simp only [EditData.rewrite_amount, EditData.reprice_totalInterest,
    EditData.reprice_interestRate, EditData.reprice_monthlyPayment,
    EditData.reprice_tenureMonths, hamount, hrate, htenure, htotal, hmonthly]
  exact ⟨rfl, rfl⟩

/-- An edit of the notes leaves the terms alone. -/
theorem editData_notes {loan : Loan} {terms : LoanTerms} {dto : EditLoan}
    {next : Option (Financier × Rates)} (row : Loan) (rowTerms : LoanTerms)
    (hnotes : ¬ (editData loan terms dto next).Material) :
    ((editData loan terms dto next).rewrite row).amount = row.amount ∧
      ((editData loan terms dto next).rewrite row).financierId = row.financierId ∧
      (editData loan terms dto next).reprice rowTerms = rowTerms := by
  have hnone : edited dto.amount loan.amount = none ∧
      edited dto.financierId loan.financierId = none := by
    by_contra htouches
    apply hnotes
    unfold EditData.Material editData
    rw [not_and_or] at htouches
    rw [if_pos htouches]
    exact htouches
  have hplain : editData loan terms dto next =
      { notes := edited (dto.notes.map some) loan.notes } := by
    simp [editData, hnone.1, hnone.2]
  rw [hplain]
  exact ⟨rfl, rfl, rfl⟩

/-- The rows and terms after an edit. -/
theorem find_editLoan {id : Id} {data : EditData} (h : TermsDb.editLoan id data s = .ok ((), s'))
    (id' : Id) :
    s'.db.loans.find id' = (s.db.loans.find id').map
        (fun x => if id' = id then data.rewrite x else x) ∧
      s'.terms id' = if id' = id then data.reprice (s.terms id) else s.terms id' := by
  obtain ⟨loans, hupdate, hpair⟩ := map_ok.mp h
  obtain ⟨-, rfl⟩ := Prod.mk.inj hpair
  obtain ⟨x, -, rfl⟩ := updateRow_ok.mp hupdate
  refine ⟨?_, ?_⟩
  · show (s.db.loans.modify id data.rewrite data.key_rewrite).find id' = _
    rw [Table.find_modify]
    by_cases hid : id' = id
    · simp [hid]
    · simp [hid]
  · by_cases hid : id' = id
    · subst hid
      simp
    · simp [hid]

/-- A fresh step settles the loans that have left PENDING. -/
theorem Does.settled {label : TermsLabel} (h : Does label s s') (hfresh : Fresh label s) :
    Settled s s' := by
  cases h with
  | nothing => exact .refl _
  | base label decides =>
      intro id x hfind hstarted
      obtain ⟨x', hfind'⟩ := decides.kept hfind
      obtain ⟨y, hy, hamount, hfinancier, hkept⟩ := decides.find hfind'
      obtain rfl := Option.some_inj.mp (hfind.symm.trans hy)
      exact ⟨x', hfind', hkept hstarted, hamount, hfinancier⟩
  | create consistent inserted =>
      intro id x hfind hstarted
      exact ⟨x, Table.find_insert_of_find inserted hfind, hstarted, rfl, rfl⟩
  | @edit _ _ loan terms dto next done =>
      intro id x hfind hstarted
      have hafter := (find_editLoan done id).1
      rw [hfind] at hafter
      by_cases hid : id = loan.id
      · have hnotes : ¬ (editData loan terms dto next).Material := by
          intro hmaterial
          exact hstarted (hfresh hmaterial x (hid ▸ hfind)).1
        obtain ⟨hamount, hfinancier, -⟩ :=
          editData_notes x terms hnotes
        simp only [Option.map_some, if_pos hid] at hafter
        exact ⟨_, hafter, hstarted, hamount, hfinancier⟩
      · simp only [Option.map_some, if_neg hid] at hafter
        exact ⟨x, hafter, hstarted, rfl, rfl⟩
  | setRates => exact .refl _

/-- A fresh step keeps every loan's terms consistent. -/
theorem Does.consistent {label : TermsLabel} (h : Does label s s') (hfresh : Fresh label s)
    (hs : TermsConsistent s) : TermsConsistent s' := by
  cases h with
  | nothing => exact hs
  | base label decides =>
      intro x' hx'
      have hid : x'.id = x'.id := rfl
      obtain ⟨x, hfind, hamount, -, -⟩ := decides.find (Table.find_of_mem hx')
      have hx := hs x (Table.mem_of_find hfind)
      have hkey : x.id = x'.id := Table.key_of_find hfind
      unfold Consistent at hx ⊢
      rw [hamount, ← hkey]
      exact hx
  | @create _ loan terms loans consistent inserted =>
      intro x hx
      rcases (Table.mem_insert inserted).mp hx with hold | rfl
      · have hne : x.id ≠ loan.id := by
          intro heq
          have hfree := (Table.insert_eq_some_iff.mp inserted).1
          have hfound := Table.find_of_mem hold
          rw [show Keyed.key x = Keyed.key loan from heq, hfree] at hfound
          cases hfound
        show Consistent x (Function.update s.terms loan.id terms x.id)
        rw [Function.update_of_ne hne]
        exact hs x hold
      · show Consistent x (Function.update s.terms x.id terms x.id)
        rw [Function.update_self]
        exact consistent
  | @edit _ _ loan terms dto next done =>
      intro x' hx'
      obtain ⟨hrow, hterms⟩ := find_editLoan done x'.id
      rw [show s'.db.loans.find x'.id = some x' from Table.find_of_mem hx'] at hrow
      obtain ⟨x, hfind, hx⟩ := Option.map_eq_some_iff.mp hrow.symm
      have hkey : x.id = x'.id := Table.key_of_find hfind
      have hconsistent := hs x (Table.mem_of_find hfind)
      rw [hterms]
      by_cases hid : x'.id = loan.id
      · rw [if_pos hid] at hx ⊢
        rw [hid] at hfind
        by_cases hmaterial : (editData loan terms dto next).Material
        · rw [← hx]
          exact editData_consistent hmaterial (hfresh hmaterial x hfind).2
        · obtain ⟨hamount, -, hreprice⟩ :=
            editData_notes x (s.terms loan.id) hmaterial
          rw [hreprice, ← hx, ← hid, ← hkey]
          unfold Consistent at hconsistent ⊢
          rw [hamount]
          exact hconsistent
      · rw [if_neg hid] at hx ⊢
        rw [← hx]
        exact hconsistent
  | setRates => exact hs

end Steps

/-- In every interleaving whose edits are fresh when they are written, every loan's terms are
consistent in every state, and its amount and financier stay once it has left PENDING. -/
theorem loan_terms_hold (num : Numeric) (requests : List TermsRequest) {s s' : TermsDb}
    {trace : List (Transition TermsLabel TermsDb)} {pool : List (TermsApi Unit)}
    (hrun : Run s (requests.map (TermsRequest.run num)) trace s' pool)
    (hstart : TermsConsistent s) (hfresh : ∀ t ∈ trace, Fresh t.label t.before) :
    TermsConsistent s' ∧ Settled s s' ∧
      ∀ t ∈ trace, TermsConsistent t.after ∧ Settled t.before s' ∧ Settled t.after s' := by
  have htakes : ∀ p ∈ requests.map (TermsRequest.run num), Process.Takes Does p := by
    intro p hp
    obtain ⟨request, -, rfl⟩ := List.mem_map.mp hp
    exact request.run_takes
  let P (trace : List (Transition TermsLabel TermsDb)) (s' : TermsDb) : Prop :=
    TermsConsistent s' ∧ Settled s s' ∧
      ∀ t ∈ trace, TermsConsistent t.after ∧ Settled t.before s' ∧ Settled t.after s'
  have hstep : ∀ {trace : List (Transition TermsLabel TermsDb)}
      {t : Transition TermsLabel TermsDb}, P trace t.before → Fresh t.label t.before →
      Does t.label t.before t.after → P (trace ++ [t]) t.after := by
    intro trace t hP hlabel hdoes
    have hsettled := hdoes.settled hlabel
    have hconsistent := hdoes.consistent hlabel hP.1
    refine ⟨hconsistent, hP.2.1.trans hsettled, ?_⟩
    intro t' ht'
    rcases List.mem_append.mp ht' with hold | hlast
    · obtain ⟨hafter, hbefore, hlater⟩ := hP.2.2 t' hold
      exact ⟨hafter, hbefore.trans hsettled, hlater.trans hsettled⟩
    · obtain rfl := List.mem_singleton.mp hlast
      exact ⟨hconsistent, hsettled, .refl _⟩
  have hinitial : P [] s := ⟨hstart, .refl s, by simp⟩
  exact hrun.along htakes hfresh hinitial hstep

/-- Ten units in store, and two financiers. -/
def sampleTermsDb : TermsDb where
  db := runRequests .postgres sampleStock
    (Db.initial { sampleDirectory with financiers := ⟨[⟨20, 1⟩, ⟨21, 1⟩], by decide⟩ })
  rates id := if id = 20 then ⟨12, 6⟩ else ⟨24, 12⟩
  terms _ := ⟨0, 0, 0, 0⟩

/-- Loan 14 of a thousand, filed with the first financier. -/
def sampleFiling : TermsRequest :=
  .createLoan
    { uuids := sampleUuids 210, loanId := 14, reference := "L-14", auth := .ok (), tenantId := 1
      receiptId := 102, financierId := 20, amount := 1000, notes := none, clientId := 10
      actorUserId := none }

/-- The owner edits loan 14. -/
def sampleEdit (amount : Option ℚ) (financierId : Option Id) : TermsRequest :=
  .editLoan
    { tenantId := 1, loanId := 14, actorUserId := 10, actorRoles := []
      amount := amount, financierId := financierId, notes := none }

/-- The filing of loan 14, an edit of its amount, one of its financier and its approval. -/
def termsRace (schedule : List ℕ) :
    List (Transition TermsLabel TermsDb) × TermsDb × List (TermsApi Unit) :=
  interleave schedule sampleTermsDb
    ([sampleFiling, sampleEdit (some 2000) none, sampleEdit none (some 21),
      .approveLoan (sampleUuids 220) 1 14 (some 11)].map (TermsRequest.run .postgres))

/-- One after the other. -/
theorem loan_terms_hold_sample :
    TermsConsistent (termsRace [0, 0, 0, 0, 1, 1, 2, 2, 2, 3, 3, 3]).2.1 ∧
      ((termsRace [0, 0, 0, 0, 1, 1, 2, 2, 2, 3, 3, 3]).2.1.db.loans.find 14).map
        (fun x => (x.amount, x.financierId, x.status)) = some (2000, 21, .active) := by
  constructor
  · exact (loan_terms_hold .postgres
      [sampleFiling, sampleEdit (some 2000) none, sampleEdit none (some 21),
        .approveLoan (sampleUuids 220) 1 14 (some 11)]
      (run_interleave [0, 0, 0, 0, 1, 1, 2, 2, 2, 3, 3, 3] _ _) (by decide +kernel)
      (by decide +kernel)).1
  · decide +kernel

/-- Both edits load the loan of a thousand. The second stores the rates of its financier
with the interest on a thousand, beside the amount of two thousand that the first has
stored. -/
theorem concurrent_edits_mix_terms :
    ¬ ∀ (num : Numeric) (requests : List TermsRequest) (s s' : TermsDb)
        (trace : List (Transition TermsLabel TermsDb)) (pool : List (TermsApi Unit)),
        TermsConsistent s → Run s (requests.map (TermsRequest.run num)) trace s' pool →
          TermsConsistent s' ∧ ∀ t ∈ trace, Settled t.after s' := by
  intro hclaim
  have hconsistent : TermsConsistent (termsRace [0, 0, 0, 0, 1, 2, 2, 1, 2]).2.1 :=
    (hclaim .postgres _ _ _ _ _ (by decide +kernel) (run_interleave _ _ _)).1
  exact absurd hconsistent (by decide +kernel)

end SecureStore.Services.Terms
