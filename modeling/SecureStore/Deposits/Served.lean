/-
# Deposits at the desk and among the services

A deposit is filed at the desk, which checks the link of its warehouse and grades its sample. The
services take the outcome of these checks as given, as the tables they read are none of theirs.
For the ledger the two are one request: filed at the desk, a deposit does what it does among the
services with the outcome that the checks come to.
-/

import SecureStore.Deposits.Effects
import SecureStore.Foundation.Calls
import SecureStore.Services.Deposits

namespace SecureStore.Deposits

open SecureStore.Foundation SecureStore.Inventory SecureStore.Services

/-- The deposit as the services take it. -/
def CreateDepositDto.service (dto : CreateDepositDto) (checked : Except ApiError Unit)
    (grade : Option String) : CreateDeposit where
  uuids := dto.uuids
  keyUuid := dto.keyUuid
  checked := checked
  tenantId := dto.tenantId
  clientId := dto.clientId
  commodityId := dto.commodityId
  warehouseId := dto.warehouseId
  quantity := dto.quantity
  grade := grade
  dateOfDeposit := dto.dateOfDeposit
  managerUserId := dto.managerUserId
  currentYear := dto.currentYear

/-- The deposit passes the checks at a desk, which score its sample. -/
structure CreateDepositDto.Passes (plus : ℚ → ℚ → ℚ) (dto : CreateDepositDto) (s : Desk)
    (scores : GradingScores) : Prop where
  checked : dto.checked = .ok ()
  accepted : s.links.find (dto.warehouseId, dto.commodityId) ≠ none
  graded : ∃ commodity, s.findCommodity dto.commodityId dto.tenantId = some commodity ∧
    gradeMeasurements plus commodity dto.measurements = .ok scores

section Served

variable {num : Numeric} {plus : ℚ → ℚ → ℚ} {s : Desk} {db : Db}

/-- A deposit is refused by the checks, or the ledger decides. -/
theorem createDeposit_splits (dto : CreateDepositDto) :
    Process.Ensures (fun _ => True)
      (fun r s' => ((∀ scores, ¬ dto.Passes plus s scores) ∧ r ≠ .ok () ∧ s' = s) ∨
        ∃ scores, dto.Passes plus s scores ∧
          ((∃ e, Desk.deposit num dto.uuids (dto.input scores) scores s = .error e ∧
              r ≠ .ok () ∧ s' = s) ∨
            ∃ root, Desk.deposit num dto.uuids (dto.input scores) scores s = .ok (root, s') ∧
              r = .ok ()))
      (createDeposit num plus dto) s := by
  apply ensures_ofExcept
  · intro e hrefused
    refine .inl ⟨fun scores h => ?_, nofun, rfl⟩
    rw [h.checked] at hrefused
    cases hrefused
  intro _ hchecked
  have hchecked : dto.checked = .ok () := Call.mapError_ok.mp hchecked
  apply ensures_read trivial
  apply ensures_throwIf
  · intro hnone
    exact .inl ⟨fun scores h => h.accepted hnone, nofun, rfl⟩
  intro haccepted
  apply ensures_read trivial
  apply ensures_orThrow
  · intro hmissing
    refine .inl ⟨fun scores h => ?_, nofun, rfl⟩
    obtain ⟨commodity, hfound, -⟩ := h.graded
    cases hmissing.symm.trans hfound
  intro commodity hfound
  apply ensures_ofExcept
  · intro e hrefused
    refine .inl ⟨fun scores h => ?_, nofun, rfl⟩
    obtain ⟨commodity', hfound', hgraded⟩ := h.graded
    obtain rfl := Option.some_inj.mp (hfound.symm.trans hfound')
    rw [hgraded] at hrefused
    cases hrefused
  intro scores hgraded
  have hpasses : dto.Passes plus s scores :=
    ⟨hchecked, haccepted, commodity, hfound, Call.mapError_ok.mp hgraded⟩
  apply ensures_write
  · intro e herror
    exact ⟨trivial, .inr ⟨scores, hpasses, .inl ⟨e, herror, nofun, rfl⟩⟩⟩
  · intro root s' hok
    exact ⟨trivial, .inr ⟨scores, hpasses, .inr ⟨root, hok, rfl⟩⟩⟩

/-- The ledger part of a deposit at the desk. -/
theorem deposit_ok {uuids : Uuids} {input : DepositInput} {scores : GradingScores}
    {root : Receipt} {s' : Desk} (h : Desk.deposit num uuids input scores s = .ok (root, s')) :
    Inventory.deposit num uuids input s.ledger = .ok (root, s'.ledger) := by
  unfold Desk.deposit at h
  generalize Inventory.deposit num uuids input s.ledger = result at h ⊢
  cases result with
  | error e => cases h
  | ok done =>
      dsimp only at h
      split at h
      · cases h
        rfl
      · cases h
        rfl

theorem deposit_error {uuids : Uuids} {input : DepositInput} {scores : GradingScores}
    {e : DeskError} (h : Desk.deposit num uuids input scores s = .error e) :
    ∃ e, Inventory.deposit num uuids input s.ledger = .error e := by
  unfold Desk.deposit at h
  generalize Inventory.deposit num uuids input s.ledger = result at h ⊢
  cases result with
  | error e => exact ⟨e, rfl⟩
  | ok done =>
      dsimp only at h
      split at h
      · cases h
      · cases h

/-- Among the services a deposit that is refused changes nothing. -/
theorem service_refused {dto : CreateDeposit} {e : ApiError} (h : dto.checked = .error e) :
    (Services.createDeposit num dto).exec db = (.error e, db) := by
  unfold Services.createDeposit
  rw [h]
  rfl

/-- Among the services a deposit that passed its checks is its ledger call. -/
theorem service_filed (dto : CreateDepositDto) (scores : GradingScores) :
    (Services.createDeposit num
        (dto.service (.ok ()) (dto.grade.or scores.computedGrade))).exec db =
      match Inventory.deposit num dto.uuids (dto.input scores) db.ledger with
      | .ok (_, ledger) => (.ok (), { db with ledger })
      | .error e => (.error e, db) := by
  have hcall : (Services.createDeposit num
      (dto.service (.ok ()) (dto.grade.or scores.computedGrade))).exec db =
        (Api.ledger .createDeposit (.deposit (dto.input scores))
          (Inventory.deposit num dto.uuids (dto.input scores)) >>= fun _ => pure () :
            Api Unit).exec db := rfl
  rw [hcall, Attempt.exec_bind, Api.ledger, Attempt.exec_write, Api.within]
  generalize Inventory.deposit num dto.uuids (dto.input scores) db.ledger = result
  cases result with
  | error e => rfl
  | ok done => rfl

/-- Filed at the desk, a deposit does to the ledger what it does among the services with the
outcome of the desk's checks. -/
theorem createDeposit_serves (dto : CreateDepositDto) (hledger : db.ledger = s.ledger) :
    ∃ (checked : Except ApiError Unit) (grade : Option String),
      (checked = .ok () ↔ ∃ scores, dto.Passes plus s scores ∧
        grade = dto.grade.or scores.computedGrade) ∧
      ((Services.createDeposit num (dto.service checked grade)).exec db).2 =
        { db with ledger := ((createDeposit num plus dto).exec s).2.ledger } ∧
      (((Services.createDeposit num (dto.service checked grade)).exec db).1 = .ok () ↔
        ((createDeposit num plus dto).exec s).1 = .ok ()) := by
  have hsplits : Process.Ensures _ _ (createDeposit num plus dto) s := createDeposit_splits dto
  have hends := hsplits.exec
  rcases hexec : (createDeposit num plus dto).exec s with ⟨r, s'⟩
  rw [show Process.exec (createDeposit num plus dto) s = (r, s') from hexec] at hends
  rcases hends with ⟨hfails, hthrown, hsame⟩ | ⟨scores, hpasses, hended⟩
  · have hrefused : (Services.createDeposit num (dto.service (.error .recordNotFound) none)).exec
        db = (.error .recordNotFound, db) := service_refused rfl
    refine ⟨.error .recordNotFound, none, ⟨nofun, ?_⟩, ?_, ?_⟩
    · rintro ⟨scores, hpasses, -⟩
      exact absurd hpasses (hfails scores)
    · rw [hrefused, hsame, ← hledger]
    · rw [hrefused]
      exact ⟨nofun, fun hok => absurd hok hthrown⟩
  · refine ⟨.ok (), dto.grade.or scores.computedGrade,
      ⟨fun _ => ⟨scores, hpasses, rfl⟩, fun _ => rfl⟩, ?_⟩
    rw [service_filed, hledger]
    rcases hended with ⟨e, herror, hthrown, hsame⟩ | ⟨root, hfiled, hreturned⟩
    · obtain ⟨e', hrefused⟩ := deposit_error herror
      rw [hrefused, hsame, ← hledger]
      exact ⟨rfl, nofun, fun hok => absurd hok hthrown⟩
    · rw [deposit_ok hfiled, hreturned]
      exact ⟨rfl, fun _ => rfl, fun _ => rfl⟩

end Served

end SecureStore.Deposits
