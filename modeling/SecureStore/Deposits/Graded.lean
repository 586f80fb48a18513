/-
# The evidence of a grade

A deposit is admitted by scoring its sample, and an edit scores again when it brings new
measurements. So a root's scores belong to its commodity in every sequence of requests
whose edits of the commodity bring measurements; an edit that does not leaves the scores
of other goods with the receipt.
-/

import SecureStore.Deposits.Accepted

namespace SecureStore.Deposits

open SecureStore.Foundation SecureStore.Inventory

/-- The caller of a request supplied this grade for this receipt. -/
def Request.Supplies (request : Request) (receiptId : Id) (grade : Option String) : Prop :=
  grade ≠ none ∧
    ((∃ dto, request = .createDeposit dto ∧ dto.uuids.primary = receiptId ∧ dto.grade = grade) ∨
      ∃ tenantId dto, request.edit = some (tenantId, receiptId, dto) ∧ dto.grade = grade)

/-- The stored scores of a receipt are evidence for its commodity, and its grade is the
computed one unless a caller supplied it. -/
def Graded (plus : ℚ → ℚ → ℚ) (history : List Request) (s : Desk) (root : Receipt) : Prop :=
  ∃ scores commodity, (s.grading root.id).gradingScores = some scores ∧
    s.commodities.find root.commodityId = some commodity ∧ Evidence plus commodity scores ∧
    (root.grade = scores.computedGrade ∨
      ∃ request ∈ history, request.Supplies root.id root.grade)

/-- Every root is graded. -/
def AllGraded (plus : ℚ → ℚ → ℚ) (history : List Request) (s : Desk) : Prop :=
  ∀ root ∈ s.ledger.receipts, root.parentReceiptId = none → Graded plus history s root

/-- An edit of the commodity brings measurements, and roots are minted by deposits of the
desk only. -/
structure BringsMeasurements (request : Request) (s : Desk) : Prop where
  edit : ∀ tenantId receiptId dto, request.edit = some (tenantId, receiptId, dto) →
    ∀ commodityId ∈ dto.commodityId, ∀ r ∈ s.ledger.receipts.find receiptId,
      commodityId ≠ r.commodityId → dto.measurements ≠ none
  direct : ∀ call input, request = .ledger call → call.op ≠ .deposit input

section Steps

variable {plus : ℚ → ℚ → ℚ} {history : List Request} {request : Request} {s s' : Desk}
  {num : Numeric}

theorem Graded.later {root root' : Receipt} (h : Graded plus history s root)
    (hid : root'.id = root.id) (hcommodity : root'.commodityId = root.commodityId)
    (hgrade : root'.grade = root.grade)
    (hscores : s'.grading root.id = s.grading root.id)
    (hcommodities : s'.commodities = s.commodities) :
    Graded plus (history ++ [request]) s' root' := by
  obtain ⟨scores, commodity, hstored, hfind, hevidence, horigin⟩ := h
  refine ⟨scores, commodity, ?_, ?_, hevidence, ?_⟩
  · rw [hid, hscores]
    exact hstored
  · rw [hcommodities, hcommodity]
    exact hfind
  · rw [hgrade, hid]
    apply horigin.imp_right
    rintro ⟨earlier, hearlier, hsupplies⟩
    exact ⟨earlier, List.mem_append_left _ hearlier, hsupplies⟩

/-- A ledger operation other than a deposit mints no root and regrades none. -/
theorem AllGraded.commit (hs : AllGraded plus history s) {uuids : Uuids} {op : LedgerOp}
    {ledger : Ledger} {events : List InventoryEvent} {change : Change} {result : LedgerResult}
    (heffect : Effect num uuids s.ledger op events change result)
    (hcommits : Commits s.ledger events change ledger) (hop : ∀ input, op ≠ .deposit input) :
    AllGraded plus (history ++ [request]) { s with ledger } := by
  intro root hroot hparent
  rcases hcommits.mem_receipts.mp hroot with ⟨r₀, hr₀, rfl⟩ | hcreated
  · have hnode := (hcommits.advance heffect hr₀).1
    exact (hs r₀ hr₀ (hnode.parentReceiptId.symm.trans hparent)).later hnode.id
      (hcommits.sameCommodity heffect hr₀) (hcommits.sameGrade heffect hr₀) rfl rfl
  · rcases heffect.genesis with ⟨minted, e, hmint, -⟩ | ⟨-, hnoroot⟩
    · cases heffect with
      | deposit input positive => exact absurd rfl (hop input)
      | _ => cases hmint
    · exact absurd hparent (hnoroot root hcreated)

/-- A deposit mints a graded root and leaves the others as they were. -/
theorem AllGraded.deposited (hs : AllGraded plus history s) {dto : CreateDepositDto}
    {commodity : Commodity} {scores : GradingScores} {root : Receipt}
    (hfound : s.findCommodity dto.commodityId dto.tenantId = some commodity)
    (hgraded : gradeMeasurements plus commodity dto.measurements = .ok scores)
    (hdone : Desk.deposit num dto.uuids (dto.input scores) scores s = .ok (root, s')) :
    AllGraded plus (history ++ [.createDeposit dto]) s' := by
  rcases deposit_cases hdone with rfl | ⟨events, ledger, heffect, hcommits, rfl⟩
  · intro r hr hparent
    exact (hs r hr hparent).later rfl rfl rfl rfl rfl
  · intro r hr hparent
    rcases hcommits.mem_receipts.mp hr with ⟨r₀, hr₀, rfl⟩ | hcreated
    · have hother : r₀.id ≠ dto.uuids.primary :=
        hcommits.created_ne (List.mem_singleton.mpr rfl) hr₀
      exact (hs r₀ hr₀ hparent).later rfl rfl rfl (Function.update_of_ne hother _ _) rfl
    · obtain rfl := List.mem_singleton.mp hcreated
      refine ⟨scores, commodity, ?_, (findCommodity_eq_some.mp hfound).1,
        gradeMeasurements_evidence hgraded, ?_⟩
      · simp
      · change dto.grade.or scores.computedGrade = _ ∨ _
        cases hgrade : dto.grade with
        | none => exact .inl rfl
        | some grade =>
            refine .inr ⟨_, List.mem_append_right _ (List.mem_singleton.mpr rfl), ?_, .inl
              ⟨dto, rfl, rfl, ?_⟩⟩
            · simp [hgrade]
            · simp [hgrade]

/-- What an edit scores: nothing, or the measurements it brings. -/
theorem rescore_ok {commodity : Commodity} {dto : EditDepositDto}
    {scored : Option GradingScores} (h : rescore plus commodity dto = .ok scored) :
    (dto.measurements = none ∧ scored = none) ∨
      ∃ measurements scores, gradeMeasurements plus commodity measurements = .ok scores ∧
        scored = some scores := by
  unfold rescore at h
  split at h
  · rename_i hnone
    cases h
    exact .inl ⟨hnone, rfl⟩
  · rename_i measurements hsome
    cases hscores : gradeMeasurements plus commodity measurements with
    | error e => simp [hscores, Except.mapError, Except.map] at h
    | ok scores =>
        simp only [hscores, Except.mapError, Except.map, Except.ok.injEq] at h
        exact .inr ⟨measurements, scores, hscores, h.symm⟩

/-- The scores and the grade of an edited receipt, before the columns are written. -/
theorem rescored (hs : AllGraded plus history s) (hbrings : BringsMeasurements request s)
    {tenantId receiptId : Id} {dto : EditDepositDto} {receipt : Receipt}
    {commodity : Commodity} {scored : Option GradingScores}
    (hedits : request.edit = some (tenantId, receiptId, dto))
    (hadmitted : Admitted plus tenantId receiptId dto receipt commodity scored s)
    (hparent : receipt.parentReceiptId = none) :
    ∃ scores, scored.or (s.grading receiptId).gradingScores = some scores ∧
      Evidence plus commodity scores ∧
      ((nextGrade receipt dto scored).or receipt.grade = scores.computedGrade ∨
        ∃ request' ∈ history ++ [request],
          request'.Supplies receiptId ((nextGrade receipt dto scored).or receipt.grade)) := by
  have hid : receipt.id = receiptId := Table.key_of_find hadmitted.found
  have supplied : ∀ grade, dto.grade = some grade →
      ∃ request' ∈ history ++ [request], request'.Supplies receiptId (some grade) := by
    intro grade hgrade
    exact ⟨request, List.mem_append_right _ (List.mem_singleton.mpr rfl), by simp,
      .inr ⟨tenantId, dto, hedits, hgrade⟩⟩
  rcases rescore_ok hadmitted.scored with
    ⟨hmeasurements, rfl⟩ | ⟨measurements, scores, hscores, rfl⟩
  · -- nothing is scored, and the commodity stays
    obtain ⟨scores, commodity', hstored, hfind, hevidence, horigin⟩ :=
      hs receipt (Table.mem_of_find hadmitted.found) hparent
    have hcommodity : dto.commodityId.getD receipt.commodityId = receipt.commodityId := by
      cases hdto : dto.commodityId with
      | none => rfl
      | some commodityId =>
          by_contra hne
          exact hbrings.edit _ _ _ hedits commodityId hdto receipt hadmitted.found hne
            hmeasurements
    have hsame := hadmitted.destination
    rw [hcommodity, hfind] at hsame
    obtain rfl := Option.some_inj.mp hsame
    refine ⟨scores, hid ▸ hstored, hevidence, ?_⟩
    cases hgrade : dto.grade with
    | none =>
        have hkept : (nextGrade receipt dto none).or receipt.grade = receipt.grade := by
          simp [nextGrade, hgrade]
        rw [hkept]
        apply horigin.imp_right
        rintro ⟨earlier, hearlier, hsupplies⟩
        exact ⟨earlier, List.mem_append_left _ hearlier, hid ▸ hsupplies⟩
    | some grade =>
        right
        simpa [nextGrade, hgrade] using supplied grade hgrade
  · obtain ⟨computed, hcomputed⟩ := gradeMeasurements_graded hscores
    refine ⟨scores, rfl, gradeMeasurements_evidence hscores, ?_⟩
    by_cases hoverride : dto.grade = none ∨ dto.grade = some ""
    · left
      simp [nextGrade, hoverride, hcomputed]
    · right
      obtain ⟨grade, hgrade⟩ := Option.ne_none_iff_exists'.mp fun hnone =>
        hoverride (.inl hnone)
      have hnext : nextGrade receipt dto (some scores) = some grade := by
        simp only [nextGrade]
        rw [if_neg hoverride, hgrade]
      rw [hnext]
      exact supplied grade hgrade

/-- An edit leaves every root graded. -/
theorem AllGraded.edited (hs : AllGraded plus history s) (hbrings : BringsMeasurements request s)
    {tenantId receiptId : Id} {dto : EditDepositDto} {receipt : Receipt}
    {commodity : Commodity} {scored : Option GradingScores}
    (hedits : request.edit = some (tenantId, receiptId, dto))
    (hadmitted : Admitted plus tenantId receiptId dto receipt commodity scored s)
    (hdone : Desk.updateReceipt num receiptId
      (updateData receipt (s.grading receiptId) dto scored) s = .ok ((), s')) :
    AllGraded plus (history ++ [request]) s' := by
  have hid : receipt.id = receiptId := Table.key_of_find hadmitted.found
  have hframe : s'.commodities = s.commodities ∧ s'.grading = Function.update s.grading
      receiptId ((updateData receipt (s.grading receiptId) dto scored).regrade
        (s.grading receiptId)) := by
    obtain ⟨-, rfl⟩ := updateReceipt_ok.mp hdone
    exact ⟨rfl, rfl⟩
  intro root hroot hparent
  rcases mem_updated hdone hroot with ⟨r, hfind, rfl⟩ | ⟨hold, hne⟩
  · rw [hadmitted.found] at hfind
    obtain rfl := Option.some_inj.mp hfind
    obtain ⟨scores, hstored, hevidence, horigin⟩ := rescored hs hbrings hedits hadmitted hparent
    refine ⟨scores, commodity, ?_, ?_, hevidence, ?_⟩
    · change (s'.grading receipt.id).gradingScores = _
      rw [hframe.2, hid, Function.update_self]
      exact hstored
    · rw [hframe.1]
      simpa [updateData] using hadmitted.destination
    · simpa [updateData, hid] using horigin
  · have hother : s'.grading root.id = s.grading root.id := by
      rw [hframe.2, Function.update_of_ne hne]
    exact (hs root hold hparent).later rfl rfl rfl hother hframe.1

/-- A request leaves every root graded. -/
theorem Happens.graded (h : Happens num plus s request s') (hs : AllGraded plus history s)
    (hbrings : BringsMeasurements request s) : AllGraded plus (history ++ [request]) s' := by
  cases h with
  | nothing =>
      intro root hroot hparent
      exact (hs root hroot hparent).later rfl rfl rfl rfl rfl
  | deposited dto commodity scores accepted found graded done =>
      exact hs.deposited found graded done
  | edited edits receipt commodity scored admitted done =>
      exact hs.edited hbrings edits admitted done
  | linked links commodity found targetIds =>
      obtain ⟨links, hlinks⟩ := upsertLinks_frame _ _ targetIds s
      rw [hlinks]
      intro root hroot hparent
      exact (hs root hroot hparent).later rfl rfl rfl rfl rfl
  | unlinked =>
      intro root hroot hparent
      exact (hs root hroot hparent).later rfl rfl rfl rfl rfl
  | operated call done =>
      rw [operate_ledger done]
      rcases after_cases num call s.ledger with hsame |
        ⟨events, change, result, -, heffect, hcommits⟩
      · rw [hsame]
        intro root hroot hparent
        exact (hs root hroot hparent).later rfl rfl rfl rfl rfl
      · exact hs.commit heffect hcommits fun input => hbrings.direct call input rfl

end Steps

/-- After every sequence of requests whose edits of the commodity bring measurements, the
scores of every root come from its commodity's parameters and did not reject the sample,
and its grade is the computed one unless a caller supplied it. -/
theorem roots_graded (num : Numeric) (plus : ℚ → ℚ → ℚ) (commodities : Table Commodity)
    (warehouses : Table Warehouse) (requests : List Request)
    (hbrings : Meets num plus BringsMeasurements requests (.opening commodities warehouses)) :
    let s := runRequests num plus requests (.opening commodities warehouses)
    ∀ root ∈ s.ledger.receipts, root.parentReceiptId = none →
      ∃ scores commodity, (s.grading root.id).gradingScores = some scores ∧
        s.commodities.find root.commodityId = some commodity ∧
        Evidence plus commodity scores ∧
        (root.grade = scores.computedGrade ∨
          ∃ request ∈ requests, request.Supplies root.id root.grade) := by
  intro s root hroot hparent
  have hopening : AllGraded plus [] (.opening commodities warehouses) := by
    intro root hroot
    simp [Desk.opening] at hroot
  have hgraded : AllGraded plus ([] ++ requests) s :=
    runRequests_history (fun hs hcondition hhappens => hhappens.graded hs hcondition) []
      requests hopening hbrings
  exact hgraded root hroot hparent

/-- The filed maize is edited to sorghum, measured anew. -/
def remeasured : List Request :=
  sampleFiling ++ [sampleEdit { commodityId := some 21, measurements := some [(31, 2)] }]

theorem remeasured_brings (s : Desk) :
    Meets .postgres (fun x y => x + y) BringsMeasurements remeasured s := by
  have added : ∀ s, BringsMeasurements (.addCommodity 7 40 20) s := by
    intro s
    constructor
    · intro _ _ _ hedit
      cases hedit
    · intro _ _ hrequest
      cases hrequest
  have filed : ∀ s, BringsMeasurements (.createDeposit sampleDto) s := by
    intro s
    constructor
    · intro _ _ _ hedit
      cases hedit
    · intro _ _ hrequest
      cases hrequest
  have edited : ∀ s, BringsMeasurements
      (sampleEdit { commodityId := some 21, measurements := some [(31, 2)] }) s := by
    intro s
    constructor
    · intro _ _ _ hedit _ _ _ _ _
      cases hedit
      simp
    · intro _ _ hrequest
      cases hrequest
  exact ⟨added _, filed _, edited _, trivial⟩

/-- The theorem at the sorghum measured anew. -/
theorem roots_graded_sample :
    ∃ root ∈ (sampleDesk remeasured).ledger.receipts, root.commodityId = 21 ∧
      root.grade = some "Grade 2" ∧ ∃ scores commodity,
        ((sampleDesk remeasured).grading root.id).gradingScores = some scores ∧
        (sampleDesk remeasured).commodities.find root.commodityId = some commodity ∧
        Evidence (fun x y => x + y) commodity scores := by
  have hroot : ∃ root ∈ (sampleDesk remeasured).ledger.receipts.rows,
      root.commodityId = 21 ∧ root.grade = some "Grade 2" ∧ root.parentReceiptId = none := by
    decide +kernel
  obtain ⟨root, hmem, hcommodity, hgrade, hparent⟩ := hroot
  have hgraded := roots_graded .postgres (fun x y => x + y) sampleCommodities
    sampleWarehouses remeasured (remeasured_brings _)
  obtain ⟨scores, commodity, hstored, hfind, hevidence, -⟩ := hgraded root hmem hparent
  exact ⟨root, hmem, hcommodity, hgrade, scores, commodity, hstored, hfind, hevidence⟩

/-- The filed maize is edited to sorghum with no measurements: it keeps the scores of
maize, which no parameter of sorghum has. -/
theorem stale_evidence :
    (sampleDesk (sampleFiling ++
        [sampleEdit { commodityId := some 21 }])).ledger.receipts.rows.map
          (fun r => (r.id, r.commodityId, r.grade)) = [(1, 21, some "Grade 1")] ∧
      ∃ scores, ((sampleDesk (sampleFiling ++
          [sampleEdit { commodityId := some 21 }])).grading 1).gradingScores = some scores ∧
        scores.measurementsById = [(30, 11)] ∧
        ¬ Evidence (fun x y => x + y) sorghum scores := by
  refine ⟨by decide +kernel, ?_⟩
  have hstored : ((sampleDesk (sampleFiling ++
      [sampleEdit { commodityId := some 21 }])).grading 1).gradingScores.map
        GradingScores.measurementsById = some [(30, 11)] := by
    decide +kernel
  obtain ⟨scores, hscores, hmeasured⟩ := Option.map_eq_some_iff.mp hstored
  refine ⟨scores, hscores, hmeasured, ?_⟩
  rintro ⟨scored, hscored, -⟩
  have hmissing : scoreSample (fun x y => x + y) sorghum.gradingParameters
      (measurementsByName sorghum.gradingParameters [(30, 11)]) sorghum.numberOfGrades =
        .error (.missingMeasurements ["Foreign Matter"]) := by
    decide +kernel
  rw [hmeasured, hmissing] at hscored
  cases hscored

end SecureStore.Deposits
