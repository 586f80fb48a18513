/-
# Grading a sample

A commodity's parameters carry one threshold for each grade label. A measurement
gets the first label whose threshold it does not exceed, and a sample the worst label
of its measurements; a measurement beyond every threshold rejects the sample. Sums of
percentages are taken with the addition of doubles, which is a parameter.
-/

import SecureStore.Inventory.Types

namespace SecureStore.Deposits

open SecureStore.Foundation SecureStore.Inventory

structure GradingParameter where
  id : Id
  name : String
  isDefective : Bool
  thresholds : List (String × ℚ)
  deriving DecidableEq, Repr

structure Commodity where
  id : Id
  tenantId : Id
  numberOfGrades : ℕ
  gradingParameters : List GradingParameter
  deriving DecidableEq, Repr

instance : Keyed Commodity Id := ⟨Commodity.id⟩

@[simp]
theorem key_commodity (c : Commodity) : Keyed.key c = c.id := rfl

structure PerParameterResult where
  name : String
  value : ℚ
  grade : String
  withinThreshold : Bool
  deriving DecidableEq, Repr

structure ScoreResult where
  /-- `undefined` when there are neither parameters nor grades. -/
  computedGrade : Option String
  totalDefectivePct : ℚ
  standardDeductionPct : ℚ
  perParameter : List PerParameterResult
  failingParameters : List String
  deriving DecidableEq, Repr

inductive ScoreError where
  /-- `Missing measurements for: ${names}` -/
  | missingMeasurements (names : List String)
  /-- `Unknown measurement parameters: ${names}` -/
  | unknownMeasurements (names : List String)
  deriving DecidableEq, Repr

/-- The grade of a sample that exceeds all thresholds of a parameter. -/
def rejected : String := "REJECTED"

/-- Grade 1 is the best. -/
def gradeLabels (numberOfGrades : ℕ) : List String :=
  (List.range numberOfGrades).map fun i => "Grade " ++ toString (i + 1)

/-- `record[key] = value` -/
def setKey {κ : Type} [DecidableEq κ] (record : List (κ × ℚ)) (key : κ) (value : ℚ) :
    List (κ × ℚ) :=
  if key ∈ record.map Prod.fst then
    record.map fun entry => if entry.1 = key then (key, value) else entry
  else record ++ [(key, value)]

/-- The index of the first label whose threshold the value does not exceed. -/
def assignedGradeIndex (labels : List String) (thresholds : List (String × ℚ)) (value : ℚ) :
    Option ℕ :=
  labels.findIdx? fun label =>
    match thresholds.lookup label with
    | some threshold => value ≤ threshold
    | none => false

section Scoring

variable (plus : ℚ → ℚ → ℚ)

/-- One parameter of the sample. -/
def scoreParameter (labels : List String) (measurements : List (String × ℚ))
    (param : GradingParameter) : PerParameterResult × Option ℕ :=
  let value := (measurements.lookup param.name).getD 0
  let index := assignedGradeIndex labels param.thresholds value
  ({ name := param.name
     value := value
     grade := (index.bind fun i => labels[i]?).getD rejected
     withinThreshold := index.isSome }, index)

/-- Worst of all parameters. -/
def scoreSample (parameters : List GradingParameter) (measurements : List (String × ℚ))
    (numberOfGrades : ℕ) : Except ScoreError ScoreResult :=
  let labels := gradeLabels numberOfGrades
  let missing := (parameters.map GradingParameter.name).filter
    (· ∉ measurements.map Prod.fst)
  let extra := (measurements.map Prod.fst).filter
    (· ∉ parameters.map GradingParameter.name)
  if missing ≠ [] then .error (.missingMeasurements missing)
  else if extra ≠ [] then .error (.unknownMeasurements extra)
  else
    let scored := parameters.map (scoreParameter labels measurements)
    let perParameter := scored.map Prod.fst
    let failing := (perParameter.filter fun p => !p.withinThreshold).map PerParameterResult.name
    if failing ≠ [] then
      .ok
        { computedGrade := some rejected
          totalDefectivePct := 0
          standardDeductionPct := 0
          perParameter := perParameter
          failingParameters := failing }
    else
      let worst := (scored.filterMap Prod.snd).foldl max 0
      let computedGrade := labels[worst]?
      let deduction := (parameters.find? fun p => p.name = "Standard Deduction").bind fun p =>
        computedGrade.bind fun grade => p.thresholds.lookup grade
      .ok
        { computedGrade := computedGrade
          totalDefectivePct := (parameters.filter GradingParameter.isDefective).foldl
            (fun sum p => plus sum ((measurements.lookup p.name).getD 0)) 0
          standardDeductionPct := deduction.getD 0
          perParameter := perParameter
          failingParameters := [] }

/-- What a receipt stores of the scoring of its sample. -/
structure GradingScores where
  measurementsById : List (Id × ℚ)
  computedGrade : Option String
  totalDefectivePct : ℚ
  standardDeductionPct : ℚ
  perParameter : List PerParameterResult
  deriving DecidableEq, Repr

def ScoreResult.store (scored : ScoreResult) (measurements : List (Id × ℚ)) : GradingScores where
  measurementsById := measurements
  computedGrade := scored.computedGrade
  totalDefectivePct := scored.totalDefectivePct
  standardDeductionPct := scored.standardDeductionPct
  perParameter := scored.perParameter

/-- Why measurements are not admitted. -/
inductive GradingError where
  /-- The commodity has no grading parameters. -/
  | noParameters
  /-- `Unknown grading parameter id(s): ${ids}` -/
  | unknownParameters (ids : List Id)
  | scoring (e : ScoreError)
  /-- The sample fails grading: `Failing: ${names}` -/
  | failing (names : List String)
  deriving DecidableEq, Repr

/-- Measurements by parameter id, as measurements by parameter name. -/
def measurementsByName (parameters : List GradingParameter) (measurements : List (Id × ℚ)) :
    List (String × ℚ) :=
  measurements.foldl
    (fun record entry =>
      match parameters.find? fun p => p.id = entry.1 with
      | some p => setKey record p.name entry.2
      | none => record)
    []

/-- The admission rule of deposits and of edited measurements: score the measurements
with the parameters of a commodity and refuse a rejected sample. -/
def gradeMeasurements (commodity : Commodity) (measurements : List (Id × ℚ)) :
    Except GradingError GradingScores :=
  let params := commodity.gradingParameters
  let unknownIds := (measurements.map Prod.fst).filter (· ∉ params.map GradingParameter.id)
  if params = [] then .error .noParameters
  else if unknownIds ≠ [] then .error (.unknownParameters unknownIds)
  else
    match scoreSample plus params (measurementsByName params measurements)
        commodity.numberOfGrades with
    | .error e => .error (.scoring e)
    | .ok scored =>
        if scored.computedGrade = some rejected then .error (.failing scored.failingParameters)
        else .ok (scored.store measurements)

/-- The stored scores of a receipt come from scoring the measurements they name with the
parameters of the commodity, and the sample was not rejected. -/
def Evidence (commodity : Commodity) (scores : GradingScores) : Prop :=
  ∃ scored, scoreSample plus commodity.gradingParameters
      (measurementsByName commodity.gradingParameters scores.measurementsById)
      commodity.numberOfGrades = .ok scored ∧
    scored.computedGrade ≠ some rejected ∧ scores = scored.store scores.measurementsById

variable {plus : ℚ → ℚ → ℚ}

theorem assignedGradeIndex_lt {labels : List String} {thresholds : List (String × ℚ)}
    {value : ℚ} {i : ℕ} (h : assignedGradeIndex labels thresholds value = some i) :
    i < labels.length := by
  obtain ⟨hlt, -⟩ := List.findIdx?_eq_some_iff_getElem.mp h
  exact hlt

theorem worst_lt {n : ℕ} {indices : List ℕ} (h : ∀ i ∈ indices, i < n) {start : ℕ}
    (hstart : start < n) : indices.foldl max start < n := by
  induction indices generalizing start with
  | nil => exact hstart
  | cons i rest ih =>
      apply ih
      · exact fun j hj => h j (List.mem_cons_of_mem _ hj)
      · exact max_lt hstart (h i List.mem_cons_self)

/-- A sample that is not rejected has one of the grades, if anything was measured. -/
theorem scoreSample_graded {parameters : List GradingParameter}
    {measurements : List (String × ℚ)} {numberOfGrades : ℕ} {scored : ScoreResult}
    (h : scoreSample plus parameters measurements numberOfGrades = .ok scored)
    (hparameters : parameters ≠ []) : ∃ grade, scored.computedGrade = some grade := by
  unfold scoreSample at h
  dsimp only at h
  split at h
  · cases h
  · split at h
    · cases h
    · split at h
      · cases h
        exact ⟨rejected, rfl⟩
      · rename_i hpassed
        cases h
        obtain ⟨param, hparam⟩ := List.exists_mem_of_ne_nil parameters hparameters
        -- every parameter got an index, so there is a label for each
        have hindex : ∃ i, (scoreParameter (gradeLabels numberOfGrades) measurements param).2 =
            some i := by
          by_contra hnone
          have hfails : (scoreParameter (gradeLabels numberOfGrades) measurements
              param).1.withinThreshold = false := by
            cases hassigned : (scoreParameter (gradeLabels numberOfGrades) measurements
                param).2 with
            | none => simpa [scoreParameter] using hassigned
            | some i => exact absurd ⟨i, hassigned⟩ hnone
          apply hpassed
          apply List.ne_nil_of_mem
          apply List.mem_map_of_mem
          rw [List.mem_filter]
          exact ⟨List.mem_map_of_mem (List.mem_map_of_mem hparam), by simp [hfails]⟩
        obtain ⟨i, hi⟩ := hindex
        have hworst : ((parameters.map (scoreParameter (gradeLabels numberOfGrades)
            measurements)).filterMap Prod.snd).foldl max 0 <
              (gradeLabels numberOfGrades).length := by
          apply worst_lt
          · intro j hj
            obtain ⟨result, hresult, hsnd⟩ := List.mem_filterMap.mp hj
            obtain ⟨other, -, rfl⟩ := List.mem_map.mp hresult
            exact assignedGradeIndex_lt hsnd
          · exact Nat.zero_lt_of_lt (assignedGradeIndex_lt hi)
        exact ⟨_, List.getElem?_eq_getElem hworst⟩

/-- What the admission rule admits is evidence. -/
theorem gradeMeasurements_evidence {commodity : Commodity} {measurements : List (Id × ℚ)}
    {scores : GradingScores} (h : gradeMeasurements plus commodity measurements = .ok scores) :
    Evidence plus commodity scores := by
  unfold gradeMeasurements at h
  simp only at h
  split at h
  · cases h
  · split at h
    · cases h
    · cases hscored : scoreSample plus commodity.gradingParameters
          (measurementsByName commodity.gradingParameters measurements)
          commodity.numberOfGrades with
      | error e =>
          rw [hscored] at h
          cases h
      | ok scored =>
          rw [hscored] at h
          simp only at h
          split at h
          · cases h
          · rename_i hgrade
            cases h
            exact ⟨scored, hscored, hgrade, rfl⟩

/-- What the admission rule admits has a grade. -/
theorem gradeMeasurements_graded {commodity : Commodity} {measurements : List (Id × ℚ)}
    {scores : GradingScores} (h : gradeMeasurements plus commodity measurements = .ok scores) :
    ∃ grade, scores.computedGrade = some grade := by
  obtain ⟨scored, hscored, -, hstore⟩ := gradeMeasurements_evidence h
  have hparameters : commodity.gradingParameters ≠ [] := by
    intro hnone
    simp [gradeMeasurements, hnone] at h
  obtain ⟨grade, hgrade⟩ := scoreSample_graded hscored hparameters
  exact ⟨grade, by rw [hstore]; exact hgrade⟩

end Scoring

end SecureStore.Deposits
