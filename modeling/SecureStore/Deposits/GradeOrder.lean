/-
# The order of grades

Labels are ranked as they are listed and REJECTED comes after all of them. The scorer gives
each parameter the first label whose threshold admits the value, and the sample the worst of
these grades. So larger values never improve a grade, whatever the thresholds are, and the
order of the parameters does not matter.
-/

import SecureStore.Deposits.Configuration

namespace SecureStore.Deposits

open SecureStore.Foundation SecureStore.Inventory

/-- The place of a grade among the labels, the last place for REJECTED. -/
def gradeRank (numberOfGrades : ℕ) (grade : String) : ℕ :=
  (gradeLabels numberOfGrades).idxOf grade

/-- There is a measurement for each parameter and no other one. -/
def FullyMeasured (parameters : List GradingParameter) (measurements : List (String × ℚ)) : Prop :=
  ∀ name, name ∈ measurements.map Prod.fst ↔ name ∈ parameters.map GradingParameter.name

/-- No measurement is smaller than before. -/
def Increased (parameters : List GradingParameter) (before after : List (String × ℚ)) : Prop :=
  ∀ p ∈ parameters, ∀ value ∈ before.lookup p.name, ∀ value' ∈ after.lookup p.name,
    value ≤ value'

/-- A grade is the worst of some grades, the best one if there are none. -/
structure IsWorst (numberOfGrades : ℕ) (grade : String) (grades : List String) : Prop where
  mem : grade ∈ grades ∨ grades = [] ∧ (gradeLabels numberOfGrades)[0]? = some grade
  upper : ∀ g ∈ grades, gradeRank numberOfGrades g ≤ gradeRank numberOfGrades grade
  rejects : rejected ∈ grades → grade = rejected

section Ranks

variable {n : ℕ} {grade : String}

@[simp]
theorem length_gradeLabels : (gradeLabels n).length = n := by
  simp [gradeLabels]

theorem rejected_not_mem : rejected ∉ gradeLabels n := by
  intro hmem
  obtain ⟨i, -, hlabel⟩ := List.mem_map.mp hmem
  have hlist := congrArg String.toList hlabel
  rw [String.toList_append] at hlist
  simp [rejected] at hlist

theorem gradeRank_rejected : gradeRank n rejected = n := by
  unfold gradeRank
  rw [List.idxOf_eq_length rejected_not_mem, length_gradeLabels]

theorem gradeRank_le : gradeRank n grade ≤ n := by
  have hle : (gradeLabels n).idxOf grade ≤ (gradeLabels n).length := List.idxOf_le_length
  rwa [length_gradeLabels] at hle

theorem gradeRank_label {i : ℕ} (hi : i < (gradeLabels n).length) :
    gradeRank n (gradeLabels n)[i] = i :=
  (gradeLabels_nodup n).idxOf_getElem i hi

/-- A label or REJECTED. -/
def IsGrade (n : ℕ) (grade : String) : Prop := grade ∈ gradeLabels n ∨ grade = rejected

/-- Grades of one rank are one grade. -/
theorem IsGrade.eq_of_rank {grade' : String} (h : IsGrade n grade) (h' : IsGrade n grade')
    (hrank : gradeRank n grade = gradeRank n grade') : grade = grade' := by
  rcases h with hlabel | rfl
  · exact (List.idxOf_inj hlabel).mp hrank
  · rcases h' with hlabel' | rfl
    · exact ((List.idxOf_inj hlabel').mp hrank.symm).symm
    · rfl

/-- The worst of grades that are no better is no better. -/
theorem IsWorst.rank_le {grade' : String} {grades grades' : List String}
    (h : IsWorst n grade grades) (h' : IsWorst n grade' grades')
    (hle : ∀ g ∈ grades, ∃ g' ∈ grades', gradeRank n g ≤ gradeRank n g') :
    gradeRank n grade ≤ gradeRank n grade' := by
  rcases h.mem with hmem | ⟨-, hbest⟩
  · obtain ⟨g', hg', hrank⟩ := hle grade hmem
    exact hrank.trans (h'.upper g' hg')
  · obtain ⟨hlt, rfl⟩ := List.getElem?_eq_some_iff.mp hbest
    rw [gradeRank_label hlt]
    exact Nat.zero_le _

/-- A running maximum. -/
theorem foldl_max_spec (indices : List ℕ) (start : ℕ) :
    start ≤ indices.foldl max start ∧ (∀ i ∈ indices, i ≤ indices.foldl max start) ∧
      (indices.foldl max start = start ∨ indices.foldl max start ∈ indices) := by
  induction indices generalizing start with
  | nil => simp
  | cons i rest ih =>
      obtain ⟨hstart, hupper, hmem⟩ := ih (max start i)
      rw [List.foldl_cons]
      refine ⟨(le_max_left _ _).trans hstart, ?_, ?_⟩
      · intro j hj
        rcases List.mem_cons.mp hj with rfl | hj
        · exact (le_max_right _ _).trans hstart
        · exact hupper j hj
      · rcases hmem with heq | hmem
        · rcases max_choice start i with hmax | hmax
          · exact .inl (heq.trans hmax)
          · exact .inr (by rw [heq, hmax]; exact List.mem_cons_self)
        · exact .inr (List.mem_cons_of_mem _ hmem)

end Ranks

section Scores

variable {plus : ℚ → ℚ → ℚ} {n : ℕ} {parameters : List GradingParameter}
  {measurements : List (String × ℚ)} {p : GradingParameter}

/-- The rank of a parameter's grade is the index it was assigned. -/
theorem gradeRank_scoreParameter :
    gradeRank n (scoreParameter (gradeLabels n) measurements p).1.grade =
      (scoreParameter (gradeLabels n) measurements p).2.getD (gradeLabels n).length := by
  cases hindex : assignedGradeIndex (gradeLabels n) p.thresholds
      ((measurements.lookup p.name).getD 0) with
  | none => simp [scoreParameter, hindex, gradeRank_rejected]
  | some i =>
      have hlt := assignedGradeIndex_lt hindex
      simp [scoreParameter, hindex, List.getElem?_eq_getElem hlt, gradeRank_label hlt]

theorem isGrade_scoreParameter :
    IsGrade n (scoreParameter (gradeLabels n) measurements p).1.grade := by
  cases hindex : assignedGradeIndex (gradeLabels n) p.thresholds
      ((measurements.lookup p.name).getD 0) with
  | none => exact .inr (by simp [scoreParameter, hindex])
  | some i =>
      have hlt := assignedGradeIndex_lt hindex
      exact .inl (by simp [scoreParameter, hindex, List.getElem?_eq_getElem hlt])

/-- What admits more is found no later. -/
theorem findIdx?_getD_mono {α : Type} {l : List α} {admits admits' : α → Bool}
    (h : ∀ x ∈ l, admits' x = true → admits x = true) :
    (l.findIdx? admits).getD l.length ≤ (l.findIdx? admits').getD l.length := by
  rw [← List.findIdx_eq_getD_findIdx?, ← List.findIdx_eq_getD_findIdx?]
  exact List.findIdx_le_findIdx h

/-- A larger value gets no better index: every threshold that admits it admits the smaller one. -/
theorem assignedGradeIndex_mono {labels : List String} {thresholds : List (String × ℚ)}
    {value value' : ℚ} (h : value ≤ value') :
    (assignedGradeIndex labels thresholds value).getD labels.length ≤
      (assignedGradeIndex labels thresholds value').getD labels.length := by
  apply findIdx?_getD_mono
  intro label _ hadmits
  split at hadmits
  · exact decide_eq_true (h.trans (of_decide_eq_true hadmits))
  · cases hadmits

/-- A parameter's grade is no better for a larger value. -/
theorem gradeRank_mono {measurements' : List (String × ℚ)}
    (h : (measurements.lookup p.name).getD 0 ≤ (measurements'.lookup p.name).getD 0) :
    gradeRank n (scoreParameter (gradeLabels n) measurements p).1.grade ≤
      gradeRank n (scoreParameter (gradeLabels n) measurements' p).1.grade := by
  rw [gradeRank_scoreParameter, gradeRank_scoreParameter]
  exact assignedGradeIndex_mono h

theorem within_iff : (scoreParameter (gradeLabels n) measurements p).1.withinThreshold = false ↔
    (scoreParameter (gradeLabels n) measurements p).1.grade = rejected := by
  cases hindex : assignedGradeIndex (gradeLabels n) p.thresholds
      ((measurements.lookup p.name).getD 0) with
  | none => simp [scoreParameter, hindex]
  | some i =>
      have hlt := assignedGradeIndex_lt hindex
      have hlabel : (gradeLabels n)[i] ≠ rejected := by
        intro heq
        exact rejected_not_mem (heq ▸ List.getElem_mem hlt)
      simp [scoreParameter, hindex, List.getElem?_eq_getElem hlt, hlabel]

theorem grade_of_index {i : ℕ}
    (h : (scoreParameter (gradeLabels n) measurements p).2 = some i) :
    (gradeLabels n)[i]? = some (scoreParameter (gradeLabels n) measurements p).1.grade := by
  have hindex : assignedGradeIndex (gradeLabels n) p.thresholds
      ((measurements.lookup p.name).getD 0) = some i := h
  have hlt := assignedGradeIndex_lt hindex
  simp [scoreParameter, hindex, List.getElem?_eq_getElem hlt]

/-- The grades of a sample. -/
def parameterGrades (n : ℕ) (measurements : List (String × ℚ))
    (parameters : List GradingParameter) : List String :=
  parameters.map fun p => (scoreParameter (gradeLabels n) measurements p).1.grade

theorem IsWorst.isGrade {grade : String}
    (h : IsWorst n grade (parameterGrades n measurements parameters)) : IsGrade n grade := by
  rcases h.mem with hmem | ⟨-, hbest⟩
  · obtain ⟨p, -, rfl⟩ := List.mem_map.mp hmem
    exact isGrade_scoreParameter
  · exact .inl (List.mem_of_getElem? hbest)

theorem lookup_of_measured (hmeasured : FullyMeasured parameters measurements)
    (hp : p ∈ parameters) : ∃ value, measurements.lookup p.name = some value := by
  obtain ⟨entry, hentry, hname⟩ := List.mem_map.mp
    ((hmeasured p.name).mpr (List.mem_map_of_mem hp))
  apply Option.ne_none_iff_exists'.mp
  intro hnone
  simpa [hname] using List.lookup_eq_none_iff.mp hnone entry hentry

/-- A sample that is measured is scored: each parameter for itself, and the sample by the worst
of its grades. -/
theorem scoreSample_worst (hgrades : 1 ≤ n) (hmeasured : FullyMeasured parameters measurements) :
    ∃ r grade, scoreSample plus parameters measurements n = .ok r ∧
      r.perParameter = parameters.map
        (fun p => (scoreParameter (gradeLabels n) measurements p).1) ∧
      r.computedGrade = some grade ∧
      IsWorst n grade (parameterGrades n measurements parameters) := by
  have hmissing : (parameters.map GradingParameter.name).filter
      (· ∉ measurements.map Prod.fst) = [] := by
    apply List.filter_eq_nil_iff.mpr
    intro name hname
    simpa using (hmeasured name).mpr hname
  have hextra : (measurements.map Prod.fst).filter
      (· ∉ parameters.map GradingParameter.name) = [] := by
    apply List.filter_eq_nil_iff.mpr
    intro name hname
    simpa using (hmeasured name).mp hname
  unfold scoreSample
  simp only [hmissing, hextra, ne_eq, not_true_eq_false, if_false]
  split
  · -- a parameter is rejected, and with it the sample
    rename_i hfails
    refine ⟨_, rejected, rfl, by simp, rfl, ?_, ?_, fun _ => rfl⟩
    · left
      obtain ⟨name, hname⟩ := List.exists_mem_of_ne_nil _ hfails
      obtain ⟨result, hresult, -⟩ := List.mem_map.mp hname
      obtain ⟨hscored, hwithin⟩ := List.mem_filter.mp hresult
      obtain ⟨pair, hpair, rfl⟩ := List.mem_map.mp hscored
      obtain ⟨p, hp, rfl⟩ := List.mem_map.mp hpair
      exact List.mem_map.mpr ⟨p, hp, within_iff.mp (by simpa using hwithin)⟩
    · intro g hg
      obtain ⟨p, -, rfl⟩ := List.mem_map.mp hg
      rw [gradeRank_rejected]
      exact gradeRank_le
  · -- every parameter has a label
    rename_i hpassed
    have hlabelled : ∀ p ∈ parameters, ∃ i,
        (scoreParameter (gradeLabels n) measurements p).2 = some i := by
      intro p hp
      by_contra hnone
      apply hpassed
      apply List.ne_nil_of_mem
      apply List.mem_map_of_mem
      rw [List.mem_filter]
      refine ⟨List.mem_map_of_mem (List.mem_map_of_mem hp), ?_⟩
      have hindex : (scoreParameter (gradeLabels n) measurements p).2 = none :=
        Option.eq_none_iff_forall_not_mem.mpr fun i hi => hnone ⟨i, hi⟩
      simpa [scoreParameter] using hindex
    have hpair : ∀ i, i ∈ (parameters.map (scoreParameter (gradeLabels n)
        measurements)).filterMap Prod.snd ↔
          ∃ p ∈ parameters, (scoreParameter (gradeLabels n) measurements p).2 = some i := by
      simp [List.mem_filterMap]
    obtain ⟨-, hupper, hmem⟩ := foldl_max_spec
      ((parameters.map (scoreParameter (gradeLabels n) measurements)).filterMap Prod.snd) 0
    generalize hworst : ((parameters.map (scoreParameter (gradeLabels n)
      measurements)).filterMap Prod.snd).foldl max 0 = worst at hupper hmem
    have hlt : worst < (gradeLabels n).length := by
      rcases hmem with rfl | hmem
      · rw [length_gradeLabels]
        exact hgrades
      · obtain ⟨p, -, hindex⟩ := (hpair worst).mp hmem
        exact assignedGradeIndex_lt hindex
    refine ⟨_, (gradeLabels n)[worst], rfl, by simp, ?_, ?_, ?_, ?_⟩
    · exact List.getElem?_eq_getElem hlt
    · by_cases hsome : ∃ p ∈ parameters,
          (scoreParameter (gradeLabels n) measurements p).2 = some worst
      · obtain ⟨p, hp, hindex⟩ := hsome
        have hgrade := (List.getElem?_eq_getElem hlt).symm.trans (grade_of_index hindex)
        exact .inl (List.mem_map.mpr ⟨p, hp, (Option.some_inj.mp hgrade).symm⟩)
      · obtain rfl : worst = 0 := hmem.resolve_right fun h => hsome ((hpair worst).mp h)
        right
        refine ⟨List.map_eq_nil_iff.mpr ?_, List.getElem?_eq_getElem hlt⟩
        by_contra hne
        obtain ⟨p, hp⟩ := List.exists_mem_of_ne_nil _ hne
        obtain ⟨i, hindex⟩ := hlabelled p hp
        obtain rfl : i = 0 := Nat.le_zero.mp (hupper i ((hpair i).mpr ⟨p, hp, hindex⟩))
        exact hsome ⟨p, hp, hindex⟩
    · intro g hg
      obtain ⟨p, hp, rfl⟩ := List.mem_map.mp hg
      obtain ⟨i, hindex⟩ := hlabelled p hp
      rw [gradeRank_label hlt, gradeRank_scoreParameter, hindex]
      exact hupper i ((hpair i).mpr ⟨p, hp, hindex⟩)
    · intro hrejects
      obtain ⟨p, hp, hgrade⟩ := List.mem_map.mp hrejects
      obtain ⟨i, hindex⟩ := hlabelled p hp
      have hlabel := List.mem_of_getElem? (grade_of_index hindex)
      rw [hgrade] at hlabel
      exact absurd hlabel rejected_not_mem

end Scores

/-! ## Grading is monotone and order-free -/

/-- The grade is the worst of the parameters' grades; no grade gets better when measurements
increase, and the order of the parameters is of no effect. -/
theorem scoreSample_monotone_orderFree {plus : ℚ → ℚ → ℚ} {n : ℕ} (hgrades : 1 ≤ n)
    {parameters : List GradingParameter} {measurements : List (String × ℚ)}
    (hmeasured : FullyMeasured parameters measurements) :
    ∃ r grade, scoreSample plus parameters measurements n = .ok r ∧
      r.computedGrade = some grade ∧
      r.perParameter.map PerParameterResult.name = parameters.map GradingParameter.name ∧
      IsWorst n grade (r.perParameter.map PerParameterResult.grade) ∧
      (∀ measurements', FullyMeasured parameters measurements' →
        Increased parameters measurements measurements' →
        ∃ r' grade', scoreSample plus parameters measurements' n = .ok r' ∧
          r'.computedGrade = some grade' ∧ gradeRank n grade ≤ gradeRank n grade' ∧
          List.Forall₂ (fun p p' => p.name = p'.name ∧ gradeRank n p.grade ≤ gradeRank n p'.grade)
            r.perParameter r'.perParameter) ∧
      ∀ parameters', parameters'.Perm parameters →
        ∃ r', scoreSample plus parameters' measurements n = .ok r' ∧
          r'.computedGrade = some grade ∧ r'.perParameter.Perm r.perParameter := by
  obtain ⟨r, grade, hscore, hper, hgrade, hworst⟩ :=
    @scoreSample_worst plus _ _ _ hgrades hmeasured
  have hgradesOf : ∀ (m : List (String × ℚ)) (ps : List GradingParameter),
      (ps.map fun p => (scoreParameter (gradeLabels n) m p).1).map PerParameterResult.grade =
        parameterGrades n m ps := by
    intro m ps
    rw [List.map_map]
    rfl
  refine ⟨r, grade, hscore, hgrade, ?_, ?_, ?_, ?_⟩
  · rw [hper, List.map_map]
    rfl
  · rw [hper, hgradesOf]
    exact hworst
  · intro measurements' hmeasured' hincreased
    obtain ⟨r', grade', hscore', hper', hgrade', hworst'⟩ :=
      @scoreSample_worst plus _ _ _ hgrades hmeasured'
    have hmono : ∀ p ∈ parameters,
        gradeRank n (scoreParameter (gradeLabels n) measurements p).1.grade ≤
          gradeRank n (scoreParameter (gradeLabels n) measurements' p).1.grade := by
      intro p hp
      apply gradeRank_mono
      obtain ⟨value, hvalue⟩ := lookup_of_measured hmeasured hp
      obtain ⟨value', hvalue'⟩ := lookup_of_measured hmeasured' hp
      rw [hvalue, hvalue']
      exact hincreased p hp value hvalue value' hvalue'
    refine ⟨r', grade', hscore', hgrade', hworst.rank_le hworst' ?_, ?_⟩
    · intro g hg
      obtain ⟨p, hp, rfl⟩ := List.mem_map.mp hg
      exact ⟨_, List.mem_map_of_mem hp, hmono p hp⟩
    · rw [hper, hper', List.forall₂_map_left_iff, List.forall₂_map_right_iff,
        List.forall₂_same]
      exact fun p hp => ⟨rfl, hmono p hp⟩
  · intro parameters' hperm
    have hmeasured' : FullyMeasured parameters' measurements := by
      intro name
      rw [hmeasured name, (hperm.map GradingParameter.name).mem_iff]
    obtain ⟨r', grade', hscore', hper', hgrade', hworst'⟩ :=
      @scoreSample_worst plus _ _ _ hgrades hmeasured'
    have hsame : (parameterGrades n measurements parameters').Perm
        (parameterGrades n measurements parameters) := hperm.map _
    have hle := hworst.rank_le hworst' fun g hg => ⟨g, hsame.mem_iff.mpr hg, le_rfl⟩
    have hge := hworst'.rank_le hworst fun g hg => ⟨g, hsame.mem_iff.mp hg, le_rfl⟩
    obtain rfl : grade' = grade :=
      hworst'.isGrade.eq_of_rank hworst.isGrade (le_antisymm hge hle)
    refine ⟨r', hscore', hgrade', ?_⟩
    rw [hper, hper']
    exact hperm.map _

/-- Moisture has thresholds that fall, foreign matter has none for the first grade. -/
def sampleParameters : List GradingParameter :=
  [{ id := 1, name := "Moisture", isDefective := false
     thresholds := [("Grade 1", 12), ("Grade 2", 10)] },
   { id := 2, name := "Foreign matter", isDefective := true, thresholds := [("Grade 2", 3)] }]

/-- A sample of the second grade. -/
theorem scoreSample_monotone_orderFree_second :
    ∃ r grade, scoreSample (· + ·) sampleParameters [("Moisture", 11), ("Foreign matter", 2)] 2 =
        .ok r ∧
      r.computedGrade = some grade ∧
      IsWorst 2 grade (r.perParameter.map PerParameterResult.grade) := by
  obtain ⟨r, grade, hscore, hgrade, -, hworst, -⟩ := @scoreSample_monotone_orderFree (· + ·) 2
    (by decide) sampleParameters [("Moisture", 11), ("Foreign matter", 2)]
    fun name => by simp [sampleParameters]
  exact ⟨r, grade, hscore, hgrade, hworst⟩

end SecureStore.Deposits
