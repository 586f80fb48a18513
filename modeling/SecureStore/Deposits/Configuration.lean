/-
# Grading configuration

A commodity has a number of grades, and each of its parameters one threshold for each of
them. Adding a parameter checks the labels of its thresholds; changing one, which may
also move it to another commodity, upserting one and changing the number of grades do
not. So the configuration stays complete exactly as long as these requests happen to keep
to the labels.
-/

import SecureStore.Deposits.Grading
import SecureStore.Foundation.Calls
import SecureStore.Services.Database

namespace SecureStore.Deposits

open SecureStore.Foundation SecureStore.Inventory SecureStore.Services

/-- `Record<string, number>` -/
structure Thresholds where
  entries : List (String × ℚ)
  nodup : (entries.map Prod.fst).Nodup
  deriving DecidableEq

/-- `Object.keys` -/
def Thresholds.keys (thresholds : Thresholds) : List String := thresholds.entries.map Prod.fst

/-- A row of `commodities`. -/
structure CommodityRow where
  id : Id
  name : String
  code : Option String
  tenantId : Id
  numberOfGrades : ℤ
  deriving DecidableEq

/-- A row of `grading_parameters`. -/
structure ParameterRow where
  id : Id
  tenantId : Id
  commodityId : Id
  name : String
  isDefective : Bool
  thresholds : Thresholds
  deriving DecidableEq

instance : Keyed CommodityRow Id := ⟨CommodityRow.id⟩
instance : Keyed ParameterRow Id := ⟨ParameterRow.id⟩

@[simp] theorem key_commodityRow (c : CommodityRow) : Keyed.key c = c.id := rfl
@[simp] theorem key_parameterRow (p : ParameterRow) : Keyed.key p = p.id := rfl

structure ConfigDb where
  commodities : Table CommodityRow
  parameters : Table ParameterRow

inductive ConfigError where
  | api (e : ApiError)
  /-- `Missing threshold keys: ${labels}` -/
  | missingThresholds (labels : List String)
  /-- `Extra threshold keys: ${keys}` -/
  | extraThresholds (keys : List String)
  /-- P2003: a foreign key constraint was violated. -/
  | foreignKeyViolation
  deriving DecidableEq

/-- The columns of a commodity that the body of a request gives; an absent one is left
alone. The bodies are written as they come, so they may name any column. -/
structure CommodityDto where
  id : Option Id := none
  tenantId : Option Id := none
  name : Option String := none
  code : Option String := none
  numberOfGrades : Option ℤ := none

/-- The columns of a parameter that the body of a request gives. -/
structure ParameterDto where
  id : Option Id := none
  tenantId : Option Id := none
  commodityId : Option Id := none
  name : Option String := none
  isDefective : Option Bool := none
  thresholds : Option Thresholds := none

/-- The labels of a commodity's grades; a negative length counts as none. -/
def expectedGrades (numberOfGrades : ℤ) : List String := gradeLabels numberOfGrades.toNat

/-- Two commodities of one name, or of one code. -/
def CommodityRow.Clashes (c c' : CommodityRow) : Prop :=
  c.name = c'.name ∨ (c.code ≠ none ∧ c.code = c'.code)

instance (c c' : CommodityRow) : Decidable (c.Clashes c') := inferInstanceAs (Decidable (_ ∨ _))

/-- Two parameters of one commodity and name. -/
def ParameterRow.Clashes (p p' : ParameterRow) : Prop :=
  p.commodityId = p'.commodityId ∧ p.name = p'.name

instance (p p' : ParameterRow) : Decidable (p.Clashes p') := inferInstanceAs (Decidable (_ ∧ _))

@[simps]
def CommodityDto.apply (dto : CommodityDto) (c : CommodityRow) : CommodityRow where
  id := dto.id.getD c.id
  tenantId := dto.tenantId.getD c.tenantId
  name := dto.name.getD c.name
  code := dto.code.or c.code
  numberOfGrades := dto.numberOfGrades.getD c.numberOfGrades

@[simps]
def ParameterDto.apply (dto : ParameterDto) (p : ParameterRow) : ParameterRow where
  id := dto.id.getD p.id
  tenantId := dto.tenantId.getD p.tenantId
  commodityId := dto.commodityId.getD p.commodityId
  name := dto.name.getD p.name
  isDefective := dto.isDefective.getD p.isDefective
  thresholds := dto.thresholds.getD p.thresholds

/-- A call of the configuration services. -/
abbrev ConfigApi := Except ConfigError ConfigDb

section Calls

variable (s : ConfigDb)

/-- `commodity.findFirst` of the tenant's -/
def ConfigDb.findCommodity (tenantId id : Id) : Option CommodityRow :=
  (s.commodities.find id).filter fun c => c.tenantId = tenantId

/-- `gradingParameter.findFirst` of the tenant's -/
def ConfigDb.findParameter (tenantId id : Id) : Option ParameterRow :=
  (s.parameters.find id).filter fun p => p.tenantId = tenantId

/-- `gradingParameter.create` -/
def ConfigDb.createParameter (p : ParameterRow) : ConfigApi := do
  Call.throwIf (s.commodities.find p.commodityId = none) .foreignKeyViolation
  let parameters ← (createRow s.parameters p p.Clashes).mapError .api
  pure { s with parameters }

/-- `gradingParameter.update`: the row is written anew, under the checks of a new row. -/
def ConfigDb.updateParameter (id : Id) (dto : ParameterDto) : ConfigApi := do
  let p ← Call.orThrow (s.parameters.find id) (.api .recordNotFound)
  { s with parameters := s.parameters.remove id }.createParameter (dto.apply p)

/-- `commodity.update`: the row is written anew, and a new id cascades to its parameters. -/
def ConfigDb.updateCommodity (c : CommodityRow) (dto : CommodityDto) : ConfigApi := do
  let updated := dto.apply c
  let commodities ← (createRow (s.commodities.remove c.id) updated updated.Clashes).mapError .api
  pure
    { commodities := commodities
      parameters := s.parameters.modifyWhere (fun p => p.commodityId = c.id) fun p =>
        { p with commodityId := updated.id } }

def createCommodity (id tenantId : Id) (name : String) (dto : CommodityDto) : ConfigApi := do
  let c : CommodityRow :=
    { id := dto.id.getD id
      name := name
      code := dto.code
      -- the caller's, whatever the body says
      tenantId := tenantId
      -- the default of the column
      numberOfGrades := dto.numberOfGrades.getD 3 }
  let commodities ← (createRow s.commodities c c.Clashes).mapError .api
  pure { s with commodities }

def updateCommodity (tenantId id : Id) (dto : CommodityDto) : ConfigApi := do
  let c ← Call.orThrow (s.findCommodity tenantId id) (.api (.notFound "Commodity not found"))
  s.updateCommodity c dto

def addParameter (id tenantId commodityId : Id) (name : String) (isDefective : Bool)
    (thresholds : Thresholds) : ConfigApi := do
  let commodity ← Call.orThrow (s.findCommodity tenantId commodityId)
    (.api (.notFound "Commodity not found"))
  let expected := expectedGrades commodity.numberOfGrades
  let missing := expected.filter (· ∉ thresholds.keys)
  let extra := thresholds.keys.filter (· ∉ expected)
  Call.throwIf (missing ≠ []) (.missingThresholds missing)
  Call.throwIf (extra ≠ []) (.extraThresholds extra)
  s.createParameter
    { id := id
      tenantId := tenantId
      commodityId := commodityId
      name := name
      isDefective := isDefective
      thresholds := thresholds }

def updateParameter (tenantId parameterId : Id) (dto : ParameterDto) : ConfigApi := do
  let _ ← Call.orThrow (s.findParameter tenantId parameterId)
    (.api (.notFound "Grading parameter not found"))
  s.updateParameter parameterId dto

def deleteParameter (tenantId parameterId : Id) : ConfigApi := do
  let _ ← Call.orThrow (s.findParameter tenantId parameterId)
    (.api (.notFound "Grading parameter not found"))
  pure { s with parameters := s.parameters.remove parameterId }

/-- The tenant's console writes a parameter by commodity and name, whosever the commodity. -/
def upsertGradingParameter (id tenantId commodityId : Id) (name : String) (isDefective : Bool)
    (thresholds : Thresholds) : ConfigApi :=
  match s.parameters.rows.find? fun p => p.commodityId = commodityId ∧ p.name = name with
  | some p =>
      s.updateParameter p.id { isDefective := some isDefective, thresholds := some thresholds }
  | none =>
      s.createParameter
        { id := id
          tenantId := tenantId
          commodityId := commodityId
          name := name
          isDefective := isDefective
          thresholds := thresholds }

end Calls

inductive ConfigRequest where
  | createCommodity (id tenantId : Id) (name : String) (dto : CommodityDto)
  | updateCommodity (tenantId id : Id) (dto : CommodityDto)
  | addParameter (id tenantId commodityId : Id) (name : String) (isDefective : Bool)
      (thresholds : Thresholds)
  | updateParameter (tenantId parameterId : Id) (dto : ParameterDto)
  | deleteParameter (tenantId parameterId : Id)
  | upsertGradingParameter (id tenantId commodityId : Id) (name : String) (isDefective : Bool)
      (thresholds : Thresholds)

def ConfigRequest.call : ConfigRequest → ConfigDb → ConfigApi
  | createCommodity id tenantId name dto, s => Deposits.createCommodity s id tenantId name dto
  | updateCommodity tenantId id dto, s => Deposits.updateCommodity s tenantId id dto
  | addParameter id tenantId commodityId name isDefective thresholds, s =>
      Deposits.addParameter s id tenantId commodityId name isDefective thresholds
  | updateParameter tenantId parameterId dto, s =>
      Deposits.updateParameter s tenantId parameterId dto
  | deleteParameter tenantId parameterId, s => Deposits.deleteParameter s tenantId parameterId
  | upsertGradingParameter id tenantId commodityId name isDefective thresholds, s =>
      Deposits.upsertGradingParameter s id tenantId commodityId name isDefective thresholds

/-- The thresholds are exactly one for each grade. -/
def Thresholds.Complete (thresholds : Thresholds) (numberOfGrades : ℤ) : Prop :=
  (∀ label ∈ expectedGrades numberOfGrades, label ∈ thresholds.keys) ∧
    ∀ key ∈ thresholds.keys, key ∈ expectedGrades numberOfGrades

instance (thresholds : Thresholds) (numberOfGrades : ℤ) :
    Decidable (thresholds.Complete numberOfGrades) :=
  inferInstanceAs (Decidable (_ ∧ _))

/-- Every parameter has exactly one threshold for each grade of its commodity. -/
def ConfigComplete (s : ConfigDb) : Prop :=
  ∀ p ∈ s.parameters.rows, ∃ c ∈ s.commodities.find p.commodityId,
    p.thresholds.Complete c.numberOfGrades

instance (s : ConfigDb) : Decidable (ConfigComplete s) := List.decidableBAll _ _

/-- The body of an update gives a parameter thresholds or a commodity. -/
def ParameterDto.Relabels (dto : ParameterDto) : Prop :=
  dto.thresholds ≠ none ∨ dto.commodityId ≠ none

instance (dto : ParameterDto) : Decidable dto.Relabels := inferInstanceAs (Decidable (_ ∨ _))

/-- A request keeps to the labels: new thresholds, and those that a parameter takes along to
another commodity, are those of the commodity's grades, and the number of grades of a
commodity with parameters stays as it is. -/
def KeepsLabels : ConfigRequest → ConfigDb → Prop
  | .updateCommodity _ id dto, s =>
      ∀ n ∈ dto.numberOfGrades, ∀ c ∈ s.commodities.find id,
        n.toNat = c.numberOfGrades.toNat ∨ ∀ p ∈ s.parameters.rows, p.commodityId ≠ id
  | .updateParameter _ parameterId dto, s =>
      dto.Relabels → ∀ p ∈ s.parameters.find parameterId,
        ∀ c ∈ s.commodities.find (dto.commodityId.getD p.commodityId),
          (dto.thresholds.getD p.thresholds).Complete c.numberOfGrades
  | .upsertGradingParameter _ _ commodityId _ _ thresholds, s =>
      ∀ c ∈ s.commodities.find commodityId, thresholds.Complete c.numberOfGrades
  | _, _ => True

instance (request : ConfigRequest) (s : ConfigDb) : Decidable (KeepsLabels request s) :=
  match request with
  | .updateCommodity _ id dto =>
      inferInstanceAs (Decidable (∀ n ∈ dto.numberOfGrades, ∀ c ∈ s.commodities.find id,
        n.toNat = c.numberOfGrades.toNat ∨ ∀ p ∈ s.parameters.rows, p.commodityId ≠ id))
  | .updateParameter _ parameterId dto =>
      inferInstanceAs (Decidable (dto.Relabels → ∀ p ∈ s.parameters.find parameterId,
        ∀ c ∈ s.commodities.find (dto.commodityId.getD p.commodityId),
          (dto.thresholds.getD p.thresholds).Complete c.numberOfGrades))
  | .upsertGradingParameter _ _ commodityId _ _ thresholds =>
      inferInstanceAs (Decidable (∀ c ∈ s.commodities.find commodityId,
        thresholds.Complete c.numberOfGrades))
  | .createCommodity .. | .addParameter .. | .deleteParameter .. =>
      inferInstanceAs (Decidable True)

section Labels

variable {thresholds : Thresholds} {n n' : ℤ}

theorem gradeLabels_nodup (n : ℕ) : (gradeLabels n).Nodup := by
  apply List.Nodup.map _ List.nodup_range
  intro i j heq
  have hlist := congrArg String.toList heq
  simp only [String.toList_append, List.append_cancel_left_eq] at hlist
  have hdigits : Nat.toDigits 10 (i + 1) = Nat.toDigits 10 (j + 1) := by
    simpa [toString] using hlist
  have hnumber := congrArg (Nat.ofDigitChars 10 · 0) hdigits
  simpa using hnumber

/-- The grades determine the labels, and the labels the number of grades. -/
theorem Thresholds.Complete.grades_eq (h : thresholds.Complete n) (h' : thresholds.Complete n') :
    n.toNat = n'.toNat := by
  have hle : ∀ {n n' : ℤ}, thresholds.Complete n → thresholds.Complete n' →
      n.toNat ≤ n'.toNat := by
    intro n n' h h'
    have hsub : expectedGrades n ⊆ expectedGrades n' :=
      fun label hlabel => h'.2 label (h.1 label hlabel)
    have hlength := (List.subperm_of_subset (gradeLabels_nodup n.toNat) hsub).length_le
    simpa [expectedGrades, gradeLabels] using hlength
  exact le_antisymm (hle h h') (hle h' h)

theorem Thresholds.Complete.congr (h : thresholds.Complete n) (hn : n'.toNat = n.toNat) :
    thresholds.Complete n' := by
  unfold Thresholds.Complete expectedGrades
  rw [hn]
  exact h

/-- Where the thresholds are complete, a value within any of them gets a grade. -/
theorem Thresholds.Complete.graded (h : thresholds.Complete n) {label : String}
    {threshold value : ℚ} (hentry : (label, threshold) ∈ thresholds.entries)
    (hvalue : value ≤ threshold) :
    (assignedGradeIndex (expectedGrades n) thresholds.entries value).isSome := by
  have hkey : label ∈ thresholds.keys := List.mem_map_of_mem hentry
  have hlookup : thresholds.entries.lookup label = some threshold := by
    apply lookup_of_unique hentry
    intro threshold' hentry'
    exact congrArg Prod.snd (List.inj_on_of_nodup_map thresholds.nodup hentry' hentry rfl)
  unfold assignedGradeIndex
  rw [List.findIdx?_isSome, List.any_eq_true]
  refine ⟨label, h.2 label hkey, ?_⟩
  rw [hlookup]
  exact decide_eq_true hvalue

end Labels

section Steps

variable {s s' : ConfigDb}

theorem findCommodity_eq {tenantId id : Id} {c : CommodityRow}
    (h : s.findCommodity tenantId id = some c) : s.commodities.find id = some c :=
  (Option.filter_eq_some_iff.mp h).1

theorem createParameter_ok {p : ParameterRow} :
    s.createParameter p = .ok s' ↔ s.commodities.find p.commodityId ≠ none ∧
      ∃ parameters, createRow s.parameters p p.Clashes = .ok parameters ∧
        s' = { s with parameters } := by
  unfold ConfigDb.createParameter
  simp only [bind_ok, Call.throwIf_ok, Call.mapError_ok, exists_const]
  apply and_congr_right
  intro _
  apply exists_congr
  intro parameters
  apply and_congr_right
  intro _
  exact ⟨fun h => (Except.ok.inj h).symm, fun h => congrArg _ h.symm⟩

/-- A new commodity comes without parameters. -/
theorem ConfigComplete.createCommodity {id tenantId : Id} {name : String} {dto : CommodityDto}
    (h : ConfigComplete s) (hok : createCommodity s id tenantId name dto = .ok s') :
    ConfigComplete s' := by
  unfold Deposits.createCommodity at hok
  simp only [bind_ok, Call.mapError_ok] at hok
  obtain ⟨commodities, hcreated, hs'⟩ := hok
  obtain rfl := Except.ok.inj hs'
  intro p hp
  obtain ⟨c, hc, hcomplete⟩ := h p hp
  exact ⟨c, Table.find_insert_of_find (createRow_ok.mp hcreated).2 hc, hcomplete⟩

/-- A new parameter keeps the configuration complete exactly if it is complete itself. -/
theorem ConfigComplete.createParameter {p : ParameterRow} (h : ConfigComplete s)
    (hok : s.createParameter p = .ok s') :
    ConfigComplete s' ↔ ∀ c ∈ s.commodities.find p.commodityId,
      p.thresholds.Complete c.numberOfGrades := by
  obtain ⟨howner, parameters, hcreated, rfl⟩ := createParameter_ok.mp hok
  have hinsert := (createRow_ok.mp hcreated).2
  obtain ⟨c, hc⟩ := Option.ne_none_iff_exists'.mp howner
  constructor
  · intro hafter c' hc'
    obtain ⟨c'', hc'', hcomplete⟩ := hafter p ((Table.mem_insert hinsert).mpr (.inr rfl))
    obtain rfl := Option.some_inj.mp (hc'.symm.trans hc'')
    exact hcomplete
  · intro hcomplete p' hp'
    rcases (Table.mem_insert hinsert).mp hp' with hold | rfl
    · exact h p' hold
    · exact ⟨c, hc, hcomplete c hc⟩

/-- Without one of its parameters the configuration is still complete. -/
theorem ConfigComplete.remove (h : ConfigComplete s) (id : Id) :
    ConfigComplete { s with parameters := s.parameters.remove id } :=
  fun p hp => h p (Table.mem_remove.mp hp).1

/-- A changed parameter keeps the configuration complete exactly if its thresholds are complete
for its commodity. -/
theorem ConfigComplete.updateParameter {id : Id} {dto : ParameterDto} (h : ConfigComplete s)
    (hok : s.updateParameter id dto = .ok s') :
    ConfigComplete s' ↔ (dto.Relabels → ∀ p ∈ s.parameters.find id,
      ∀ c ∈ s.commodities.find (dto.commodityId.getD p.commodityId),
        (dto.thresholds.getD p.thresholds).Complete c.numberOfGrades) := by
  unfold ConfigDb.updateParameter at hok
  simp only [bind_ok, Call.orThrow_ok] at hok
  obtain ⟨p, hfind, hcreated⟩ := hok
  refine ((h.remove id).createParameter hcreated).trans ?_
  simp only [ParameterDto.apply_commodityId, ParameterDto.apply_thresholds]
  constructor
  · intro hcomplete _ p' hp'
    obtain rfl := Option.some_inj.mp (hfind.symm.trans hp')
    exact hcomplete
  · intro hcomplete c hc
    by_cases hrelabels : dto.Relabels
    · exact hcomplete hrelabels p hfind c hc
    · -- the body leaves both as they are
      obtain ⟨hthresholds, hcommodity⟩ := not_or.mp hrelabels
      rw [not_not] at hthresholds hcommodity
      rw [hcommodity] at hc
      rw [hthresholds]
      obtain ⟨c', hc', hbefore⟩ := h p (Table.mem_of_find hfind)
      obtain rfl := Option.some_inj.mp (hc.symm.trans hc')
      exact hbefore

/-- The commodities behind an update: the one that was written, and the others. -/
theorem updateCommodity_ok {c : CommodityRow} {dto : CommodityDto}
    (hok : s.updateCommodity c dto = .ok s') :
    s'.commodities.find (dto.apply c).id = some (dto.apply c) ∧
      (∀ id c', id ≠ c.id → s.commodities.find id = some c' →
        s'.commodities.find id = some c') ∧
      s'.parameters = s.parameters.modifyWhere (fun p => p.commodityId = c.id) fun p =>
        { p with commodityId := (dto.apply c).id } := by
  unfold ConfigDb.updateCommodity at hok
  simp only [bind_ok, Call.mapError_ok] at hok
  obtain ⟨commodities, hcreated, hs'⟩ := hok
  obtain rfl := Except.ok.inj hs'
  have hinsert := (createRow_ok.mp hcreated).2
  refine ⟨Table.find_insert_self hinsert, ?_, rfl⟩
  intro id c' hne hc'
  exact Table.find_insert_of_find hinsert ((Table.find_remove_of_ne hne).trans hc')

/-- A changed commodity keeps the configuration complete exactly if it has no parameters or
as many grades as before. -/
theorem ConfigComplete.updateCommodity {tenantId id : Id} {dto : CommodityDto}
    (h : ConfigComplete s) (hok : updateCommodity s tenantId id dto = .ok s') :
    ConfigComplete s' ↔ KeepsLabels (.updateCommodity tenantId id dto) s := by
  unfold Deposits.updateCommodity at hok
  simp only [bind_ok, Call.orThrow_ok] at hok
  obtain ⟨c, hcommodity, hupdated⟩ := hok
  have hc : s.commodities.find id = some c := findCommodity_eq hcommodity
  obtain rfl : c.id = id := Table.key_of_find hc
  obtain ⟨hself, hothers, hparameters⟩ := updateCommodity_ok hupdated
  constructor
  · intro hafter n hn c' hc'
    obtain rfl := Option.some_inj.mp (hc.symm.trans hc')
    rw [or_iff_not_imp_right]
    intro howns
    push Not at howns
    obtain ⟨p, hp, howner⟩ := howns
    obtain ⟨old, hold, hcomplete⟩ := h p hp
    have hmoved : { p with commodityId := (dto.apply c).id } ∈ s'.parameters.rows := by
      rw [hparameters]
      exact List.mem_map.mpr ⟨p, hp, if_pos howner⟩
    obtain ⟨new, hnew, hcomplete'⟩ := hafter _ hmoved
    rw [howner] at hold
    obtain rfl := Option.some_inj.mp (hc.symm.trans hold)
    obtain rfl := Option.some_inj.mp (hself.symm.trans hnew)
    rw [CommodityDto.apply_numberOfGrades, Option.mem_def.mp hn] at hcomplete'
    exact hcomplete'.grades_eq hcomplete
  · intro hkeeps p' hp'
    rw [hparameters] at hp'
    obtain ⟨p, hp, rfl⟩ := List.mem_map.mp hp'
    obtain ⟨old, hold, hcomplete⟩ := h p hp
    by_cases howner : p.commodityId = c.id
    · rw [if_pos howner]
      rw [howner] at hold
      obtain rfl := Option.some_inj.mp (hc.symm.trans hold)
      refine ⟨dto.apply c, hself, hcomplete.congr ?_⟩
      rw [CommodityDto.apply_numberOfGrades]
      cases hn : dto.numberOfGrades with
      | none => rfl
      | some n =>
          rcases hkeeps n hn c hc with hsame | hnone
          · exact hsame
          · exact absurd howner (hnone p hp)
    · rw [if_neg howner]
      exact ⟨old, hothers _ old howner hold, hcomplete⟩

/-- A request that goes through keeps the configuration complete exactly if it keeps to the
labels. -/
theorem ConfigComplete.step {request : ConfigRequest} (h : ConfigComplete s)
    (hok : request.call s = .ok s') : ConfigComplete s' ↔ KeepsLabels request s := by
  cases request with
  | createCommodity id tenantId name dto =>
      exact iff_of_true (h.createCommodity hok) trivial
  | updateCommodity tenantId id dto => exact h.updateCommodity hok
  | addParameter id tenantId commodityId name isDefective thresholds =>
      simp only [ConfigRequest.call, Deposits.addParameter, bind_ok, Call.throwIf_ok,
        Call.orThrow_ok, not_not, List.filter_eq_nil_iff] at hok
      obtain ⟨c, hcommodity, _, hmissing, _, hextra, hcreated⟩ := hok
      refine iff_of_true ((h.createParameter hcreated).mpr ?_) trivial
      intro c' hc'
      obtain rfl := Option.some_inj.mp ((findCommodity_eq hcommodity).symm.trans hc')
      exact ⟨by simpa using hmissing, by simpa using hextra⟩
  | updateParameter tenantId parameterId dto =>
      simp only [ConfigRequest.call, Deposits.updateParameter, bind_ok, Call.orThrow_ok] at hok
      obtain ⟨_, -, hupdated⟩ := hok
      exact h.updateParameter hupdated
  | deleteParameter tenantId parameterId =>
      simp only [ConfigRequest.call, Deposits.deleteParameter, bind_ok, Call.orThrow_ok] at hok
      obtain ⟨_, -, hs'⟩ := hok
      obtain rfl := Except.ok.inj hs'
      exact iff_of_true (h.remove parameterId) trivial
  | upsertGradingParameter id tenantId commodityId name isDefective thresholds =>
      simp only [ConfigRequest.call, Deposits.upsertGradingParameter] at hok
      split at hok
      · rename_i p hfound
        have hp : s.parameters.find p.id = some p :=
          Table.find_of_mem (List.mem_of_find?_eq_some hfound)
        have hslot : p.commodityId = commodityId ∧ p.name = name := by
          simpa using List.find?_some hfound
        refine (h.updateParameter hok).trans ?_
        simp [KeepsLabels, ParameterDto.Relabels, hp, hslot.1]
      · exact h.createParameter hok

end Steps

end SecureStore.Deposits
