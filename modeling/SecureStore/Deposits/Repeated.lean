/-
# Edits that change nothing

An edit compares each field that it names with the loaded receipt, writes those that differ,
and leaves a row in the log of activities and notifications behind. When no field differs it
does nothing at all. The comparison is that of the runtime: strings, numbers and times by
value, objects by identity. The stored quantity is a decimal and the scores are a document,
so these two differ from any value that an edit brings.
-/

import SecureStore.Deposits.Graded

namespace SecureStore.Deposits

open SecureStore.Foundation SecureStore.Inventory

/-! ## Comparing fields -/

/-- A value of the runtime. An id is a string, an object is known by its address, and a date is
compared by its ISO text, which determines the time. -/
inductive JsValue where
  | undefined
  | null
  | number (x : ℚ)
  | string (s : String)
  | id (id : Id)
  | date (time : Timestamp)
  | object (address : ℕ)
  deriving DecidableEq, Repr

namespace JsValue

/-- A column that may be null. -/
def nullable {α : Type} (f : α → JsValue) : Option α → JsValue
  | none => null
  | some a => f a

/-- A property that may be missing. -/
def optional {α : Type} (f : α → JsValue) : Option α → JsValue
  | none => undefined
  | some a => f a

end JsValue

inductive EditField where
  | quantity
  | commodityId
  | warehouseId
  | grade
  | dateOfDeposit
  | gradingScores
  | computedGrade
  | totalDefectivePct
  | standardDeductionPct
  deriving DecidableEq, Repr

/-- The fields in the order in which they are compared. -/
def EditField.all : List EditField :=
  [.quantity, .commodityId, .warehouseId, .grade, .dateOfDeposit, .gradingScores, .computedGrade,
    .totalDefectivePct, .standardDeductionPct]

/-- `receipt[key]`. The quantity is a decimal of the loaded row, the scores a document of it. -/
def EditableDepositReceipt.current (loaded : EditableDepositReceipt) : EditField → JsValue
  | .quantity => .object 0
  | .commodityId => .id loaded.receipt.commodityId
  | .warehouseId => .id loaded.receipt.warehouseId
  | .grade => .nullable .string loaded.receipt.grade
  | .dateOfDeposit => .date loaded.receipt.dateOfDeposit
  | .gradingScores => .nullable (fun _ => .object 1) loaded.columns.gradingScores
  | .computedGrade => .nullable .string loaded.columns.computedGrade
  | .totalDefectivePct => .nullable .number loaded.columns.totalDefectivePct
  | .standardDeductionPct => .nullable .number loaded.columns.standardDeductionPct

/-- What an edit hands to `setIfChanged`; new scores are a new object, and the last four fields
are only compared when there are some. -/
def EditDepositDto.incoming (dto : EditDepositDto) (receipt : Receipt)
    (scored : Option GradingScores) : EditField → JsValue
  | .quantity => .optional .number dto.quantity
  | .commodityId => .optional .id dto.commodityId
  | .warehouseId => .optional .id dto.warehouseId
  | .grade =>
      if scored = none then .nullable .string (nextGrade receipt dto scored)
      else .optional .string (nextGrade receipt dto scored)
  | .dateOfDeposit => .optional .date dto.dateOfDeposit
  | .gradingScores => .optional (fun _ => .object 2) scored
  | .computedGrade => .optional .string (scored.bind GradingScores.computedGrade)
  | .totalDefectivePct => .optional .number (scored.map GradingScores.totalDefectivePct)
  | .standardDeductionPct => .optional .number (scored.map GradingScores.standardDeductionPct)

/-- `setIfChanged` records the field. -/
def Changed (loaded : EditableDepositReceipt) (dto : EditDepositDto)
    (scored : Option GradingScores) (field : EditField) : Prop :=
  dto.incoming loaded.receipt scored field ≠ .undefined ∧
    loaded.current field ≠ dto.incoming loaded.receipt scored field

instance (loaded : EditableDepositReceipt) (dto : EditDepositDto)
    (scored : Option GradingScores) : DecidablePred (Changed loaded dto scored) :=
  fun _ => inferInstanceAs (Decidable (_ ∧ _))

/-- `Object.keys(beforeAfter)` -/
def changedFields (loaded : EditableDepositReceipt) (dto : EditDepositDto)
    (scored : Option GradingScores) : List EditField :=
  EditField.all.filter fun field => Changed loaded dto scored field

/-- A field is part of the update. -/
def UpdateData.Sets (data : UpdateData) : EditField → Prop
  | .quantity => data.quantity ≠ none
  | .commodityId => data.commodityId ≠ none
  | .warehouseId => data.warehouseId ≠ none
  | .grade => data.grade ≠ none
  | .dateOfDeposit => data.dateOfDeposit ≠ none
  | .gradingScores => data.gradingScores ≠ none
  | .computedGrade => data.computedGrade ≠ none
  | .totalDefectivePct => data.totalDefectivePct ≠ none
  | .standardDeductionPct => data.standardDeductionPct ≠ none

/-! ## What an edit leaves behind -/

inductive ActorKind where
  | wm
  | ta
  deriving DecidableEq, Repr

/-- A row of the activity log. -/
structure ActivityLog where
  tenantId : Id
  userId : Id
  action : String
  entityType : String
  entityId : Id
  actorKind : ActorKind
  stateAtEdit : ReceiptStatus
  /-- Each changed field, from and to. -/
  changes : List (EditField × JsValue × JsValue)
  gradeOverridden : Bool
  editReason : Option String
  deriving DecidableEq, Repr

structure EditNotification where
  type : String
  title : String
  body : String
  relatedEntityType : String
  relatedEntityId : Id
  changedFields : List EditField
  deriving DecidableEq, Repr

inductive EditEffect where
  | updateReceipt (id : Id) (data : UpdateData)
  | logActivity (row : ActivityLog)
  | notifyTenantAdmins (tenantId : Id) (notification : EditNotification)
  | notifyUser (userId tenantId : Id) (notification : EditNotification)

structure DepositEdit where
  tenantId : Id
  loaded : EditableDepositReceipt
  dto : EditDepositDto
  editReason : Option String
  actorUserId : Id
  actorKind : ActorKind

namespace DepositEdit

variable (edit : DepositEdit) (scored : Option GradingScores)

def receipt : Receipt := edit.loaded.receipt

/-- A notification about the receipt. -/
def notification (type title body : String) : EditNotification where
  type := type
  title := title
  body := String.ofList edit.receipt.receiptNumber ++ body
  relatedEntityType := "receipt"
  relatedEntityId := edit.receipt.id
  changedFields := changedFields edit.loaded edit.dto scored

/-- The manager who filed the deposit, unless he edits it himself. -/
def filingWm (events : Table InventoryEvent) : Option Id :=
  ((events.rows.find? fun e => e.fromReceiptId = edit.receipt.id ∧ e.eventType = .deposit).bind
    InventoryEvent.actorUserId).filter fun userId => userId ≠ edit.actorUserId

def notifications (events : Table InventoryEvent) : List EditEffect :=
  if edit.receipt.status = .pendingApproval then
    [.notifyTenantAdmins edit.tenantId (edit.notification scored "DEPOSIT_PENDING_APPROVAL"
      "Pending deposit updated" ": deposit details edited prior to approval.")]
  else
    .notifyUser edit.receipt.clientId edit.tenantId (edit.notification scored "DEPOSIT_APPROVED"
      "Your approved deposit was edited"
      (": a tenant admin updated this receipt's details. " ++
        "View the receipt to see the changes.")) ::
    (edit.filingWm events).toList.map fun userId =>
      .notifyUser userId edit.tenantId (edit.notification scored "DEPOSIT_APPROVED"
        "A deposit you filed was edited"
        ": a tenant admin corrected details on this receipt.")

def activity : ActivityLog where
  tenantId := edit.tenantId
  userId := edit.actorUserId
  action := "RECEIPT_DEPOSIT_EDITED"
  entityType := "Receipt"
  entityId := edit.receipt.id
  actorKind := edit.actorKind
  stateAtEdit := edit.receipt.status
  changes := (changedFields edit.loaded edit.dto scored).map fun field =>
    (field, edit.loaded.current field, edit.dto.incoming edit.receipt scored field)
  gradeOverridden := edit.dto.grade ≠ none ∧ edit.dto.grade ≠ some ""
  editReason := edit.editReason

/-- The effects of an edit once its sample is scored. -/
def effects (events : Table InventoryEvent) : List EditEffect :=
  if changedFields edit.loaded edit.dto scored = [] then []
  else
    .updateReceipt edit.receipt.id
        (updateData edit.receipt edit.loaded.columns edit.dto scored) ::
      .logActivity (edit.activity scored) :: edit.notifications scored events

/-- `applyDepositEdit`, with all that it writes and sends. -/
def apply (plus : ℚ → ℚ → ℚ) (s : Desk) : Except DeskError (List EditEffect) := do
  let commodity ← ((destCommodity edit.tenantId edit.loaded edit.dto).exec s).1
  ((assertAccepted edit.loaded edit.dto commodity).exec s).1
  let scored ← rescore plus commodity edit.dto
  pure (edit.effects scored s.ledger.events)

end DepositEdit

/-- The effects on the desk; the log and the notifications are no part of it. -/
def performAll (num : Numeric) : List EditEffect → Desk → Except DeskError Unit × Desk
  | [], s => (.ok (), s)
  | .updateReceipt id data :: rest, s =>
      match Desk.updateReceipt num id data s with
      | .error e => (.error e, s)
      | .ok (_, s') => performAll num rest s'
  | _ :: rest, s => performAll num rest s

/-- How an edit ends on the desk. -/
def outcome (num : Numeric) (result : Except DeskError (List EditEffect)) (s : Desk) :
    Except DeskError Unit × Desk :=
  match result with
  | .error e => (.error e, s)
  | .ok effects => performAll num effects s

/-! ## The update is what changed -/

section Changes

variable {loaded : EditableDepositReceipt} {dto : EditDepositDto} {scored : Option GradingScores}

theorem setIfChanged_ne_none {α : Type} [DecidableEq α] {current next : Option α} :
    setIfChanged current next ≠ none ↔ next ≠ none ∧ next ≠ current := by
  unfold setIfChanged
  split
  · rename_i hsame
    simp [hsame]
  · rename_i hdiffers
    simp [hdiffers]

/-- Different values differ, and from what is missing. -/
structure JsValue.Proper {α : Type} (f : α → JsValue) : Prop where
  injective : Function.Injective f
  undefined : ∀ a, f a ≠ .undefined
  null : ∀ a, f a ≠ .null

/-- A property is recorded when it is there and is not the value of the column. -/
theorem recorded_iff {α : Type} [DecidableEq α] {f : α → JsValue} (hf : JsValue.Proper f)
    (current next : Option α) :
    (JsValue.optional f next ≠ .undefined ∧ JsValue.nullable f current ≠ .optional f next) ↔
      setIfChanged current next ≠ none := by
  rw [setIfChanged_ne_none]
  cases next with
  | none => simp [JsValue.optional]
  | some a =>
      cases current with
      | none => simp [JsValue.optional, JsValue.nullable, hf.undefined, (hf.null a).symm]
      | some b =>
          simp [JsValue.optional, JsValue.nullable, hf.undefined, hf.injective.eq_iff, eq_comm]

/-- A grade that falls back on the stored one is recorded when it differs. -/
theorem recorded_grade {f : String → JsValue} (hf : JsValue.Proper f) 
    {current given : Option String} :
    (JsValue.nullable f (given.or current) ≠ .undefined ∧
        JsValue.nullable f current ≠ .nullable f (given.or current)) ↔
      setIfChanged current (given.or current) ≠ none := by
  cases given with
  | none =>
      rw [setIfChanged_ne_none]
      simp
  | some a =>
      exact recorded_iff hf current (some a)

theorem proper_id : JsValue.Proper .id :=
  ⟨fun _ _ h => JsValue.id.inj h, by simp, by simp⟩

theorem proper_string : JsValue.Proper .string :=
  ⟨fun _ _ h => JsValue.string.inj h, by simp, by simp⟩

theorem proper_number : JsValue.Proper .number :=
  ⟨fun _ _ h => JsValue.number.inj h, by simp, by simp⟩

theorem proper_date : JsValue.Proper .date :=
  ⟨fun _ _ h => JsValue.date.inj h, by simp, by simp⟩

/-- The update sets the fields that `setIfChanged` records. -/
theorem changed_iff_sets (field : EditField) : Changed loaded dto scored field ↔
    (updateData loaded.receipt loaded.columns dto scored).Sets field := by
  cases field with
  | quantity =>
      change JsValue.optional .number dto.quantity ≠ .undefined ∧
        JsValue.object 0 ≠ .optional .number dto.quantity ↔ dto.quantity ≠ none
      -- a decimal is no number
      cases dto.quantity <;> simp [JsValue.optional]
  | commodityId =>
      exact recorded_iff proper_id (some loaded.receipt.commodityId) dto.commodityId
  | warehouseId =>
      exact recorded_iff proper_id (some loaded.receipt.warehouseId) dto.warehouseId
  | dateOfDeposit =>
      exact recorded_iff proper_date (some loaded.receipt.dateOfDeposit) dto.dateOfDeposit
  | grade =>
      cases scored with
      | none => exact recorded_grade proper_string
      | some scores => exact recorded_iff proper_string _ _
  | gradingScores =>
      change JsValue.optional (fun _ => .object 2) scored ≠ .undefined ∧
        JsValue.nullable (fun _ => .object 1) loaded.columns.gradingScores ≠
          .optional (fun _ => .object 2) scored ↔ scored ≠ none
      -- new scores are a new object
      cases scored <;> cases loaded.columns.gradingScores <;>
        simp [JsValue.optional, JsValue.nullable]
  | computedGrade =>
      cases scored with
      | none => exact iff_of_false (fun h => h.1 rfl) fun h => h rfl
      | some scores => exact recorded_iff proper_string _ scores.computedGrade
  | totalDefectivePct =>
      cases scored with
      | none => exact iff_of_false (fun h => h.1 rfl) fun h => h rfl
      | some scores =>
          exact recorded_iff proper_number loaded.columns.totalDefectivePct
            (some scores.totalDefectivePct)
  | standardDeductionPct =>
      cases scored with
      | none => exact iff_of_false (fun h => h.1 rfl) fun h => h rfl
      | some scores =>
          exact recorded_iff proper_number loaded.columns.standardDeductionPct
            (some scores.standardDeductionPct)

theorem mem_changedFields {field : EditField} :
    field ∈ changedFields loaded dto scored ↔ Changed loaded dto scored field := by
  have hall : field ∈ EditField.all := by
    cases field <;> decide
  simp [changedFields, hall]

/-- Nothing is written exactly when no field changed. -/
theorem updateData_eq_empty_iff :
    updateData loaded.receipt loaded.columns dto scored = {} ↔
      changedFields loaded dto scored = [] := by
  have hempty : ∀ data : UpdateData, data = {} ↔ ∀ field, ¬ data.Sets field := by
    intro data
    constructor
    · rintro rfl field
      cases field <;> simp [UpdateData.Sets]
    · intro h
      obtain ⟨quantity, commodityId, warehouseId, grade, dateOfDeposit, gradingScores,
        computedGrade, totalDefectivePct, standardDeductionPct⟩ := data
      rw [UpdateData.mk.injEq]
      exact ⟨not_ne_iff.mp (h .quantity), not_ne_iff.mp (h .commodityId),
        not_ne_iff.mp (h .warehouseId), not_ne_iff.mp (h .grade),
        not_ne_iff.mp (h .dateOfDeposit), not_ne_iff.mp (h .gradingScores),
        not_ne_iff.mp (h .computedGrade), not_ne_iff.mp (h .totalDefectivePct),
        not_ne_iff.mp (h .standardDeductionPct)⟩
  rw [hempty, List.eq_nil_iff_forall_not_mem]
  exact forall_congr' fun field => not_congr (changed_iff_sets field).symm |>.trans
    (not_congr mem_changedFields).symm

end Changes

/-! ## What a whole edit does -/

/-- The fields of the receipt that an edit names are as it says. -/
structure NamesSame (receipt : Receipt) (dto : EditDepositDto) : Prop where
  commodityId : ∀ id ∈ dto.commodityId, id = receipt.commodityId
  warehouseId : ∀ id ∈ dto.warehouseId, id = receipt.warehouseId
  grade : ∀ grade ∈ dto.grade, receipt.grade = some grade
  dateOfDeposit : ∀ date ∈ dto.dateOfDeposit, date = receipt.dateOfDeposit

/-- Every field that an edit names has the value that the receipt has, and the measurements are
the stored ones, which score as they did. -/
structure Denotes (plus : ℚ → ℚ → ℚ) (loaded : EditableDepositReceipt) (dto : EditDepositDto) :
    Prop extends NamesSame loaded.receipt dto where
  quantity : ∀ q ∈ dto.quantity, q = loaded.receipt.quantity
  measurements : ∀ measurements ∈ dto.measurements, ∃ scores,
    gradeMeasurements plus loaded.commodity measurements = .ok scores ∧
      loaded.columns = ⟨some scores, scores.computedGrade, some scores.totalDefectivePct,
        some scores.standardDeductionPct⟩ ∧
      nextGrade loaded.receipt dto (some scores) = loaded.receipt.grade

section Edit

variable {num : Numeric} {plus : ℚ → ℚ → ℚ} {s s' : Desk} {edit : DepositEdit}

theorem performAll_notifications {scored : Option GradingScores}
    {events : Table InventoryEvent} :
    performAll num (edit.notifications scored events) s = (.ok (), s) := by
  unfold DepositEdit.notifications
  split
  · rfl
  · cases edit.filingWm events <;> rfl

/-- The checks of an edit only read. -/
theorem destCommodity_exec : ∃ r,
    (destCommodity edit.tenantId edit.loaded edit.dto).exec s = (r, s) := by
  unfold destCommodity
  split
  · exact ⟨_, rfl⟩
  · split
    · exact ⟨_, rfl⟩
    · rename_i commodityId _ _
      rw [Attempt.exec_bind_ok (Attempt.exec_read _ _ s)]
      cases s.findCommodity commodityId edit.tenantId with
      | none => exact ⟨_, Attempt.exec_orThrow_none _ s⟩
      | some commodity => exact ⟨_, Attempt.exec_orThrow_some commodity _ s⟩

theorem assertAccepted_exec (commodity : Commodity) : ∃ r,
    (assertAccepted edit.loaded edit.dto commodity).exec s = (r, s) := by
  unfold assertAccepted
  split
  · exact ⟨_, rfl⟩
  · split
    · exact ⟨_, rfl⟩
    · rw [Attempt.exec_bind_ok (Attempt.exec_read _ _ s), Attempt.exec_throwIf]
      split
      · exact ⟨_, rfl⟩
      · exact ⟨_, rfl⟩

/-- The write of an edit, if there is one. -/
theorem update_exec (scored : Option GradingScores) :
    (if updateData edit.receipt edit.loaded.columns edit.dto scored = {} then pure ()
      else Attempt.write (.updateReceipt edit.receipt.id
          (updateData edit.receipt edit.loaded.columns edit.dto scored))
        (Desk.updateReceipt num edit.receipt.id
          (updateData edit.receipt edit.loaded.columns edit.dto scored)) : DeskApi Unit).exec s =
      performAll num (edit.effects scored s.ledger.events) s := by
  unfold DepositEdit.effects
  by_cases hsame : changedFields edit.loaded edit.dto scored = []
  · rw [if_pos hsame]
    simp only [DepositEdit.receipt, updateData_eq_empty_iff.mpr hsame, if_true]
    rfl
  · rw [if_neg hsame]
    simp only [DepositEdit.receipt, mt updateData_eq_empty_iff.mp hsame, if_false]
    rw [Attempt.exec_write, performAll]
    cases Desk.updateReceipt num edit.loaded.receipt.id
        (updateData edit.loaded.receipt edit.loaded.columns edit.dto scored) s with
    | error e => rfl
    | ok done => exact performAll_notifications.symm

/-- The request of the desk does to the desk what the effects of the edit say. -/
theorem applyDepositEdit_exec :
    (applyDepositEdit num plus edit.tenantId edit.loaded edit.dto).exec s =
      outcome num (edit.apply plus s) s := by
  obtain ⟨destination, hdestination⟩ := @destCommodity_exec s edit
  unfold applyDepositEdit DepositEdit.apply
  cases destination with
  | error e =>
      rw [Attempt.exec_bind_error hdestination, hdestination]
      rfl
  | ok commodity =>
      obtain ⟨accepted, haccepted⟩ := @assertAccepted_exec s edit commodity
      rw [Attempt.exec_bind_ok hdestination, hdestination]
      cases accepted with
      | error e =>
          rw [Attempt.exec_bind_error haccepted]
          simp only [bind, Except.bind, haccepted]
          rfl
      | ok _ =>
          rw [Attempt.exec_bind_ok haccepted]
          cases hscored : rescore plus commodity edit.dto with
          | error e =>
              rw [Attempt.exec_bind_error (Attempt.exec_ofExcept _ s)]
              simp only [bind, Except.bind, haccepted, hscored]
              rfl
          | ok scored =>
              rw [Attempt.exec_bind_ok (Attempt.exec_ofExcept _ s)]
              refine (@update_exec num s edit scored).trans ?_
              simp only [bind, Except.bind, haccepted, hscored]
              rfl

/-- The commodity that an edit leads to is on file. -/
theorem destCommodity_found {commodity : Commodity}
    (hloaded : s.commodities.find edit.receipt.commodityId = some edit.loaded.commodity)
    (h : (destCommodity edit.tenantId edit.loaded edit.dto).exec s = (.ok commodity, s)) :
    s.commodities.find (edit.dto.commodityId.getD edit.receipt.commodityId) = some commodity := by
  unfold destCommodity at h
  cases hdto : edit.dto.commodityId with
  | none =>
      rw [hdto] at h
      cases h
      exact hloaded
  | some commodityId =>
      rw [hdto] at h
      dsimp only at h
      split at h
      · rename_i hsame
        cases h
        rw [Option.getD_some, hsame]
        exact hloaded
      · rw [Attempt.exec_bind_ok (Attempt.exec_read _ _ s)] at h
        cases hfound : s.findCommodity commodityId edit.tenantId with
        | none =>
            rw [hfound, Attempt.exec_orThrow_none] at h
            cases h
        | some c =>
            rw [hfound, Attempt.exec_orThrow_some] at h
            cases h
            exact (findCommodity_eq_some.mp hfound).1

/-- What an edit that passes its checks has found. -/
theorem apply_ok {effects : List EditEffect}
    (hloaded : s.commodities.find edit.receipt.commodityId = some edit.loaded.commodity)
    (h : edit.apply plus s = .ok effects) : ∃ commodity scored,
      s.commodities.find (edit.dto.commodityId.getD edit.receipt.commodityId) = some commodity ∧
        rescore plus commodity edit.dto = .ok scored ∧
          effects = edit.effects scored s.ledger.events := by
  obtain ⟨destination, hdestination⟩ := @destCommodity_exec s edit
  unfold DepositEdit.apply at h
  rw [hdestination] at h
  cases destination with
  | error e => cases h
  | ok commodity =>
      obtain ⟨accepted, haccepted⟩ := @assertAccepted_exec s edit commodity
      simp only [bind, Except.bind, haccepted] at h
      cases accepted with
      | error e => cases h
      | ok _ =>
          dsimp only at h
          cases hscored : rescore plus commodity edit.dto with
          | error e =>
              rw [hscored] at h
              cases h
          | ok scored =>
              rw [hscored] at h
              cases h
              exact ⟨commodity, scored, destCommodity_found hloaded hdestination, hscored, rfl⟩

/-- An edit that stays with the commodity and the warehouse passes its checks. -/
theorem apply_stays {scored : Option GradingScores}
    (hcommodity : ∀ id ∈ edit.dto.commodityId, id = edit.receipt.commodityId)
    (hwarehouse : ∀ id ∈ edit.dto.warehouseId, id = edit.receipt.warehouseId)
    (hscored : rescore plus edit.loaded.commodity edit.dto = .ok scored) :
    edit.apply plus s = .ok (edit.effects scored s.ledger.events) := by
  have hdestination : (destCommodity edit.tenantId edit.loaded edit.dto).exec s =
      (.ok edit.loaded.commodity, s) := by
    unfold destCommodity
    cases hdto : edit.dto.commodityId with
    | none => rfl
    | some id =>
        dsimp only
        rw [if_pos (show id = edit.loaded.receipt.commodityId from hcommodity id hdto)]
        rfl
  have haccepted : (assertAccepted edit.loaded edit.dto edit.loaded.commodity).exec s =
      (.ok (), s) := by
    unfold assertAccepted
    cases hdto : edit.dto.warehouseId with
    | none => rfl
    | some id =>
        dsimp only
        rw [if_pos (show id = edit.loaded.receipt.warehouseId from hwarehouse id hdto)]
        rfl
  unfold DepositEdit.apply
  simp only [bind, Except.bind, hdestination, haccepted, hscored]
  rfl

theorem effects_eq_nil_iff {scored : Option GradingScores} {events : Table InventoryEvent} :
    edit.effects scored events = [] ↔ changedFields edit.loaded edit.dto scored = [] := by
  unfold DepositEdit.effects
  split
  · rename_i hsame
    simp [hsame]
  · rename_i hdiffers
    simp [hdiffers]

/-- A quantity and scores are always recorded. -/
theorem unchanged_brings {scored : Option GradingScores}
    (h : changedFields edit.loaded edit.dto scored = []) :
    edit.dto.quantity = none ∧ scored = none := by
  have hnot : ∀ field, ¬ (updateData edit.loaded.receipt edit.loaded.columns edit.dto
      scored).Sets field := by
    intro field hsets
    have hmem := mem_changedFields.mpr ((changed_iff_sets field).mpr hsets)
    rw [h] at hmem
    cases hmem
  exact ⟨not_ne_iff.mp (hnot .quantity), not_ne_iff.mp (hnot .gradingScores)⟩

theorem setIfChanged_eq_none {α : Type} [DecidableEq α] {current : α} {next : Option α}
    (h : ∀ a ∈ next, a = current) : setIfChanged (some current) next = none := by
  by_contra hsets
  obtain ⟨hsome, hdiffers⟩ := setIfChanged_ne_none.mp hsets
  obtain ⟨a, rfl⟩ := Option.ne_none_iff_exists'.mp hsome
  exact hdiffers (congrArg some (h a rfl))

/-- Without a quantity and scores, an edit of what is there already changes nothing. -/
theorem unchanged_of_same (hquantity : edit.dto.quantity = none)
    (h : NamesSame edit.receipt edit.dto) : changedFields edit.loaded edit.dto none = [] := by
  apply updateData_eq_empty_iff.mp
  have hnext : setIfChanged edit.receipt.grade (nextGrade edit.receipt edit.dto none) = none := by
    have hstored : nextGrade edit.receipt edit.dto none = edit.receipt.grade := by
      simp only [nextGrade]
      cases hdto : edit.dto.grade with
      | none => rfl
      | some grade => exact (h.grade grade hdto).symm
    rw [hstored]
    exact if_pos rfl
  unfold updateData
  rw [UpdateData.mk.injEq]
  exact ⟨hquantity, setIfChanged_eq_none h.commodityId, setIfChanged_eq_none h.warehouseId, hnext,
    setIfChanged_eq_none h.dateOfDeposit, rfl, rfl, rfl, rfl⟩

theorem rescore_none {commodity : Commodity} (h : edit.dto.measurements = none) :
    rescore plus commodity edit.dto = .ok none := by
  unfold rescore
  rw [h]

theorem measurements_of_unscored {commodity : Commodity}
    (h : rescore plus commodity edit.dto = .ok none) : edit.dto.measurements = none := by
  rcases rescore_ok h with ⟨hnone, -⟩ | ⟨_, scores, _, hsome⟩
  · exact hnone
  · cases hsome

/-- The row of the receipt after an edit that succeeded. -/
def DepositEdit.edited (num : Numeric) (edit : DepositEdit) (scored : Option GradingScores) :
    Receipt :=
  (updateData edit.receipt edit.loaded.columns edit.dto scored).rewrite num edit.receipt

/-- After an edit the receipt is there as edited. -/
theorem find_performed {receiptId : Id} {scored : Option GradingScores}
    (hfind : s.ledger.receipts.find receiptId = some edit.receipt)
    (hperform : performAll num (edit.effects scored s.ledger.events) s = (.ok (), s')) :
    s'.ledger.receipts.find receiptId = some (edit.edited num scored) ∧
      s'.commodities = s.commodities := by
  have hid : edit.receipt.id = receiptId := Table.key_of_find hfind
  unfold DepositEdit.effects at hperform
  split at hperform
  · rename_i hsame
    obtain rfl : s = s' := (Prod.mk.inj hperform).2
    have hrow : edit.edited num scored = edit.receipt := by
      unfold DepositEdit.edited DepositEdit.receipt
      rw [updateData_eq_empty_iff.mpr hsame]
      rfl
    rw [hrow]
    exact ⟨hfind, rfl⟩
  · rw [performAll] at hperform
    cases hdone : Desk.updateReceipt num edit.receipt.id
        (updateData edit.receipt edit.loaded.columns edit.dto scored) s with
    | error e =>
        rw [hdone] at hperform
        cases hperform
    | ok done =>
        rw [hdone] at hperform
        dsimp only at hperform
        rw [performAll, performAll_notifications] at hperform
        · obtain rfl : done.2 = s' := (Prod.mk.inj hperform).2
          refine ⟨?_, ?_⟩
          · rw [find_updated hdone hfind, if_pos hid.symm]
            rfl
          · obtain ⟨-, hframe⟩ := updateReceipt_ok.mp hdone
            rw [hframe]
        · simp

/-- After an edit the receipt is loaded as edited, with the commodity that the edit led to. -/
theorem reload {receiptId : Id} {effects : List EditEffect}
    (hload : s.loadDepositForEdit edit.tenantId receiptId = some edit.loaded)
    (happly : edit.apply plus s = .ok effects)
    (hperform : performAll num effects s = (.ok (), s')) :
    ∃ scored loaded', rescore plus loaded'.commodity edit.dto = .ok scored ∧
      s'.loadDepositForEdit edit.tenantId receiptId = some loaded' ∧
      loaded'.receipt = edit.edited num scored := by
  obtain ⟨hfind, htenant, hcommodity, -⟩ := loadDepositForEdit_eq_some.mp hload
  obtain ⟨commodity, scored, hfound, hscored, rfl⟩ := apply_ok hcommodity happly
  obtain ⟨hfind', hcommodities⟩ := find_performed hfind hperform
  refine ⟨scored, ⟨edit.edited num scored, s'.grading receiptId, commodity⟩, hscored, ?_, rfl⟩
  refine loadDepositForEdit_eq_some.mpr ⟨hfind', htenant, ?_, rfl⟩
  rw [hcommodities]
  simpa [DepositEdit.edited, updateData] using hfound

theorem Denotes.rescored {loaded : EditableDepositReceipt} {dto : EditDepositDto}
    (h : Denotes plus loaded dto) : ∃ scored, rescore plus loaded.commodity dto = .ok scored := by
  unfold rescore
  cases hdto : dto.measurements with
  | none => exact ⟨_, rfl⟩
  | some measurements =>
      obtain ⟨scores, hscores, -⟩ := h.measurements measurements hdto
      exact ⟨some scores, by simp [hscores, Except.mapError, Except.map]⟩

/-- A receipt names what it was edited to. -/
theorem DepositEdit.same_of_edited {again : DepositEdit} (hdto : again.dto = edit.dto)
    (hedited : again.loaded.receipt = edit.edited num none) :
    NamesSame again.receipt again.dto := by
  unfold DepositEdit.receipt
  rw [hedited, hdto]
  constructor
  · intro id hid
    simp [DepositEdit.edited, updateData, Option.mem_def.mp hid]
  · intro id hid
    simp [DepositEdit.edited, updateData, Option.mem_def.mp hid]
  · intro grade hgrade
    simp [DepositEdit.edited, updateData, nextGrade, Option.mem_def.mp hgrade]
  · intro date hdate
    simp [DepositEdit.edited, updateData, Option.mem_def.mp hdate]

end Edit

/-! ## When an edit does nothing -/

/-- An edit that names what is there already does nothing exactly when it brings neither a
quantity nor measurements, and so does any edit when it is applied again. -/
theorem applyDepositEdit_noop_iff (plus : ℚ → ℚ → ℚ) :
    (∀ (s : Desk) (edit : DepositEdit), Denotes plus edit.loaded edit.dto →
      (edit.apply plus s = .ok [] ↔ edit.dto.quantity = none ∧ edit.dto.measurements = none)) ∧
      ∀ (num : Numeric) (s s' : Desk) (receiptId : Id) (edit : DepositEdit)
        (effects : List EditEffect),
        s.loadDepositForEdit edit.tenantId receiptId = some edit.loaded →
        edit.apply plus s = .ok effects → performAll num effects s = (.ok (), s') →
        ∃ loaded', s'.loadDepositForEdit edit.tenantId receiptId = some loaded' ∧
          ∀ again : DepositEdit, again.tenantId = edit.tenantId → again.dto = edit.dto →
            again.loaded = loaded' →
            (again.apply plus s' = .ok [] ↔
              edit.dto.quantity = none ∧ edit.dto.measurements = none) := by
  constructor
  · intro s edit h
    constructor
    · intro happly
      obtain ⟨scored, hscored⟩ := h.rescored
      rw [apply_stays h.commodityId h.warehouseId hscored] at happly
      obtain ⟨hquantity, rfl⟩ := unchanged_brings (effects_eq_nil_iff.mp (Except.ok.inj happly))
      exact ⟨hquantity, measurements_of_unscored hscored⟩
    · rintro ⟨hquantity, hmeasurements⟩
      rw [apply_stays h.commodityId h.warehouseId (rescore_none hmeasurements),
        effects_eq_nil_iff.mpr (unchanged_of_same hquantity h.toNamesSame)]
  · intro num s s' receiptId edit effects hload happly hperform
    obtain ⟨scored, loaded', hscored, hload', hedited⟩ := reload hload happly hperform
    refine ⟨loaded', hload', ?_⟩
    rintro again - hdto rfl
    rw [← hdto] at hscored ⊢
    constructor
    · intro hagain
      obtain ⟨-, -, hcommodity, -⟩ := loadDepositForEdit_eq_some.mp hload'
      obtain ⟨commodity, scored', -, hscored', hnothing⟩ := apply_ok hcommodity hagain
      obtain ⟨hquantity, rfl⟩ := unchanged_brings (effects_eq_nil_iff.mp hnothing.symm)
      exact ⟨hquantity, measurements_of_unscored hscored'⟩
    · rintro ⟨hquantity, hmeasurements⟩
      obtain rfl : none = scored :=
        Except.ok.inj ((rescore_none hmeasurements).symm.trans hscored)
      have hsame := DepositEdit.same_of_edited hdto hedited
      rw [apply_stays hsame.commodityId hsame.warehouseId hscored,
        effects_eq_nil_iff.mpr (unchanged_of_same hquantity hsame)]

/-- The ten units that were filed are edited to ten units: the receipt is written. -/
theorem same_quantity_written : ∃ loaded,
    (sampleDesk sampleFiling).loadDepositForEdit 7 1 = some loaded ∧
      loaded.receipt.status = .pendingApproval ∧
      Denotes (fun x y => x + y) loaded { quantity := some 10 } ∧
      DepositEdit.apply ⟨7, loaded, { quantity := some 10 }, none, 90, .wm⟩ (fun x y => x + y)
        (sampleDesk sampleFiling) ≠ .ok [] := by
  have hfiled : ((sampleDesk sampleFiling).loadDepositForEdit 7 1).map
      (fun loaded => (loaded.receipt.status, loaded.receipt.quantity)) =
        some (.pendingApproval, 10) := by
    decide +kernel
  obtain ⟨loaded, hload, hrow⟩ := Option.map_eq_some_iff.mp hfiled
  obtain ⟨hstatus, hquantity⟩ := Prod.mk.inj hrow
  refine ⟨loaded, hload, hstatus, ?_, ?_⟩
  · refine ⟨⟨by simp, by simp, by simp, by simp⟩, ?_, by simp⟩
    rintro q hq
    rw [hquantity]
    exact (Option.some_inj.mp hq).symm
  · intro happly
    rw [apply_stays (by simp) (by simp) (rescore_none rfl)] at happly
    cases (unchanged_brings (effects_eq_nil_iff.mp (Except.ok.inj happly))).1

end SecureStore.Deposits
