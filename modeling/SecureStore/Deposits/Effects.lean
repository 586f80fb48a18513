/-
# What the requests of the desk do

Every step of a request does one of five things to the desk, whatever came before it;
and a whole request that nothing comes in between of either leaves the desk as it was or
does one thing under the conditions that its checks established.
-/

import SecureStore.Deposits.Desk
import SecureStore.Foundation.Alone
import SecureStore.Inventory.Effect

namespace SecureStore.Deposits

open SecureStore.Foundation SecureStore.Inventory

/-- What one step does, by its label. -/
inductive Does (num : Numeric) : DeskStep → Desk → Desk → Prop where
  | nothing (label : DeskStep) (s : Desk) : Does num label s s
  | deposit (uuids : Uuids) (input : DepositInput) (scores : GradingScores) {s s' : Desk}
      {root : Receipt} (done : Desk.deposit num uuids input scores s = .ok (root, s')) :
      Does num .deposit s s'
  | ledger (call : LedgerCall) {s s' : Desk} (done : Desk.operate num call s = .ok ((), s')) :
      Does num .ledger s s'
  | updateReceipt (id : Id) (data : UpdateData) {s s' : Desk}
      (done : Desk.updateReceipt num id data s = .ok ((), s')) :
      Does num (.updateReceipt id data) s s'
  | upsertLink (link : WarehouseCommodity) (s : Desk) :
      Does num .upsertLink s (s.upsertLink link)
  | deleteLink (warehouseId commodityId : Id) (s : Desk) :
      Does num .deleteLink s (s.deleteLink warehouseId commodityId)

section Steps

variable {num : Numeric} {plus : ℚ → ℚ → ℚ}

theorem takes_applyDepositEdit (tenantId : Id) (loaded : EditableDepositReceipt)
    (dto : EditDepositDto) :
    Process.Takes (Does num) (applyDepositEdit num plus tenantId loaded dto) := by
  have destination : Process.Takes (Does num) (destCommodity tenantId loaded dto) := by
    unfold destCommodity
    split
    · trivial
    · split
      · trivial
      · apply takes_read
        · exact fun s => .nothing _ s
        · intro s
          unfold Attempt.orThrow
          split
          · trivial
          · trivial
  have accepted : ∀ commodity, Process.Takes (Does num) (assertAccepted loaded dto commodity) := by
    intro commodity
    unfold assertAccepted
    split
    · trivial
    · split
      · trivial
      · apply takes_read
        · exact fun s => .nothing _ s
        · intro s
          unfold Attempt.throwIf
          split
          · trivial
          · trivial
  apply takes_bind destination
  intro commodity
  apply takes_bind (accepted commodity)
  intro _
  apply takes_ofExcept
  intro scored _
  dsimp only
  split
  · trivial
  · apply takes_write
    · exact fun s _ s' h => .updateReceipt _ _ h
    · exact fun s e _ => .nothing _ s

theorem takes_upserts (commodityId tenantId : Id) (targetIds : List Id) :
    Process.Takes (Does num) (Attempt.forEach targetIds fun warehouseId =>
      (Attempt.write .upsertLink fun s =>
        .ok ((), s.upsertLink ⟨warehouseId, commodityId, tenantId⟩) : DeskApi Unit)) := by
  induction targetIds with
  | nil => trivial
  | cons warehouseId rest ih => exact fun s => ⟨.upsertLink _ s, ih⟩

/-- Every step of every request does what its label says. -/
theorem takes_run (request : Request) : Process.Takes (Does num) (request.run num plus) := by
  have reads : ∀ s : Desk, Does num .read s s := fun s => .nothing _ s
  cases request with
  | createDeposit dto =>
      apply takes_ofExcept
      intro _ _
      apply takes_read reads
      intro s
      apply takes_throwIf
      intro _
      apply takes_read reads
      intro s
      apply takes_orThrow
      intro commodity _
      apply takes_ofExcept
      intro scores _
      apply takes_bind
      · apply takes_write
        · exact fun s _ s' h => .deposit _ _ _ h
        · exact fun s e _ => .nothing _ s
      · intro _
        trivial
  | editDeposit tenantId receiptId scope dto =>
      apply takes_read reads
      intro s
      apply takes_orThrow
      intro loaded _
      apply takes_throwIf
      intro _
      apply takes_ofExcept
      intro _ _
      apply takes_ofExcept
      intro _ _
      exact takes_applyDepositEdit tenantId loaded dto
  | editDepositAsAdmin tenantId receiptId dto =>
      apply takes_read reads
      intro s
      apply takes_orThrow
      intro loaded _
      apply takes_throwIf
      intro _
      apply takes_throwIf
      intro _
      apply takes_throwIf
      intro _
      apply takes_throwIf
      intro _
      exact takes_applyDepositEdit tenantId loaded dto
  | addCommodity tenantId warehouseId commodityId =>
      apply takes_read reads
      intro s
      apply takes_read reads
      intro s'
      apply takes_throwIf
      intro _
      apply takes_throwIf
      intro _
      exact fun s => ⟨.upsertLink _ s, trivial⟩
  | removeCommodity tenantId warehouseId commodityId =>
      apply takes_read reads
      intro s
      apply takes_orThrow
      intro _ _
      apply takes_read reads
      intro s'
      apply takes_throwIf
      intro _
      exact fun s => ⟨.deleteLink _ _ s, trivial⟩
  | applyToWarehouses tenantId commodityId warehouseIds =>
      apply takes_read reads
      intro s
      apply takes_orThrow
      intro _ _
      apply takes_read reads
      intro s'
      exact takes_upserts commodityId tenantId _
  | ledger call =>
      apply takes_write
      · exact fun s _ s' h => .ledger call h
      · exact fun s e _ => .nothing _ s

end Steps

section Ledgers

variable {num : Numeric} {s s' : Desk}

/-- A deposit is a replay, or mints the root with its scores. -/
theorem deposit_cases {uuids : Uuids} {input : DepositInput} {scores : GradingScores}
    {root : Receipt} (h : Desk.deposit num uuids input scores s = .ok (root, s')) :
    s' = s ∨ ∃ events ledger,
      Effect num uuids s.ledger (.deposit input) events (.mint (depositRoot num uuids input))
        (.node (depositRoot num uuids input)) ∧
      Commits s.ledger events (.mint (depositRoot num uuids input)) ledger ∧
      s' = { s with
        ledger, grading := Function.update s.grading uuids.primary
          { gradingScores := some scores } } := by
  unfold Desk.deposit at h
  cases hdeposit : Inventory.deposit num uuids input s.ledger with
  | error e =>
      rw [hdeposit] at h
      cases h
  | ok result =>
      obtain ⟨row, ledger⟩ := result
      rw [hdeposit] at h
      have hcall : (LedgerOp.deposit input).call num uuids s.ledger = .ok (.node row, ledger) :=
        Tx.map_ok.mpr ⟨row, hdeposit, rfl⟩
      cases call_outcome hcall with
      | replayed e prior reconstructs same =>
          obtain ⟨r, haffected, hresult⟩ := reconstructs
          cases hresult
          have hfind := (Ledger.loadOrThrow_ok.mp haffected).1
          have hthere : s.ledger.receipts.find row.id = some row :=
            Table.find_of_mem (Table.mem_of_find hfind)
          simp only [hthere] at h
          cases h
          exact .inl (by rw [same])
      | committed free events change effect commits =>
          have hmint : change = .mint (depositRoot num uuids input) ∧
              row = depositRoot num uuids input := by
            cases effect
            exact ⟨rfl, rfl⟩
          obtain ⟨rfl, rfl⟩ := hmint
          have hfresh := commits.created_fresh (List.mem_singleton.mpr rfl)
          simp only [hfresh, if_true] at h
          cases h
          exact .inr ⟨events, _, effect, commits, rfl⟩

theorem operate_ledger {call : LedgerCall} (h : Desk.operate num call s = .ok ((), s')) :
    s' = { s with ledger := call.after num s.ledger } := by
  unfold Desk.operate at h
  unfold LedgerCall.after
  cases hcall : call.op.call num call.uuids s.ledger with
  | error e =>
      rw [hcall] at h
      cases h
  | ok result =>
      rw [hcall] at h
      cases h
      rfl

theorem updateReceipt_ok {id : Id} {data : UpdateData} :
    Desk.updateReceipt num id data s = .ok ((), s') ↔
      s.ledger.receipts.find id ≠ none ∧ s' = { s with
        ledger := { s.ledger with
          receipts :=
            s.ledger.receipts.modify id (data.rewrite num) (data.key_rewrite num) }
        grading := Function.update s.grading id (data.regrade (s.grading id)) } := by
  unfold Desk.updateReceipt
  cases s.ledger.receipts.find id with
  | none => simp
  | some r => simp [eq_comm]

/-- Where a receipt was found, it is found after an edit, rewritten if it is the edited one. -/
theorem find_updated {id : Id} {data : UpdateData}
    (h : Desk.updateReceipt num id data s = .ok ((), s')) {id' : Id} {r : Receipt}
    (hfind : s.ledger.receipts.find id' = some r) :
    s'.ledger.receipts.find id' = some (if id' = id then data.rewrite num r else r) := by
  obtain ⟨-, rfl⟩ := updateReceipt_ok.mp h
  dsimp only
  rw [Table.find_modify]
  by_cases hid : id' = id
  · subst hid
    simp [hfind]
  · simp [hid, hfind]

/-- The receipts after an edit: the rewritten one and the others. -/
theorem mem_updated {id : Id} {data : UpdateData}
    (h : Desk.updateReceipt num id data s = .ok ((), s')) {r' : Receipt}
    (hr : r' ∈ s'.ledger.receipts) :
    (∃ r, s.ledger.receipts.find id = some r ∧ r' = data.rewrite num r) ∨
      r' ∈ s.ledger.receipts ∧ r'.id ≠ id := by
  obtain ⟨-, rfl⟩ := updateReceipt_ok.mp h
  have hmodify : r' ∈
      s.ledger.receipts.modify id (data.rewrite num) (data.key_rewrite num) := hr
  rw [Table.mem_modify] at hmodify
  exact hmodify

/-- Linking writes nothing but links. -/
theorem upsertLinks_frame (tenantId commodityId : Id) (targetIds : List Id) (s : Desk) :
    ∃ links, targetIds.foldl (fun s warehouseId =>
      s.upsertLink ⟨warehouseId, commodityId, tenantId⟩) s = { s with links } := by
  induction targetIds generalizing s with
  | nil => exact ⟨s.links, rfl⟩
  | cons warehouseId rest ih =>
      obtain ⟨links, hlinks⟩ := ih (s.upsertLink ⟨warehouseId, commodityId, tenantId⟩)
      exact ⟨links, hlinks⟩

end Ledgers

section Edits

variable {α : Type} [DecidableEq α]

@[simp]
theorem setIfChanged_getD (current : α) (next : Option α) :
    (setIfChanged (some current) next).getD current = next.getD current := by
  unfold setIfChanged
  split
  · simp [*]
  · rfl

@[simp]
theorem setIfChanged_or (current next : Option α) :
    (setIfChanged current next).or current = next.or current := by
  unfold setIfChanged
  split
  · simp [*]
  · rfl

end Edits

/-- What the checks of an edit establish in the state they read. -/
structure Admitted (plus : ℚ → ℚ → ℚ) (tenantId receiptId : Id) (dto : EditDepositDto)
    (receipt : Receipt) (commodity : Commodity) (scored : Option GradingScores) (s : Desk) :
    Prop where
  found : s.ledger.receipts.find receiptId = some receipt
  tenant : receipt.tenantId = tenantId
  editable : receipt.status = .pendingApproval ∨
    receipt.status = .active ∧ dto.disallowed = []
  destination : s.commodities.find (dto.commodityId.getD receipt.commodityId) = some commodity
  owner : dto.commodityId.getD receipt.commodityId ≠ receipt.commodityId →
    commodity.tenantId = tenantId
  accepted : dto.warehouseId.getD receipt.warehouseId ≠ receipt.warehouseId →
    s.links.find (dto.warehouseId.getD receipt.warehouseId, commodity.id) ≠ none
  scored : rescore plus commodity dto = .ok scored

/-- What a whole request does. -/
inductive Happens (num : Numeric) (plus : ℚ → ℚ → ℚ) (s : Desk) : Request → Desk → Prop where
  | nothing (request : Request) : Happens num plus s request s
  | deposited (dto : CreateDepositDto) (commodity : Commodity) (scores : GradingScores)
      {root : Receipt} {s' : Desk}
      (accepted : s.links.find (dto.warehouseId, dto.commodityId) ≠ none)
      (found : s.findCommodity dto.commodityId dto.tenantId = some commodity)
      (graded : gradeMeasurements plus commodity dto.measurements = .ok scores)
      (done : Desk.deposit num dto.uuids (dto.input scores) scores s = .ok (root, s')) :
      Happens num plus s (.createDeposit dto) s'
  | edited {request : Request} {tenantId receiptId : Id} {dto : EditDepositDto}
      (edits : request.edit = some (tenantId, receiptId, dto)) (receipt : Receipt)
      (commodity : Commodity) (scored : Option GradingScores) {s' : Desk}
      (admitted : Admitted plus tenantId receiptId dto receipt commodity scored s)
      (done : Desk.updateReceipt num receiptId
        (updateData receipt (s.grading receiptId) dto scored) s = .ok ((), s')) :
      Happens num plus s request s'
  | linked {request : Request} {tenantId commodityId : Id}
      (links : request.links = some (tenantId, commodityId)) (commodity : Commodity)
      (found : s.findCommodity commodityId tenantId = some commodity) (targetIds : List Id) :
      Happens num plus s request
        (targetIds.foldl (fun s warehouseId =>
          s.upsertLink ⟨warehouseId, commodityId, tenantId⟩) s)
  | unlinked (tenantId warehouseId commodityId : Id) (link : WarehouseCommodity)
      (found : s.links.find (warehouseId, commodityId) = some link)
      (tenant : link.tenantId = tenantId)
      (unused : s.activeReceipts tenantId warehouseId commodityId = 0) :
      Happens num plus s (.removeCommodity tenantId warehouseId commodityId)
        (s.deleteLink warehouseId commodityId)
  | operated (call : LedgerCall) {s' : Desk} (done : Desk.operate num call s = .ok ((), s')) :
      Happens num plus s (.ledger call) s'

section Whole

variable {num : Numeric} {plus : ℚ → ℚ → ℚ} {s : Desk} {tenantId receiptId : Id}
  {loaded : EditableDepositReceipt} {dto : EditDepositDto}

theorem findCommodity_eq_some {id : Id} {c : Commodity} :
    s.findCommodity id tenantId = some c ↔
      s.commodities.find id = some c ∧ c.tenantId = tenantId := by
  simp [Desk.findCommodity, Option.filter_eq_some_iff]

theorem loadDepositForEdit_eq_some :
    s.loadDepositForEdit tenantId receiptId = some loaded ↔
      s.ledger.receipts.find receiptId = some loaded.receipt ∧
        loaded.receipt.tenantId = tenantId ∧
        s.commodities.find loaded.receipt.commodityId = some loaded.commodity ∧
        loaded.columns = s.grading receiptId := by
  obtain ⟨receipt, columns, commodity⟩ := loaded
  simp only [Desk.loadDepositForEdit, Option.bind_eq_bind, Option.bind_eq_some_iff,
    Option.filter_eq_some_iff, decide_eq_true_eq, Option.pure_def, Option.some_inj,
    EditableDepositReceipt.mk.injEq]
  constructor
  · rintro ⟨r, ⟨hfind, htenant⟩, c, hcommodity, rfl, rfl, rfl⟩
    exact ⟨hfind, htenant, hcommodity, rfl⟩
  · rintro ⟨hfind, htenant, hcommodity, rfl⟩
    exact ⟨receipt, ⟨hfind, htenant⟩, commodity, hcommodity, rfl, rfl, rfl⟩

variable {post : Except DeskError Unit → Desk → Prop}

/-- Past the choice of the destination, the commodity is the one the receipt will have. -/
theorem ensures_destCommodity {g : Commodity → DeskApi Unit} (hpost : ∀ e, post (.error e) s)
    (hloaded : s.commodities.find loaded.receipt.commodityId = some loaded.commodity)
    (h : ∀ commodity,
      s.commodities.find (dto.commodityId.getD loaded.receipt.commodityId) = some commodity →
      (dto.commodityId.getD loaded.receipt.commodityId ≠ loaded.receipt.commodityId →
        commodity.tenantId = tenantId) →
      Process.Ensures (fun _ => True) post (g commodity) s) :
    Process.Ensures (fun _ => True) post
      (destCommodity tenantId loaded dto >>= g : DeskApi Unit) s := by
  unfold destCommodity
  cases hdto : dto.commodityId with
  | none =>
      rw [hdto] at h
      exact h loaded.commodity hloaded fun hne => absurd rfl hne
  | some commodityId =>
      rw [hdto] at h
      dsimp only
      split
      · rename_i hsame
        apply h loaded.commodity
        · rw [Option.getD_some, hsame]
          exact hloaded
        · exact fun hne => absurd hsame hne
      · apply ensures_find trivial
        · exact fun _ => hpost _
        · intro commodity hfind
          obtain ⟨hcommodity, htenant⟩ := findCommodity_eq_some.mp hfind
          exact h commodity hcommodity fun _ => htenant

theorem ensures_assertAccepted {g : Unit → DeskApi Unit} (hpost : ∀ e, post (.error e) s)
    {commodity : Commodity}
    (h : (dto.warehouseId.getD loaded.receipt.warehouseId ≠ loaded.receipt.warehouseId →
        s.links.find (dto.warehouseId.getD loaded.receipt.warehouseId, commodity.id) ≠ none) →
      Process.Ensures (fun _ => True) post (g ()) s) :
    Process.Ensures (fun _ => True) post
      (assertAccepted loaded dto commodity >>= g : DeskApi Unit) s := by
  unfold assertAccepted
  cases hdto : dto.warehouseId with
  | none =>
      rw [hdto] at h
      exact h fun hne => absurd rfl hne
  | some warehouseId =>
      rw [hdto] at h
      dsimp only
      split
      · rename_i hsame
        exact h fun hne => absurd hsame hne
      · rw [Attempt.bind_assoc]
        apply ensures_read trivial
        apply ensures_throwIf
        · exact fun _ => hpost _
        · exact fun hlink => h fun _ => hlink

/-- An edit that its callers have checked writes what it says, or nothing. -/
theorem applyDepositEdit_happens {request : Request}
    (hedits : request.edit = some (tenantId, receiptId, dto))
    (hload : s.loadDepositForEdit tenantId receiptId = some loaded)
    (hopen : loaded.receipt.status = .pendingApproval ∨
      loaded.receipt.status = .active ∧ dto.disallowed = []) :
    Process.Ensures (fun _ => True) (fun _ s' => Happens num plus s request s')
      (applyDepositEdit num plus tenantId loaded dto) s := by
  obtain ⟨hfind, htenant, hcommodity, hcolumns⟩ := loadDepositForEdit_eq_some.mp hload
  have hid : loaded.receipt.id = receiptId := Table.key_of_find hfind
  have refused : ∀ _ : DeskError, Happens num plus s request s := fun _ => .nothing request
  apply ensures_destCommodity refused hcommodity
  intro commodity hdestination howner
  apply ensures_assertAccepted refused
  intro haccepted
  apply ensures_ofExcept
  · exact fun e _ => refused e
  · intro scored hscored
    dsimp only
    split
    · exact .nothing request
    · rw [hid, hcolumns]
      apply ensures_write_last
      · exact fun e _ => ⟨trivial, refused e⟩
      · intro _ s' hdone
        exact ⟨trivial, .edited hedits loaded.receipt commodity scored
          ⟨hfind, htenant, hopen, hdestination, howner, haccepted, hscored⟩ hdone⟩

theorem upserts_ensure (commodityId tenantId : Id) (targetIds : List Id) {s : Desk}
    {post : Except DeskError Unit → Desk → Prop}
    (h : post (.ok ()) (targetIds.foldl (fun s warehouseId =>
      s.upsertLink ⟨warehouseId, commodityId, tenantId⟩) s)) :
    Process.Ensures (fun _ => True) post (Attempt.forEach targetIds fun warehouseId =>
      (Attempt.write .upsertLink fun s =>
        .ok ((), s.upsertLink ⟨warehouseId, commodityId, tenantId⟩) : DeskApi Unit)) s := by
  induction targetIds generalizing s with
  | nil => exact h
  | cons warehouseId rest ih => exact ⟨trivial, ih h⟩

theorem EditDepositDto.editable_of_guards {status : ReceiptStatus} {dto : EditDepositDto}
    (hclosed : status ∉ closedStatuses) (hheld : status ∉ heldStatuses)
    (hactive : ¬ (status = .active ∧ dto.disallowed ≠ [])) :
    status = .pendingApproval ∨ status = .active ∧ dto.disallowed = [] := by
  cases status with
  | active => exact .inr ⟨rfl, by simpa using hactive⟩
  | pendingApproval => exact .inl rfl
  | heldWithdrawal | heldLoan | heldTrade | heldPledgePending | heldLien =>
      exact absurd (by decide) hheld
  | withdrawn | tradedOut | seized | expired | cancelled | split =>
      exact absurd (by decide) hclosed

/-- What a whole request does, when nothing comes in between. -/
theorem happens (request : Request) (s : Desk) :
    Happens num plus s request (request.after num plus s) := by
  have refused : ∀ _ : DeskError, Happens num plus s request s := fun _ => .nothing request
  have ensured : Process.Ensures (fun _ => True) (fun _ s' => Happens num plus s request s')
      (request.run num plus) s := by
    cases request with
    | createDeposit dto =>
        apply ensures_ofExcept
        · exact fun e _ => refused e
        · intro _ _
          apply ensures_read trivial
          apply ensures_throwIf
          · exact fun _ => .nothing _
          · intro haccepted
            apply ensures_read trivial
            apply ensures_orThrow
            · exact fun _ => .nothing _
            · intro commodity hfound
              apply ensures_ofExcept
              · exact fun e _ => refused e
              · intro scores hgraded
                apply ensures_write
                · exact fun e _ => ⟨trivial, refused e⟩
                · intro root s' hdone
                  refine ⟨trivial, .deposited dto commodity scores haccepted hfound ?_ hdone⟩
                  cases hgrade : gradeMeasurements plus commodity dto.measurements with
                  | error e =>
                      rw [hgrade] at hgraded
                      cases hgraded
                  | ok graded =>
                      rw [hgrade] at hgraded
                      cases hgraded
                      rfl
    | editDeposit tenantId receiptId scope dto =>
        apply ensures_read trivial
        apply ensures_orThrow
        · exact fun _ => .nothing _
        · intro loaded hload
          apply ensures_throwIf
          · exact fun _ => .nothing _
          · intro hstatus
            apply ensures_ofExcept
            · exact fun e _ => refused e
            · intro _ _
              apply ensures_ofExcept
              · exact fun e _ => refused e
              · intro _ _
                exact applyDepositEdit_happens rfl hload (.inl (not_not.mp hstatus))
    | editDepositAsAdmin tenantId receiptId dto =>
        apply ensures_read trivial
        apply ensures_orThrow
        · exact fun _ => .nothing _
        · intro loaded hload
          apply ensures_throwIf
          · exact fun _ => .nothing _
          · intro _
            apply ensures_throwIf
            · exact fun _ => .nothing _
            · intro hclosed
              apply ensures_throwIf
              · exact fun _ => .nothing _
              · intro hheld
                apply ensures_throwIf
                · exact fun _ => .nothing _
                · intro hactive
                  exact applyDepositEdit_happens rfl hload
                    (EditDepositDto.editable_of_guards hclosed hheld hactive)
    | addCommodity tenantId warehouseId commodityId =>
        apply ensures_read trivial
        apply ensures_read trivial
        apply ensures_throwIf
        · exact fun _ => .nothing _
        · intro _
          apply ensures_throwIf
          · exact fun _ => .nothing _
          · intro hfound
            obtain ⟨commodity, hcommodity⟩ := Option.ne_none_iff_exists'.mp hfound
            exact ⟨trivial, .linked rfl commodity hcommodity [warehouseId]⟩
    | removeCommodity tenantId warehouseId commodityId =>
        apply ensures_read trivial
        apply ensures_orThrow
        · exact fun _ => .nothing _
        · intro link hlink
          apply ensures_read trivial
          apply ensures_throwIf
          · exact fun _ => .nothing _
          · intro hunused
            simp only [Option.filter_eq_some_iff, decide_eq_true_eq] at hlink
            exact ⟨trivial, .unlinked tenantId warehouseId commodityId link hlink.1 hlink.2
              (Nat.eq_zero_of_not_pos hunused)⟩
    | applyToWarehouses tenantId commodityId warehouseIds =>
        apply ensures_read trivial
        apply ensures_orThrow
        · exact fun _ => .nothing _
        · intro commodity hcommodity
          apply ensures_read trivial
          apply upserts_ensure
          exact .linked rfl commodity hcommodity _
    | ledger call =>
        apply ensures_write_last
        · exact fun e _ => ⟨trivial, refused e⟩
        · exact fun _ s' hdone => ⟨trivial, .operated call hdone⟩
  exact ensured.exec

/-- What holds at the start and is carried over every request that meets the condition,
knowing the requests before it, holds after the sequence. -/
theorem runRequests_history {P : List Request → Desk → Prop}
    {condition : Request → Desk → Prop}
    (step : ∀ {history request s s'}, P history s → condition request s →
      Happens num plus s request s' → P (history ++ [request]) s')
    (history requests : List Request) (hs : P history s)
    (hmeets : Meets num plus condition requests s) :
    P (history ++ requests) (runRequests num plus requests s) := by
  induction requests generalizing history s with
  | nil => simpa [runRequests] using hs
  | cons request rest ih =>
      have hnext := step hs hmeets.1 (happens request s)
      simpa [runRequests] using ih _ hnext hmeets.2

/-- What every request keeps under a condition, a sequence of requests that meet the
condition keeps. -/
theorem runRequests_invariant {P : Desk → Prop} {condition : Request → Desk → Prop}
    (step : ∀ {request s s'}, P s → condition request s → Happens num plus s request s' → P s')
    (requests : List Request) (hs : P s) (hmeets : Meets num plus condition requests s) :
    P (runRequests num plus requests s) :=
  runRequests_history (P := fun _ s => P s) (fun hs hcondition hhappens =>
    step hs hcondition hhappens) [] requests hs hmeets

end Whole

end SecureStore.Deposits
