/-
# Quotes

The fee of a withdrawal is quoted when it is put together, when it waits for its dispatch, and
billed at the dispatch. The receipt it is charged for changes in between: it is requested on one
receipt and dispatched from the part of it that was held. Commodity and warehouse are the same
for all receipts of a tree, so between those with one date of deposit the quotes are the bill.
-/

import SecureStore.Custody.Billing
import SecureStore.Custody.Redeeming
import SecureStore.Receipts.Detail
import SecureStore.Services.FeeLaws

namespace SecureStore.Services

open SecureStore.Foundation SecureStore.Inventory

/-! ## What is quoted -/

structure CalculatedFee where
  totalFee : ℚ
  quantity : ℚ
  unit : MeasurementUnit
  storageFee : ℚ
  handlingFee : ℚ
  feePerUnit : ℚ
  policy : StorageFeePolicy
  depositDate : Timestamp
  throughDate : Timestamp

structure FeesOnRow where
  storageFee : ℚ
  handlingFee : ℚ
  totalFee : ℚ

structure ProjectedFees where
  storageFee : ℚ
  handlingFee : ℚ
  totalFee : ℚ
  computedAt : Timestamp

structure FeeQuote where
  currentlyOnRow : FeesOnRow
  projectedAtNow : ProjectedFees
  delta : ℚ
  policy : StorageFeePolicy

structure ReceiptPrefill where
  maxQuantity : ℚ
  storageFeePerUnit : ℚ
  receiptNumber : List Char
  unit : MeasurementUnit
  grade : String
  dateOfDeposit : Timestamp
  expiryDate : Option Timestamp
  policy : Option (StorageFeePolicy × PolicyScope)

/-- The row with an id, in a tenant. -/
def findIn {α : Type} [Keyed α Id] (rows : Table α) (tenantOf : α → Id) (tenantId id : Id) :
    Option α :=
  (rows.find id).filter fun row => tenantOf row = tenantId

/-- The fee of a withdrawal that is being put together. -/
def calculateWithdrawal (tables : FeeTables) (db : Db) (tenantId receiptId : Id) (quantity : ℚ)
    (now : Timestamp) : Except ApiError CalculatedFee := do
  rejectIf (quantity ≤ 0) (.badRequest "Quantity must be greater than zero")
  match findIn db.ledger.receipts Receipt.tenantId tenantId receiptId with
  | none => .error (.notFound "Receipt not found")
  | some receipt =>
      match tables.commodities.find receipt.commodityId with
      | none => .error .recordNotFound
      | some commodity => do
          rejectIf (receipt.quantity < quantity)
            (.badRequest "Requested quantity exceeds available quantity")
          let policy ← resolvePolicy tables tenantId receipt.warehouseId receipt.commodityId
          let storageFee ← calculateFee policy quantity commodity.unitOfMeasure
            receipt.dateOfDeposit now commodity.standardBagWeightKg
          .ok
            { totalFee := storageFee + handlingFee
              quantity := quantity
              unit := commodity.unitOfMeasure
              storageFee := storageFee
              handlingFee := handlingFee
              feePerUnit := policy.rate
              policy := policy
              depositDate := receipt.dateOfDeposit
              throughDate := now }

/-- What the dispatch of a withdrawal would cost now. -/
def getFeeQuote (tables : FeeTables) (db : Db) (tenantId withdrawalId : Id)
    (forClientId : Option Id) (now : Timestamp) : Except ApiError FeeQuote :=
  match (findIn db.withdrawals Withdrawal.tenantId tenantId withdrawalId).filter fun w =>
      forClientId.all (· = w.clientId) with
  | none => .error (.notFound "Withdrawal not found")
  | some w =>
      match (db.ledger.receipts.find w.receiptId).bind fun receipt =>
          (tables.commodities.find receipt.commodityId).map fun commodity =>
            (receipt, commodity) with
      | none => .error .recordNotFound
      | some joined => do
          let policy ← resolvePolicy tables tenantId joined.1.warehouseId joined.1.commodityId
          let projectedStorageFee ← calculateFee policy w.quantity joined.2.unitOfMeasure
            joined.1.dateOfDeposit now joined.2.standardBagWeightKg
          .ok
            { currentlyOnRow := ⟨w.storageFee, w.handlingFee, w.totalFee⟩
              projectedAtNow :=
                { storageFee := projectedStorageFee
                  handlingFee := w.handlingFee
                  totalFee := projectedStorageFee + w.handlingFee
                  computedAt := now }
              delta := projectedStorageFee - w.storageFee
              policy := policy }

/-- What the form of a withdrawal is filled in with. -/
def getReceiptPrefill (tables : FeeTables) (db : Db) (tenantId receiptId : Id)
    (forClientId : Option Id) : Except ApiError ReceiptPrefill :=
  match (findIn db.ledger.receipts Receipt.tenantId tenantId receiptId).filter fun r =>
      forClientId.all (· = r.clientId) with
  | none => .error (.notFound "Receipt not found")
  | some r =>
      match tables.commodities.find r.commodityId with
      | none => .error .recordNotFound
      | some commodity =>
          -- a missing policy leaves the form without one
          let policy := (resolvePolicy tables tenantId r.warehouseId r.commodityId).toOption
          .ok
            { maxQuantity := r.quantity
              storageFeePerUnit := (policy.map StorageFeePolicy.rate).getD 0
              receiptNumber := r.receiptNumber
              unit := commodity.unitOfMeasure
              grade := (r.grade.filter (· ≠ "")).getD "Standard"
              dateOfDeposit := r.dateOfDeposit
              expiryDate := r.expiryDate
              policy := policy.map fun p => (p, p.scope) }

/-! ## Receipts of one deposit -/

/-- Two receipts that a fee cannot tell apart. -/
structure ChargedAlike (r r' : Receipt) : Prop where
  tenantId : r'.tenantId = r.tenantId
  commodityId : r'.commodityId = r.commodityId
  warehouseId : r'.warehouseId = r.warehouseId
  dateOfDeposit : r'.dateOfDeposit = r.dateOfDeposit

/-- Receipts of one tree are charged alike, as long as their dates of deposit agree: those are
copied to the children of a split, and an admin may correct them receipt by receipt. -/
theorem chargedAlike {s : Ledger} (ha : Ancestry s) {r r' : Receipt} (hr : r ∈ s.receipts)
    (hr' : r' ∈ s.receipts) (hroot : r'.rootReceiptId = r.rootReceiptId)
    (hdate : r'.dateOfDeposit = r.dateOfDeposit) : ChargedAlike r r' := by
  have htop : ∀ x ∈ s.receipts, ∃ top ∈ s.receipts, top.id = x.rootReceiptId ∧
      top.tenantId = x.tenantId ∧ top.commodityId = x.commodityId ∧
        top.warehouseId = x.warehouseId := by
    intro x hx
    obtain ⟨line, hline, -⟩ := InventoryQueryService.pathToRoot_eq ha hx
    obtain ⟨hkin, -, hlast⟩ := InventoryQueryService.line_kin ha hx hline
    obtain ⟨top, htop, hid⟩ := Option.map_eq_some_iff.mp hlast
    obtain ⟨hrow, htenant, hcommodity, hwarehouse, -⟩ := hkin top (List.mem_of_getLast? htop)
    exact ⟨top, hrow, hid, htenant, hcommodity, hwarehouse⟩
  obtain ⟨top, hmem, hid, htenant, hcommodity, hwarehouse⟩ := htop r hr
  obtain ⟨top', hmem', hid', htenant', hcommodity', hwarehouse'⟩ := htop r' hr'
  obtain rfl := Table.eq_of_key_eq hmem hmem' (by
    change top.id = top'.id
    rw [hid, hid', hroot])
  exact ⟨htenant'.symm.trans htenant, hcommodity'.symm.trans hcommodity,
    hwarehouse'.symm.trans hwarehouse, hdate⟩

/-! ## Quotes and bills -/

section Quotes

variable {tables : FeeTables} {db : Db} {w : Withdrawal} {r r' : Receipt} {now : Timestamp}

theorem findIn_eq {α : Type} [Keyed α Id] {rows : Table α} {tenantOf : α → Id} {id : Id} {row : α}
    (hfind : rows.find id = some row) : findIn rows tenantOf (tenantOf row) id = some row := by
  rw [findIn, hfind, Option.filter_some, if_pos (by simp)]

/-- The fees that a quote projects. -/
def FeeQuote.projected (quote : FeeQuote) : ℚ × ℚ :=
  (quote.projectedAtNow.storageFee, quote.projectedAtNow.totalFee)

/-- The quote for a withdrawal is what its dispatch is billed now. -/
theorem getFeeQuote_eq (hw : db.withdrawals.find w.id = some w) {forClientId : Option Id}
    (hclient : forClientId.all (· = w.clientId) = true)
    (hr : db.ledger.receipts.find w.receiptId = some r) :
    (getFeeQuote tables db w.tenantId w.id forClientId now).map FeeQuote.projected =
      (finalStorageFee tables w.tenantId w r now).map fun fee => (fee, fee + w.handlingFee) := by
  unfold getFeeQuote finalStorageFee
  rw [findIn_eq hw, Option.filter_some, if_pos hclient]
  simp only [hr, Option.bind_some]
  cases tables.commodities.find r.commodityId with
  | none => rfl
  | some commodity =>
      simp only [Option.map_some]
      cases resolvePolicy tables w.tenantId r.warehouseId r.commodityId with
      | error e => rfl
      | ok policy =>
          change Except.map _ (calculateFee _ _ _ _ _ _ >>= _) =
            Except.map _ (calculateFee _ _ _ _ _ _)
          cases calculateFee policy w.quantity commodity.unitOfMeasure r.dateOfDeposit now
            commodity.standardBagWeightKg <;> rfl

/-- The fee that is shown before a withdrawal is requested, on a receipt that has enough, is what
the dispatch of the quantity from a receipt charged alike is billed at that moment. -/
theorem calculateWithdrawal_eq (hr' : db.ledger.receipts.find r'.id = some r')
    (hquantity : 0 < w.quantity) (henough : w.quantity ≤ r'.quantity)
    (halike : ChargedAlike r r') (htenant : r.tenantId = w.tenantId) :
    (calculateWithdrawal tables db w.tenantId r'.id w.quantity now).map CalculatedFee.storageFee =
      finalStorageFee tables w.tenantId w r now := by
  have hfind : findIn db.ledger.receipts Receipt.tenantId w.tenantId r'.id = some r' := by
    rw [← htenant, ← halike.tenantId]
    exact findIn_eq hr'
  unfold calculateWithdrawal finalStorageFee rejectIf
  rw [hfind, if_neg (not_le.mpr hquantity), ← halike.commodityId, ← halike.warehouseId,
    ← halike.dateOfDeposit]
  change Except.map _ (match tables.commodities.find r'.commodityId with
    | none => _
    | some commodity => _) = _
  cases tables.commodities.find r'.commodityId with
  | none => rfl
  | some commodity =>
      simp only [if_neg (not_lt.mpr henough)]
      cases resolvePolicy tables w.tenantId r'.warehouseId r'.commodityId with
      | error e => rfl
      | ok policy =>
          change Except.map _ (calculateFee _ _ _ _ _ _ >>= _) = calculateFee _ _ _ _ _ _
          cases calculateFee policy w.quantity commodity.unitOfMeasure r'.dateOfDeposit now
            commodity.standardBagWeightKg <;> rfl

/-- Rates are not negative, and bags weigh something. -/
structure FeeTables.Proper (tables : FeeTables) : Prop where
  rates : ∀ policy ∈ tables.policies, 0 ≤ policy.rate
  weights : ∀ commodity ∈ tables.commodities, ∀ weight ∈ commodity.standardBagWeightKg, 0 < weight

/-- What a fold picks is an entry or what it started with, if each step keeps or takes. -/
theorem mem_of_foldl {α : Type*} {pick : Option α → α → Option α}
    (hpick : ∀ kept a, pick kept a = kept ∨ pick kept a = some a) {l : List α} {start : Option α}
    {a : α} (h : l.foldl pick start = some a) : a ∈ l ∨ start = some a := by
  induction l generalizing start with
  | nil => exact .inr h
  | cons b l ih =>
      rcases ih h with hmem | hstart
      · exact .inl (List.mem_cons_of_mem _ hmem)
      · rcases hpick start b with hkept | htaken
        · exact .inr (hkept.symm.trans hstart)
        · obtain rfl := Option.some_inj.mp (htaken.symm.trans hstart)
          exact .inl List.mem_cons_self

theorem newestOf_mem {policies : List StorageFeePolicy} {policy : StorageFeePolicy}
    (h : newestOf policies = some policy) : policy ∈ policies := by
  unfold newestOf at h
  refine (mem_of_foldl ?_ h).resolve_right (by simp)
  intro kept policy
  cases kept with
  | none => exact .inr rfl
  | some best =>
      simp only
      split
      · exact .inr rfl
      · exact .inl rfl

theorem resolvePolicy_mem {tenantId warehouseId commodityId : Id} {policy : StorageFeePolicy}
    (h : resolvePolicy tables tenantId warehouseId commodityId = .ok policy) :
    policy ∈ tables.policies := by
  have hsoft := InventoryQueryService.resolvePolicy_eq tables tenantId warehouseId commodityId
  rw [h] at hsoft
  obtain ⟨scope, -, hfound⟩ := List.exists_of_findSome?_eq_some hsoft.symm
  exact (List.mem_filter.mp (newestOf_mem hfound)).1

/-- A fee does not fall while the goods stay. -/
theorem finalStorageFee_mono (hproper : tables.Proper) (hquantity : 0 ≤ w.quantity)
    {earlier : Timestamp} (hdeposit : r.dateOfDeposit ≤ earlier) (hlater : earlier ≤ now)
    {quoted billed : ℚ} {tenantId : Id}
    (hquoted : finalStorageFee tables tenantId w r earlier = .ok quoted)
    (hbilled : finalStorageFee tables tenantId w r now = .ok billed) : quoted ≤ billed := by
  unfold finalStorageFee at hquoted hbilled
  cases hcommodity : tables.commodities.find r.commodityId with
  | none =>
      rw [hcommodity] at hquoted
      cases hquoted
  | some commodity =>
      rw [hcommodity] at hquoted hbilled
      cases hpolicy : resolvePolicy tables tenantId r.warehouseId r.commodityId with
      | error e =>
          rw [hpolicy] at hquoted
          cases hquoted
      | ok policy =>
          rw [hpolicy] at hquoted hbilled
          have hconverts := calculateFee_ok_iff.mp ⟨quoted, hquoted⟩
          obtain ⟨fee, hlaws, hfee⟩ := calculateFee_laws
            (hproper.rates policy (resolvePolicy_mem hpolicy)) hconverts
            (fun _ => hproper.weights commodity (Table.mem_of_find hcommodity)) r.dateOfDeposit
          obtain rfl := Except.ok.inj ((hfee w.quantity earlier).symm.trans hquoted)
          obtain rfl := Except.ok.inj ((hfee w.quantity now).symm.trans hbilled)
          exact hlaws.mono_date _ _ _ hquantity hdeposit hlater

end Quotes

/-- However the requests interleaved and crashed before: for a withdrawal whose receipt is held,
the live quote at any moment is the fee that its dispatch is billed at that moment, and when the
withdrawal is approved and dispatched alone, the row is billed what was quoted. The fee shown
for the same quantity on any receipt of the tree with the same date of deposit, such as the one
that the withdrawal was requested on, is the same too. While the policies stay, a fee quoted
earlier is not more than the fee billed. -/
theorem quotes_hold {num : Numeric} {directory : Directory} {requests : List Request}
    {trace : List (Transition Label Db)} {db : Db} {pool : List (Api Unit)}
    (h : Run (Db.initial directory) (requests.map (Request.run num)) trace db pool)
    (tables : FeeTables) (now : Timestamp) {w : Withdrawal} (hw : w ∈ db.withdrawals) {r : Receipt}
    (hholding : Holding db.ledger w.receiptId w.tenantId r) :
    (∀ forClientId : Option Id, forClientId.all (· = w.clientId) = true →
      (getFeeQuote tables db w.tenantId w.id forClientId now).map FeeQuote.projected =
          (finalStorageFee tables w.tenantId w r now).map (fun fee => (fee, fee + w.handlingFee)) ∧
      ∀ quote, getFeeQuote tables db w.tenantId w.id forClientId now = .ok quote →
        w.status = .approved → ∀ uuids : Uuids, uuids.Unlogged db.ledger → ∀ actorUserId,
          (completeWithdrawal num uuids (finalStorageFee tables w.tenantId w r now) w.tenantId w.id
            actorUserId).Brings db fun s' =>
              s'.withdrawals.find w.id = some { w with
                  status := .completed
                  storageFee := quote.projectedAtNow.storageFee
                  totalFee := quote.projectedAtNow.totalFee } ∧
                s'.ledger.receipts.find w.receiptId = some { r with status := .withdrawn }) ∧
    (∀ r' ∈ db.ledger.receipts, r'.rootReceiptId = r.rootReceiptId →
      r'.dateOfDeposit = r.dateOfDeposit → 0 < w.quantity → w.quantity ≤ r'.quantity →
        (calculateWithdrawal tables db w.tenantId r'.id w.quantity now).map
            CalculatedFee.storageFee = finalStorageFee tables w.tenantId w r now) ∧
    (tables.Proper → 0 ≤ w.quantity → ∀ earlier, r.dateOfDeposit ≤ earlier → earlier ≤ now →
      ∀ quoted billed, finalStorageFee tables w.tenantId w r earlier = .ok quoted →
        finalStorageFee tables w.tenantId w r now = .ok billed → quoted ≤ billed) := by
  have hfind := hholding.loaded.1
  have hquote : ∀ forClientId : Option Id, forClientId.all (· = w.clientId) = true →
      (getFeeQuote tables db w.tenantId w.id forClientId now).map FeeQuote.projected =
        (finalStorageFee tables w.tenantId w r now).map fun fee => (fee, fee + w.handlingFee) :=
    fun _ hclient => getFeeQuote_eq (Table.find_of_mem hw) hclient hfind
  have hancestry : Ancestry db.ledger :=
    runs_ledger ancestry_empty (fun hs heffect hcommits => hs.step heffect hcommits) h
  refine ⟨fun forClientId hclient => ⟨hquote forClientId hclient, ?_⟩, ?_, ?_⟩
  · intro quote hok happroved uuids hnew actorUserId
    have hprojected := hquote forClientId hclient
    rw [hok] at hprojected
    cases hfee : finalStorageFee tables w.tenantId w r now with
    | error e =>
        rw [hfee] at hprojected
        cases hprojected
    | ok fee =>
        rw [hfee] at hprojected
        obtain ⟨hstorage, htotal⟩ := Prod.mk.inj (Except.ok.inj hprojected)
        have hopen := (held_stock_moves_on h hnew).1 w hw r hholding
        rw [hstorage, htotal]
        exact hopen.complete happroved fee actorUserId
  · intro r' hr' hroot hdate hquantity henough
    have hmem : r ∈ db.ledger.receipts := Table.mem_of_find hfind
    exact calculateWithdrawal_eq (Table.find_of_mem hr') hquantity henough
      (chargedAlike hancestry hmem hr' hroot hdate) hholding.loaded.2
  · intro hproper hquantity earlier hdeposited hlater quoted billed hquoted hbilled
    exact finalStorageFee_mono hproper hquantity hdeposited hlater hquoted hbilled

/-- Withdrawal 9 is paid for and approved. -/
def quotedRun : List (Transition Label Db) × Db × List (Api Unit) :=
  interleave ([0, 1] ++ List.replicate 4 2 ++ List.replicate 3 3 ++ List.replicate 3 4)
    (Db.initial sampleDirectory) (approvedStock.map (Request.run .postgres))

/-- The approved withdrawal is quoted what its dispatch is billed. -/
theorem quotes_hold_sample : ∃ w ∈ quotedRun.2.1.withdrawals, ∃ r, w.status = .approved ∧
    (getFeeQuote (sampleFees true) quotedRun.2.1 w.tenantId w.id none 0).map
        FeeQuote.projected =
      (finalStorageFee (sampleFees true) w.tenantId w r 0).map fun fee =>
        (fee, fee + w.handlingFee) := by
  have hheld : ∃ w ∈ quotedRun.2.1.withdrawals.rows,
      ∃ r ∈ quotedRun.2.1.ledger.receipts.rows, w.status = .approved ∧ r.id = w.receiptId ∧
        r.tenantId = w.tenantId ∧ r.status.Held := by decide +kernel
  obtain ⟨w, hw, r, hr, hstatus, hid, htenant, hheld⟩ := hheld
  refine ⟨w, hw, r, hstatus, ?_⟩
  exact ((quotes_hold (run_interleave _ _ _) (sampleFees true) 0 hw
    ⟨⟨Table.find_eq_some_iff.mpr ⟨hr, hid⟩, htenant⟩, hheld⟩).1 none rfl).1

end SecureStore.Services
