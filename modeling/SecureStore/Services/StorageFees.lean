/-
# Storage fees

The newest active policy of the narrowest scope that has one sets the rate, and the commodity
of the receipt says how its unit converts to tons or to bags. Either may fail: there is no
policy, or the unit does not convert.
-/

import SecureStore.Services.Withdrawals
import Mathlib.Algebra.Order.Floor.Ring
import Mathlib.Data.Rat.Floor

namespace SecureStore.Services

open SecureStore.Foundation SecureStore.Inventory

inductive FeeType where
  | perMtPerMonth
  | perBagPerWeek
  | perMtPerDay
  | flatRate
  deriving DecidableEq, Repr

inductive MeasurementUnit where
  | metricTon
  | kilogram
  | meter
  | bag
  | unit
  | litre
  deriving DecidableEq, Repr

def MeasurementUnit.text : MeasurementUnit → String
  | .metricTon => "METRIC_TON"
  | .kilogram => "KILOGRAM"
  | .meter => "METER"
  | .bag => "BAG"
  | .unit => "UNIT"
  | .litre => "LITRE"

structure StorageFeePolicy where
  id : Id
  tenantId : Id
  warehouseId : Option Id
  commodityId : Option Id
  feeType : FeeType
  rate : ℚ
  isActive : Bool
  createdAt : Timestamp
  deriving DecidableEq

/-- What a fee needs of a commodity. -/
structure StoredCommodity where
  id : Id
  unitOfMeasure : MeasurementUnit
  standardBagWeightKg : Option ℚ
  deriving DecidableEq

instance : Keyed StorageFeePolicy Id := ⟨StorageFeePolicy.id⟩
instance : Keyed StoredCommodity Id := ⟨StoredCommodity.id⟩

/-- The tables that fees are computed from. -/
structure FeeTables where
  policies : Table StorageFeePolicy
  commodities : Table StoredCommodity

/-! ## The policy -/

/-- An active policy of a tenant for exactly a scope, where `none` stands for all. -/
def StorageFeePolicy.Covers (policy : StorageFeePolicy) (tenantId : Id)
    (scope : Option Id × Option Id) : Prop :=
  policy.tenantId = tenantId ∧ policy.isActive = true ∧ policy.warehouseId = scope.1 ∧
    policy.commodityId = scope.2

instance (policy : StorageFeePolicy) (tenantId : Id) (scope : Option Id × Option Id) :
    Decidable (policy.Covers tenantId scope) := by
  unfold StorageFeePolicy.Covers
  infer_instance

/-- The scopes to look for, the narrowest first. -/
def candidates (warehouseId commodityId : Id) : List (Option Id × Option Id) :=
  [(some warehouseId, some commodityId), (some warehouseId, none), (none, some commodityId),
    (none, none)]

/-- The first of the newest policies. -/
def newestOf (policies : List StorageFeePolicy) : Option StorageFeePolicy :=
  policies.foldl (fun newest policy =>
    match newest with
    | none => some policy
    | some best => if best.createdAt < policy.createdAt then some policy else some best) none

/-- The newest active policy of a scope. -/
def findPolicy (tables : FeeTables) (tenantId : Id) (scope : Option Id × Option Id) :
    Option StorageFeePolicy :=
  newestOf (tables.policies.rows.filter fun policy => policy.Covers tenantId scope)

def resolvePolicy (tables : FeeTables) (tenantId warehouseId commodityId : Id) :
    Except ApiError StorageFeePolicy :=
  match (candidates warehouseId commodityId).findSome? (findPolicy tables tenantId) with
  | some policy => .ok policy
  | none => .error (.badRequest
      ("No active storage fee policy found for this warehouse/commodity combination. " ++
        "Configure one under Settings → Storage Fees."))

/-! ## The fee -/

def toMt (bagWeightKg : Option ℚ) (qty : ℚ) (u : MeasurementUnit) : Except ApiError ℚ :=
  match u with
  | .metricTon => .ok qty
  | .kilogram => .ok (qty / 1000)
  | .bag =>
      -- a weight of zero counts as missing
      match bagWeightKg.filter (· ≠ 0) with
      | some weight => .ok (qty * weight / 1000)
      | none => .error (.badRequest "Commodity missing standardBagWeightKg")
  | .meter | .unit | .litre =>
      .error (.badRequest ("Cannot convert " ++ u.text ++ " to METRIC_TON"))

/-- `Math.ceil(kg / (bagWeightKg ?? 1))`. A weight of zero makes it infinite or not a number,
and so the fee, which no column takes. -/
def bagsOf (bagWeightKg : Option ℚ) (kg : ℚ) : Except ApiError ℚ :=
  if bagWeightKg = some 0 then .error .invalidNumber
  else .ok ⌈kg / bagWeightKg.getD 1⌉

def toBags (bagWeightKg : Option ℚ) (qty : ℚ) (u : MeasurementUnit) : Except ApiError ℚ :=
  match u with
  | .bag => .ok qty
  | .kilogram => bagsOf bagWeightKg qty
  | .metricTon => bagsOf bagWeightKg (qty * 1000)
  | .meter | .unit | .litre => .error (.badRequest ("Cannot convert " ++ u.text ++ " to BAG"))

/-- `Math.ceil((withdrawalRequestDate - dateOfDeposit) / 86_400_000)` -/
def storageDays (dateOfDeposit withdrawalRequestDate : Timestamp) : ℤ :=
  ⌈((withdrawalRequestDate - dateOfDeposit : ℤ) : ℚ) / 86400000⌉

def storageWeeks (days : ℤ) : ℤ := ⌈(days : ℚ) / 7⌉

def storageMonths (days : ℤ) : ℤ := ⌈(days : ℚ) / 30⌉

def calculateFee (policy : StorageFeePolicy) (quantity : ℚ) (unitOfMeasure : MeasurementUnit)
    (dateOfDeposit withdrawalRequestDate : Timestamp) (bagWeightKg : Option ℚ) :
    Except ApiError ℚ :=
  let days := storageDays dateOfDeposit withdrawalRequestDate
  let weeks := storageWeeks days
  let months := storageMonths days
  match policy.feeType with
  | .perMtPerMonth =>
      (toMt bagWeightKg quantity unitOfMeasure).map fun mt => mt * policy.rate * (months : ℚ)
  | .perMtPerDay =>
      (toMt bagWeightKg quantity unitOfMeasure).map fun mt => mt * policy.rate * (days : ℚ)
  | .perBagPerWeek =>
      (toBags bagWeightKg quantity unitOfMeasure).map fun bags => bags * policy.rate * (weeks : ℚ)
  | .flatRate => .ok policy.rate

/-- The fee for the dispatch of a held receipt: the commodity comes with the receipt, then the
policy that is in force now is applied to the day of the dispatch. -/
def finalStorageFee (tables : FeeTables) (tenantId : Id) (w : Withdrawal) (heldReceipt : Receipt)
    (now : Timestamp) : Except ApiError ℚ :=
  match tables.commodities.find heldReceipt.commodityId with
  | none => .error .recordNotFound
  | some commodity => do
      let policy ← resolvePolicy tables tenantId heldReceipt.warehouseId heldReceipt.commodityId
      calculateFee policy w.quantity commodity.unitOfMeasure heldReceipt.dateOfDeposit now
        commodity.standardBagWeightKg

/-! ## When there is a fee -/

/-- A type of fee can be computed from quantities in the commodity's unit. -/
def FeeType.Converts (feeType : FeeType) (commodity : StoredCommodity) : Prop :=
  match feeType with
  | .flatRate => True
  | .perMtPerMonth | .perMtPerDay =>
      commodity.unitOfMeasure = .metricTon ∨ commodity.unitOfMeasure = .kilogram ∨
        commodity.unitOfMeasure = .bag ∧ ∃ weight ∈ commodity.standardBagWeightKg, weight ≠ 0
  | .perBagPerWeek =>
      commodity.unitOfMeasure = .bag ∨
        (commodity.unitOfMeasure = .metricTon ∨ commodity.unitOfMeasure = .kilogram) ∧
          commodity.standardBagWeightKg ≠ some 0

/-- The commodity of the receipt is there, and a policy in force converts its unit. -/
def Billable (tables : FeeTables) (tenantId : Id) (heldReceipt : Receipt) : Prop :=
  ∃ commodity policy, tables.commodities.find heldReceipt.commodityId = some commodity ∧
    resolvePolicy tables tenantId heldReceipt.warehouseId heldReceipt.commodityId = .ok policy ∧
      policy.feeType.Converts commodity

section Fee

variable {policy : StorageFeePolicy} {commodity : StoredCommodity} {qty : ℚ}
  {dateOfDeposit now : Timestamp}

theorem toMt_ok_iff :
    (∃ mt, toMt commodity.standardBagWeightKg qty commodity.unitOfMeasure = .ok mt) ↔
      FeeType.perMtPerDay.Converts commodity := by
  obtain ⟨id, unitOfMeasure, weight⟩ := commodity
  cases unitOfMeasure with
  | bag =>
      cases weight with
      | none => simp [toMt, FeeType.Converts]
      | some weight =>
          by_cases hzero : weight = 0
          · simp [toMt, FeeType.Converts, hzero, Option.filter]
          · simp [toMt, FeeType.Converts, hzero, Option.filter]
  | _ => simp [toMt, FeeType.Converts]

theorem toBags_ok_iff :
    (∃ bags, toBags commodity.standardBagWeightKg qty commodity.unitOfMeasure = .ok bags) ↔
      FeeType.perBagPerWeek.Converts commodity := by
  obtain ⟨id, unitOfMeasure, weight⟩ := commodity
  by_cases hzero : weight = some 0
  · cases unitOfMeasure <;> simp [toBags, bagsOf, FeeType.Converts, hzero]
  · cases unitOfMeasure <;> simp [toBags, bagsOf, FeeType.Converts, hzero]

/-- The fee is there exactly when its type converts the unit. -/
theorem calculateFee_ok_iff :
    (∃ fee, calculateFee policy qty commodity.unitOfMeasure dateOfDeposit now
      commodity.standardBagWeightKg = .ok fee) ↔ policy.feeType.Converts commodity := by
  unfold calculateFee
  cases policy.feeType with
  | flatRate => simp [FeeType.Converts]
  | perBagPerWeek => simpa [map_ok] using toBags_ok_iff
  | perMtPerDay => simpa [map_ok] using toMt_ok_iff
  | perMtPerMonth =>
      change _ ↔ FeeType.perMtPerDay.Converts commodity
      simpa [map_ok] using toMt_ok_iff

theorem finalStorageFee_ok_iff {tables : FeeTables} {tenantId : Id} {w : Withdrawal}
    {heldReceipt : Receipt} :
    (∃ fee, finalStorageFee tables tenantId w heldReceipt now = .ok fee) ↔
      Billable tables tenantId heldReceipt := by
  unfold finalStorageFee Billable
  cases tables.commodities.find heldReceipt.commodityId with
  | none => simp
  | some commodity =>
      cases resolvePolicy tables tenantId heldReceipt.warehouseId heldReceipt.commodityId with
      | error e => simp [bind, Except.bind]
      | ok policy => simpa [bind, Except.bind] using calculateFee_ok_iff

end Fee

end SecureStore.Services
