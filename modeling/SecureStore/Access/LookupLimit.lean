/-
# The limit on lookups of clients

A manager may look up ten clients a minute. The service counts lookups in buckets that are a
field of its instance, which is right as long as requests reach one instance. But the service
injects the provider of warehouse scopes, which is made anew for each request, so the service is
made anew too, its buckets are empty, and nothing is ever refused.
-/

import SecureStore.Access.Assignments
import SecureStore.Foundation.SlidingWindow
import SecureStore.Foundation.Words

namespace SecureStore.Access

open SecureStore.Foundation SecureStore.Inventory
open SecureStore.Foundation.SlidingWindow (Attempt Limited admittedTimes admissions accept)

/-! ## Lifetimes of providers -/

/-- How long an instance of a provider lives, as its decorator says. -/
inductive Scope where
  | default
  | request
  deriving DecidableEq

/-- What the service of warehouse managers injects. -/
inductive Provider where
  | prismaService
  | inventoryLedgerService
  | inventoryQueryService
  | warehouseScopeService
  | withdrawalsService
  | loansService
  | tradesService
  | storageFeesService
  | notificationsService
  | securityService
  | emailService
  | storageService
  deriving DecidableEq

def Provider.scope : Provider → Scope
  | .warehouseScopeService => .request
  | _ => .default

/-- The constructor of `WarehouseManagerService`. -/
def warehouseManagerInjects : List Provider :=
  [.prismaService, .inventoryLedgerService, .inventoryQueryService, .warehouseScopeService,
    .withdrawalsService, .loansService, .tradesService, .storageFeesService,
    .notificationsService, .securityService, .emailService, .storageService]

/-- A provider is made anew for each request when its scope says so, or that of one it injects. -/
def madePerRequest (scope : Scope) (injects : List Provider) : Bool :=
  scope = .request ∨ ∃ p ∈ injects, p.scope = .request

/-! ## Lookups -/

structure LookupRequest where
  managerUserId : Id
  identifier : Option (List Char)
  now : ℤ

inductive LookupError where
  | badRequest (message : String)
  | forbidden (message : String)
  deriving DecidableEq

/-- The identifier that is looked up. -/
def LookupRequest.raw (r : LookupRequest) : List Char :=
  trimBoth whiteSpace (r.identifier.getD [])

def LookupRequest.Valid (r : LookupRequest) : Prop :=
  6 ≤ (r.raw.map codeUnits).sum ∧ (r.raw.map codeUnits).sum ≤ 32

instance (r : LookupRequest) : Decidable r.Valid := inferInstanceAs (Decidable (_ ∧ _))

/-- Up to the query of the database, which is asked for the identifier that is returned. -/
def lookupClientByIdentifier (lookupBuckets : Id → List ℤ) (r : LookupRequest) :
    Except LookupError (List Char) × (Id → List ℤ) :=
  let raw := r.raw
  let length := (raw.map codeUnits).sum
  if length < 6 ∨ 32 < length then
    (.error (.badRequest "Identifier must be between 6 and 32 characters"), lookupBuckets)
  else
    let windowStart := r.now - 60000
    let bucket := lookupBuckets r.managerUserId
    let recent := bucket.filter fun t => windowStart ≤ t
    if 10 ≤ recent.length then
      (.error (.forbidden "Too many lookups. Please wait a minute before trying again."),
        lookupBuckets)
    else (.ok raw, Function.update lookupBuckets r.managerUserId (recent ++ [r.now]))

/-- The buckets of a new instance. -/
def newBuckets : Id → List ℤ := fun _ => []

/-- One request after another, each to a new instance or all to the one that is kept. -/
def serveLookups (perRequest : Bool) :
    (Id → List ℤ) → List LookupRequest → List (LookupRequest × Except LookupError (List Char))
  | _, [] => []
  | kept, r :: requests =>
      let (outcome, buckets) := lookupClientByIdentifier (if perRequest then newBuckets else kept) r
      (r, outcome) :: serveLookups perRequest buckets requests

/-- What a request that was served is to the limit: one with an identifier that is not valid
does not count. -/
def attemptOf : LookupRequest × Except LookupError (List Char) → Option (Attempt Id)
  | (r, .ok _) => some ⟨r.managerUserId, r.now, true⟩
  | (r, .error (.forbidden _)) => some ⟨r.managerUserId, r.now, false⟩
  | (_, .error (.badRequest _)) => none

/-- The lookups that were accepted and refused. -/
def lookupHistory (served : List (LookupRequest × Except LookupError (List Char))) :
    List (Attempt Id) :=
  served.filterMap attemptOf

/-- The lookups that a list of requests asks for. -/
def lookupArrivals (requests : List LookupRequest) : List (Id × ℤ) :=
  (requests.filter fun r => r.Valid).map fun r => (r.managerUserId, r.now)

section Lookups

variable {lookupBuckets : Id → List ℤ} {r : LookupRequest} {times : List ℤ}

theorem lookup_invalid (hvalid : ¬ r.Valid) :
    lookupClientByIdentifier lookupBuckets r =
      (.error (.badRequest "Identifier must be between 6 and 32 characters"), lookupBuckets) := by
  have hlength : (r.raw.map codeUnits).sum < 6 ∨ 32 < (r.raw.map codeUnits).sum := by
    unfold LookupRequest.Valid at hvalid
    omega
  exact if_pos hlength

theorem lookup_valid (hvalid : r.Valid) :
    lookupClientByIdentifier lookupBuckets r =
      if 10 ≤ (SlidingWindow.recent 60000 r.now (lookupBuckets r.managerUserId)).length then
        (.error (.forbidden "Too many lookups. Please wait a minute before trying again."),
          lookupBuckets)
      else (.ok r.raw, Function.update lookupBuckets r.managerUserId
        (SlidingWindow.recent 60000 r.now (lookupBuckets r.managerUserId) ++ [r.now])) := by
  have hlength : ¬ ((r.raw.map codeUnits).sum < 6 ∨ 32 < (r.raw.map codeUnits).sum) := by
    unfold LookupRequest.Valid at hvalid
    omega
  exact if_neg hlength

theorem lookup_refused (hvalid : r.Valid)
    (h : accept 10 60000 r.now (lookupBuckets r.managerUserId) = none) :
    lookupClientByIdentifier lookupBuckets r =
      (.error (.forbidden "Too many lookups. Please wait a minute before trying again."),
        lookupBuckets) := by
  rw [lookup_valid hvalid, if_pos (SlidingWindow.accept_eq_none h)]

theorem lookup_accepted (hvalid : r.Valid)
    (h : accept 10 60000 r.now (lookupBuckets r.managerUserId) = some times) :
    lookupClientByIdentifier lookupBuckets r =
      (.ok r.raw, Function.update lookupBuckets r.managerUserId times) := by
  obtain ⟨hroom, rfl⟩ := SlidingWindow.accept_eq_some h
  rw [lookup_valid hvalid, if_neg (by omega)]

/-- A request with a valid identifier arrives at the buckets, and no other does. -/
theorem lookupArrivals_valid {requests : List LookupRequest} (hvalid : r.Valid) :
    lookupArrivals (r :: requests) = (r.managerUserId, r.now) :: lookupArrivals requests := by
  unfold lookupArrivals
  rw [List.filter_cons, if_pos (decide_eq_true hvalid), List.map_cons]

theorem lookupArrivals_invalid {requests : List LookupRequest} (hvalid : ¬ r.Valid) :
    lookupArrivals (r :: requests) = lookupArrivals requests := by
  unfold lookupArrivals
  rw [List.filter_cons_of_neg (by simpa using hvalid)]

end Lookups

/-! ## One instance for all requests -/

/-- An instance that is kept limits the lookups as buckets of times do. -/
theorem lookupHistory_kept (lookupBuckets : Id → List ℤ) (requests : List LookupRequest) :
    lookupHistory (serveLookups false lookupBuckets requests) =
      admissions 10 60000 lookupBuckets (lookupArrivals requests) := by
  induction requests generalizing lookupBuckets with
  | nil => rfl
  | cons r requests ih =>
      unfold serveLookups
      rw [if_neg Bool.false_ne_true]
      by_cases hvalid : r.Valid
      · rw [lookupArrivals_valid hvalid]
        unfold admissions
        cases haccept : accept 10 60000 r.now (lookupBuckets r.managerUserId) with
        | none =>
            rw [lookup_refused hvalid haccept]
            exact congrArg _ (ih lookupBuckets)
        | some times =>
            rw [lookup_accepted hvalid haccept]
            exact congrArg _ (ih _)
      · rw [lookup_invalid hvalid, lookupArrivals_invalid hvalid]
        exact ih lookupBuckets

/-- With one instance for all requests the limit holds. -/
theorem limited_of_kept (requests : List LookupRequest)
    (horder : requests.Pairwise fun r r' => r.now ≤ r'.now) (managerUserId : Id) :
    Limited 10 60000 managerUserId (lookupHistory (serveLookups false newBuckets requests)) := by
  rw [lookupHistory_kept]
  refine SlidingWindow.limited_admissions ?_
  unfold lookupArrivals
  rw [List.pairwise_map]
  exact horder.filter _

/-! ## An instance for each request -/

/-- A new instance accepts every lookup. -/
theorem lookupHistory_perRequest (lookupBuckets : Id → List ℤ) (requests : List LookupRequest) :
    lookupHistory (serveLookups true lookupBuckets requests) =
      (lookupArrivals requests).map fun x => ⟨x.1, x.2, true⟩ := by
  induction requests generalizing lookupBuckets with
  | nil => rfl
  | cons r requests ih =>
      unfold serveLookups
      rw [if_pos rfl]
      by_cases hvalid : r.Valid
      · have haccept : accept 10 60000 r.now (newBuckets r.managerUserId) = some [r.now] := rfl
        rw [lookup_accepted hvalid haccept, lookupArrivals_valid hvalid]
        exact congrArg _ (ih _)
      · rw [lookup_invalid hvalid, lookupArrivals_invalid hvalid]
        exact ih _

/-- The service is made anew for each request, although it does not ask for it. -/
theorem warehouseManager_madePerRequest :
    madePerRequest .default warehouseManagerInjects = true := rfl

/-- The limit is kept exactly where the manager keeps to it: when no minute holds more than ten
of the requests with valid identifiers. -/
theorem lookups_limited_iff (requests : List LookupRequest) (managerUserId : Id) :
    Limited 10 60000 managerUserId
        (lookupHistory (serveLookups (madePerRequest .default warehouseManagerInjects) newBuckets
          requests)) ↔
      ∀ start, (requests.filter fun r => r.Valid ∧ r.managerUserId = managerUserId ∧
        start ≤ r.now ∧ r.now ≤ start + 60000).length ≤ 10 := by
  rw [warehouseManager_madePerRequest, lookupHistory_perRequest]
  have hcount : ∀ start, ((admittedTimes managerUserId ((lookupArrivals requests).map
      fun x => (⟨x.1, x.2, true⟩ : Attempt Id))).filter fun t =>
        start ≤ t ∧ t ≤ start + 60000).length =
      (requests.filter fun r => r.Valid ∧ r.managerUserId = managerUserId ∧
        start ≤ r.now ∧ r.now ≤ start + 60000).length := by
    intro start
    unfold admittedTimes lookupArrivals
    rw [List.map_map, List.filter_map, List.length_map, List.filter_map, List.filter_map,
      List.length_map, List.filter_filter, List.filter_filter]
    refine congrArg List.length (List.filter_congr fun r _ => ?_)
    rw [Bool.eq_iff_iff]
    simp only [Function.comp_apply, Bool.and_eq_true, decide_eq_true_eq]
    tauto
  constructor
  · intro h start
    rw [← hcount start]
    exact h.bounded start
  · intro h
    refine ⟨fun start => (hcount start).trans_le (h start), fun before a after heq _ hrefused => ?_⟩
    have hmem : a ∈ before ++ a :: after := List.mem_append_right _ List.mem_cons_self
    rw [← heq, List.mem_map] at hmem
    obtain ⟨x, -, rfl⟩ := hmem
    cases hrefused

/-- Eleven lookups at one time are all accepted. -/
theorem eleven_lookups_accepted :
    ¬ Limited 10 60000 1 (lookupHistory (serveLookups
      (madePerRequest .default warehouseManagerInjects) newBuckets
      (List.replicate 11 ⟨1, some "12345678901".toList, 0⟩))) := by
  intro h
  exact absurd (h.bounded 0) (by decide)

end SecureStore.Access
