/-
# Identity numbers of clients

A client's NIN and BVN may be missing, and where they are given no other client of the tenant
may have them. The database does not enforce this: creating and updating a client look for a
clash first and write later. The numbers are unique throughout a run exactly when whatever is
written would still pass the check on the state it is written to. What the two calls do
besides, on other tables or by validating their input, comes in as its outcome.
-/

import SecureStore.Services.Database

namespace SecureStore.Access

open SecureStore.Foundation SecureStore.Inventory

inductive Identifier where
  | nin
  | bvn
  deriving DecidableEq, Repr

instance {P : Identifier → Prop} [DecidablePred P] : Decidable (∀ field, P field) :=
  decidable_of_iff (P .nin ∧ P .bvn) ⟨fun h field => by cases field <;> simp [h], fun h =>
    ⟨h .nin, h .bvn⟩⟩

def Identifier.name : Identifier → String
  | .nin => "nin"
  | .bvn => "bvn"

/-- A row of `client_profiles`. -/
structure ProfileRow where
  id : Id
  tenantId : Id
  userId : Id
  clientCode : List Char
  nin : Option String
  bvn : Option String
  deriving DecidableEq

def ProfileRow.get (p : ProfileRow) : Identifier → Option String
  | .nin => p.nin
  | .bvn => p.bvn

/-- Rows that may stand in one table: ids, users and client codes are unique. -/
def ProfileRow.Apart (p q : ProfileRow) : Prop :=
  p.id ≠ q.id ∧ p.userId ≠ q.userId ∧ p.clientCode ≠ q.clientCode

instance (p q : ProfileRow) : Decidable (p.Apart q) := inferInstanceAs (Decidable (_ ∧ _ ∧ _))

instance : Std.Symm ProfileRow.Apart :=
  ⟨fun _ _ h => ⟨h.1.symm, h.2.1.symm, h.2.2.symm⟩⟩

/-- The profiles of all tenants. -/
structure ClientDb where
  rows : List ProfileRow
  apart : rows.Pairwise ProfileRow.Apart

/-- New values of the two columns; the outer `none` leaves a column as it is. -/
structure IdentifierPatch where
  nin : Option (Option String)
  bvn : Option (Option String)
  deriving DecidableEq

def IdentifierPatch.get (patch : IdentifierPatch) : Identifier → Option (Option String)
  | .nin => patch.nin
  | .bvn => patch.bvn

def ProfileRow.patched (patch : IdentifierPatch) (p : ProfileRow) : ProfileRow :=
  { p with nin := patch.nin.getD p.nin, bvn := patch.bvn.getD p.bvn }

theorem ProfileRow.get_patched (patch : IdentifierPatch) (p : ProfileRow) (field : Identifier) :
    (p.patched patch).get field = (patch.get field).getD (p.get field) := by
  cases field <;> rfl

/-- `clientProfile.create`, which fails when a unique column is taken. -/
def ClientDb.insert (db : ClientDb) (p : ProfileRow) : Option ClientDb :=
  if h : ∀ q ∈ db.rows, q.Apart p then
    some ⟨db.rows ++ [p], List.pairwise_append.mpr ⟨db.apart, List.pairwise_singleton _ _,
      fun q hq _ hr => List.mem_singleton.mp hr ▸ h q hq⟩⟩
  else none

/-- `clientProfile.update` of the two columns. -/
def ClientDb.update (db : ClientDb) (id : Id) (patch : IdentifierPatch) : ClientDb where
  rows := db.rows.map fun p => if p.id = id then p.patched patch else p
  apart := by
    rw [List.pairwise_map]
    apply db.apart.imp
    intro p q hapart
    split <;> split <;> exact hapart

/-- What a step is; a write is labelled with what it writes. -/
inductive ClientLabel where
  | read
  | create (p : ProfileRow)
  | update (id : Id) (patch : IdentifierPatch)

inductive ClientError where
  | badRequest (message : String)
  | notFound (message : String)
  | forbidden (message : String)
  | conflict (message : String)
  | identifierInUse (code field message : String) (existingClientCode : List Char)
  /-- P2002: a unique column is taken. -/
  | uniqueViolation
  deriving DecidableEq

abbrev ClientApi (α : Type) := Attempt ClientLabel ClientDb ClientError α

/-- A value that is given and not empty. -/
def given (value : Option String) : Option String := value.filter (· ≠ "")

/-- A client of the tenant with the value, other than the client to exclude. -/
def findClash (field : Identifier) (value : String) (tenantId : Id) (excludeUserId : Option Id)
    (db : ClientDb) : Option ProfileRow :=
  db.rows.find? fun p =>
    p.tenantId = tenantId ∧ p.get field = some value ∧ excludeUserId ≠ some p.userId

/-- The query of one identifier, if it is given. -/
def clash (field : Identifier) (value : Option String) (tenantId : Id)
    (excludeUserId : Option Id) : ClientApi (Option ProfileRow) :=
  match given value with
  | none => pure none
  | some v => Attempt.read .read (findClash field v tenantId excludeUserId)

/-- The error that names the identifier and the client who has it. -/
def identifierInUse : Identifier → ProfileRow → ClientError
  | .nin, c => .identifierInUse "NIN_ALREADY_IN_USE" Identifier.nin.name
      "This NIN is already in use by another client in your organisation" c.clientCode
  | .bvn, c => .identifierInUse "BVN_ALREADY_IN_USE" Identifier.bvn.name
      "This BVN is already in use by another client in your organisation" c.clientCode

/-- The two queries run at once, so that either may be answered first. -/
def clashes (tenantId : Id) (nin bvn : Option String) (excludeUserId : Option Id)
    (bvnFirst : Bool) : ClientApi (Option ProfileRow × Option ProfileRow) :=
  if bvnFirst then do
    let bvnClash ← clash .bvn bvn tenantId excludeUserId
    let ninClash ← clash .nin nin tenantId excludeUserId
    pure (ninClash, bvnClash)
  else do
    let ninClash ← clash .nin nin tenantId excludeUserId
    let bvnClash ← clash .bvn bvn tenantId excludeUserId
    pure (ninClash, bvnClash)

/-- A clash of the NIN is reported before one of the BVN. -/
def assertIdentifiersUnique (tenantId : Id) (nin bvn : Option String)
    (excludeUserId : Option Id) (bvnFirst : Bool) : ClientApi Unit := do
  match ← clashes tenantId nin bvn excludeUserId bvnFirst with
  | (some c, _) => Attempt.throw (identifierInUse .nin c)
  | (none, some c) => Attempt.throw (identifierInUse .bvn c)
  | (none, none) => pure ()

/-- `padStart(4, '0')` of a number. -/
def padStart4 (n : ℕ) : List Char :=
  List.replicate (4 - (Nat.toDigits 10 n).length) '0' ++ Nat.toDigits 10 n

/-- The number of the tenant's next client, in the year. -/
def generateClientCode (tenantId : Id) (year : ℕ) : ClientApi (List Char) := do
  let n ← Attempt.read .read fun db : ClientDb => db.rows.countP fun p => p.tenantId = tenantId
  pure ("CLT-".toList ++ Nat.toDigits 10 year ++ '-' :: padStart4 (n + 1))

/-- A call of `createClient`: the client's numbers, the ids it draws, and the outcomes of the
checks before the client code is generated, of those before and after the identity numbers are
checked, and of the other statements of its transaction. -/
structure CreateClient where
  tenantId : Id
  userId : Id
  profileId : Id
  nin : Option String
  bvn : Option String
  year : ℕ
  bvnFirst : Bool
  requirements : Except ClientError Unit := .ok ()
  focus : Except ClientError Unit := .ok ()
  documents : Except ClientError Unit := .ok ()
  user : Except ClientError Unit := .ok ()

def createClient (dto : CreateClient) : ClientApi Unit := do
  Attempt.ofExcept dto.requirements
  let clientCode ← generateClientCode dto.tenantId dto.year
  Attempt.ofExcept dto.focus
  assertIdentifiersUnique dto.tenantId dto.nin dto.bvn none dto.bvnFirst
  Attempt.ofExcept dto.documents
  -- the transaction creates the user first; it rolls back when that fails
  Attempt.ofExcept dto.user
  let profile : ProfileRow :=
    { id := dto.profileId, tenantId := dto.tenantId, userId := dto.userId
      clientCode := clientCode, nin := dto.nin, bvn := dto.bvn }
  Attempt.write (.create profile) fun db =>
    match db.insert profile with
    | some db' => .ok ((), db')
    | none => .error .uniqueViolation

/-- A call of `updateClient`: the new values, whether the client is in the manager's scope, and
the outcomes of the other checks and of the other statements of its transaction. -/
structure UpdateClient where
  tenantId : Id
  clientUserId : Id
  nin : Option (Option String)
  bvn : Option (Option String)
  inScope : Bool
  bvnFirst : Bool
  documents : Except ClientError Unit := .ok ()
  user : Except ClientError Unit := .ok ()

/-- The check runs when one of the numbers is being changed; the client's own row does not
count. -/
def UpdateClient.check (dto : UpdateClient) : ClientApi Unit :=
  if dto.nin ≠ none ∨ dto.bvn ≠ none then
    assertIdentifiersUnique dto.tenantId dto.nin.join dto.bvn.join (some dto.clientUserId)
      dto.bvnFirst
  else pure ()

def updateClient (dto : UpdateClient) : ClientApi Unit := do
  let profile ← Attempt.read .read fun db : ClientDb => db.rows.find? fun p =>
    p.tenantId = dto.tenantId ∧ p.userId = dto.clientUserId ∧ dto.inScope
  let profile ← Attempt.orThrow profile (.notFound "Client not found")
  dto.check
  Attempt.ofExcept dto.documents
  Attempt.ofExcept dto.user
  Attempt.write (.update profile.id ⟨dto.nin, dto.bvn⟩) fun db =>
    .ok ((), db.update profile.id ⟨dto.nin, dto.bvn⟩)

inductive ClientCall where
  | createClient (dto : CreateClient)
  | updateClient (dto : UpdateClient)

def ClientCall.run : ClientCall → ClientApi Unit
  | .createClient dto => Access.createClient dto
  | .updateClient dto => Access.updateClient dto

/-! ## Uniqueness -/

/-- Two clients have the same number. -/
def Shares (field : Identifier) (p q : ProfileRow) : Prop :=
  ∃ v ∈ given (p.get field), q.get field = some v

instance (field : Identifier) (p q : ProfileRow) : Decidable (Shares field p q) :=
  inferInstanceAs (Decidable (∃ v ∈ given (p.get field), _))

/-- No two clients of the tenant have the same NIN or the same BVN. -/
def IdentifiersUnique (tenantId : Id) (db : ClientDb) : Prop :=
  ∀ p ∈ db.rows, ∀ q ∈ db.rows, p.tenantId = tenantId → q.tenantId = tenantId → p.id ≠ q.id →
    ∀ field, ¬ Shares field p q

instance (tenantId : Id) (db : ClientDb) : Decidable (IdentifiersUnique tenantId db) :=
  inferInstanceAs (Decidable (∀ p ∈ db.rows, ∀ q ∈ db.rows, _ → _ → _ → _))

/-- The check would pass on the state that is written to: nobody has what is written. -/
def StillUnique (tenantId : Id) : ClientLabel → ClientDb → Prop
  | .read, _ => True
  | .create p, db => p.tenantId = tenantId → (∀ q ∈ db.rows, q.Apart p) →
      ∀ field, ∀ v ∈ given (p.get field), findClash field v tenantId none db = none
  | .update id patch, db => ∀ p ∈ db.rows, p.id = id → p.tenantId = tenantId →
      ∀ field, ∀ value ∈ patch.get field, ∀ v ∈ given value,
        findClash field v tenantId (some p.userId) db = none

instance (tenantId : Id) (label : ClientLabel) (db : ClientDb) :
    Decidable (StillUnique tenantId label db) :=
  match label with
  | .read => inferInstanceAs (Decidable True)
  | .create _ => inferInstanceAs (Decidable
      (_ → (∀ q ∈ db.rows, _) → ∀ _ : Identifier, ∀ v ∈ given _, _))
  | .update _ _ => inferInstanceAs (Decidable
      (∀ p ∈ db.rows, _ → _ → ∀ _ : Identifier, ∀ value ∈ _, ∀ v ∈ given value, _))

/-- What a step does to the profiles. -/
def ClientStep : ClientLabel → ClientDb → ClientDb → Prop
  | .read, db, db' => db' = db
  | .create p, db, db' => db' = (db.insert p).getD db
  | .update id patch, db, db' => db' = db.update id patch

section Steps

variable {tenantId : Id} {db db' : ClientDb} {p q : ProfileRow} {field : Identifier}
  {patch : IdentifierPatch} {label : ClientLabel}

theorem mem_given {value : Option String} {v : String} :
    v ∈ given value ↔ v ≠ "" ∧ value = some v := by
  unfold given
  rw [Option.mem_def, Option.filter_eq_some_iff, decide_eq_true_eq, and_comm]

theorem Shares.symm (h : Shares field p q) : Shares field q p := by
  obtain ⟨v, hv, hq⟩ := h
  obtain ⟨hne, hp⟩ := mem_given.mp hv
  exact ⟨v, mem_given.mpr ⟨hne, hq⟩, hp⟩

theorem findClash_eq_none_iff {v : String} {excludeUserId : Option Id} :
    findClash field v tenantId excludeUserId db = none ↔
      ∀ q ∈ db.rows, q.tenantId = tenantId → q.get field = some v →
        excludeUserId = some q.userId := by
  simp [findClash]

/-- Two rows of the table with the same id, or the same user, are the same. -/
theorem ClientDb.eq_of_id (hp : p ∈ db.rows) (hq : q ∈ db.rows) (hid : p.id = q.id) : p = q := by
  by_contra hne
  exact (db.apart.forall hp hq hne).1 hid

theorem ClientDb.eq_of_userId (hp : p ∈ db.rows) (hq : q ∈ db.rows)
    (huser : p.userId = q.userId) : p = q := by
  by_contra hne
  exact (db.apart.forall hp hq hne).2.1 huser

/-- A new client keeps the numbers unique exactly when nobody has his. -/
theorem create_unique_iff (h : IdentifiersUnique tenantId db) (hinsert : db.insert p = some db') :
    IdentifiersUnique tenantId db' ↔ StillUnique tenantId (.create p) db := by
  unfold ClientDb.insert at hinsert
  split at hinsert
  case isFalse => cases hinsert
  case isTrue hapart =>
    obtain rfl := (Option.some.inj hinsert)
    constructor
    · intro hunique htenant _ field v hv
      rw [findClash_eq_none_iff]
      intro q hq hqtenant hqvalue
      have hnot := hunique p (List.mem_append_right _ (List.mem_singleton_self _)) q
        (List.mem_append_left _ hq) htenant hqtenant (hapart q hq).1.symm field
      exact absurd ⟨v, hv, hqvalue⟩ hnot
    · intro hstill
      have hnew : ∀ q ∈ db.rows, p.tenantId = tenantId → q.tenantId = tenantId →
          ∀ field, ¬ Shares field p q := by
        rintro q hq htenant hqtenant field ⟨v, hv, hqvalue⟩
        have hnone := hstill htenant hapart field v hv
        cases findClash_eq_none_iff.mp hnone q hq hqtenant hqvalue
      intro a ha b hb hat hbt hid field
      rcases List.mem_append.mp ha with ha | ha <;> rcases List.mem_append.mp hb with hb | hb
      · exact h a ha b hb hat hbt hid field
      · rw [List.mem_singleton.mp hb] at hbt ⊢
        exact fun hshares => hnew a ha hbt hat field hshares.symm
      · rw [List.mem_singleton.mp ha] at hat ⊢
        exact hnew b hb hat hbt field
      · exact absurd ((List.mem_singleton.mp ha).trans (List.mem_singleton.mp hb).symm ▸ rfl) hid

/-- An update keeps the numbers unique exactly when no one else has the new ones. -/
theorem update_unique_iff {id : Id} (h : IdentifiersUnique tenantId db) :
    IdentifiersUnique tenantId (db.update id patch) ↔
      StillUnique tenantId (.update id patch) db := by
  have hmem : ∀ {r}, r ∈ (db.update id patch).rows ↔
      ∃ p ∈ db.rows, (if p.id = id then p.patched patch else p) = r := List.mem_map
  constructor
  · rintro hunique p hp rfl htenant field value hvalue v hv
    rw [findClash_eq_none_iff]
    intro q hq hqtenant hqvalue
    by_cases hid : q.id = p.id
    · rw [ClientDb.eq_of_id hq hp hid]
    · have hp' : p.patched patch ∈ (db.update p.id patch).rows := hmem.mpr ⟨p, hp, if_pos rfl⟩
      have hq' : q ∈ (db.update p.id patch).rows := hmem.mpr ⟨q, hq, if_neg hid⟩
      have hshares : Shares field (p.patched patch) q := by
        refine ⟨v, ?_, hqvalue⟩
        rw [ProfileRow.get_patched, Option.mem_def.mp hvalue]
        exact hv
      exact absurd hshares (hunique _ hp' q hq' htenant hqtenant (Ne.symm hid) field)
  · intro hstill
    -- a changed client shares nothing with an unchanged one
    have hchanged : ∀ p ∈ db.rows, p.id = id → ∀ q ∈ db.rows, q.id ≠ id →
        p.tenantId = tenantId → q.tenantId = tenantId →
        ∀ field, ¬ Shares field (p.patched patch) q := by
      rintro p hp rfl q hq hid htenant hqtenant field ⟨v, hv, hqvalue⟩
      rw [ProfileRow.get_patched] at hv
      cases hpatch : patch.get field with
      | none =>
          rw [hpatch] at hv
          exact h p hp q hq htenant hqtenant (Ne.symm hid) field ⟨v, hv, hqvalue⟩
      | some value =>
          rw [hpatch] at hv
          have hnone := hstill p hp rfl htenant field value hpatch v hv
          have huser := findClash_eq_none_iff.mp hnone q hq hqtenant hqvalue
          exact hid (congrArg ProfileRow.id
            (ClientDb.eq_of_userId hp hq (Option.some.inj huser)).symm)
    intro a ha b hb hat hbt hid field
    obtain ⟨p, hp, rfl⟩ := hmem.mp ha
    obtain ⟨q, hq, rfl⟩ := hmem.mp hb
    by_cases hpid : p.id = id <;> by_cases hqid : q.id = id
    · rw [if_pos hpid, if_pos hqid] at hid
      exact absurd (hpid.trans hqid.symm) hid
    · rw [if_pos hpid] at hat ⊢
      rw [if_neg hqid] at hbt ⊢
      exact hchanged p hp hpid q hq hqid hat hbt field
    · rw [if_neg hpid] at hat ⊢
      rw [if_pos hqid] at hbt ⊢
      exact fun hshares => hchanged q hq hqid p hp hpid hbt hat field hshares.symm
    · rw [if_neg hpid] at hat hid ⊢
      rw [if_neg hqid] at hbt hid ⊢
      exact h p hp q hq hat hbt hid field

/-- One step keeps the numbers unique exactly when what it writes is still unique. -/
theorem clientStep_unique_iff (h : IdentifiersUnique tenantId db)
    (hstep : ClientStep label db db') :
    IdentifiersUnique tenantId db' ↔ StillUnique tenantId label db := by
  cases label with
  | read =>
      obtain rfl : db' = db := hstep
      exact iff_of_true h trivial
  | create p =>
      obtain rfl : db' = (db.insert p).getD db := hstep
      cases hinsert : db.insert p with
      | some db' => exact create_unique_iff h hinsert
      | none =>
          refine iff_of_true h fun _ hapart => ?_
          rw [ClientDb.insert, dif_pos hapart] at hinsert
          cases hinsert
  | update id patch =>
      obtain rfl : db' = db.update id patch := hstep
      exact update_unique_iff h

end Steps

/-! ## Calls -/

theorem clash_takes (field : Identifier) (value : Option String) (tenantId : Id)
    (excludeUserId : Option Id) :
    Process.Takes ClientStep (clash field value tenantId excludeUserId) := by
  unfold clash
  split
  · trivial
  · exact fun s => ⟨rfl, trivial⟩

theorem assertIdentifiersUnique_takes (tenantId : Id) (nin bvn : Option String)
    (excludeUserId : Option Id) (bvnFirst : Bool) :
    Process.Takes ClientStep
      (assertIdentifiersUnique tenantId nin bvn excludeUserId bvnFirst) := by
  unfold assertIdentifiersUnique
  apply takes_bind
  · unfold clashes
    split
    · apply takes_bind (clash_takes _ _ _ _)
      intro bvnClash
      exact takes_bind (clash_takes _ _ _ _) fun _ => trivial
    · apply takes_bind (clash_takes _ _ _ _)
      intro ninClash
      exact takes_bind (clash_takes _ _ _ _) fun _ => trivial
  · rintro ⟨_ | _, _ | _⟩ <;> trivial

theorem createClient_takes (dto : CreateClient) :
    Process.Takes ClientStep (createClient dto) := by
  unfold createClient
  apply takes_ofExcept
  intro _ _
  apply takes_bind
  · exact takes_read (fun _ => rfl) fun _ => trivial
  · intro clientCode
    apply takes_ofExcept
    intro _ _
    apply takes_bind (assertIdentifiersUnique_takes _ _ _ _ _)
    intro _
    apply takes_ofExcept
    intro _ _
    apply takes_ofExcept
    intro _ _
    apply takes_write
    · intro s b s' hwrite
      split at hwrite
      · obtain ⟨-, rfl⟩ := Prod.mk.inj (Except.ok.inj hwrite)
        simp [ClientStep, *]
      · cases hwrite
    · intro s e hwrite
      split at hwrite
      · cases hwrite
      · simp [ClientStep, *]

theorem updateClient_takes (dto : UpdateClient) :
    Process.Takes ClientStep (updateClient dto) := by
  unfold updateClient
  apply takes_read fun _ => rfl
  intro s
  apply takes_orThrow
  intro profile _
  apply takes_bind
  · unfold UpdateClient.check
    split
    · exact assertIdentifiersUnique_takes _ _ _ _ _
    · trivial
  · intro _
    apply takes_ofExcept
    intro _ _
    apply takes_ofExcept
    intro _ _
    apply takes_write
    · intro s b s' hwrite
      obtain ⟨-, rfl⟩ := Prod.mk.inj (Except.ok.inj hwrite)
      rfl
    · intro s e hwrite
      cases hwrite

theorem ClientCall.run_takes (call : ClientCall) : Process.Takes ClientStep call.run := by
  cases call with
  | createClient dto => exact createClient_takes dto
  | updateClient dto => exact updateClient_takes dto

/-- However calls are interleaved and wherever they stop, the identity numbers of a tenant are
unique throughout exactly when every write would still pass its check on the state that it
writes to. -/
theorem identifiers_unique_iff (tenantId : Id) (calls : List ClientCall) (s s' : ClientDb)
    (hunique : IdentifiersUnique tenantId s) (trace : List (Transition ClientLabel ClientDb))
    (pool : List (ClientApi Unit)) (hrun : Run s (calls.map ClientCall.run) trace s' pool) :
    (∀ t ∈ trace, IdentifiersUnique tenantId t.after) ↔
      ∀ t ∈ trace, StillUnique tenantId t.label t.before := by
  have htakes : ∀ p ∈ calls.map ClientCall.run, Process.Takes ClientStep p := by
    intro p hp
    obtain ⟨call, -, rfl⟩ := List.mem_map.mp hp
    exact call.run_takes
  exact hrun.exactly htakes hunique clientStep_unique_iff

/-- Two clients of one tenant without numbers. -/
def sampleClients : ClientDb where
  rows :=
    [⟨1, 7, 11, "CLT-2026-0001".toList, none, none⟩, ⟨2, 7, 12, "CLT-2026-0002".toList, none, none⟩]
  apart := by decide

/-- Both are to get one NIN. -/
def sampleUpdates : List ClientCall :=
  [.updateClient ⟨7, 11, some (some "12345678901"), none, true, false, .ok (), .ok ()⟩,
    .updateClient ⟨7, 12, some (some "12345678901"), none, true, false, .ok (), .ok ()⟩]

def updateRace (choices : List ℕ) : List (Transition ClientLabel ClientDb) × ClientDb ×
    List (ClientApi Unit) :=
  interleave choices sampleClients (sampleUpdates.map ClientCall.run)

/-- One after the other, the second update is refused. -/
theorem identifiers_unique_iff_sample :
    IdentifiersUnique 7 sampleClients ∧
      ∀ t ∈ (updateRace [0, 0, 0, 1, 1]).1, IdentifiersUnique 7 t.after :=
  ⟨by decide, (identifiers_unique_iff 7 sampleUpdates sampleClients _ (by decide) _ _
    (run_interleave _ _ _)).mpr (by decide +kernel)⟩

/-- Both updates look before either writes, and both clients get the NIN. -/
theorem nin_shared_after_race :
    ¬ ∀ (calls : List ClientCall) (s s' : ClientDb), IdentifiersUnique 7 s →
        ∀ (trace : List (Transition ClientLabel ClientDb)) (pool : List (ClientApi Unit)),
          Run s (calls.map ClientCall.run) trace s' pool → IdentifiersUnique 7 s' := by
  intro hclaim
  have hunique : IdentifiersUnique 7 (updateRace [0, 0, 1, 1, 0, 1]).2.1 :=
    hclaim sampleUpdates sampleClients _ (by decide) _ _ (run_interleave _ _ _)
  exact absurd hunique (by decide +kernel)

end SecureStore.Access
