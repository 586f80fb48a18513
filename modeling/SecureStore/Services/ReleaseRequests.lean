/-
# Release requests and forced releases

A client asks to lift some or all of the volume under several liens; the
financier approves the request as a whole or rejects it. Approval validates all
lines against one reading of the liens and then releases line by line, each
ledger operation and each row update committing on its own. An admin can release
a lien by force.
-/

import SecureStore.Services.Database

namespace SecureStore.Services

open SecureStore.Foundation SecureStore.Inventory

structure CreateReleaseRequestLine where
  id : Id
  lienId : Id
  quantity : ℚ

structure CreateReleaseRequest where
  requestId : Id
  callerUserId : Id
  financierId : Id
  requestedDate : Timestamp
  note : Option String
  /-- `@ArrayMinSize(1)` -/
  firstLine : CreateReleaseRequestLine
  moreLines : List CreateReleaseRequestLine

def CreateReleaseRequest.lines (dto : CreateReleaseRequest) : List CreateReleaseRequestLine :=
  dto.firstLine :: dto.moreLines

/-- A line of a request with the lien it names, as one query reads them. -/
structure LoadedLine where
  line : ReleaseRequestLine
  lien : Lien

structure ApproveReleaseRequest where
  uuids : Id → Uuids
  now : Timestamp
  otp : Except ApiError Unit
  callerUserId : Id
  requestId : Id

structure ForceReleaseLien where
  uuids : Uuids
  forceReleaseId : Id
  now : Timestamp
  tenantId : Id
  adminUserId : Id
  lienId : Id
  reason : String
  courtOrderDocUrl : String

def LienStatus.Live (status : LienStatus) : Prop :=
  status = .active ∨ status = .partiallyReleased

instance : DecidablePred LienStatus.Live := fun _ => instDecidableOr

/-- The PENDING release volume already asked for on a lien. -/
def pendingPerLien (db : Db) (lienId : Id) : ℚ :=
  ((db.releaseRequestLines.rows.filter fun l => l.lienId = lienId ∧
    ((db.releaseRequests.find l.releaseRequestId).map ReleaseRequest.status) =
      some .pending).map ReleaseRequestLine.quantity).sum

/-- The checks of one line of a new request. -/
def validateLine (num : Numeric) (dto : CreateReleaseRequest) (lienMap : Id → Option Lien)
    (pending : Id → ℚ) (line : CreateReleaseRequestLine) : Api Unit := do
  let lien ← Api.orThrow (lienMap line.lienId) (.badRequest "LIEN_NOT_FOUND")
  Api.throwIf (lien.clientId ≠ dto.callerUserId) (.notFound "Lien not found")
  Api.throwIf (lien.financierOrgId ≠ dto.financierId) (.badRequest "LIEN_FINANCIER_MISMATCH")
  Api.throwIf (¬ lien.status.Live) (.badRequest "LIEN_NOT_ACTIVE")
  Api.throwIf (line.quantity ≤ 0) (.badRequest "QUANTITY_INVALID")
  Api.throwIf (num.minus lien.remainingQuantity (pending line.lienId) < line.quantity)
    (.conflict (if 0 < pending line.lienId then "RELEASE_ALREADY_PENDING"
      else "QUANTITY_EXCEEDS_LIEN"))

/-- Insert the lines of a new request, in order. -/
def createLines (num : Numeric) (requestId : Id) (lienMap : Id → Option Lien) :
    List CreateReleaseRequestLine → Table ReleaseRequestLine →
      Except ApiError (Table ReleaseRequestLine)
  | [], t => .ok t
  | line :: rest, t =>
      match lienMap line.lienId with
      | none => .error .typeError
      | some lien => do
          let t' ← createRow t
            { id := line.id
              releaseRequestId := requestId
              lienId := line.lienId
              receiptId := lien.receiptId
              quantity := num.numeric20_4 line.quantity }
          createLines num requestId lienMap rest t'

/-- `releaseRequest.update` -/
def updateReleaseRequest (by_ : Issuer) (id : Id) (f : ReleaseRequest → ReleaseRequest)
    (hf : ∀ r, Keyed.key (f r) = Keyed.key r := by intro r; rfl) : Api Unit :=
  Api.write by_ fun db =>
    (updateRow db.releaseRequests id f hf).map fun releaseRequests =>
      ((), { db with releaseRequests })

/-- `lien.update` -/
def updateLien (by_ : Issuer) (id : Id) (f : Lien → Lien)
    (hf : ∀ r, Keyed.key (f r) = Keyed.key r := by intro r; rfl) : Api Unit :=
  Api.write by_ fun db =>
    (updateRow db.liens id f hf).map fun liens => ((), { db with liens })

/-- The request of a financier. -/
def getFinancierRequest (financierOrgId requestId : Id) (db : Db) : Option ReleaseRequest :=
  (db.releaseRequests.find requestId).filter fun r => r.financierOrgId = financierOrgId

/-- The lines of a request, each with its lien. -/
def loadedLines (db : Db) (requestId : Id) : List LoadedLine :=
  (db.releaseRequestLines.rows.filter fun l => l.releaseRequestId = requestId).filterMap fun l =>
    (db.liens.find l.lienId).map fun lien => ⟨l, lien⟩

/-- The second validation of a line, at approval. -/
def revalidateLine (l : LoadedLine) : Api Unit := do
  Api.throwIf (¬ l.lien.status.Live) (.badRequest "LIEN_NOT_ACTIVE")
  Api.throwIf (l.lien.remainingQuantity < l.line.quantity) (.badRequest "QUANTITY_EXCEEDS_LIEN")

section Requests

variable (num : Numeric)

def createReleaseRequest (dto : CreateReleaseRequest) : Api Unit := do
  let caller ← Api.query fun db => db.directory.users.find dto.callerUserId
  let caller ← Api.orThrow caller (.notFound "User not found")
  let lienMap ← Api.query fun db => db.liens.find
  let pending ← Api.query pendingPerLien
  Attempt.forEach dto.lines (validateLine num dto lienMap pending)
  Api.write (.createReleaseRequest dto.requestId) fun db => do
    let releaseRequests ← createRow db.releaseRequests
      { id := dto.requestId
        tenantId := caller.tenantId
        clientId := dto.callerUserId
        financierOrgId := dto.financierId
        requestedDate := dto.requestedDate
        note := dto.note
        status := .pending }
    let releaseRequestLines ←
      createLines num dto.requestId lienMap dto.lines db.releaseRequestLines
    pure ((), { db with releaseRequests, releaseRequestLines })

def cancelReleaseRequest (callerUserId requestId : Id) : Api Unit := do
  let req ← Api.query fun db =>
    (db.releaseRequests.find requestId).filter fun r => r.clientId = callerUserId
  let req ← Api.orThrow req (.notFound "Release request not found")
  Api.throwIf (req.status ≠ .pending) (.badRequest "RELEASE_REQUEST_NOT_PENDING")
  updateReleaseRequest (.cancelReleaseRequest req.id) req.id fun r =>
    { r with status := .cancelled }

def getFinancierReleaseRequestDetail (callerUserId requestId : Id) : Api Unit := do
  let financierOrg ← requireFinancierOrg callerUserId
  let req ← Api.query (getFinancierRequest financierOrg.id requestId)
  let _ ← Api.orThrow req (.notFound "Release request not found")
  pure ()

/-- A line that asks for all that remains of its lien. -/
def releaseFully (dto : ApproveReleaseRequest) (req : ReleaseRequest) (l : LoadedLine) :
    Api Unit := do
  let by_ := .approveReleaseLine req.id l.line.id l.lien.id
  let _ ← Api.release num by_ (dto.uuids l.line.id)
    { tenantId := req.tenantId
      actorUserId := some dto.callerUserId
      idempotencyKey := [.text "release", .text "full", .uuid req.id, .uuid l.line.id] }
    l.lien.receiptId
  updateLien by_ l.lien.id fun r =>
    { r with remainingQuantity := 0, status := .released, releasedAt := some dto.now }

/-- A line that asks for a part: the lien's leaf shifts to the smaller child. -/
def releasePartly (dto : ApproveReleaseRequest) (req : ReleaseRequest) (l : LoadedLine) :
    Api Unit := do
  let by_ := .approveReleaseLine req.id l.line.id l.lien.id
  let result ← Api.releasePartial num by_ (dto.uuids l.line.id)
    { tenantId := req.tenantId
      heldReceiptId := l.lien.receiptId
      releaseQuantity := l.line.quantity
      releaseRequestId := req.id
      actorUserId := some dto.callerUserId
      idempotencyKey := [.text "release", .text "partial", .uuid req.id, .uuid l.line.id] }
  let remainingHeld ← Api.orThrow result.remainingHeld .typeError
  updateLien by_ l.lien.id fun r =>
    { r with
      receiptId := remainingHeld.id
      remainingQuantity :=
        num.numeric20_4 (num.minus l.lien.remainingQuantity l.line.quantity)
      status := .partiallyReleased }

/-- One line of an approval, against the lien as it was read at the start. -/
def releaseLine (dto : ApproveReleaseRequest) (req : ReleaseRequest) (l : LoadedLine) :
    Api Unit :=
  if l.line.quantity = l.lien.remainingQuantity then releaseFully num dto req l
  else releasePartly num dto req l

/-- What an approval does after its last line. -/
def markApproved (dto : ApproveReleaseRequest) (req : ReleaseRequest) : Api Unit := do
  updateReleaseRequest (.approveReleaseRequest req.id) req.id fun r =>
    { r with status := .approved, decidedById := some dto.callerUserId }
  getFinancierReleaseRequestDetail dto.callerUserId req.id

/-- Approve a release request: validate every line, then process each in turn. -/
def approveReleaseRequest (dto : ApproveReleaseRequest) : Api Unit := do
  let financierOrg ← requireFinancierOrg dto.callerUserId
  let found ← Api.query fun db => (getFinancierRequest financierOrg.id dto.requestId db).map
    fun req => (req, loadedLines db req.id)
  let (req, lines) ← Api.orThrow found (.notFound "Release request not found")
  Api.throwIf (req.status ≠ .pending) (.badRequest "RELEASE_REQUEST_NOT_PENDING")
  Attempt.forEach lines revalidateLine
  Api.authorise dto.otp
  Attempt.forEach lines (releaseLine num dto req)
  markApproved dto req

def rejectReleaseRequest (callerUserId requestId : Id) (reason : String) : Api Unit := do
  let financierOrg ← requireFinancierOrg callerUserId
  let req ← Api.query (getFinancierRequest financierOrg.id requestId)
  let req ← Api.orThrow req (.notFound "Release request not found")
  Api.throwIf (req.status ≠ .pending) (.badRequest "RELEASE_REQUEST_NOT_PENDING")
  updateReleaseRequest (.rejectReleaseRequest req.id) req.id fun r =>
    { r with
      status := .rejected, decisionReason := some reason, decidedById := some callerUserId }
  getFinancierReleaseRequestDetail callerUserId req.id

/-- The release of a lien that is neither forced nor released yet. -/
def forceRelease (dto : ForceReleaseLien) (lien : Lien) : Api Unit := do
  Api.throwIf (lien.status = .released) (.badRequest "LIEN_ALREADY_RELEASED")
  let _ ← Api.release num (.forceReleaseLien lien.id) dto.uuids
    { tenantId := dto.tenantId
      actorUserId := some dto.adminUserId
      idempotencyKey := [.text "lien", .text "force-release", .uuid lien.id] } lien.receiptId
  Api.write (.forceReleaseLien lien.id) fun db => do
    let forceReleases ← createRow db.forceReleases
      { id := dto.forceReleaseId
        tenantId := dto.tenantId
        lienId := lien.id
        adminId := dto.adminUserId
        reason := dto.reason
        courtOrderDocUrl := dto.courtOrderDocUrl }
      fun x => x.lienId = lien.id
    let liens ← updateRow db.liens lien.id fun r =>
      { r with status := .forceReleased, remainingQuantity := 0, releasedAt := some dto.now }
    pure ((), { db with forceReleases, liens })

def forceReleaseLien (dto : ForceReleaseLien) : Api Unit := do
  let found ← Api.query fun db =>
    ((db.liens.find dto.lienId).filter fun l => l.tenantId = dto.tenantId).map fun lien =>
      (lien, db.forceReleases.rows.find? fun f => f.lienId = lien.id)
  let (lien, forced) ← Api.orThrow found (.notFound "Lien not found")
  if forced.isSome = true then pure () else forceRelease num dto lien

end Requests

end SecureStore.Services
