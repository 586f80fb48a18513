/-
# One-time passwords

Issuing and consuming the one-time passwords that authorise a transaction. A request
issues its code in one transaction of two statements under read committed: the first
voids the codes it sees, the second inserts the new one, and both take effect when the
transaction commits, possibly after others have. Consuming reads the newest unused
code, compares, and writes back what it computed from that reading.
-/

import SecureStore.Access.SignIn

namespace SecureStore.Access

open SecureStore.Foundation SecureStore.Inventory SecureStore.Services

/-- `TransactionOtpPurpose` -/
inductive OtpPurpose where
  | withdrawal
  | loan
  | trade
  | disable2fa
  | changePassword
  | pledgeAccept
  | releaseApprove
  deriving DecidableEq

structure TransactionOtp where
  id : Id
  userId : Id
  codeHash : String
  purpose : OtpPurpose
  expiresAt : Timestamp
  usedAt : Option Timestamp := none
  attempts : ℕ := 0
  createdAt : Timestamp
  deriving DecidableEq

instance : Keyed TransactionOtp Id := ⟨TransactionOtp.id⟩

@[simp] theorem key_transactionOtp (r : TransactionOtp) : Keyed.key r = r.id := rfl

/-- What the transaction gate reads of a user. -/
structure OtpUser where
  id : Id
  transactionPinHash : Option String
  twoFactorEnabled : Bool
  deriving DecidableEq

instance : Keyed OtpUser Id := ⟨OtpUser.id⟩

/-- The tables of the security service, and the clock. -/
structure OtpDb where
  clock : Timestamp
  users : Table OtpUser
  otps : Table TransactionOtp

/-- What one step is. Accepting is the last step of a call that succeeds, and a wrong
submission is evaluated when it is written back. -/
inductive OtpLabel where
  | read
  | issue (otp : TransactionOtp) (seen : List Id)
  | wrong (otp : TransactionOtp)
  | accept (otp : TransactionOtp)
  | tick

abbrev OtpApi (α : Type) := Attempt OtpLabel OtpDb AccessError α

/-- `OTP_LENGTH` -/
def otpLength : ℕ := 6

/-- `OTP_TTL_MINUTES`, in milliseconds -/
def otpTtl : Timestamp := 10 * 60 * 1000

/-- `OTP_MAX_ATTEMPTS` -/
def otpMaxAttempts : ℕ := 5

/-- `ALWAYS_REQUIRE_OTP` -/
def alwaysRequireOtp : List OtpPurpose := [.changePassword, .pledgeAccept, .releaseApprove]

/-- The unused codes of a user for a purpose. -/
def TransactionOtp.Unused (userId : Id) (purpose : OtpPurpose) (r : TransactionOtp) : Prop :=
  r.userId = userId ∧ r.purpose = purpose ∧ r.usedAt = none

instance (userId : Id) (purpose : OtpPurpose) :
    DecidablePred (TransactionOtp.Unused userId purpose) :=
  fun _ => inferInstanceAs (Decidable (_ ∧ _))

/-- The newest unused code, by its creation. -/
def newestUnused (userId : Id) (purpose : OtpPurpose) (db : OtpDb) : Option TransactionOtp :=
  let unused := db.otps.rows.filter (TransactionOtp.Unused userId purpose)
  (unused.insertionSort fun a b => b.createdAt ≤ a.createdAt).head?

/-- The codes a request voids: unused ones that have not expired. -/
def liveIds (userId : Id) (purpose : OtpPurpose) (now : Timestamp) (db : OtpDb) : List Id :=
  (db.otps.rows.filter fun r => r.Unused userId purpose ∧ now < r.expiresAt).map TransactionOtp.id

def markUsed (now : Timestamp) (r : TransactionOtp) : TransactionOtp :=
  { r with usedAt := some now }

/-- `updateMany` on the rows seen: they are used from now on. -/
def voidSeen (seen : List Id) (now : Timestamp) (otps : Table TransactionOtp) :
    Table TransactionOtp :=
  otps.modifyWhere (fun r => r.id ∈ seen ∧ r.usedAt = none) (markUsed now)

/-- A wrong submission, written back from the row as it was read. -/
def markWrong (otp : TransactionOtp) (now : Timestamp) (r : TransactionOtp) : TransactionOtp :=
  { r with
    attempts := otp.attempts + 1
    usedAt := if otpMaxAttempts ≤ otp.attempts + 1 then some now else r.usedAt }

/-- `transactionOtp.update` -/
def updateOtp (label : OtpLabel) (id : Id) (f : TransactionOtp → TransactionOtp)
    (hf : ∀ r, Keyed.key (f r) = Keyed.key r := by intro r; rfl) : OtpApi Unit :=
  Attempt.write label fun db =>
    match db.otps.find id with
    | some _ => .ok ((), { db with otps := db.otps.modify id f hf })
    | none => .error .recordNotFound

/-- `new Date()` -/
def currentDate : OtpApi Timestamp := Attempt.read .read OtpDb.clock

/-- Issue a fresh code for a user and a purpose; the code and the id of its row are drawn
by the caller. -/
def requestTransactionOtp (sha256 : String → String) (otpId userId : Id) (purpose : OtpPurpose)
    (code : String) : OtpApi Unit := do
  let user ← Attempt.read .read fun db : OtpDb => db.users.find userId
  let user ← Attempt.orThrow user (.notFound "User not found")
  if user.twoFactorEnabled = false ∧ purpose ∉ alwaysRequireOtp then pure ()
  else do
    let now ← currentDate
    let (seen, createdAt) ← Attempt.read .read fun db : OtpDb =>
      (liveIds userId purpose now db, db.clock)
    let otp : TransactionOtp :=
      { id := otpId
        userId := userId
        codeHash := sha256 code
        purpose := purpose
        expiresAt := now + otpTtl
        createdAt := createdAt }
    Attempt.write (.issue otp seen) fun db =>
      match (voidSeen seen now db.otps).insert otp with
      | some otps => .ok ((), { db with otps })
      | none => .error .recordNotFound

/-- The message of a wrong submission. -/
def incorrectOtp (attempts : ℕ) : AccessError :=
  let attemptsRemaining := otpMaxAttempts - attempts
  .badRequest (some "OTP_INVALID")
    ("Incorrect OTP. " ++ toString attemptsRemaining ++ " attempt" ++
      (if attemptsRemaining = 1 then "" else "s") ++ " remaining before this code is disabled.")

/-- Verify and burn a code. -/
def consumeOtp (sha256 : String → String) (userId : Id) (code : String) (purpose : OtpPurpose) :
    OtpApi Unit := do
  Attempt.throwIf (code.toList.all (fun c => '0' ≤ c ∧ c ≤ '9') = false ∨
      code.toList.length ≠ otpLength)
    (.badRequest (some "OTP_FORMAT_INVALID") "OTP must be exactly 6 digits (0-9).")
  let otp ← Attempt.read .read (newestUnused userId purpose)
  let now ← currentDate
  let otp ← Attempt.orThrow (otp.filter fun otp => ¬ otp.expiresAt < now)
    (.badRequest (some "OTP_EXPIRED")
      "No active OTP found, or it has expired. Request a new code.")
  if sha256 code = otp.codeHash then
    updateOtp (.accept otp) otp.id (markUsed now)
  else do
    updateOtp (.wrong otp) otp.id (markWrong otp now)
    if otpMaxAttempts ≤ otp.attempts + 1 then
      Attempt.throw (.badRequest (some "OTP_EXHAUSTED")
        ("Too many incorrect attempts. This code has been disabled — request a new one."))
    else Attempt.throw (incorrectOtp (otp.attempts + 1))

/-- The gate at the start of a withdrawal, a loan or a trade. -/
def assertTransactionAuth (sha256 : String → String) (compare : String → String → Bool)
    (userId : Id) (purpose : OtpPurpose) (pin otp : Option String) (isOnBehalf : Bool) :
    OtpApi Unit := do
  let user ← Attempt.read .read fun db : OtpDb => db.users.find userId
  let user ← Attempt.orThrow user (.notFound "User not found")
  if user.twoFactorEnabled = false then pure ()
  else do
    Attempt.throwIf (isOnBehalf = false ∧ user.transactionPinHash.getD "" = "")
      (.badRequest (some "PIN_NOT_SET")
        "A transaction PIN is required but not set on this account.")
    Attempt.throwIf (isOnBehalf = false ∧ pin.getD "" = "")
      (.badRequest (some "PIN_REQUIRED") "Transaction PIN is required to complete this action.")
    Attempt.throwIf (isOnBehalf = false ∧
        compare (pin.getD "") (user.transactionPinHash.getD "") = false)
      (.unauthorized (some "PIN_INCORRECT") "Incorrect transaction PIN.")
    let otp ← Attempt.orThrow (otp.filter fun otp => otp ≠ "")
      (.badRequest (some "OTP_REQUIRED") "Transaction OTP is required to complete this action.")
    consumeOtp sha256 userId otp purpose

/-- The passing of time. -/
def tick (milliseconds : ℕ) : OtpApi Unit :=
  Attempt.write .tick fun db => .ok ((), { db with clock := db.clock + milliseconds })

inductive OtpCall where
  | requestTransactionOtp (otpId userId : Id) (purpose : OtpPurpose) (code : String)
  | consumeOtp (userId : Id) (code : String) (purpose : OtpPurpose)
  | assertTransactionAuth (userId : Id) (purpose : OtpPurpose) (pin otp : Option String)
      (isOnBehalf : Bool)
  | tick (milliseconds : ℕ)

def OtpCall.run (sha256 : String → String) (compare : String → String → Bool) :
    OtpCall → OtpApi Unit
  | requestTransactionOtp otpId userId purpose code =>
      Access.requestTransactionOtp sha256 otpId userId purpose code
  | consumeOtp userId code purpose => Access.consumeOtp sha256 userId code purpose
  | assertTransactionAuth userId purpose pin otp isOnBehalf =>
      Access.assertTransactionAuth sha256 compare userId purpose pin otp isOnBehalf
  | tick milliseconds => Access.tick milliseconds

end SecureStore.Access
