/-
# Two-factor authentication and its PIN

Setting, changing and clearing the transaction PIN, and the two-factor toggle that needs
one. Every call loads the user, compares passwords, and then writes its own column
without looking at the row again. What it found decides: a PIN is only cleared while the
toggle is off, and the toggle only turned on over a PIN. That these hold when the call
writes is exactly what keeps a PIN behind every toggle; a clearing beside an enabling
breaks it.
-/

import SecureStore.Access.SingleUse
import SecureStore.Foundation.Alone

namespace SecureStore.Access

open SecureStore.Foundation SecureStore.Inventory SecureStore.Services

/-- The tables of the security service and the hash of each user's password, a column
that no call here writes. -/
structure SecurityDb where
  otp : OtpDb
  password : Id → String

/-- A user as `loadUserOrThrow` returns it. -/
structure SecurityUser where
  user : OtpUser
  password : String

/-- The password library. A hash is drawn with a salt and is never empty. -/
structure Bcrypt where
  hash : (salt password : String) → String
  compare : (password passwordHash : String) → Bool
  hash_ne : ∀ salt password, hash salt password ≠ ""

/-- What one step is. -/
inductive PinLabel where
  | read
  | otp (label : OtpLabel)
  | writePin (userId : Id)
  | clearPin (userId : Id)
  | enable (userId : Id)
  | disable (userId : Id)

inductive SecurityError where
  | access (e : AccessError)
  | forbidden (code message : String)
  deriving DecidableEq

structure SecurityResponse where
  message : String
  twoFactorEnabled : Option Bool := none

abbrev PinApi (α : Type) := Attempt PinLabel SecurityDb SecurityError α

/-- `PIN_LENGTH` -/
def pinLength : ℕ := 4

/-- The hash is there and is not the empty string. -/
def PinSet (user : OtpUser) : Prop := user.transactionPinHash.getD "" ≠ ""

instance : DecidablePred PinSet := fun _ => inferInstanceAs (Decidable (_ ≠ _))

section Calls

variable (bcrypt : Bcrypt) (sha256 : String → String)

def assertPinFormat (pin : String) : PinApi Unit :=
  Attempt.throwIf (pin.toList.length ≠ pinLength ∨
      pin.toList.all (fun c => '0' ≤ c ∧ c ≤ '9') = false)
    (.access (.badRequest (some "PIN_FORMAT_INVALID") "PIN must be exactly 4 digits (0-9)."))

def loadUserOrThrow (userId : Id) : PinApi SecurityUser := do
  let user ← Attempt.read .read fun s : SecurityDb =>
    (s.otp.users.find userId).map fun user => ⟨user, s.password userId⟩
  Attempt.orThrow user (.access (.notFound "User not found"))

def assertPasswordCorrect (user : SecurityUser) (password : String) : PinApi Unit := do
  Attempt.throwIf (password = "")
    (.access (.badRequest (some "PASSWORD_REQUIRED") "Current account password is required."))
  Attempt.throwIf (bcrypt.compare password user.password = false)
    (.forbidden "PASSWORD_INCORRECT" "Account password is incorrect.")

/-- `user.update` -/
def updateUser (label : PinLabel) (userId : Id) (f : OtpUser → OtpUser)
    (hf : ∀ r, Keyed.key (f r) = Keyed.key r := by intro r; rfl) : PinApi Unit :=
  Attempt.write label fun s =>
    match s.otp.users.find userId with
    | some _ => .ok ((), { s with otp := { s.otp with users := s.otp.users.modify userId f hf } })
    | none => .error (.access .recordNotFound)

/-- Set a PIN for the first time. -/
def setTransactionPin (userId : Id) (password pin salt : String) : PinApi SecurityResponse := do
  assertPinFormat pin
  let user ← loadUserOrThrow userId
  assertPasswordCorrect bcrypt user password
  Attempt.throwIf (PinSet user.user)
    (.access (.badRequest (some "PIN_ALREADY_SET")
      "A transaction PIN is already set. Use the change-PIN flow instead."))
  let hash := bcrypt.hash salt pin
  updateUser (.writePin user.user.id) user.user.id
    fun u => { u with transactionPinHash := some hash }
  pure { message := "Transaction PIN set." }

/-- Change the PIN, with the current one and the password. -/
def changeTransactionPin (userId : Id) (password currentPin newPin salt : String) :
    PinApi SecurityResponse := do
  assertPinFormat newPin
  let user ← loadUserOrThrow userId
  Attempt.throwIf (¬ PinSet user.user)
    (.access (.badRequest (some "PIN_NOT_SET")
      "No transaction PIN is set yet. Use the set-PIN flow first."))
  assertPasswordCorrect bcrypt user password
  Attempt.throwIf (bcrypt.compare currentPin (user.user.transactionPinHash.getD "") = false)
    (.access (.unauthorized (some "PIN_INCORRECT") "Current PIN is incorrect."))
  Attempt.throwIf (currentPin = newPin)
    (.access (.badRequest (some "PIN_REUSED") "New PIN must differ from the current PIN."))
  let hash := bcrypt.hash salt newPin
  updateUser (.writePin user.user.id) user.user.id
    fun u => { u with transactionPinHash := some hash }
  pure { message := "Transaction PIN updated." }

/-- Clear the PIN; blocked while two-factor authentication is on. -/
def clearTransactionPin (userId : Id) (password : String) : PinApi SecurityResponse := do
  let user ← loadUserOrThrow userId
  assertPasswordCorrect bcrypt user password
  if ¬ PinSet user.user then pure { message := "No transaction PIN to clear." }
  else do
    Attempt.throwIf (user.user.twoFactorEnabled = true)
      (.access (.badRequest (some "PIN_LOCKED_BY_2FA")
        "Disable two-factor authentication before clearing your PIN."))
    updateUser (.clearPin user.user.id) user.user.id fun u => { u with transactionPinHash := none }
    pure { message := "Transaction PIN cleared." }

/-- Turn two-factor authentication on; requires a PIN. -/
def enableTwoFactor (userId : Id) (password : String) : PinApi SecurityResponse := do
  let user ← loadUserOrThrow userId
  assertPasswordCorrect bcrypt user password
  Attempt.throwIf (¬ PinSet user.user)
    (.access (.badRequest (some "PIN_NOT_SET")
      "Set a transaction PIN before enabling two-factor authentication."))
  if user.user.twoFactorEnabled then
    pure { message := "Two-factor authentication is already enabled."
           twoFactorEnabled := some true }
  else do
    updateUser (.enable user.user.id) user.user.id fun u => { u with twoFactorEnabled := true }
    pure { message :=
             "Two-factor authentication enabled. Each transaction will now require an OTP."
           twoFactorEnabled := some true }

/-- A call of the service that has no password gate. -/
def onOtps {α : Type} (p : OtpApi α) : PinApi α :=
  Attempt.zoom .otp SecurityDb.otp (fun otp s => { s with otp }) .access p

/-- Turn two-factor authentication off, with the password and a code of its own. -/
def disableTwoFactor (userId : Id) (password otp : String) : PinApi SecurityResponse := do
  let user ← loadUserOrThrow userId
  assertPasswordCorrect bcrypt user password
  if user.user.twoFactorEnabled = false then
    pure { message := "Two-factor authentication is already disabled."
           twoFactorEnabled := some false }
  else do
    onOtps (consumeOtp sha256 user.user.id otp .disable2fa)
    updateUser (.disable user.user.id) user.user.id fun u => { u with twoFactorEnabled := false }
    pure { message := "Two-factor authentication disabled."
           twoFactorEnabled := some false }

inductive PinCall where
  | setTransactionPin (userId : Id) (password pin salt : String)
  | changeTransactionPin (userId : Id) (password currentPin newPin salt : String)
  | clearTransactionPin (userId : Id) (password : String)
  | enableTwoFactor (userId : Id) (password : String)
  | disableTwoFactor (userId : Id) (password otp : String)
  /-- Codes are requested and consumed beside these calls, and time passes. -/
  | codes (call : OtpCall)

def PinCall.run : PinCall → PinApi SecurityResponse
  | setTransactionPin userId password pin salt =>
      Access.setTransactionPin bcrypt userId password pin salt
  | changeTransactionPin userId password currentPin newPin salt =>
      Access.changeTransactionPin bcrypt userId password currentPin newPin salt
  | clearTransactionPin userId password => Access.clearTransactionPin bcrypt userId password
  | enableTwoFactor userId password => Access.enableTwoFactor bcrypt userId password
  | disableTwoFactor userId password otp =>
      Access.disableTwoFactor bcrypt sha256 userId password otp
  | codes call => do
      onOtps (call.run sha256 bcrypt.compare)
      pure { message := "" }

end Calls

/-- An update of one user: nothing when the row is missing. -/
inductive UserWritten (userId : Id) (f : OtpUser → OtpUser) (s s' : SecurityDb) : Prop where
  | missing (hfind : s.otp.users.find userId = none) (same : s'.otp.users = s.otp.users)
  | written {user : OtpUser} (hfind : s.otp.users.find userId = some user)
      (hf : ∀ r, Keyed.key (f r) = Keyed.key r)
      (after : s'.otp.users = s.otp.users.modify userId f hf)

/-- What a step does to the users. -/
def PinStep : PinLabel → SecurityDb → SecurityDb → Prop
  | .read, s, s' => s' = s
  | .otp _, s, s' => s'.otp.users = s.otp.users
  | .writePin userId, s, s' =>
      ∃ hash ≠ "", UserWritten userId (fun u => { u with transactionPinHash := some hash }) s s'
  | .clearPin userId, s, s' =>
      UserWritten userId (fun u => { u with transactionPinHash := none }) s s'
  | .enable userId, s, s' =>
      UserWritten userId (fun u => { u with twoFactorEnabled := true }) s s'
  | .disable userId, s, s' =>
      UserWritten userId (fun u => { u with twoFactorEnabled := false }) s s'

section Steps

variable {bcrypt : Bcrypt} {sha256 : String → String}

theorem OtpStep.users {label : OtpLabel} {s s' : OtpDb} (h : OtpStep label s s') :
    s'.users = s.users := by
  cases label with
  | read =>
      obtain rfl : s' = s := h
      rfl
  | issue otp seen =>
      obtain ⟨-, rfl | ⟨now, otps, -, rfl⟩⟩ := h
      · rfl
      · rfl
  | wrong otp =>
      obtain ⟨-, now, ⟨-, rfl⟩ | ⟨hf, rfl⟩⟩ := h
      · rfl
      · rfl
  | accept otp =>
      obtain ⟨-, now, ⟨-, rfl⟩ | ⟨hf, rfl⟩⟩ := h
      · rfl
      · rfl
  | tick =>
      obtain ⟨milliseconds, rfl⟩ := h
      rfl

theorem onOtps_takes {α : Type} {p : OtpApi α} (h : Process.Takes OtpStep p) :
    Process.Takes PinStep (onOtps p) := by
  apply takes_zoom h
  intro l t s' hstep
  exact hstep.users

theorem updateUser_takes {label : PinLabel} {userId : Id} {f : OtpUser → OtpUser}
    {hf : ∀ r, Keyed.key (f r) = Keyed.key r}
    (hstep : ∀ s s', UserWritten userId f s s' → PinStep label s s') :
    Process.Takes PinStep (updateUser label userId f hf) := by
  apply takes_write
  · intro s b s' hwrite
    split at hwrite
    · obtain ⟨-, rfl⟩ := Prod.mk.inj (Except.ok.inj hwrite)
      exact hstep _ _ (.written ‹_› hf rfl)
    · cases hwrite
  · intro s e hwrite
    split at hwrite
    · cases hwrite
    · exact hstep s s (.missing ‹_› rfl)

theorem loadUserOrThrow_takes {β : Type} {userId : Id} {g : SecurityUser → PinApi β}
    (h : ∀ user, Process.Takes PinStep (g user)) :
    Process.Takes PinStep (loadUserOrThrow userId >>= g : PinApi β) := by
  apply takes_bind
  · apply takes_read fun _ => rfl
    intro s
    cases (s.otp.users.find userId).map fun user => (⟨user, s.password userId⟩ : SecurityUser) with
    | none => trivial
    | some user => trivial
  · exact h

theorem assertPasswordCorrect_takes {β : Type} {user : SecurityUser} {password : String}
    {g : Unit → PinApi β} (h : ∀ u, Process.Takes PinStep (g u)) :
    Process.Takes PinStep (assertPasswordCorrect bcrypt user password >>= g : PinApi β) := by
  unfold assertPasswordCorrect
  rw [Attempt.bind_assoc]
  apply takes_throwIf
  intro _
  apply takes_throwIf
  intro _
  exact h ()

/-- The last write of a call, and its answer. -/
theorem answer_takes {label : PinLabel} {userId : Id} {f : OtpUser → OtpUser}
    {hf : ∀ r, Keyed.key (f r) = Keyed.key r} {response : SecurityResponse}
    (hstep : ∀ s s', UserWritten userId f s s' → PinStep label s s') :
    Process.Takes PinStep
      (updateUser label userId f hf >>= fun _ => pure response : PinApi SecurityResponse) := by
  apply takes_bind
  · exact updateUser_takes hstep
  · intro _
    trivial

/-- Every call takes steps of the relation only. -/
theorem PinCall.run_takes (call : PinCall) :
    Process.Takes PinStep (call.run bcrypt sha256) := by
  cases call with
  | setTransactionPin userId password pin salt =>
      apply takes_throwIf
      intro _
      apply loadUserOrThrow_takes
      intro user
      apply assertPasswordCorrect_takes
      intro _
      apply takes_throwIf
      intro _
      apply answer_takes
      intro s s' hwritten
      exact ⟨_, bcrypt.hash_ne salt pin, hwritten⟩
  | changeTransactionPin userId password currentPin newPin salt =>
      apply takes_throwIf
      intro _
      apply loadUserOrThrow_takes
      intro user
      apply takes_throwIf
      intro _
      apply assertPasswordCorrect_takes
      intro _
      apply takes_throwIf
      intro _
      apply takes_throwIf
      intro _
      apply answer_takes
      intro s s' hwritten
      exact ⟨_, bcrypt.hash_ne salt newPin, hwritten⟩
  | clearTransactionPin userId password =>
      apply loadUserOrThrow_takes
      intro user
      apply assertPasswordCorrect_takes
      intro _
      split
      · trivial
      · apply takes_throwIf
        intro _
        apply answer_takes
        intro s s' hwritten
        exact hwritten
  | enableTwoFactor userId password =>
      apply loadUserOrThrow_takes
      intro user
      apply assertPasswordCorrect_takes
      intro _
      apply takes_throwIf
      intro _
      split
      · trivial
      · apply answer_takes
        intro s s' hwritten
        exact hwritten
  | disableTwoFactor userId password otp =>
      apply loadUserOrThrow_takes
      intro user
      apply assertPasswordCorrect_takes
      intro _
      split
      · trivial
      · apply takes_bind
        · exact onOtps_takes (consumeOtp_takes sha256 user.user.id otp .disable2fa)
        · intro _
          apply answer_takes
          intro s s' hwritten
          exact hwritten
  | codes call =>
      apply takes_bind
      · exact onOtps_takes (call.run_takes sha256 bcrypt.compare)
      · intro _
        trivial

end Steps

/-- Who has two-factor authentication on has a PIN. -/
def TwoFactorBacked (s : SecurityDb) : Prop :=
  ∀ user ∈ s.otp.users.rows, user.twoFactorEnabled = true → PinSet user

instance (s : SecurityDb) : Decidable (TwoFactorBacked s) := List.decidableBAll _ _

/-- What a call checked still holds when it writes: a PIN is cleared while the toggle is
off, and the toggle turned on over a PIN. -/
def StillChecked : PinLabel → SecurityDb → Prop
  | .clearPin userId, s => ∀ user ∈ s.otp.users.find userId, user.twoFactorEnabled = false
  | .enable userId, s => ∀ user ∈ s.otp.users.find userId, PinSet user
  | _, _ => True

instance (label : PinLabel) (s : SecurityDb) : Decidable (StillChecked label s) :=
  match label with
  | .clearPin userId =>
      inferInstanceAs (Decidable (∀ user ∈ s.otp.users.find userId, user.twoFactorEnabled = false))
  | .enable userId => inferInstanceAs (Decidable (∀ user ∈ s.otp.users.find userId, PinSet user))
  | .read | .otp _ | .writePin _ | .disable _ => inferInstanceAs (Decidable True)

section Backed

variable {s s' : SecurityDb}

theorem TwoFactorBacked.congr (h : TwoFactorBacked s) (husers : s'.otp.users = s.otp.users) :
    TwoFactorBacked s' := by
  unfold TwoFactorBacked
  rw [husers]
  exact h

/-- An update of one user keeps the others backed, so only that user counts. -/
theorem TwoFactorBacked.written {userId : Id} {f : OtpUser → OtpUser} (h : TwoFactorBacked s)
    (hwritten : UserWritten userId f s s') :
    TwoFactorBacked s' ↔ ∀ user ∈ s.otp.users.find userId,
      (f user).twoFactorEnabled = true → PinSet (f user) := by
  cases hwritten with
  | missing hfind same =>
      refine iff_of_true (h.congr same) ?_
      intro user huser
      rw [hfind] at huser
      cases huser
  | @written user hfind hf after =>
      have hself : (s.otp.users.modify userId f hf).find userId = some (f user) :=
        Table.find_modify_self hfind
      rw [hfind]
      constructor
      · rintro hafter _ ⟨⟩
        apply hafter
        rw [after]
        exact Table.mem_of_find hself
      · intro hone user' hmem
        rw [after] at hmem
        rcases Table.mem_modify.mp hmem with ⟨user'', hfind', rfl⟩ | ⟨hother, -⟩
        · obtain rfl := Option.some_inj.mp (hfind.symm.trans hfind')
          exact hone _ rfl
        · exact h user' hother

/-- A step keeps every user backed exactly if what it checked still holds. -/
theorem TwoFactorBacked.step {label : PinLabel} (h : TwoFactorBacked s)
    (hstep : PinStep label s s') : TwoFactorBacked s' ↔ StillChecked label s := by
  cases label with
  | read =>
      obtain rfl : s' = s := hstep
      exact iff_of_true h trivial
  | otp label => exact iff_of_true (h.congr hstep) trivial
  | writePin userId =>
      obtain ⟨hash, hne, hwritten⟩ := hstep
      refine iff_of_true ((h.written hwritten).mpr ?_) trivial
      intro user _ _
      exact hne
  | clearPin userId =>
      refine (h.written hstep).trans (forall₂_congr fun user _ => ?_)
      show (user.twoFactorEnabled = true → "" ≠ "") ↔ user.twoFactorEnabled = false
      simp
  | enable userId =>
      refine (h.written hstep).trans (forall₂_congr fun user _ => ?_)
      exact ⟨fun hset => hset rfl, fun hset _ => hset⟩
  | disable userId =>
      refine iff_of_true ((h.written hstep).mpr ?_) trivial
      intro user _ henabled
      cases henabled

end Backed

section Gate

variable {sha256 : String → String} {compare : String → String → Bool} {db : OtpDb}

/-- The refusal of a client whose PIN is missing. -/
def pinNotSet : AccessError :=
  .badRequest (some "PIN_NOT_SET") "A transaction PIN is required but not set on this account."

/-- What a call returns is anything but the refusal for a missing PIN. -/
def NotBlocked (p : OtpApi Unit) (db : OtpDb) : Prop :=
  Process.Ensures (fun _ => True) (fun result _ => result ≠ .error pinNotSet) p db

theorem updateOtp_notBlocked {label : OtpLabel} {id : Id} {f : TransactionOtp → TransactionOtp}
    {hf : ∀ r, Keyed.key (f r) = Keyed.key r} : NotBlocked (updateOtp label id f hf) db := by
  apply ensures_write_last
  · intro e hwrite
    split at hwrite
    · cases hwrite
    · cases hwrite
      exact ⟨trivial, nofun⟩
  · intro _ _ _
    exact ⟨trivial, nofun⟩

theorem consumeOtp_notBlocked (userId : Id) (code : String) (purpose : OtpPurpose) :
    NotBlocked (consumeOtp sha256 userId code purpose) db := by
  unfold consumeOtp
  apply ensures_throwIf
  · intro _
    simp [pinNotSet]
  · intro _
    apply ensures_read trivial
    apply ensures_read trivial
    apply ensures_orThrow
    · intro _
      simp [pinNotSet]
    · intro otp _
      split
      · exact updateOtp_notBlocked
      · apply ensures_bind
        apply updateOtp_notBlocked.weaken
        rintro (e | u) db' hresult
        · exact fun heq => hresult (congrArg _ (Except.error.inj heq))
        · apply continues_ok.mpr
          split
          · exact fun heq => by simp [pinNotSet] at heq
          · exact fun heq => by simp [pinNotSet, incorrectOtp] at heq

/-- Where every toggle has its PIN, the gate blocks no client for lack of one. -/
theorem TwoFactorBacked.notBlocked {s : SecurityDb} (h : TwoFactorBacked s) (userId : Id)
    (purpose : OtpPurpose) (pin otp : Option String) :
    NotBlocked (assertTransactionAuth sha256 compare userId purpose pin otp false) s.otp := by
  unfold assertTransactionAuth
  apply ensures_read trivial
  apply ensures_orThrow
  · intro _
    simp [pinNotSet]
  · intro user huser
    split
    · rintro ⟨⟩
    · rename_i henabled
      have hset : PinSet user :=
        h user (Table.mem_of_find huser) (by simpa using henabled)
      apply ensures_throwIf
      · intro hmissing
        exact absurd hmissing.2 hset
      · intro _
        apply ensures_throwIf
        · intro _
          simp [pinNotSet]
        · intro _
          apply ensures_throwIf
          · intro _
            simp [pinNotSet]
          · intro _
            apply ensures_orThrow
            · intro _
              simp [pinNotSet]
            · intro code _
              exact consumeOtp_notBlocked userId code purpose

end Gate

/-- In every interleaving, each toggle has its PIN in every state exactly if each clearing
finds the toggle off and each enabling finds the PIN set when it writes; and then no
client is ever blocked for lack of a PIN. -/
theorem two_factor_keeps_pin (bcrypt : Bcrypt) (sha256 : String → String)
    (calls : List PinCall) {s s' : SecurityDb} {trace : List (Transition PinLabel SecurityDb)}
    {pool : List (PinApi SecurityResponse)}
    (hrun : Run s (calls.map (PinCall.run bcrypt sha256)) trace s' pool)
    (hstart : TwoFactorBacked s) :
    ((∀ t ∈ trace, TwoFactorBacked t.after) ↔ ∀ t ∈ trace, StillChecked t.label t.before) ∧
      ((∀ t ∈ trace, StillChecked t.label t.before) →
        ∀ t ∈ trace, ∀ userId purpose pin otp, NotBlocked
          (assertTransactionAuth sha256 bcrypt.compare userId purpose pin otp false)
          t.after.otp) := by
  have htakes : ∀ p ∈ calls.map (PinCall.run bcrypt sha256), Process.Takes PinStep p := by
    intro p hp
    obtain ⟨call, -, rfl⟩ := List.mem_map.mp hp
    exact call.run_takes
  have hexact : (∀ t ∈ trace, TwoFactorBacked t.after) ↔
      ∀ t ∈ trace, StillChecked t.label t.before :=
    hrun.exactly htakes hstart fun hbacked hstep => hbacked.step hstep
  refine ⟨hexact, ?_⟩
  intro hchecked t ht userId purpose pin otp
  exact (hexact.mpr hchecked t ht).notBlocked userId purpose pin otp

/-- A library that keeps passwords behind a mark. -/
def plainBcrypt : Bcrypt where
  hash salt password := "$" ++ salt ++ password
  compare password passwordHash := passwordHash == "$" ++ password
  hash_ne salt password := by
    intro hempty
    have hlist := congrArg String.toList hempty
    simp at hlist

/-- User 7 with a PIN and the toggle off. -/
def sampleSecurityDb : SecurityDb where
  otp := { clock := 0, users := ⟨[⟨7, some "$1234", false⟩], by decide⟩, otps := Table.empty }
  password _ := "$secret"

/-- A clearing of the PIN beside an enabling of the toggle. -/
def clearAndEnable (schedule : List ℕ) :
    List (Transition PinLabel SecurityDb) × SecurityDb × List (PinApi SecurityResponse) :=
  interleave schedule sampleSecurityDb
    ([.clearTransactionPin 7 "secret", .enableTwoFactor 7 "secret"].map
      (PinCall.run plainBcrypt id))

/-- The PIN is cleared first, and the enabling is refused. -/
theorem two_factor_keeps_pin_sample :
    (clearAndEnable [0, 0, 1]).1.length = 3 ∧
      ∀ t ∈ (clearAndEnable [0, 0, 1]).1, TwoFactorBacked t.after := by
  constructor
  · decide +kernel
  · exact (two_factor_keeps_pin plainBcrypt id
      [.clearTransactionPin 7 "secret", .enableTwoFactor 7 "secret"]
      (run_interleave [0, 0, 1] _ _) (by decide +kernel)).1.mpr (by decide +kernel)

/-- Both load the user with a PIN and the toggle off; then the toggle is turned on and the
PIN cleared. -/
theorem clearing_orphans_two_factor :
    ¬ ∀ (bcrypt : Bcrypt) (sha256 : String → String) (calls : List PinCall)
        (s s' : SecurityDb) (trace : List (Transition PinLabel SecurityDb))
        (pool : List (PinApi SecurityResponse)), TwoFactorBacked s →
        Run s (calls.map (PinCall.run bcrypt sha256)) trace s' pool → TwoFactorBacked s' := by
  intro hclaim
  have hbacked : TwoFactorBacked (clearAndEnable [0, 1, 1, 0]).2.1 :=
    hclaim plainBcrypt id _ _ _ _ _ (by decide +kernel) (run_interleave _ _ _)
  exact absurd hbacked (by decide +kernel)

end SecureStore.Access
