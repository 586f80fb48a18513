/-
# Reset links

A forgotten password is changed with a link that carries a token. Issuing a link voids the
user's older ones, and using one voids all others; both happen in a transaction under read
committed, whose bulk update voids the tokens it sees and which takes effect when it commits.
Using a link first reads its token and then hashes the password; the transaction does not look
at the token again. Emails come trimmed and in lower case.
-/

import SecureStore.Access.SignIn

namespace SecureStore.Access

open SecureStore.Foundation SecureStore.Inventory SecureStore.Services

structure ResetUser where
  id : Id
  email : String
  status : UserStatus
  password : String
  deriving DecidableEq

structure PasswordResetToken where
  id : Id
  userId : Id
  tokenHash : String
  expiresAt : Timestamp
  usedAt : Option Timestamp := none
  deriving DecidableEq

structure RefreshToken where
  id : Id
  userId : Id
  revokedAt : Option Timestamp := none
  deriving DecidableEq

instance : Keyed ResetUser Id := ⟨ResetUser.id⟩
instance : Keyed PasswordResetToken Id := ⟨PasswordResetToken.id⟩
instance : Keyed RefreshToken Id := ⟨RefreshToken.id⟩

/-- The tables of the password reset, and the clock. -/
structure ResetDb where
  clock : Timestamp
  users : Table ResetUser
  tokens : Table PasswordResetToken
  refreshTokens : Table RefreshToken

/-- What a step is. A transaction is labelled with what it writes and with the tokens that its
bulk update has seen. -/
inductive ResetLabel where
  | read
  | issue (token : PasswordResetToken) (seen : List Id) (now : Timestamp)
  | reset (record : PasswordResetToken) (seen : List Id) (passwordHash : String) (now : Timestamp)
  | tick

abbrev ResetApi (α : Type) := Attempt ResetLabel ResetDb AccessError α

/-- `RESET_TOKEN_TTL_MINUTES`, in milliseconds -/
def resetTokenTtl : Timestamp := 30 * 60 * 1000

/-- `MIN_PASSWORD_LENGTH` -/
def minPasswordLength : ℕ := 6

def PasswordResetToken.used (now : Timestamp) (r : PasswordResetToken) : PasswordResetToken :=
  { r with usedAt := some now }

/-- The bulk update of the rows it has seen, as far as they are still unused. -/
def voidTokens (seen : List Id) (now : Timestamp) (tokens : Table PasswordResetToken) :
    Table PasswordResetToken :=
  tokens.modifyWhere (fun r => r.id ∈ seen ∧ r.usedAt = none) (.used now)

/-- The transaction of `forgotPassword`; nothing when the token's id or hash is taken. -/
def commitIssue (token : PasswordResetToken) (seen : List Id) (now : Timestamp) (db : ResetDb) :
    Option ResetDb :=
  if ∃ r ∈ db.tokens.rows, r.tokenHash = token.tokenHash then none
  else ((voidTokens seen now db.tokens).insert token).map fun tokens => { db with tokens := tokens }

/-- The transaction of `resetPassword`; nothing when the user or the token is not there. -/
def commitReset (record : PasswordResetToken) (seen : List Id) (passwordHash : String)
    (now : Timestamp) (db : ResetDb) : Option ResetDb :=
  match db.users.find record.userId, db.tokens.find record.id with
  | some _, some _ =>
      some { db with
        users := db.users.modify record.userId fun u => { u with password := passwordHash }
        tokens := voidTokens seen now (db.tokens.modify record.id (.used now))
        refreshTokens := db.refreshTokens.modifyWhere
          (fun t => t.userId = record.userId ∧ t.revokedAt = none)
          fun t => { t with revokedAt := some now } }
  | _, _ => none

/-- `new Date()` -/
def resetClock : ResetApi Timestamp := Attempt.read .read ResetDb.clock

/-- The unused tokens of a user. -/
def unusedTokens (userId : Id) (db : ResetDb) : List PasswordResetToken :=
  db.tokens.rows.filter fun r => r.userId = userId ∧ r.usedAt = none

/-- Issue a link for an active user; the token and the id of its row are drawn by the caller. -/
def forgotPassword (sha256 : String → String) (tokenId : Id) (email rawToken : String) :
    ResetApi Unit := do
  let user ← Attempt.read .read fun db : ResetDb => db.users.rows.find? fun u => u.email = email
  match user.filter fun u => u.status = .active with
  | none => pure ()
  | some user => do
      let issuedAt ← resetClock
      let now ← resetClock
      let seen ← Attempt.read .read fun db : ResetDb =>
        ((unusedTokens user.id db).filter fun r => now < r.expiresAt).map PasswordResetToken.id
      let token : PasswordResetToken :=
        { id := tokenId, userId := user.id, tokenHash := sha256 rawToken
          expiresAt := issuedAt + resetTokenTtl }
      Attempt.write (.issue token seen now) fun db =>
        match commitIssue token seen now db with
        | some db' => .ok ((), db')
        | none => .error .recordNotFound

/-- One answer for a token that is unknown, used or expired. -/
def invalidResetLink : AccessError :=
  .badRequest none "Reset link is invalid or has expired. Request a new one."

/-- Change the password with the token of a link. -/
def resetPassword (sha256 hash : String → String) (rawToken newPassword : String) :
    ResetApi Unit := do
  Attempt.throwIf ((newPassword.toList.map codeUnits).sum < minPasswordLength)
    (.badRequest none "Password must be at least 6 characters")
  let tokenHash := sha256 rawToken
  let record ← Attempt.read .read fun db : ResetDb =>
    db.tokens.rows.find? fun r => r.tokenHash = tokenHash
  let record ← Attempt.orThrow record invalidResetLink
  Attempt.throwIf (record.usedAt ≠ none) invalidResetLink
  let checkedAt ← resetClock
  Attempt.throwIf (record.expiresAt < checkedAt) invalidResetLink
  let now ← resetClock
  let seen ← Attempt.read .read fun db : ResetDb =>
    (unusedTokens record.userId db).map PasswordResetToken.id
  Attempt.write (.reset record seen (hash newPassword) now) fun db =>
    match commitReset record seen (hash newPassword) now db with
    | some db' => .ok ((), db')
    | none => .error .recordNotFound

/-- Time passes. -/
def resetTick (milliseconds : ℕ) : ResetApi Unit :=
  Attempt.write .tick fun db => .ok ((), { db with clock := db.clock + milliseconds })

inductive ResetCall where
  | forgotPassword (tokenId : Id) (email rawToken : String)
  | resetPassword (rawToken newPassword : String)
  | tick (milliseconds : ℕ)

def ResetCall.run (sha256 hash : String → String) : ResetCall → ResetApi Unit
  | .forgotPassword tokenId email rawToken => Access.forgotPassword sha256 tokenId email rawToken
  | .resetPassword rawToken newPassword => Access.resetPassword sha256 hash rawToken newPassword
  | .tick milliseconds => resetTick milliseconds

/-! ## Steps -/

/-- What a step does to the tables. -/
def ResetStep : ResetLabel → ResetDb → ResetDb → Prop
  | .read, s, s' => s' = s
  | .issue token seen now, s, s' => s' = (commitIssue token seen now s).getD s
  | .reset record seen passwordHash now, s, s' =>
      record.usedAt = none ∧ s' = (commitReset record seen passwordHash now s).getD s
  | .tick, s, s' => s'.tokens = s.tokens

theorem forgotPassword_takes (sha256 : String → String) (tokenId : Id) (email rawToken : String) :
    Process.Takes ResetStep (forgotPassword sha256 tokenId email rawToken) := by
  unfold forgotPassword
  apply takes_read fun _ => rfl
  intro s
  split
  · trivial
  · apply takes_read fun _ => rfl
    intro _
    apply takes_read fun _ => rfl
    intro _
    apply takes_read fun _ => rfl
    intro _
    apply takes_write
    · intro s b s' hwrite
      split at hwrite
      · obtain ⟨-, rfl⟩ := Prod.mk.inj (Except.ok.inj hwrite)
        simp [ResetStep, *]
      · cases hwrite
    · intro s e hwrite
      split at hwrite
      · cases hwrite
      · simp [ResetStep, *]

theorem resetPassword_takes (sha256 hash : String → String) (rawToken newPassword : String) :
    Process.Takes ResetStep (resetPassword sha256 hash rawToken newPassword) := by
  unfold resetPassword
  apply takes_throwIf
  intro _
  apply takes_read fun _ => rfl
  intro _
  apply takes_orThrow
  intro record _
  apply takes_throwIf
  intro hunused
  apply takes_read fun _ => rfl
  intro _
  apply takes_throwIf
  intro _
  apply takes_read fun _ => rfl
  intro _
  apply takes_read fun _ => rfl
  intro _
  apply takes_write
  · intro s b s' hwrite
    split at hwrite
    · obtain ⟨-, rfl⟩ := Prod.mk.inj (Except.ok.inj hwrite)
      exact ⟨not_not.mp hunused, by simp [*]⟩
    · cases hwrite
  · intro s e hwrite
    split at hwrite
    · cases hwrite
    · exact ⟨not_not.mp hunused, by simp [*]⟩

theorem resetTick_takes (milliseconds : ℕ) : Process.Takes ResetStep (resetTick milliseconds) := by
  unfold resetTick
  apply takes_write
  · intro s b s' hwrite
    obtain ⟨-, rfl⟩ := Prod.mk.inj (Except.ok.inj hwrite)
    rfl
  · intro s e hwrite
    cases hwrite

theorem ResetCall.run_takes (sha256 hash : String → String) (call : ResetCall) :
    Process.Takes ResetStep (call.run sha256 hash) := by
  cases call with
  | forgotPassword tokenId email rawToken =>
      exact forgotPassword_takes sha256 tokenId email rawToken
  | resetPassword rawToken newPassword =>
      exact resetPassword_takes sha256 hash rawToken newPassword
  | tick milliseconds => exact resetTick_takes milliseconds

/-! ## Tokens over time -/

/-- A token that cannot change the password any more. -/
def Spent (tokens : Table PasswordResetToken) (id : Id) : Prop :=
  ∃ r, tokens.find id = some r ∧ r.usedAt ≠ none

/-- Tokens stay, with their user, and stay spent. -/
def TokensStay (tokens tokens' : Table PasswordResetToken) : Prop :=
  ∀ id r, tokens.find id = some r → ∃ r', tokens'.find id = some r' ∧
    r'.userId = r.userId ∧ (r.usedAt ≠ none → r'.usedAt ≠ none)

section Tokens

variable {tokens tokens' tokens'' : Table PasswordResetToken} {record : PasswordResetToken}
  {seen : List Id} {now : Timestamp} {passwordHash : String} {id : Id} {s s' : ResetDb}

theorem tokensStay_refl (tokens : Table PasswordResetToken) : TokensStay tokens tokens :=
  fun _ r hr => ⟨r, hr, rfl, fun h => h⟩

theorem TokensStay.trans (h : TokensStay tokens tokens') (h' : TokensStay tokens' tokens'') :
    TokensStay tokens tokens'' := by
  intro id r hr
  obtain ⟨r', hr', huser, hused⟩ := h id r hr
  obtain ⟨r'', hr'', huser', hused'⟩ := h' id r' hr'
  exact ⟨r'', hr'', huser'.trans huser, fun hspent => hused' (hused hspent)⟩

theorem Spent.stays (h : Spent tokens id) (hstay : TokensStay tokens tokens') :
    Spent tokens' id := by
  obtain ⟨r, hr, hused⟩ := h
  obtain ⟨r', hr', -, hstill⟩ := hstay id r hr
  exact ⟨r', hr', hstill hused⟩

section Use

variable {p : PasswordResetToken → Prop} [DecidablePred p]

theorem tokensStay_use : TokensStay tokens (tokens.modifyWhere p (.used now)) := by
  intro id r hr
  have hfind : (tokens.modifyWhere p (.used now)).find id =
      some (if p r then r.used now else r) :=
    (Table.find_modifyWhere tokens id).trans (congrArg _ hr)
  refine ⟨_, hfind, ?_⟩
  split
  · exact ⟨rfl, fun _ => nofun⟩
  · exact ⟨rfl, fun h => h⟩

/-- What is marked used is spent. -/
theorem spent_use {r : PasswordResetToken} (hr : tokens.find id = some r)
    (hp : p r ∨ r.usedAt ≠ none) : Spent (tokens.modifyWhere p (.used now)) id := by
  have hfind : (tokens.modifyWhere p (.used now)).find id =
      some (if p r then r.used now else r) :=
    (Table.find_modifyWhere tokens id).trans (congrArg _ hr)
  refine ⟨_, hfind, ?_⟩
  split
  · exact nofun
  · exact hp.resolve_left ‹_›

end Use

theorem commitIssue_tokens (h : commitIssue record seen now s = some s') :
    TokensStay s.tokens s'.tokens := by
  unfold commitIssue at h
  split at h
  · cases h
  · obtain ⟨tokens, hinsert, rfl⟩ := Option.map_eq_some_iff.mp h
    have hvoid : TokensStay s.tokens (voidTokens seen now s.tokens) := tokensStay_use
    apply hvoid.trans
    intro id r hr
    exact ⟨r, Table.find_insert_of_find hinsert hr, rfl, fun h => h⟩

/-- The tokens after a password change: the one that was used is spent, and so is every other
one that the bulk update has seen. -/
theorem commitReset_tokens (h : commitReset record seen passwordHash now s = some s') :
    TokensStay s.tokens s'.tokens ∧ Spent s'.tokens record.id ∧
      ∀ r ∈ s.tokens.rows, r.id ∈ seen → Spent s'.tokens r.id := by
  unfold commitReset at h
  split at h
  case h_2 => cases h
  case h_1 user token huser htoken =>
    obtain rfl := Option.some.inj h
    have hfirst : TokensStay s.tokens (s.tokens.modify record.id (.used now)) := tokensStay_use
    refine ⟨hfirst.trans tokensStay_use, ?_, ?_⟩
    · have hid : token.id = record.id := Table.key_of_find htoken
      have hspent : Spent (s.tokens.modify record.id (.used now)) record.id :=
        spent_use htoken (.inl hid)
      exact hspent.stays tokensStay_use
    · intro r hr hseen
      obtain ⟨r', hr', -, -⟩ := hfirst r.id r (Table.find_of_mem hr)
      have hid : r'.id = r.id := Table.key_of_find hr'
      apply spent_use hr'
      by_cases hunused : r'.usedAt = none
      · exact .inl ⟨hid ▸ hseen, hunused⟩
      · exact .inr hunused

/-- No step takes a token away or makes a spent one good again. -/
theorem resetStep_tokens {label : ResetLabel} (hstep : ResetStep label s s') :
    TokensStay s.tokens s'.tokens := by
  cases label with
  | read =>
      obtain rfl : s' = s := hstep
      exact tokensStay_refl s'.tokens
  | tick =>
      have htokens : s'.tokens = s.tokens := hstep
      rw [htokens]
      exact tokensStay_refl s.tokens
  | issue token seen now =>
      obtain rfl : s' = (commitIssue token seen now s).getD s := hstep
      cases hcommit : commitIssue token seen now s with
      | none => exact tokensStay_refl s.tokens
      | some s' => exact commitIssue_tokens hcommit
  | reset record seen passwordHash now =>
      obtain ⟨-, rfl⟩ := hstep
      cases hcommit : commitReset record seen passwordHash now s with
      | none => exact tokensStay_refl s.tokens
      | some s' => exact (commitReset_tokens hcommit).1

end Tokens

/-! ## Single use -/

/-- The token with which a step changes a password. -/
def changedWith (t : Transition ResetLabel ResetDb) : Option PasswordResetToken :=
  match t.label with
  | .reset record seen passwordHash now =>
      if (commitReset record seen passwordHash now t.before).isSome then some record else none
  | _ => none

/-- Every token changes the password once at most, and a password change makes all tokens of
the user useless that were there before it. -/
structure LinksSingleUse (trace : List (Transition ResetLabel ResetDb)) : Prop where
  once : trace.Pairwise fun t t' => ∀ record ∈ changedWith t, ∀ record' ∈ changedWith t',
    record'.id ≠ record.id
  voided : trace.Pairwise fun t t' => ∀ record ∈ changedWith t, ∀ record' ∈ changedWith t',
    record'.userId = record.userId → t.before.tokens.find record'.id = none

/-- A transaction that changes a password finds its token as it was read, unused, and its bulk
update has seen every unused token of the user. -/
def TokenStillUnused : ResetLabel → ResetDb → Prop
  | .reset record seen passwordHash now, s =>
      (commitReset record seen passwordHash now s).isSome →
        s.tokens.find record.id = some record ∧ ∀ r ∈ unusedTokens record.userId s, r.id ∈ seen
  | _, _ => True

instance (label : ResetLabel) (s : ResetDb) : Decidable (TokenStillUnused label s) :=
  match label with
  | .reset _ _ _ _ => inferInstanceAs (Decidable (_ → _ ∧ ∀ r ∈ unusedTokens _ s, _))
  | .read => inferInstanceAs (Decidable True)
  | .issue _ _ _ => inferInstanceAs (Decidable True)
  | .tick => inferInstanceAs (Decidable True)

/-- What holds of the tables after any steps: the tokens of a user whose password was changed
are spent, as far as they were there before. -/
structure ResetHistory (trace : List (Transition ResetLabel ResetDb)) (s : ResetDb) : Prop where
  single : LinksSingleUse trace
  stay : ∀ t ∈ trace, TokensStay t.before.tokens s.tokens
  spent : ∀ t ∈ trace, ∀ record ∈ changedWith t,
    Spent s.tokens record.id ∧ ∀ id r, t.before.tokens.find id = some r →
      r.userId = record.userId → Spent s.tokens id

section History

variable {trace : List (Transition ResetLabel ResetDb)} {t : Transition ResetLabel ResetDb}

theorem mem_changedWith {record : PasswordResetToken} (h : record ∈ changedWith t) :
    ∃ seen passwordHash now, t.label = .reset record seen passwordHash now ∧
      (commitReset record seen passwordHash now t.before).isSome := by
  unfold changedWith at h
  split at h
  · split at h
    · obtain rfl := Option.some.inj h
      exact ⟨_, _, _, ‹_›, ‹_›⟩
    · cases h
  · cases h

/-- What a password change spends. -/
theorem spends_of_changedWith {record : PasswordResetToken} (h : record ∈ changedWith t)
    (hstep : ResetStep t.label t.before t.after) (hfresh : TokenStillUnused t.label t.before) :
    t.before.tokens.find record.id = some record ∧ record.usedAt = none ∧
      Spent t.after.tokens record.id ∧ ∀ id r, t.before.tokens.find id = some r →
        r.userId = record.userId → Spent t.after.tokens id := by
  obtain ⟨seen, passwordHash, now, hlabel, hcommits⟩ := mem_changedWith h
  rw [hlabel] at hstep hfresh
  obtain ⟨hunused, hafter⟩ := hstep
  obtain ⟨hfind, hseen⟩ := hfresh hcommits
  obtain ⟨s', hs'⟩ := Option.isSome_iff_exists.mp hcommits
  rw [hs', Option.getD_some] at hafter
  obtain ⟨hstay, hspent, hall⟩ := commitReset_tokens hs'
  rw [hafter]
  refine ⟨hfind, hunused, hspent, ?_⟩
  intro id r hr huser
  have hid : r.id = id := Table.key_of_find hr
  by_cases hstill : r.usedAt = none
  · have hmem : r ∈ unusedTokens record.userId t.before :=
      List.mem_filter.mpr ⟨Table.mem_of_find hr, by simp [huser, hstill]⟩
    exact hid ▸ hall r (Table.mem_of_find hr) (hseen r hmem)
  · exact Spent.stays ⟨r, hr, hstill⟩ hstay

/-- One step that finds its token unused keeps the history. -/
theorem ResetHistory.step (h : ResetHistory trace t.before)
    (hfresh : TokenStillUnused t.label t.before) (hstep : ResetStep t.label t.before t.after) :
    ResetHistory (trace ++ [t]) t.after := by
  have hstay := resetStep_tokens hstep
  -- a token that is spent does not change the password now
  have hgood : ∀ record ∈ changedWith t, ¬ Spent t.before.tokens record.id := by
    rintro record hchanges ⟨r, hr, hused⟩
    obtain ⟨hfind, hunused, -⟩ := spends_of_changedWith hchanges hstep hfresh
    rw [hfind] at hr
    exact hused (Option.some.inj hr ▸ hunused)
  constructor
  · constructor
    · rw [List.pairwise_append]
      refine ⟨h.single.once, List.pairwise_singleton _ _, ?_⟩
      intro t₁ ht₁ t₂ ht₂ record hchanges record' hchanges' hsame
      obtain rfl := List.mem_singleton.mp ht₂
      exact hgood record' hchanges' (hsame ▸ (h.spent t₁ ht₁ record hchanges).1)
    · rw [List.pairwise_append]
      refine ⟨h.single.voided, List.pairwise_singleton _ _, ?_⟩
      intro t₁ ht₁ t₂ ht₂ record hchanges record' hchanges' huser
      obtain rfl := List.mem_singleton.mp ht₂
      rw [← Option.not_isSome_iff_eq_none, Option.isSome_iff_exists]
      rintro ⟨r, hr⟩
      obtain ⟨hfind, -⟩ := spends_of_changedWith hchanges' hstep hfresh
      obtain ⟨r', hr', huser', -⟩ := h.stay t₁ ht₁ record'.id r hr
      obtain rfl : record' = r' := Option.some.inj (hfind.symm.trans hr')
      exact hgood record' hchanges'
        ((h.spent t₁ ht₁ record hchanges).2 record'.id r hr (huser'.symm.trans huser))
  · intro t₁ ht₁
    rcases List.mem_append.mp ht₁ with hprior | hlast
    · exact (h.stay t₁ hprior).trans hstay
    · obtain rfl := List.mem_singleton.mp hlast
      exact hstay
  · intro t₁ ht₁ record hchanges
    rcases List.mem_append.mp ht₁ with hprior | hlast
    · obtain ⟨hown, hall⟩ := h.spent t₁ hprior record hchanges
      exact ⟨hown.stays hstay, fun id r hr huser => (hall id r hr huser).stays hstay⟩
    · obtain rfl := List.mem_singleton.mp hlast
      obtain ⟨-, -, hown, hall⟩ := spends_of_changedWith hchanges hstep hfresh
      exact ⟨hown, hall⟩

end History

/-- However requests and uses of reset links are interleaved, links are single use as long as
every transaction that changes a password finds its token still unused and voids all others of
the user. -/
theorem reset_links_single_use (sha256 hash : String → String) (calls : List ResetCall)
    (s s' : ResetDb) (trace : List (Transition ResetLabel ResetDb)) (pool : List (ResetApi Unit))
    (hrun : Run s (calls.map (ResetCall.run sha256 hash)) trace s' pool)
    (hfresh : ∀ t ∈ trace, TokenStillUnused t.label t.before) : LinksSingleUse trace := by
  have htakes : ∀ p ∈ calls.map (ResetCall.run sha256 hash), Process.Takes ResetStep p := by
    intro p hp
    obtain ⟨call, -, rfl⟩ := List.mem_map.mp hp
    exact call.run_takes sha256 hash
  have hstart : ResetHistory [] s := by
    refine ⟨⟨.nil, .nil⟩, ?_, ?_⟩ <;> (intro t ht; cases ht)
  have hhistory : ResetHistory trace s' := hrun.along htakes hfresh hstart ResetHistory.step
  exact hhistory.single

/-- An active user with one reset link. -/
def sampleResetDb : ResetDb where
  clock := 0
  users := ⟨[⟨1, "ada@securestore.com", .active, "old"⟩], by decide⟩
  tokens := ⟨[⟨100, 1, "token", 1800000, none⟩], by decide⟩
  refreshTokens := .empty

/-- The link is used twice. -/
def sampleResets : List ResetCall :=
  [.resetPassword "token" "first-password", .resetPassword "token" "second-password"]

/-- The uses under a schedule, with tokens and passwords stored as they are. -/
def resetRace (choices : List ℕ) : List (Transition ResetLabel ResetDb) × ResetDb ×
    List (ResetApi Unit) :=
  interleave choices sampleResetDb (sampleResets.map (ResetCall.run id id))

/-- One after the other, the second use is refused. -/
theorem reset_links_single_use_sample :
    LinksSingleUse (resetRace [0, 0, 0, 0, 0, 1]).1 :=
  reset_links_single_use id id sampleResets sampleResetDb _ _ _ (run_interleave _ _ _)
    (by decide +kernel)

/-- Both uses read the link unused, and both change the password. -/
theorem reset_link_used_twice :
    (resetRace [0, 0, 0, 0, 1, 1, 1, 1, 0, 1]).2.1.users.rows.map ResetUser.password =
        ["second-password"] ∧
      (resetRace [0, 0, 0, 0, 1, 1, 1, 1, 0, 1]).1.countP (fun t => (changedWith t).isSome) = 2 ∧
      ¬ ∀ (sha256 hash : String → String) (calls : List ResetCall) (s s' : ResetDb)
          (trace : List (Transition ResetLabel ResetDb)) (pool : List (ResetApi Unit)),
            Run s (calls.map (ResetCall.run sha256 hash)) trace s' pool →
              LinksSingleUse trace := by
  refine ⟨by decide +kernel, by decide +kernel, ?_⟩
  intro hclaim
  have hsingle : LinksSingleUse (resetRace [0, 0, 0, 0, 1, 1, 1, 1, 0, 1]).1 :=
    hclaim id id sampleResets sampleResetDb _ _ _ (run_interleave _ _ _)
  exact absurd hsingle.once (by decide +kernel)

end SecureStore.Access
