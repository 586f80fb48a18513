/-
# One code, one use

Whether a code admits one success and five failures at most, and only while it is the
newest of its user and purpose. Every call computes what it writes from an earlier
reading. A run in which no such reading has gone stale keeps the discipline; two calls
that read the same unused code break it.
-/

import SecureStore.Access.Otp

namespace SecureStore.Access

open SecureStore.Foundation SecureStore.Inventory SecureStore.Services

section Steps

/-- An update of one row: nothing when the row is missing. -/
def WrittenBack (id : Id) (f : TransactionOtp → TransactionOtp) (s s' : OtpDb) : Prop :=
  (s.otps.find id = none ∧ s' = s) ∨ ∃ hf, s' = { s with otps := s.otps.modify id f hf }

/-- What a step does to the tables. -/
def OtpStep : OtpLabel → OtpDb → OtpDb → Prop
  | .read, s, s' => s' = s
  | .issue otp seen, s, s' =>
      otp.attempts = 0 ∧ (s' = s ∨
        ∃ now otps, (voidSeen seen now s.otps).insert otp = some otps ∧ s' = { s with otps })
  | .wrong otp, s, s' => otp.usedAt = none ∧ ∃ now, WrittenBack otp.id (markWrong otp now) s s'
  | .accept otp, s, s' => otp.usedAt = none ∧ ∃ now, WrittenBack otp.id (markUsed now) s s'
  | .tick, s, s' => ∃ milliseconds : ℕ, s' = { s with clock := s.clock + milliseconds }

theorem unused_of_newestUnused {userId : Id} {purpose : OtpPurpose} {db : OtpDb}
    {otp : TransactionOtp} (h : newestUnused userId purpose db = some otp) :
    otp.usedAt = none := by
  have hmem := (List.mem_insertionSort _).mp (List.mem_of_mem_head? h)
  have hunused : otp.Unused userId purpose := by simpa using (List.mem_filter.mp hmem).2
  exact hunused.2.2

theorem updateOtp_takes {label : OtpLabel} {id : Id} {f : TransactionOtp → TransactionOtp}
    {hf : ∀ r, Keyed.key (f r) = Keyed.key r}
    (hstep : ∀ s s', WrittenBack id f s s' → OtpStep label s s') :
    Process.Takes OtpStep (updateOtp label id f hf) := by
  apply takes_write
  · intro s b s' hwrite
    split at hwrite
    · obtain ⟨-, rfl⟩ := Prod.mk.inj (Except.ok.inj hwrite)
      exact hstep _ _ (.inr ⟨hf, rfl⟩)
    · cases hwrite
  · intro s e hwrite
    split at hwrite
    · cases hwrite
    · exact hstep s s (.inl ⟨‹_›, rfl⟩)

variable (sha256 : String → String) (compare : String → String → Bool)

theorem requestTransactionOtp_takes (otpId userId : Id) (purpose : OtpPurpose) (code : String) :
    Process.Takes OtpStep (requestTransactionOtp sha256 otpId userId purpose code) := by
  unfold requestTransactionOtp
  apply takes_read fun _ => rfl
  intro s
  apply takes_orThrow
  intro user _
  split
  · trivial
  · apply takes_read fun _ => rfl
    intro s
    apply takes_read fun _ => rfl
    intro s'
    apply takes_write
    · intro s b s' hwrite
      split at hwrite
      · obtain ⟨-, rfl⟩ := Prod.mk.inj (Except.ok.inj hwrite)
        exact ⟨rfl, .inr ⟨_, _, ‹_›, rfl⟩⟩
      · cases hwrite
    · intro s e _
      exact ⟨rfl, .inl rfl⟩

theorem consumeOtp_takes (userId : Id) (code : String) (purpose : OtpPurpose) :
    Process.Takes OtpStep (consumeOtp sha256 userId code purpose) := by
  unfold consumeOtp
  apply takes_throwIf
  intro _
  apply takes_read fun _ => rfl
  intro s
  apply takes_read fun _ => rfl
  intro s'
  apply takes_orThrow
  intro otp hotp
  have hunused : otp.usedAt = none :=
    unused_of_newestUnused (Option.filter_eq_some_iff.mp hotp).1
  split
  · apply updateOtp_takes
    intro s s' hwritten
    exact ⟨hunused, _, hwritten⟩
  · apply takes_bind
    · apply updateOtp_takes
      intro s s' hwritten
      exact ⟨hunused, _, hwritten⟩
    · intro _
      split
      · trivial
      · trivial

theorem assertTransactionAuth_takes (userId : Id) (purpose : OtpPurpose)
    (pin otp : Option String) (isOnBehalf : Bool) :
    Process.Takes OtpStep
      (assertTransactionAuth sha256 compare userId purpose pin otp isOnBehalf) := by
  unfold assertTransactionAuth
  apply takes_read fun _ => rfl
  intro s
  apply takes_orThrow
  intro user _
  split
  · trivial
  · apply takes_throwIf
    intro _
    apply takes_throwIf
    intro _
    apply takes_throwIf
    intro _
    apply takes_orThrow
    intro code _
    exact consumeOtp_takes sha256 userId code purpose

theorem tick_takes (milliseconds : ℕ) : Process.Takes OtpStep (tick milliseconds) := by
  unfold tick
  apply takes_write
  · intro s b s' hwrite
    obtain ⟨-, rfl⟩ := Prod.mk.inj (Except.ok.inj hwrite)
    exact ⟨milliseconds, rfl⟩
  · intro s e hwrite
    cases hwrite

/-- Every call takes steps of the relation only. -/
theorem OtpCall.run_takes (call : OtpCall) :
    Process.Takes OtpStep (call.run sha256 compare) := by
  cases call with
  | requestTransactionOtp otpId userId purpose code =>
      exact requestTransactionOtp_takes sha256 otpId userId purpose code
  | consumeOtp userId code purpose => exact consumeOtp_takes sha256 userId code purpose
  | assertTransactionAuth userId purpose pin otp isOnBehalf =>
      exact assertTransactionAuth_takes sha256 compare userId purpose pin otp isOnBehalf
  | tick milliseconds => exact tick_takes milliseconds

end Steps

/-- Codes of one user for one purpose. -/
def SameSlot (r r' : TransactionOtp) : Prop := r.userId = r'.userId ∧ r.purpose = r'.purpose

instance (r r' : TransactionOtp) : Decidable (SameSlot r r') :=
  inferInstanceAs (Decidable (_ ∧ _))

/-- A code that cannot be consumed any more. -/
def Dead (clock : Timestamp) (r : TransactionOtp) : Prop :=
  r.usedAt ≠ none ∨ r.expiresAt < clock

instance (clock : Timestamp) (r : TransactionOtp) : Decidable (Dead clock r) :=
  inferInstanceAs (Decidable (_ ∨ _))

/-- No code has been issued for the user and purpose after this one. -/
def Latest (otps : Table TransactionOtp) (otp : TransactionOtp) : Prop :=
  ∀ earlier r later, otps.rows = earlier ++ r :: later → r.id = otp.id →
    ∀ newer ∈ later, ¬ SameSlot otp newer

def OtpLabel.accepts (id : Id) : OtpLabel → Bool
  | .accept otp => otp.id = id
  | _ => false

def OtpLabel.evaluates (id : Id) : OtpLabel → Bool
  | .wrong otp => otp.id = id
  | _ => false

section Discipline

variable (trace : List (Transition OtpLabel OtpDb))

/-- How often a code was accepted. -/
def acceptances (id : Id) : ℕ := trace.countP fun t => t.label.accepts id

/-- How often a wrong submission was evaluated against a code. -/
def evaluations (id : Id) : ℕ := trace.countP fun t => t.label.evaluates id

/-- What the service promises about its codes. -/
structure OtpDiscipline : Prop where
  once : ∀ id, acceptances trace id ≤ 1
  bounded : ∀ id, evaluations trace id ≤ otpMaxAttempts
  newest : ∀ t ∈ trace, ∀ otp, t.label = .accept otp → Latest t.before.otps otp

/-- No step acts on a reading that has gone stale: a submission finds its row as it was
read, and an accepted one finds it unexpired; an issue has seen every code of its user
and purpose that could still be consumed. -/
def Current : OtpLabel → OtpDb → Prop
  | .wrong otp, s => s.otps.find otp.id = some otp
  | .accept otp, s => s.otps.find otp.id = some otp ∧ s.clock ≤ otp.expiresAt
  | .issue otp seen, s => ∀ r ∈ s.otps.rows, SameSlot r otp → r.id ∈ seen ∨ Dead s.clock r
  | _, _ => True

instance (label : OtpLabel) (s : OtpDb) : Decidable (Current label s) :=
  match label with
  | .wrong _ => inferInstanceAs (Decidable (_ = _))
  | .accept _ => inferInstanceAs (Decidable (_ ∧ _))
  | .issue _ _ => List.decidableBAll _ _
  | .read => inferInstanceAs (Decidable True)
  | .tick => inferInstanceAs (Decidable True)

/-- How the row of a code accounts for what happened to the code. -/
def Accounts (id : Id) : Option TransactionOtp → Prop
  | none => acceptances trace id = 0 ∧ evaluations trace id = 0
  | some r => acceptances trace id ≤ (if r.usedAt = none then 0 else 1) ∧
      evaluations trace id = r.attempts ∧ r.attempts ≤ otpMaxAttempts ∧
        (r.usedAt = none → r.attempts < otpMaxAttempts)

/-- Of two codes of one slot, the older is dead. -/
def OneLive (s : OtpDb) : Prop :=
  s.otps.rows.Pairwise fun r r' => SameSlot r r' → Dead s.clock r

/-- What holds of the tables after any steps. -/
structure OtpHistory (s : OtpDb) : Prop where
  live : OneLive s
  accounts : ∀ id, Accounts trace id (s.otps.find id)
  newest : ∀ t ∈ trace, ∀ otp, t.label = .accept otp → Latest t.before.otps otp

end Discipline

section History

variable {trace : List (Transition OtpLabel OtpDb)} {t : Transition OtpLabel OtpDb}

theorem acceptances_append (id : Id) :
    acceptances (trace ++ [t]) id =
      acceptances trace id + (if t.label.accepts id then 1 else 0) := by
  simp [acceptances, List.countP_append, List.countP_singleton]

theorem evaluations_append (id : Id) :
    evaluations (trace ++ [t]) id =
      evaluations trace id + (if t.label.evaluates id then 1 else 0) := by
  simp [evaluations, List.countP_append, List.countP_singleton]

/-- A step on another code leaves the accounts of this one. -/
theorem Accounts.append {id : Id} {o : Option TransactionOtp} (h : Accounts trace id o)
    (haccepts : t.label.accepts id = false) (hevaluates : t.label.evaluates id = false) :
    Accounts (trace ++ [t]) id o := by
  have ha : acceptances (trace ++ [t]) id = acceptances trace id := by
    simp [acceptances_append, haccepts]
  have he : evaluations (trace ++ [t]) id = evaluations trace id := by
    simp [evaluations_append, hevaluates]
  cases o with
  | none => exact ⟨ha.trans h.1, he.trans h.2⟩
  | some r =>
      obtain ⟨haccepted, hevaluated, hbound, hopen⟩ := h
      exact ⟨ha ▸ haccepted, he ▸ hevaluated, hbound, hopen⟩

/-- Voiding a row keeps its accounts. -/
theorem Accounts.void {id : Id} {r : TransactionOtp} {now : Timestamp}
    (h : Accounts trace id (some r)) : Accounts trace id (some { r with usedAt := some now }) := by
  obtain ⟨haccepted, hevaluated, hbound, -⟩ := h
  refine ⟨?_, hevaluated, hbound, nofun⟩
  apply haccepted.trans
  split
  · exact Nat.zero_le _
  · exact le_refl _

/-- The accounts of a code whose wrong submission has just been evaluated. -/
theorem Accounts.wrong {otp : TransactionOtp} {now : Timestamp} (hunused : otp.usedAt = none)
    (h : Accounts trace otp.id (some otp)) (hlabel : t.label = .wrong otp) :
    Accounts (trace ++ [t]) otp.id (some (markWrong otp now otp)) := by
  obtain ⟨haccepted, hevaluated, -, hopen⟩ := h
  have hattempts : otp.attempts < otpMaxAttempts := hopen hunused
  rw [if_pos hunused] at haccepted
  refine ⟨?_, ?_, hattempts, ?_⟩
  · rw [acceptances_append, hlabel, Nat.le_zero.mp haccepted]
    simp [OtpLabel.accepts]
  · rw [evaluations_append, hlabel, hevaluated]
    simp [OtpLabel.evaluates, markWrong]
  · intro hstill
    by_cases hburned : otpMaxAttempts ≤ otp.attempts + 1
    · simp [markWrong, hburned] at hstill
    · exact not_le.mp hburned

/-- The accounts of a code that has just been accepted. -/
theorem Accounts.accept {otp : TransactionOtp} {now : Timestamp} (hunused : otp.usedAt = none)
    (h : Accounts trace otp.id (some otp)) (hlabel : t.label = .accept otp) :
    Accounts (trace ++ [t]) otp.id (some (markUsed now otp)) := by
  obtain ⟨haccepted, hevaluated, hbound, -⟩ := h
  rw [if_pos hunused] at haccepted
  refine ⟨?_, ?_, hbound, nofun⟩
  · rw [acceptances_append, hlabel, Nat.le_zero.mp haccepted]
    simp [OtpLabel.accepts, markUsed]
  · rw [evaluations_append, hlabel, hevaluated]
    simp [OtpLabel.evaluates, markUsed]

/-- A change of a code that only brings it closer to its end. -/
structure Ages (f : TransactionOtp → TransactionOtp) : Prop where
  userId : ∀ r, (f r).userId = r.userId
  purpose : ∀ r, (f r).purpose = r.purpose
  expiresAt : ∀ r, (f r).expiresAt = r.expiresAt
  used : ∀ r, r.usedAt ≠ none → (f r).usedAt ≠ none

theorem ages_markUsed (now : Timestamp) : Ages (markUsed now) :=
  ⟨fun _ => rfl, fun _ => rfl, fun _ => rfl, fun _ _ => nofun⟩

theorem ages_markWrong (otp : TransactionOtp) (now : Timestamp) : Ages (markWrong otp now) := by
  refine ⟨fun _ => rfl, fun _ => rfl, fun _ => rfl, ?_⟩
  intro r hused
  unfold markWrong
  split
  · exact nofun
  · exact hused

/-- Changing only some of the codes. -/
theorem Ages.ite {f : TransactionOtp → TransactionOtp} (h : Ages f)
    (p : TransactionOtp → Prop) [DecidablePred p] : Ages fun r => if p r then f r else r := by
  constructor
  · intro r
    split
    · exact h.userId r
    · rfl
  · intro r
    split
    · exact h.purpose r
    · rfl
  · intro r
    split
    · exact h.expiresAt r
    · rfl
  · intro r hused
    split
    · exact h.used r hused
    · exact hused

theorem Ages.sameSlot {f : TransactionOtp → TransactionOtp} (h : Ages f) (r r' : TransactionOtp) :
    SameSlot (f r) (f r') ↔ SameSlot r r' := by
  unfold SameSlot
  rw [h.userId, h.userId, h.purpose, h.purpose]

theorem Dead.later {clock clock' : Timestamp} {r : TransactionOtp} (h : Dead clock r)
    (hclock : clock ≤ clock') : Dead clock' r :=
  h.imp_right fun hexpired => hexpired.trans_le hclock

theorem Ages.dead {f : TransactionOtp → TransactionOtp} (h : Ages f) {clock : Timestamp}
    {r : TransactionOtp} (hdead : Dead clock r) : Dead clock (f r) := by
  rcases hdead with hused | hexpired
  · exact .inl (h.used r hused)
  · exact .inr (by rw [h.expiresAt]; exact hexpired)

/-- Ageing rows in place keeps the older of two codes dead. -/
theorem pairwise_ages {rows : List TransactionOtp} {clock : Timestamp}
    {f : TransactionOtp → TransactionOtp} (hf : Ages f)
    (h : rows.Pairwise fun r r' => SameSlot r r' → Dead clock r) :
    (rows.map f).Pairwise fun r r' => SameSlot r r' → Dead clock r := by
  rw [List.pairwise_map]
  apply h.imp
  intro r r' hdies hsame
  exact hf.dead (hdies ((hf.sameSlot r r').mp hsame))

/-- An update that finds its row rewrites that row. -/
theorem WrittenBack.modifies {id : Id} {f : TransactionOtp → TransactionOtp} {s s' : OtpDb}
    {r : TransactionOtp} (h : WrittenBack id f s s') (hfind : s.otps.find id = some r) :
    ∃ hf, s' = { s with otps := s.otps.modify id f hf } := by
  rcases h with ⟨hmissing, -⟩ | hmodified
  · rw [hfind] at hmissing
    cases hmissing
  · exact hmodified

/-- Writing back one row, with its new accounts. -/
theorem OtpHistory.writeBack {s s' : OtpDb} {otp : TransactionOtp}
    {f : TransactionOtp → TransactionOtp} (h : OtpHistory trace s)
    (hwritten : WrittenBack otp.id f s s') (hfind : s.otps.find otp.id = some otp)
    (hages : Ages f)
    (hother : ∀ id, id ≠ otp.id → t.label.accepts id = false ∧ t.label.evaluates id = false)
    (hself : Accounts (trace ++ [t]) otp.id (some (f otp)))
    (hnewest : ∀ otp, t.label = .accept otp → Latest t.before.otps otp) :
    OtpHistory (trace ++ [t]) s' := by
  obtain ⟨hf, rfl⟩ := hwritten.modifies hfind
  constructor
  · exact pairwise_ages (hages.ite fun r => r.id = otp.id) h.live
  · intro id
    by_cases hid : id = otp.id
    · subst hid
      have hafter : (s.otps.modify otp.id f hf).find otp.id = some (f otp) :=
        Table.find_modify_self hfind
      exact hafter ▸ hself
    · have hafter : (s.otps.modify otp.id f hf).find id = s.otps.find id :=
        Table.find_modify_of_ne hid
      exact hafter ▸ (h.accounts id).append (hother id hid).1 (hother id hid).2
  · intro u hu
    rcases List.mem_append.mp hu with hu | hu
    · exact h.newest u hu
    · obtain rfl := List.mem_singleton.mp hu
      exact hnewest

/-- A step that neither accepts nor evaluates a code. -/
theorem OtpHistory.append {s : OtpDb} (h : OtpHistory trace s)
    (haccepts : ∀ otp, t.label ≠ .accept otp) (hwrong : ∀ otp, t.label ≠ .wrong otp) :
    (∀ id o, Accounts trace id o → Accounts (trace ++ [t]) id o) ∧
      ∀ u ∈ trace ++ [t], ∀ otp, u.label = .accept otp → Latest u.before.otps otp := by
  constructor
  · intro id o haccounts
    apply haccounts.append
    · cases hlabel : t.label <;> first | rfl | exact absurd hlabel (haccepts _)
    · cases hlabel : t.label <;> first | rfl | exact absurd hlabel (hwrong _)
  · intro u hu otp hlabel
    rcases List.mem_append.mp hu with hu | hu
    · exact h.newest u hu otp hlabel
    · rw [List.mem_singleton.mp hu] at hlabel
      exact absurd hlabel (haccepts otp)

/-- A live code has none after it. -/
theorem OneLive.latest {s : OtpDb} {otp : TransactionOtp} (h : OneLive s)
    (hfind : s.otps.find otp.id = some otp) (halive : ¬ Dead s.clock otp) :
    Latest s.otps otp := by
  intro earlier r later hrows hid newer hnewer hsame
  have hmem : r ∈ s.otps := by
    rw [Table.mem_def, hrows]
    simp
  obtain rfl : r = otp := Table.eq_of_key_eq hmem (Table.mem_of_find hfind) hid
  unfold OneLive at h
  rw [hrows, List.pairwise_append, List.pairwise_cons] at h
  exact halive (h.2.1.1 newer hnewer hsame)

/-- Issuing a code that saw all others of its slot that were alive. -/
theorem OneLive.issue {s : OtpDb} {otp : TransactionOtp} {seen : List Id} {now : Timestamp}
    {otps : Table TransactionOtp} (h : OneLive s)
    (hissued : (voidSeen seen now s.otps).insert otp = some otps)
    (hseen : Current (.issue otp seen) s) : OneLive { s with otps } := by
  have hvoid : Ages fun r => if r.id ∈ seen ∧ r.usedAt = none then markUsed now r else r :=
    (ages_markUsed now).ite _
  show otps.rows.Pairwise _
  rw [(Table.insert_eq_some_iff.mp hissued).2, List.pairwise_append]
  refine ⟨pairwise_ages hvoid h, List.pairwise_singleton _ _, ?_⟩
  intro r' hr' last hlast hsame
  obtain rfl := List.mem_singleton.mp hlast
  obtain ⟨r, hr, rfl⟩ := List.mem_map.mp hr'
  have hslot : SameSlot r last :=
    ⟨(hvoid.userId r).symm.trans hsame.1, (hvoid.purpose r).symm.trans hsame.2⟩
  rcases hseen r hr hslot with hmem | hdead
  · by_cases hunused : r.usedAt = none
    · rw [if_pos ⟨hmem, hunused⟩]
      exact .inl nofun
    · rw [if_neg fun hboth => hunused hboth.2]
      exact .inl hunused
  · exact hvoid.dead hdead

/-- The accounts once a code has been issued. -/
theorem OtpHistory.accounts_issue {s : OtpDb} {otp : TransactionOtp} {seen : List Id}
    {now : Timestamp} {otps : Table TransactionOtp} (h : OtpHistory trace s)
    (hissued : (voidSeen seen now s.otps).insert otp = some otps) (hattempts : otp.attempts = 0)
    (id : Id) : Accounts trace id (otps.find id) := by
  have hvoid : ∀ id, (voidSeen seen now s.otps).find id = (s.otps.find id).map fun r =>
      if r.id ∈ seen ∧ r.usedAt = none then markUsed now r else r :=
    fun id => Table.find_modifyWhere s.otps id
  have hbefore := h.accounts id
  rw [Table.find_insert hissued, key_transactionOtp]
  by_cases hid : id = otp.id
  · have hfree := (Table.insert_eq_some_iff.mp hissued).1
    rw [key_transactionOtp, ← hid, hvoid, Option.map_eq_none_iff] at hfree
    rw [hfree] at hbefore
    rw [if_pos hid]
    refine ⟨?_, ?_, ?_, ?_⟩
    · rw [hbefore.1]
      exact Nat.zero_le _
    · rw [hbefore.2, hattempts]
    · rw [hattempts]
      exact Nat.zero_le _
    · intro _
      rw [hattempts]
      decide
  · rw [if_neg hid, hvoid]
    cases hfind : s.otps.find id with
    | none =>
        rw [hfind] at hbefore
        exact hbefore
    | some r =>
        rw [hfind] at hbefore
        show Accounts trace id (some (if r.id ∈ seen ∧ r.usedAt = none then markUsed now r else r))
        split
        · exact hbefore.void
        · exact hbefore

/-- One step that acts on a current reading keeps the history. -/
theorem OtpHistory.step {label : OtpLabel} {s s' : OtpDb} (h : OtpHistory trace s)
    (hcurrent : Current label s) (hstep : OtpStep label s s') :
    OtpHistory (trace ++ [⟨s, label, s'⟩]) s' := by
  cases label with
  | read =>
      obtain rfl : s' = s := hstep
      obtain ⟨haccounts, hnewest⟩ := h.append (t := ⟨s', .read, s'⟩) nofun nofun
      exact ⟨h.live, fun id => haccounts id _ (h.accounts id), hnewest⟩
  | tick =>
      obtain ⟨milliseconds, rfl⟩ := hstep
      obtain ⟨haccounts, hnewest⟩ := h.append (t := ⟨s, .tick, _⟩) nofun nofun
      refine ⟨?_, fun id => haccounts id _ (h.accounts id), hnewest⟩
      apply h.live.imp
      intro r r' hdies hsame
      exact (hdies hsame).later (by simp)
  | issue otp seen =>
      obtain ⟨hattempts, rfl | ⟨now, otps, hissued, rfl⟩⟩ := hstep
      · obtain ⟨haccounts, hnewest⟩ := h.append (t := ⟨s', .issue otp seen, s'⟩) nofun nofun
        exact ⟨h.live, fun id => haccounts id _ (h.accounts id), hnewest⟩
      · obtain ⟨haccounts, hnewest⟩ := h.append (t := ⟨s, .issue otp seen, _⟩) nofun nofun
        exact ⟨h.live.issue hissued hcurrent,
          fun id => haccounts id _ (h.accounts_issue hissued hattempts id), hnewest⟩
  | wrong otp =>
      obtain ⟨hunused, now, hwritten⟩ := hstep
      have haccounts := h.accounts otp.id
      rw [hcurrent] at haccounts
      apply h.writeBack hwritten hcurrent (ages_markWrong otp now)
      · intro id hid
        exact ⟨rfl, decide_eq_false (Ne.symm hid)⟩
      · exact haccounts.wrong hunused rfl
      · exact nofun
  | accept otp =>
      obtain ⟨hunused, now, hwritten⟩ := hstep
      obtain ⟨hfind, hunexpired⟩ := hcurrent
      have haccounts := h.accounts otp.id
      rw [hfind] at haccounts
      apply h.writeBack hwritten hfind (ages_markUsed now)
      · intro id hid
        exact ⟨decide_eq_false (Ne.symm hid), rfl⟩
      · exact haccounts.accept hunused rfl
      · intro otp' hlabel
        obtain rfl := OtpLabel.accept.inj hlabel
        apply h.live.latest hfind
        rintro (hused | hexpired)
        · exact hused hunused
        · exact absurd hexpired (not_lt.mpr hunexpired)

theorem OtpHistory.discipline {s : OtpDb} (h : OtpHistory trace s) : OtpDiscipline trace := by
  constructor
  · intro id
    have haccounts := h.accounts id
    cases hfind : s.otps.find id with
    | none =>
        rw [hfind] at haccounts
        exact haccounts.1.trans_le (Nat.zero_le 1)
    | some r =>
        rw [hfind] at haccounts
        apply haccounts.1.trans
        split
        · exact Nat.zero_le 1
        · exact le_refl 1
  · intro id
    have haccounts := h.accounts id
    cases hfind : s.otps.find id with
    | none =>
        rw [hfind] at haccounts
        exact haccounts.2.trans_le (Nat.zero_le _)
    | some r =>
        rw [hfind] at haccounts
        exact haccounts.2.1.trans_le haccounts.2.2.1
  · exact h.newest

end History

/-- Any number of requests and submissions, interleaved in any way, keep the discipline,
as long as no step acts on a reading that has gone stale. -/
theorem otp_discipline (sha256 : String → String) (compare : String → String → Bool)
    (calls : List OtpCall) {s s' : OtpDb} (hempty : s.otps = Table.empty)
    {trace : List (Transition OtpLabel OtpDb)} {pool : List (OtpApi Unit)}
    (hrun : Run s (calls.map (OtpCall.run sha256 compare)) trace s' pool)
    (hcurrent : ∀ t ∈ trace, Current t.label t.before) : OtpDiscipline trace := by
  have htakes : ∀ p ∈ calls.map (OtpCall.run sha256 compare), Process.Takes OtpStep p := by
    intro p hp
    obtain ⟨call, -, rfl⟩ := List.mem_map.mp hp
    exact call.run_takes sha256 compare
  have hstart : OtpHistory [] s := by
    constructor
    · rw [OneLive, hempty]
      exact List.Pairwise.nil
    · intro id
      rw [hempty, Table.find_empty]
      exact ⟨List.countP_nil, List.countP_nil⟩
    · intro t ht
      cases ht
  have hhistory : OtpHistory trace s' := 
    hrun.along htakes hcurrent hstart OtpHistory.step
  exact hhistory.discipline

/-- A user who wants two factors. -/
def sampleOtpDb : OtpDb :=
  { clock := 0
    users := ⟨[⟨1, none, true⟩], by decide⟩
    otps := Table.empty }

/-- One request, two submissions of its code. -/
def sampleOtpCalls : List OtpCall :=
  [.requestTransactionOtp 100 1 .withdrawal "123456", .consumeOtp 1 "123456" .withdrawal,
    .consumeOtp 1 "123456" .withdrawal]

/-- The calls under a schedule, with codes stored as they are. -/
def otpRace (choices : List ℕ) : List (Transition OtpLabel OtpDb) × OtpDb ×
    List (Process OtpLabel OtpDb (Except AccessError Unit)) :=
  interleave choices sampleOtpDb (sampleOtpCalls.map (OtpCall.run id fun _ _ => true))

/-- Both submissions read the code unused, and both succeed. -/
theorem otp_accepted_twice :
    ¬ ∀ (sha256 : String → String) (compare : String → String → Bool) (calls : List OtpCall)
        (s s' : OtpDb), s.otps = Table.empty →
          ∀ (trace : List (Transition OtpLabel OtpDb)) (pool : List (OtpApi Unit)),
            Run s (calls.map (OtpCall.run sha256 compare)) trace s' pool →
              OtpDiscipline trace := by
  intro hclaim
  have hdiscipline : OtpDiscipline (otpRace [0, 0, 0, 0, 1, 1, 2, 2, 1, 2]).1 :=
    hclaim id (fun _ _ => true) sampleOtpCalls sampleOtpDb _ rfl _ _ (run_interleave _ _ _)
  have htwice : acceptances (otpRace [0, 0, 0, 0, 1, 1, 2, 2, 1, 2]).1 100 = 2 := by
    decide +kernel
  have honce := hdiscipline.once 100
  rw [htwice] at honce
  exact absurd honce (by decide)

/-- The second submission comes once the first has burned the code. -/
theorem otp_discipline_sample : OtpDiscipline (otpRace [0, 0, 0, 0, 1, 1, 1, 2, 2]).1 :=
  otp_discipline id (fun _ _ => true) sampleOtpCalls rfl (run_interleave _ _ _)
    (by decide +kernel)

end SecureStore.Access
