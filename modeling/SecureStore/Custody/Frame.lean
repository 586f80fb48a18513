/-
# Requests outside of pledges and liens

Deposits, withdrawals, loans and trades leave the directory and the tables about
pledges, liens and their release alone, whatever state each of their steps finds.
A contract about these tables holds of them for this reason alone.
-/

import SecureStore.Custody.Requests

namespace SecureStore.Services

open SecureStore.Foundation SecureStore.Inventory

/-- No step of the process touches the tables about pledges and liens. -/
abbrev Leaves {α : Type} (p : Api α) : Prop := Process.Takes (fun _ => SameCollateral) p

/-- A step under the label is of one of the given issuers, if it is of any. -/
def Label.By (mine : Issuer → Prop) : Label → Prop
  | .read _ => True
  | .ledger by_ _ => mine by_
  | .write by_ => mine by_

theorem Label.By.mono {mine mine' : Issuer → Prop} {label : Label} (h : label.By mine)
    (himp : ∀ by_, mine by_ → mine' by_) : label.By mine' := by
  cases label with
  | read => trivial
  | ledger by_ op => exact himp by_ h
  | write by_ => exact himp by_ h

/-- Every step of the process is of one of the given issuers, and in a relation. -/
abbrev Steps (mine : Issuer → Prop) (R : Db → Db → Prop) {α : Type} (p : Api α) : Prop :=
  Process.Takes (fun label s s' => label.By mine ∧ R s s') p

/-- A relation that holds of what changes nothing, or nothing but the ledger. -/
structure BesidesLedger (R : Db → Db → Prop) : Prop where
  refl : ∀ s, R s s
  ledger : ∀ s ledger, R s { s with ledger }

theorem sameCollateral_ledger : BesidesLedger SameCollateral :=
  ⟨.refl, fun _ _ => ⟨rfl, rfl, rfl, rfl, rfl, rfl⟩⟩

/-- The issuers outside of pledges and liens, other than that of a deposit. -/
def Issuer.Moves : Issuer → Prop
  | createDeposit => False
  | by_ => ¬ by_.Collateral

section Rules

variable {R : Db → Db → Prop} (hR : BesidesLedger R) {mine : Issuer → Prop} {num : Numeric}
  {by_ : Issuer} {α β : Type}

include hR

theorem steps_read {f : Db → α} {g : α → Api β} (hg : ∀ a, Steps mine R (g a)) :
    Steps mine R (Attempt.read .read f >>= g : Api β) :=
  takes_read (fun s => ⟨trivial, hR.refl s⟩) fun s => hg (f s)

theorem steps_read_last {f : Db → β} : Steps mine R (Attempt.read .read f : Api β) :=
  fun s => ⟨⟨trivial, hR.refl s⟩, trivial⟩

theorem steps_find {f : Db → Option α} {e : ApiError} {g : α → Api β}
    (hg : ∀ a, Steps mine R (g a)) :
    Steps mine R ((Attempt.read .read f >>= fun o => Attempt.orThrow o e) >>= g : Api β) := by
  rw [Attempt.bind_assoc]
  apply steps_read hR
  intro o
  exact takes_orThrow fun a _ => hg a

theorem steps_write {f : Db → Except ApiError (α × Db)} (hmine : mine by_)
    (h : ∀ s a s', f s = .ok (a, s') → R s s') : Steps mine R (Api.write by_ f) :=
  takes_write (fun s a s' hok => ⟨hmine, h s a s' hok⟩) fun s _ _ => ⟨hmine, hR.refl s⟩

theorem steps_ledger {op : LedgerOp} {tx : Tx α} {g : α → Api β} (hmine : mine by_)
    (hg : ∀ a, Steps mine R (g a)) : Steps mine R (Api.ledger by_ op tx >>= g : Api β) := by
  apply takes_bind _ hg
  apply takes_write
  · intro s a s' hok
    obtain ⟨ledger, -, rfl⟩ := Api.within_ok hok
    exact ⟨hmine, hR.ledger s ledger⟩
  · exact fun s _ _ => ⟨hmine, hR.refl s⟩

/-- A ledger call in its database calls. -/
theorem steps_runIdempotent {op : LedgerOp} {work : Db → Except ApiError (Receipt × Db)}
    (hmine : mine by_) (h : ∀ s r s', work s = .ok (r, s') → R s s') :
    Steps mine R (Api.runIdempotent by_ op work) :=
  takes_runIdempotent (fun _ s => ⟨trivial, hR.refl s⟩)
    (fun s r s' hok => ⟨hmine, h s r s' hok⟩) fun s => ⟨hmine, hR.refl s⟩

/-- A write of one table. -/
theorem steps_table {τ : Type} {f : Db → Except ApiError τ} {wrap : Db → τ → Db} (hmine : mine by_)
    (hwrap : ∀ s t, f s = .ok t → R s (wrap s t)) :
    Steps mine R (Api.write by_ fun db => (f db).map fun t => ((), wrap db t)) := by
  apply steps_write hR hmine
  intro s _ s' hok
  obtain ⟨t, ht, hresult⟩ := map_ok.mp hok
  cases hresult
  exact hwrap s t ht

omit hR in
/-- A loop whose body takes such steps for each of its elements. -/
theorem steps_forEach {δ : Type} {items : List δ} {body : δ → Api Unit}
    (hbody : ∀ item, Steps mine R (body item)) : Steps mine R (Attempt.forEach items body) := by
  induction items with
  | nil => trivial
  | cons item rest ih => exact takes_bind (hbody item) fun _ => ih

theorem steps_requireParty {tenantId actorUserId clientId receiptId : Id} {roles : List Role}
    {e : ApiError} :
    Steps mine R (requireParty tenantId actorUserId roles clientId receiptId e) := by
  unfold requireParty
  split
  · trivial
  · split
    · apply steps_read hR
      intro _
      apply takes_orThrow
      intro _ _
      apply steps_read hR
      intro _
      unfold Api.throwIf Attempt.throwIf
      split <;> trivial
    · trivial

theorem steps_requireFinancierOrg {callerUserId : Id} :
    Steps mine R (requireFinancierOrg callerUserId) := by
  apply steps_read hR
  intro _
  apply takes_orThrow
  intro org _
  exact takes_throwIf fun _ => trivial

end Rules

section Updates

variable {mine : Issuer → Prop} {by_ : Issuer} {id : Id}

theorem steps_updateWithdrawal {f : Withdrawal → Withdrawal}
    {hf : ∀ r, Keyed.key (f r) = Keyed.key r} (hmine : mine by_) :
    Steps mine SameCollateral (updateWithdrawal by_ id f hf) :=
  steps_table sameCollateral_ledger hmine fun _ _ _ => ⟨rfl, rfl, rfl, rfl, rfl, rfl⟩

theorem steps_updateLoan {f : Loan → Loan} {hf : ∀ r, Keyed.key (f r) = Keyed.key r}
    (hmine : mine by_) : Steps mine SameCollateral (updateLoan by_ id f hf) :=
  steps_table sameCollateral_ledger hmine fun _ _ _ => ⟨rfl, rfl, rfl, rfl, rfl, rfl⟩

theorem steps_updateTrade {f : Trade → Trade} {hf : ∀ r, Keyed.key (f r) = Keyed.key r}
    (hmine : mine by_) : Steps mine SameCollateral (updateTrade by_ id f hf) :=
  steps_table sameCollateral_ledger hmine fun _ _ _ => ⟨rfl, rfl, rfl, rfl, rfl, rfl⟩

/-- A status is checked, the leaf is moved and the status is written. -/
theorem steps_decision {α : Type} {cond : Prop} [Decidable cond] {e : ApiError} {op : LedgerOp}
    {tx : Tx α} {update : Api Unit} (hmine : mine by_)
    (hupdate : Steps mine SameCollateral update) :
    Steps mine SameCollateral (Attempt.throwIf cond e >>= fun _ =>
      Api.ledger by_ op tx >>= fun _ => update : Api Unit) := by
  apply takes_throwIf
  intro _
  apply steps_ledger sameCollateral_ledger hmine
  exact fun _ => hupdate

end Updates

section Requests

variable {num : Numeric} {mine : Issuer → Prop} (hmine : ∀ by_ : Issuer, by_.Moves → mine by_)

include hmine

theorem createWithdrawalRequest_steps (dto : CreateWithdrawal) :
    Steps mine SameCollateral (createWithdrawalRequest dto) := by
  apply takes_throwIf
  intro _
  apply takes_ofExcept
  intro _ _
  apply steps_read sameCollateral_ledger
  intro _
  apply takes_orThrow
  intro r _
  apply takes_throwIf
  intro _
  apply takes_throwIf
  intro _
  apply takes_throwIf
  intro _
  apply steps_read sameCollateral_ledger
  intro _
  apply takes_throwIf
  intro _
  apply steps_read sameCollateral_ledger
  intro _
  apply takes_throwIf
  intro _
  apply takes_ofExcept
  intro fee _
  refine steps_write sameCollateral_ledger (hmine _ id) fun s _ s' hok => ?_
  split at hok
  · cases hok
    exact .refl s
  · obtain ⟨t, -, hresult⟩ := map_ok.mp hok
    cases hresult
    exact ⟨rfl, rfl, rfl, rfl, rfl, rfl⟩

theorem confirmPayment_steps (uuids : Uuids) (tenantId withdrawalId actorUserId : Id)
    (actorRoles : List Role) :
    Steps mine SameCollateral
      (confirmPayment num uuids tenantId withdrawalId actorUserId actorRoles) := by
  apply steps_find sameCollateral_ledger
  intro w
  apply takes_bind (steps_requireParty sameCollateral_ledger)
  intro _
  apply takes_throwIf
  intro _
  refine steps_ledger sameCollateral_ledger (hmine _ id) fun result => ?_
  apply takes_orThrow
  intro held _
  exact steps_updateWithdrawal (hmine _ id)

theorem rejectWithdrawal_steps (uuids : Uuids) (tenantId withdrawalId : Id)
    (actorUserId : Option Id) (reason : Option String) :
    Steps mine SameCollateral
      (rejectWithdrawal num uuids tenantId withdrawalId actorUserId reason) := by
  apply steps_find sameCollateral_ledger
  intro w
  apply takes_throwIf
  intro _
  apply takes_bind
  · apply steps_read sameCollateral_ledger
    intro linked
    split
    · trivial
    · split
      · exact steps_ledger sameCollateral_ledger (hmine _ id) fun _ => trivial
      · trivial
  · intro _
    split
    · trivial
    · exact steps_updateWithdrawal (hmine _ id)

theorem completeWithdrawal_steps (uuids : Uuids) (storageFee : Except ApiError ℚ)
    (tenantId withdrawalId : Id) (actorUserId : Option Id) :
    Steps mine SameCollateral
      (completeWithdrawal num uuids storageFee tenantId withdrawalId actorUserId) := by
  apply steps_find sameCollateral_ledger
  intro w
  apply takes_throwIf
  intro _
  refine steps_ledger sameCollateral_ledger (hmine _ id) fun _ => ?_
  apply steps_read sameCollateral_ledger
  intro _
  apply takes_orThrow
  intro _ _
  apply takes_ofExcept
  intro _ _
  exact steps_updateWithdrawal (hmine _ id)

theorem editWithdrawal_steps (dto : EditWithdrawal) :
    Steps mine SameCollateral (editWithdrawal dto) := by
  apply steps_find sameCollateral_ledger
  intro w
  apply takes_throwIf
  intro _
  apply takes_bind (steps_requireParty sameCollateral_ledger)
  intro _
  apply takes_throwIf
  intro _
  dsimp only
  split
  · trivial
  · exact steps_updateWithdrawal (hmine _ id)

theorem expirePendingPayment_steps (now : Timestamp) :
    Steps mine SameCollateral (expirePendingPayment now) := by
  apply steps_read sameCollateral_ledger
  intro expired
  split
  · trivial
  · refine steps_write sameCollateral_ledger (hmine _ id) fun s _ s' hok => ?_
    cases hok
    exact ⟨rfl, rfl, rfl, rfl, rfl, rfl⟩

theorem createLoan_steps (dto : CreateLoan) : Steps mine SameCollateral (createLoan num dto) := by
  apply takes_ofExcept
  intro _ _
  apply steps_read sameCollateral_ledger
  intro _
  apply takes_orThrow
  intro receipt _
  apply steps_read sameCollateral_ledger
  intro _
  apply takes_orThrow
  intro financier _
  apply takes_throwIf
  intro _
  refine steps_ledger sameCollateral_ledger (hmine _ id) fun result => ?_
  apply takes_orThrow
  intro held _
  refine steps_write sameCollateral_ledger (hmine _ id) fun s _ s' hok => ?_
  split at hok
  · cases hok
    exact .refl s
  · obtain ⟨t, -, hresult⟩ := map_ok.mp hok
    cases hresult
    exact ⟨rfl, rfl, rfl, rfl, rfl, rfl⟩

theorem editLoan_steps (dto : EditLoan) : Steps mine SameCollateral (editLoan dto) := by
  apply steps_find sameCollateral_ledger
  intro loan
  apply takes_throwIf
  intro _
  apply takes_bind (steps_requireParty sameCollateral_ledger)
  intro _
  apply takes_throwIf
  intro _
  apply takes_throwIf
  intro _
  apply takes_bind
  · unfold checkFinancier
    split
    · trivial
    · apply steps_read sameCollateral_ledger
      intro _
      exact takes_orThrow fun _ _ => trivial
  · intro _
    dsimp only
    split
    · trivial
    · exact steps_updateLoan (hmine _ id)

theorem createTrade_steps (dto : CreateTrade) :
    Steps mine SameCollateral (createTrade num dto) := by
  apply takes_ofExcept
  intro _ _
  apply steps_read sameCollateral_ledger
  intro _
  apply takes_orThrow
  intro receipt _
  refine steps_ledger sameCollateral_ledger (hmine _ id) fun result => ?_
  apply takes_orThrow
  intro held _
  refine steps_write sameCollateral_ledger (hmine _ id) fun s _ s' hok => ?_
  split at hok
  · cases hok
    exact .refl s
  · obtain ⟨t, -, hresult⟩ := map_ok.mp hok
    cases hresult
    exact ⟨rfl, rfl, rfl, rfl, rfl, rfl⟩

theorem settleTrade_steps (uuids : Uuids) (tenantId tradeId buyerId : Id) :
    Steps mine SameCollateral (settleTrade num uuids tenantId tradeId buyerId) := by
  apply steps_find sameCollateral_ledger
  intro t
  apply takes_throwIf
  intro _
  split
  · exact steps_read sameCollateral_ledger fun _ => trivial
  · apply takes_throwIf
    intro _
    apply steps_read sameCollateral_ledger
    intro _
    apply takes_orThrow
    intro _ _
    refine takes_bind (steps_runIdempotent sameCollateral_ledger (hmine _ id) ?_) fun _ => trivial
    intro s r s' hok
    obtain ⟨trades, ledger, -, -, -, rfl⟩ := transferTx_ok hok
    exact ⟨rfl, rfl, rfl, rfl, rfl, rfl⟩

theorem cancelTrade_steps (uuids : Uuids) (tenantId tradeId : Id) :
    Steps mine SameCollateral (cancelTrade num uuids tenantId tradeId) := by
  apply steps_find sameCollateral_ledger
  intro t
  apply takes_throwIf
  intro _
  refine takes_bind (steps_runIdempotent sameCollateral_ledger (hmine _ id) ?_) fun _ =>
    steps_updateTrade (hmine _ id)
  intro s r s' hok
  obtain ⟨ledger, -, rfl⟩ := Api.within_ok hok
  exact ⟨rfl, rfl, rfl, rfl, rfl, rfl⟩

end Requests

/-- A request outside of pledges and liens leaves them alone, and only a deposit deposits. -/
theorem Request.steps {num : Numeric} {mine : Issuer → Prop} (request : Request)
    (h : ¬ request.Collateral) (hmine : ∀ by_ : Issuer, by_.Moves → mine by_)
    (hdeposit : ∀ dto, request = .createDeposit dto → mine .createDeposit) :
    Steps mine SameCollateral (request.run num) := by
  cases request with
  | createDeposit dto =>
      exact takes_ofExcept fun _ _ =>
        steps_ledger sameCollateral_ledger (hdeposit dto rfl) fun _ => trivial
  | approveReceipt uuids tenantId receiptId adminId =>
      exact steps_ledger sameCollateral_ledger (hmine _ id) fun _ => trivial
  | rejectReceipt uuids tenantId receiptId adminId rejectionReason =>
      exact takes_throwIf fun _ =>
        steps_ledger sameCollateral_ledger (hmine _ id) fun _ => trivial
  | createWithdrawalRequest dto => exact createWithdrawalRequest_steps hmine dto
  | confirmPayment uuids tenantId withdrawalId actorUserId actorRoles =>
      exact confirmPayment_steps hmine uuids tenantId withdrawalId actorUserId actorRoles
  | approveWithdrawal uuids tenantId withdrawalId actorUserId =>
      exact steps_find sameCollateral_ledger fun _ =>
        steps_decision (hmine _ id) (steps_updateWithdrawal (hmine _ id))
  | rejectWithdrawal uuids tenantId withdrawalId actorUserId reason =>
      exact rejectWithdrawal_steps hmine uuids tenantId withdrawalId actorUserId reason
  | completeWithdrawal uuids storageFee tenantId withdrawalId actorUserId =>
      exact completeWithdrawal_steps hmine uuids storageFee tenantId withdrawalId actorUserId
  | editWithdrawal dto => exact editWithdrawal_steps hmine dto
  | expirePendingPayment now => exact expirePendingPayment_steps hmine now
  | createLoan dto => exact createLoan_steps hmine dto
  | approveLoan uuids tenantId loanId actorUserId =>
      exact steps_find sameCollateral_ledger fun _ =>
        steps_decision (hmine _ id) (steps_updateLoan (hmine _ id))
  | rejectLoan uuids tenantId loanId actorUserId =>
      exact steps_find sameCollateral_ledger fun _ =>
        steps_decision (hmine _ id) (steps_updateLoan (hmine _ id))
  | repayLoan uuids tenantId loanId actorUserId =>
      exact steps_find sameCollateral_ledger fun _ =>
        steps_decision (hmine _ id) (steps_updateLoan (hmine _ id))
  | editLoan dto => exact editLoan_steps hmine dto
  | createTrade dto => exact createTrade_steps hmine dto
  | settleTrade uuids tenantId tradeId buyerId =>
      exact settleTrade_steps hmine uuids tenantId tradeId buyerId
  | cancelTrade uuids tenantId tradeId => exact cancelTrade_steps hmine uuids tenantId tradeId
  | _ => exact absurd trivial h

/-- A request outside of pledges and liens leaves them alone. -/
theorem Request.leaves {num : Numeric} (request : Request) (h : ¬ request.Collateral) :
    Leaves (request.run num) := by
  have hsteps : Steps (fun _ => True) SameCollateral (request.run num) :=
    request.steps h (fun _ _ => trivial) fun _ _ => trivial
  exact hsteps.mono fun _ _ _ hstep => hstep.2

end SecureStore.Services
