/-
# Requests one at a time keep rows attributed

Each request is followed from its first step to its last with nothing in between. A call that
ends a transaction has freed its receipt before the row says so, and the confirmation of a
payment points the row at the child its hold has just placed.
-/

import SecureStore.Receipts.Attribution

namespace SecureStore.Services

open SecureStore.Foundation SecureStore.Inventory

/-- The request ends with its rows attributed. -/
abbrev Attributes {α : Type} (p : Api α) (s : Db) : Prop :=
  Process.Ensures (fun _ => True) (fun _ => Attributed) p s

section Rules

variable {num : Numeric} {by_ : Issuer} {s : Db} {α β : Type}

theorem ensures_requireParty {crash : Db → Prop} {post : Except ApiError β → Db → Prop}
    {tenantId actorUserId clientId receiptId : Id} {roles : List Role} {e : ApiError}
    {g : Unit → Api β} (hs : crash s) (herr : ∀ e, post (.error e) s)
    (h : Process.Ensures crash post (g ()) s) : Process.Ensures crash post
      (requireParty tenantId actorUserId roles clientId receiptId e >>= g : Api β) s := by
  apply ensures_bind
  unfold requireParty
  split
  · exact h
  · split
    · refine ensures_read hs (ensures_orThrow (fun _ => herr _) fun r _ => ensures_read hs ?_)
      exact ensures_throwIf_last (fun _ => herr _) fun _ => h
    · exact herr e

theorem attributes_call {op : LedgerOp} {tx : Tx α} {uuids : Uuids} {wrap : α → LedgerResult}
    {g : α → Api β} (h : Attributed s) (hcall : op.call num uuids = wrap <$> tx)
    (hright : Rightful s by_ op) (hpay : ∀ id, by_ ≠ .confirmPayment id)
    (hnext : ∀ a ledger, Outcome num uuids op s.ledger (wrap a) ledger →
      Attributed { s with ledger } → Attributes (g a) { s with ledger }) :
    Attributes (Api.ledger by_ op tx >>= g : Api β) s :=
  ensures_ledger hcall (fun _ => ⟨trivial, h⟩) fun a ledger houtcome =>
    ⟨trivial, hnext a ledger houtcome (h.call hright hpay houtcome)⟩

theorem attributes_updateWithdrawal {id : Id} {f : Withdrawal → Withdrawal}
    {hf : ∀ r, Keyed.key (f r) = Keyed.key r} (h : Attributed s)
    (hkept : ∀ r, (f r).receiptId = r.receiptId ∧ (f r).tenantId = r.tenantId)
    (hfree : ∀ r, s.withdrawals.find id = some r → ¬ (f r).status.Holds →
      FreeAt s.ledger r.receiptId) : Attributes (updateWithdrawal by_ id f hf) s := by
  apply ensures_write_last (fun _ _ => ⟨trivial, h⟩)
  intro a s' hok
  obtain ⟨withdrawals, hupdate, hresult⟩ := map_ok.mp hok
  cases hresult
  refine ⟨trivial, { h with withdrawals := fun w hw hover => ?_, paid := fun r hr hstatus => ?_ }⟩
  · rcases mem_updateRow hupdate hw with ⟨r, hfind, rfl⟩ | ⟨hold, -⟩
    · rw [(hkept r).1]
      exact hfree r hfind hover
    · exact h.withdrawals w hold hover
  · obtain ⟨w, hw, hreceipt, htenant⟩ := h.paid r hr hstatus
    obtain ⟨-, -, rfl⟩ := updateRow_ok.mp hupdate
    obtain ⟨w', hw', -, ⟨-, rfl⟩ | ⟨-, rfl⟩⟩ := Table.exists_mem_modify f hf hw id
    · exact ⟨f w, hw', (hkept w).1.trans hreceipt, (hkept w).2.trans htenant⟩
    · exact ⟨w', hw', hreceipt, htenant⟩

theorem attributes_updateLoan {id : Id} {f : Loan → Loan}
    {hf : ∀ r, Keyed.key (f r) = Keyed.key r} (h : Attributed s)
    (hkept : ∀ r, (f r).receiptId = r.receiptId)
    (hfree : ∀ r, s.loans.find id = some r → ¬ (f r).status.Holds →
      FreeAt s.ledger r.receiptId) : Attributes (updateLoan by_ id f hf) s := by
  apply ensures_write_last (fun _ _ => ⟨trivial, h⟩)
  intro a s' hok
  obtain ⟨loans, hupdate, hresult⟩ := map_ok.mp hok
  cases hresult
  refine ⟨trivial, { h with loans := fun l hl => ?_ }⟩
  rcases mem_updateRow hupdate hl with ⟨r, hfind, rfl⟩ | ⟨hold, -⟩
  · rw [hkept, show (f r).id = r.id from hf r]
    exact ⟨(h.loans r (Table.mem_of_find hfind)).minted, hfree r hfind⟩
  · exact h.loans l hold

theorem attributes_updateTrade {id : Id} {f : Trade → Trade}
    {hf : ∀ r, Keyed.key (f r) = Keyed.key r} (h : Attributed s)
    (hkept : ∀ r, (f r).receiptId = r.receiptId)
    (hfree : ∀ r, s.trades.find id = some r → ¬ (f r).status.Holds →
      FreeAt s.ledger r.receiptId) : Attributes (updateTrade by_ id f hf) s := by
  apply ensures_write_last (fun _ _ => ⟨trivial, h⟩)
  intro a s' hok
  obtain ⟨trades, hupdate, hresult⟩ := map_ok.mp hok
  cases hresult
  refine ⟨trivial, { h with trades := fun t ht => ?_ }⟩
  rcases mem_updateRow hupdate ht with ⟨r, hfind, rfl⟩ | ⟨hold, -⟩
  · rw [hkept, show (f r).id = r.id from hf r]
    exact ⟨(h.trades r (Table.mem_of_find hfind)).minted, hfree r hfind⟩
  · exact h.trades t hold

end Rules

section Withdrawals

variable {num : Numeric} {s : Db}

theorem createWithdrawalRequest_attributes (dto : CreateWithdrawal) (h : Attributed s) :
    Attributes (createWithdrawalRequest dto) s := by
  refine ensures_throwIf (fun _ => h) fun _ => ensures_ofExcept (fun _ _ => h) fun _ _ => ?_
  refine ensures_read trivial (ensures_orThrow (fun _ => h) fun r hr => ?_)
  obtain ⟨hfind, -⟩ := Option.filter_eq_some_iff.mp hr
  refine ensures_throwIf (fun _ => h) fun hactive => ensures_throwIf (fun _ => h) fun _ => ?_
  refine ensures_throwIf (fun _ => h) fun _ => ensures_read trivial ?_
  refine ensures_throwIf (fun _ => h) fun _ => ensures_read trivial ?_
  refine ensures_throwIf (fun _ => h) fun _ => ensures_ofExcept (fun _ _ => h)
    fun storageFee _ => ?_
  apply ensures_write_last (fun _ _ => ⟨trivial, h⟩)
  intro a s' hok
  split at hok
  · cases hok
    exact ⟨trivial, h⟩
  · obtain ⟨withdrawals, hcreate, hresult⟩ := map_ok.mp hok
    cases hresult
    have hmem : ∀ w, w ∈ withdrawals ↔ w ∈ s.withdrawals ∨ w = _ :=
      fun _ => Table.mem_insert (createRow_ok.mp hcreate).2
    refine ⟨trivial, { h with withdrawals := fun w hw hover => ?_, paid := fun r hr hstatus => ?_ }⟩
    · rcases (hmem w).mp hw with hold | rfl
      · exact h.withdrawals w hold hover
      · -- the selected leaf is not held
        refine ⟨r, Table.find_of_mem (Table.mem_of_find hfind), ?_⟩
        rw [not_not.mp hactive]
        decide
    · obtain ⟨w, hw, hpaid⟩ := h.paid r hr hstatus
      exact ⟨w, (hmem w).mpr (.inl hw), hpaid⟩

/-- The row of a paid withdrawal is pointed at the child of its hold. -/
theorem Attributed.confirm (h : Attributed s) {ledger : Ledger} (hlater : Later s.ledger ledger)
    {w : Withdrawal} (hw : w ∈ s.withdrawals) {held : Receipt}
    (htenant : held.tenantId = w.tenantId)
    (hpaid : ∀ r ∈ ledger.receipts, r.status = .heldWithdrawal → r = held ∨
      ∃ w' ∈ s.withdrawals, w'.id ≠ w.id ∧ w'.receiptId = r.id ∧ w'.tenantId = r.tenantId)
    {f : Withdrawal → Withdrawal} {hf : ∀ r, Keyed.key (f r) = Keyed.key r}
    (hrow : ∀ r, (f r).receiptId = held.id ∧ (f r).tenantId = r.tenantId ∧ (f r).status.Holds)
    {withdrawals : Table Withdrawal}
    (hupdate : updateRow s.withdrawals w.id f hf = .ok withdrawals) :
    Attributed { s with ledger, withdrawals } := by
  refine ⟨fun x hx hover => ?_, fun l hl => (h.loans l hl).later hlater,
    fun t ht => (h.trades t ht).later hlater, fun r hr hstatus => ?_⟩
  · rcases mem_updateRow hupdate hx with ⟨r, -, rfl⟩ | ⟨hold, -⟩
    · exact absurd (hrow r).2.2 hover
    · exact (h.withdrawals x hold hover).later hlater
  · obtain ⟨-, -, rfl⟩ := updateRow_ok.mp hupdate
    rcases hpaid r hr hstatus with rfl | ⟨w', hw', hne, hreceipt, hwtenant⟩
    · exact ⟨f w, Table.mem_modify_self f hf hw, (hrow w).1, (hrow w).2.1.trans htenant.symm⟩
    · exact ⟨w', Table.mem_modify_other f hf hw' hne, hreceipt, hwtenant⟩

theorem confirmPayment_attributes (hs : Custody s) (h : Attributed s) (uuids : Uuids)
    (tenantId withdrawalId actorUserId : Id) (actorRoles : List Role) : Attributes
      (confirmPayment num uuids tenantId withdrawalId actorUserId actorRoles) s := by
  refine ensures_find trivial (fun _ => h) fun w hfound => ?_
  obtain ⟨hfind, htenant⟩ := Option.filter_eq_some_iff.mp hfound
  obtain rfl : w.id = withdrawalId := Table.key_of_find hfind
  have hw : w ∈ s.withdrawals := Table.mem_of_find hfind
  refine ensures_requireParty trivial (fun _ => h) (ensures_throwIf (fun _ => h) fun _ => ?_)
  have hcalls : ∀ input : HoldInput, input.idempotencyKey = withdrawalKey w.id "hold" →
      input.heldStatus = .heldWithdrawal → input.txnType = .withdrawal → input.txnId = w.id →
      Calls (.confirmPayment w.id) (.hold input) := fun _ => .confirmPayment
  refine ensures_ledger rfl (fun _ => ⟨trivial, h⟩) fun result ledger houtcome => ⟨trivial, ?_⟩
  have hlater := (rightful_keeps hs ⟨hcalls _ rfl rfl rfl rfl, by rintro _ ⟨⟩, trivial⟩ houtcome).2
  refine ensures_orThrow (fun hnone => ?_) fun held hheld => ?_
  · -- only a hold that was placed before can return no child
    cases houtcome with
    | replayed e prior reconstructs same =>
        subst same
        exact h
    | committed free events change effect commits =>
        cases effect
        cases hnone
  obtain ⟨hheldTenant, hpaid⟩ := h.hold hs hw (hcalls _ rfl rfl rfl rfl)
    (of_decide_eq_true htenant).symm houtcome hheld
  apply ensures_write_last
  · intro e herror
    rw [updateRow_refused (map_error.mp herror)] at hfind
    cases hfind
  · intro a s' hok
    obtain ⟨withdrawals, hupdate, hresult⟩ := map_ok.mp hok
    cases hresult
    refine ⟨trivial, h.confirm hlater.ledger hw hheldTenant hpaid (fun _ => ?_) hupdate⟩
    exact ⟨rfl, rfl, show WithdrawalStatus.Holds .paidPendingApproval by decide⟩

theorem approveWithdrawal_attributes (hs : Custody s) (h : Attributed s) (uuids : Uuids)
    (tenantId withdrawalId : Id) (actorUserId : Option Id) :
    Attributes (approveWithdrawal num uuids tenantId withdrawalId actorUserId) s := by
  refine ensures_find trivial (fun _ => h) fun w hfound => ?_
  have hw := hs.withdrawals w (Table.mem_of_find (Option.filter_eq_some_iff.mp hfound).1)
  refine ensures_throwIf (fun _ => h) fun _ => ?_
  refine attributes_call h rfl ⟨.approveWithdrawal rfl, ?_, trivial⟩ nofun fun _ ledger _ h' => ?_
  · rintro _ ⟨⟩
    exact ⟨_, _, rfl, hw.1⟩
  · refine attributes_updateWithdrawal h' (fun _ => ⟨rfl, rfl⟩) fun _ _ hover => ?_
    exact absurd (show WithdrawalStatus.Holds .approved by decide) hover

/-- Once the rejection has released what the withdrawal held, its receipt is free. -/
theorem releaseLinked_attributes (hs : Custody s) (hl : TransactionLeaves s.ledger)
    (h : Attributed s) {w : Withdrawal} (hw : w ∈ s.withdrawals) (uuids : Uuids) (tenantId : Id)
    (actorUserId : Option Id) : Process.Ensures (fun _ => True)
      (fun result s' => Attributed s' ∧ ∀ a, result = .ok a →
        FreeAt s'.ledger w.receiptId ∧ s'.withdrawals = s.withdrawals)
      (releaseLinked num uuids tenantId w actorUserId) s := by
  have hheldFor := (hs.withdrawals w hw).1
  obtain ⟨r, hfind, -⟩ := id hheldFor
  refine ensures_read trivial ?_
  rw [hfind]
  dsimp only
  split
  · refine ensures_ledger rfl (fun _ => ⟨trivial, h, nofun⟩) fun _ ledger houtcome => ⟨trivial, ?_⟩
    refine ⟨h.call ⟨.rejectWithdrawal rfl, ?_, trivial⟩ nofun houtcome, fun _ _ => ?_⟩
    · rintro _ ⟨⟩
      exact ⟨_, _, rfl, hheldFor⟩
    · exact ⟨free_of_end hl (by decide) hheldFor (.inl rfl)
        (by simp [endKeys, LedgerOp.idempotencyKey]) houtcome, rfl⟩
  · rename_i hfree
    exact ⟨h, fun _ _ => ⟨⟨r, hfind, hfree⟩, rfl⟩⟩

theorem rejectWithdrawal_attributes (hs : Custody s) (hl : TransactionLeaves s.ledger)
    (h : Attributed s) (uuids : Uuids) (tenantId withdrawalId : Id) (actorUserId : Option Id)
    (reason : Option String) :
    Attributes (rejectWithdrawal num uuids tenantId withdrawalId actorUserId reason) s := by
  refine ensures_find trivial (fun _ => h) fun w hfound => ?_
  have hfind := (Option.filter_eq_some_iff.mp hfound).1
  refine ensures_throwIf (fun _ => h) fun _ => ensures_bind ?_
  apply (releaseLinked_attributes hs hl h (Table.mem_of_find hfind) uuids tenantId
    actorUserId).weaken
  rintro (e | a) s' ⟨h', hreleased⟩
  · exact h'
  · obtain ⟨hfree, hsame⟩ := hreleased a rfl
    rw [continues_ok]
    split
    · exact h'
    · refine attributes_updateWithdrawal h' (fun _ => ⟨rfl, rfl⟩) fun r hr _ => ?_
      rw [hsame, hfind] at hr
      cases hr
      exact hfree

theorem completeWithdrawal_attributes (hs : Custody s) (hl : TransactionLeaves s.ledger)
    (h : Attributed s) (uuids : Uuids) (storageFee : Except ApiError ℚ)
    (tenantId withdrawalId : Id) (actorUserId : Option Id) : Attributes
      (completeWithdrawal num uuids storageFee tenantId withdrawalId actorUserId) s := by
  refine ensures_find trivial (fun _ => h) fun w hfound => ?_
  obtain ⟨hfind, -⟩ := Option.filter_eq_some_iff.mp hfound
  have hw := hs.withdrawals w (Table.mem_of_find hfind)
  obtain rfl : w.id = withdrawalId := Table.key_of_find hfind
  refine ensures_throwIf (fun _ => h) fun happroved => ?_
  refine attributes_call h rfl ⟨.completeWithdrawal rfl, ?_, hw.2 (not_not.mp happroved)⟩ nofun
    fun _ ledger houtcome h' => ?_
  · rintro _ ⟨⟩
    exact ⟨_, _, rfl, hw.1⟩
  have hfree : FreeAt ledger w.receiptId := free_of_end hl (by decide) hw.1 (.inr rfl)
    (by simp [endKeys, LedgerOp.idempotencyKey]) houtcome
  refine ensures_read trivial (ensures_orThrow (fun _ => h') fun _ _ => ?_)
  refine ensures_ofExcept (fun _ _ => h') fun finalStorageFee _ => ?_
  refine attributes_updateWithdrawal h' (fun _ => ⟨rfl, rfl⟩) fun r hr _ => ?_
  obtain rfl := Option.some_inj.mp (hfind.symm.trans hr)
  exact hfree

theorem editWithdrawal_attributes (h : Attributed s) (dto : EditWithdrawal) :
    Attributes (editWithdrawal dto) s := by
  refine ensures_find trivial (fun _ => h) fun w _ => ensures_throwIf (fun _ => h) fun _ => ?_
  refine ensures_requireParty trivial (fun _ => h) (ensures_throwIf (fun _ => h) fun _ => ?_)
  dsimp only
  split
  · exact h
  · exact attributes_updateWithdrawal h (fun _ => ⟨rfl, rfl⟩) fun r hr =>
      h.withdrawals r (Table.mem_of_find hr)

theorem expirePendingPayment_attributes (h : Attributed s) (now : Timestamp) :
    Attributes (expirePendingPayment now) s := by
  refine ensures_read trivial ?_
  split
  · exact h
  · apply ensures_write_last (fun _ hfails => by cases hfails)
    intro a s' hok
    cases hok
    refine ⟨trivial, { h with withdrawals := fun w hw hover => ?_, paid := fun r hr hstatus => ?_ }⟩
    · obtain ⟨x, hx, rfl⟩ := List.mem_map.mp hw
      split at hover
      · rename_i hexpired
        rw [if_pos hexpired]
        -- a withdrawal that was not paid holds nothing
        refine h.withdrawals x hx ?_
        rw [hexpired.2]
        decide
      · rename_i hexpired
        rw [if_neg hexpired]
        exact h.withdrawals x hx hover
    · obtain ⟨w, hw, hreceipt, htenant⟩ := h.paid r hr hstatus
      refine ⟨_, List.mem_map.mpr ⟨w, hw, rfl⟩, ?_⟩
      split
      · exact ⟨hreceipt, htenant⟩
      · exact ⟨hreceipt, htenant⟩

end Withdrawals

section Loans

variable {num : Numeric} {s : Db}

theorem createLoan_attributes (hs : Custody s) (h : Attributed s) (dto : CreateLoan) :
    Attributes (createLoan num dto) s := by
  refine ensures_ofExcept (fun _ _ => h) fun _ _ => ensures_read trivial ?_
  refine ensures_orThrow (fun _ => h) fun receipt _ => ensures_read trivial ?_
  refine ensures_orThrow (fun _ => h) fun financier _ => ensures_throwIf (fun _ => h) fun _ => ?_
  have hcalls : ∀ input : HoldInput, input.idempotencyKey = loanKey dto.loanId "hold" →
      input.heldStatus = .heldLoan → input.txnType = .loan → input.txnId = dto.loanId →
      Calls (.createLoan dto.loanId) (.hold input) := fun _ => .createLoan
  refine attributes_call h rfl ⟨hcalls _ rfl rfl rfl rfl, by rintro _ ⟨⟩, trivial⟩ nofun
    fun result ledger houtcome h' => ensures_orThrow (fun _ => h') fun held hheld => ?_
  obtain ⟨hself, -, hminted⟩ := minted_of_hold hs (hcalls _ rfl rfl rfl rfl) houtcome hheld
  apply ensures_write_last (fun _ _ => ⟨trivial, h'⟩)
  intro a s' hok
  split at hok
  · cases hok
    exact ⟨trivial, h'⟩
  · obtain ⟨loans, hcreate, hresult⟩ := map_ok.mp hok
    cases hresult
    refine ⟨trivial, { h' with loans := fun l hl => ?_ }⟩
    rcases (Table.mem_insert (createRow_ok.mp hcreate).2).mp hl with hold | rfl
    · exact h'.loans l hold
    · refine ⟨⟨held, hself, hminted⟩, fun hover => ?_⟩
      exact absurd (show LoanStatus.Holds .pending by decide) hover

theorem approveLoan_attributes (hs : Custody s) (h : Attributed s) (uuids : Uuids)
    (tenantId loanId : Id) (actorUserId : Option Id) :
    Attributes (approveLoan num uuids tenantId loanId actorUserId) s := by
  refine ensures_find trivial (fun _ => h) fun l hfound => ?_
  have hl := hs.loans l (Table.mem_of_find (Option.filter_eq_some_iff.mp hfound).1)
  refine ensures_throwIf (fun _ => h) fun _ => ?_
  refine attributes_call h rfl ⟨.approveLoan rfl, ?_, trivial⟩ nofun fun _ ledger _ h' => ?_
  · rintro _ ⟨⟩
    exact ⟨_, _, rfl, hl⟩
  · refine attributes_updateLoan h' (fun _ => rfl) fun _ _ hover => ?_
    exact absurd (show LoanStatus.Holds .active by decide) hover

theorem rejectLoan_attributes (hs : Custody s) (hl : TransactionLeaves s.ledger)
    (h : Attributed s) (uuids : Uuids) (tenantId loanId : Id) (actorUserId : Option Id) :
    Attributes (rejectLoan num uuids tenantId loanId actorUserId) s := by
  refine ensures_find trivial (fun _ => h) fun l hfound => ?_
  obtain ⟨hfind, -⟩ := Option.filter_eq_some_iff.mp hfound
  have hheldFor := hs.loans l (Table.mem_of_find hfind)
  refine ensures_throwIf (fun _ => h) fun _ => ?_
  refine attributes_call h rfl ⟨.rejectLoan rfl, ?_, trivial⟩ nofun fun _ ledger houtcome h' => ?_
  · rintro _ ⟨⟩
    exact ⟨_, _, rfl, hheldFor⟩
  · refine attributes_updateLoan h' (fun _ => rfl) fun r hr _ => ?_
    obtain rfl := Option.some_inj.mp (hfind.symm.trans hr)
    exact free_of_end hl (by decide) hheldFor (.inl rfl)
      (by simp [endKeys, LedgerOp.idempotencyKey]) houtcome

theorem repayLoan_attributes (hs : Custody s) (hl : TransactionLeaves s.ledger)
    (h : Attributed s) (uuids : Uuids) (tenantId loanId : Id) (actorUserId : Option Id) :
    Attributes (repayLoan num uuids tenantId loanId actorUserId) s := by
  refine ensures_find trivial (fun _ => h) fun l hfound => ?_
  obtain ⟨hfind, -⟩ := Option.filter_eq_some_iff.mp hfound
  have hheldFor := hs.loans l (Table.mem_of_find hfind)
  refine ensures_throwIf (fun _ => h) fun _ => ?_
  refine attributes_call h rfl ⟨.repayLoan rfl, ?_, trivial⟩ nofun fun _ ledger houtcome h' => ?_
  · rintro _ ⟨⟩
    exact ⟨_, _, rfl, hheldFor⟩
  · refine attributes_updateLoan h' (fun _ => rfl) fun r hr _ => ?_
    obtain rfl := Option.some_inj.mp (hfind.symm.trans hr)
    exact free_of_end hl (by decide) hheldFor (.inl rfl)
      (by simp [endKeys, LedgerOp.idempotencyKey]) houtcome

theorem editLoan_attributes (h : Attributed s) (dto : EditLoan) :
    Attributes (editLoan dto) s := by
  refine ensures_find trivial (fun _ => h) fun l _ => ensures_throwIf (fun _ => h) fun _ => ?_
  refine ensures_requireParty trivial (fun _ => h) (ensures_throwIf (fun _ => h) fun _ => ?_)
  refine ensures_throwIf (fun _ => h) fun _ => ensures_bind ?_
  have hrest : Attributes (if edited dto.financierId l.financierId = none ∧
      edited dto.amount l.amount = none ∧ edited (dto.notes.map some) l.notes = none then
        (pure () : Api Unit)
      else updateLoan (.editLoan l.id) l.id fun r =>
        { r with
          financierId := (edited dto.financierId l.financierId).getD r.financierId
          amount := (edited dto.amount l.amount).getD r.amount
          notes := (edited (dto.notes.map some) l.notes).getD r.notes }) s := by
    split
    · exact h
    · exact attributes_updateLoan h (fun _ => rfl) fun r hr =>
        (h.loans r (Table.mem_of_find hr)).free
  unfold checkFinancier
  split
  · exact hrest
  · exact ensures_read trivial (ensures_orThrow (fun _ => h) fun _ _ => hrest)

end Loans

section Trades

variable {num : Numeric} {s : Db}

theorem createTrade_attributes (hs : Custody s) (h : Attributed s) (dto : CreateTrade) :
    Attributes (createTrade num dto) s := by
  refine ensures_ofExcept (fun _ _ => h) fun _ _ => ensures_read trivial ?_
  refine ensures_orThrow (fun _ => h) fun receipt _ => ?_
  have hcalls : ∀ input : HoldInput, input.idempotencyKey = tradeKey dto.tradeId "hold" →
      input.heldStatus = .heldTrade → input.txnType = .trade → input.txnId = dto.tradeId →
      Calls (.createTrade dto.tradeId) (.hold input) := fun _ => .createTrade
  refine attributes_call h rfl ⟨hcalls _ rfl rfl rfl rfl, by rintro _ ⟨⟩, trivial⟩ nofun
    fun result ledger houtcome h' => ensures_orThrow (fun _ => h') fun held hheld => ?_
  obtain ⟨hself, -, hminted⟩ := minted_of_hold hs (hcalls _ rfl rfl rfl rfl) houtcome hheld
  apply ensures_write_last (fun _ _ => ⟨trivial, h'⟩)
  intro a s' hok
  split at hok
  · cases hok
    exact ⟨trivial, h'⟩
  · obtain ⟨trades, hcreate, hresult⟩ := map_ok.mp hok
    cases hresult
    refine ⟨trivial, { h' with trades := fun t ht => ?_ }⟩
    rcases (Table.mem_insert (createRow_ok.mp hcreate).2).mp ht with hold | rfl
    · exact h'.trades t hold
    · refine ⟨⟨held, hself, hminted⟩, fun hover => ?_⟩
      exact absurd (show TradeStatus.Holds .listed by decide) hover

theorem cancelTrade_attributes (hs : Custody s) (hl : TransactionLeaves s.ledger)
    (h : Attributed s) (uuids : Uuids) (tenantId tradeId : Id) :
    Attributes (cancelTrade num uuids tenantId tradeId) s := by
  refine ensures_find trivial (fun _ => h) fun t hfound => ?_
  obtain ⟨hfind, -⟩ := Option.filter_eq_some_iff.mp hfound
  have hheldFor := hs.trades t (Table.mem_of_find hfind)
  refine ensures_throwIf (fun _ => h) fun _ => ?_
  have hupdated : ∀ r ledger,
      Outcome num uuids (.release ⟨tenantId, none, tradeKey t.id "cancel-release"⟩ t.receiptId)
        s.ledger (.node r) ledger →
      Attributes (updateTrade (.cancelTrade t.id) tradeId fun r => { r with status := .cancelled })
        { s with ledger } := by
    intro r ledger houtcome
    have hright : Rightful s (.cancelTrade t.id)
        (.release ⟨tenantId, none, tradeKey t.id "cancel-release"⟩ t.receiptId) :=
      ⟨.cancelTrade rfl, by rintro _ ⟨⟩; exact ⟨_, _, rfl, hheldFor⟩, trivial⟩
    refine attributes_updateTrade (h.call hright nofun houtcome) (fun _ => rfl) fun x hx _ => ?_
    obtain rfl := Option.some_inj.mp (hfind.symm.trans hx)
    exact free_of_end hl (by decide) hheldFor (.inl rfl)
      (by simp [endKeys, LedgerOp.idempotencyKey]) houtcome
  apply ensures_bind
  apply ensures_runIdempotent trivial (fun _ => h)
  · intro e r hprior haffected
    exact hupdated r s.ledger (.replayed e hprior ⟨r, haffected, rfl⟩ rfl)
  · intro r s' hwork
    obtain ⟨ledger, hrelease, rfl⟩ := Api.within_ok hwork
    exact ⟨trivial, hupdated r ledger (outcome_of_releaseWork hrelease)⟩

/-- A settlement that commits frees the trade's leaf. -/
theorem transfer_frees {uuids : Uuids} {ctx : ActorCtx} {receiptId buyerId txnId : Id}
    {txnType : TxnType} {withinTx : Receipt → Except ApiError Unit}
    {events : List InventoryEvent} {change : Change} {result : LedgerResult} {ledger : Ledger}
    (heffect : Effect num uuids s.ledger
      (.transferAndRelease ctx receiptId buyerId txnType txnId withinTx) events change result)
    (hcommits : Commits s.ledger events change ledger) : FreeAt ledger receiptId := by
  cases heffect with
  | transferAndRelease ctx newOwnerId txnType txnId withinTx r loaded held =>
      have hfind := hcommits.find_receipt loaded.1
      rw [Change.apply_amend_self] at hfind
      exact ⟨_, hfind, by simp [ReceiptStatus.Held, heldStatuses]⟩

/-- A settlement rewrites no row but that of its trade. -/
theorem markSettled_rows {trades trades' : Table Trade} {tradeId buyerId : Id}
    (h : markSettled trades tradeId buyerId = .ok trades') :
    ∀ t' ∈ trades', t' ∈ trades ∨
      ∃ t ∈ trades, t.id = tradeId ∧ t'.id = t.id ∧ t'.receiptId = t.receiptId := by
  unfold markSettled at h
  split at h
  · cases h
    intro t' ht'
    obtain ⟨t, ht, rfl⟩ := List.mem_map.mp ht'
    split
    · rename_i hlisted
      exact .inr ⟨t, ht, hlisted.1, rfl, rfl⟩
    · exact .inl ht
  · cases h

theorem settleTrade_attributes (hs : Custody s) (h : Attributed s) (uuids : Uuids)
    (tenantId tradeId buyerId : Id) :
    Attributes (settleTrade num uuids tenantId tradeId buyerId) s := by
  refine ensures_find trivial (fun _ => h) fun t hfound => ?_
  obtain ⟨hfind, -⟩ := Option.filter_eq_some_iff.mp hfound
  obtain rfl : t.id = tradeId := Table.key_of_find hfind
  refine ensures_throwIf (fun _ => h) fun _ => ?_
  split
  · exact ensures_read trivial h
  refine ensures_throwIf (fun _ => h) fun _ => ensures_read trivial ?_
  refine ensures_orThrow (fun _ => h) fun _ _ => ?_
  apply ensures_bind
  apply ensures_runIdempotent trivial (fun _ => h) (fun _ _ _ _ => h)
  intro r s' hwork
  have hstep := transferTx_step rfl (hs.trades t (Table.mem_of_find hfind)) hwork
  obtain ⟨trades, ledger, hmark, -, ⟨events, change, result, heffect, hcommits⟩, rfl⟩ :=
    transferTx_ok hwork
  refine ⟨trivial, h.ledgerStep hstep ?_ fun t' ht' => ?_⟩
  · rintro _ ⟨⟩
  · rcases markSettled_rows hmark t' ht' with hold | ⟨x, hx, hid, hid', hreceipt⟩
    · exact (h.trades t' hold).later hstep.later.ledger
    · obtain rfl := Table.eq_of_key_eq hx (Table.mem_of_find hfind) hid
      rw [hid', hreceipt]
      exact ⟨(h.trades x hx).minted.later hstep.later.ledger, fun _ =>
        transfer_frees heffect hcommits⟩

end Trades

section Deposits

variable {num : Numeric} {s : Db}

theorem createDeposit_attributes (h : Attributed s) (dto : CreateDeposit) :
    Attributes (createDeposit num dto) s := by
  refine ensures_ofExcept (fun _ _ => h) fun _ _ => ?_
  exact attributes_call h rfl ⟨.createDeposit dto.keyUuid rfl, by rintro _ ⟨⟩, trivial⟩ nofun
    fun _ _ _ h' => h'

theorem approveReceipt_attributes (h : Attributed s) (uuids : Uuids)
    (tenantId receiptId adminId : Id) :
    Attributes (approveReceipt num uuids tenantId receiptId adminId) s :=
  attributes_call h rfl ⟨.approveReceipt rfl, by rintro _ ⟨⟩, trivial⟩ nofun fun _ _ _ h' => h'

theorem rejectReceipt_attributes (h : Attributed s) (uuids : Uuids)
    (tenantId receiptId adminId : Id) (rejectionReason : String) :
    Attributes (rejectReceipt num uuids tenantId receiptId adminId rejectionReason) s :=
  ensures_throwIf (fun _ => h) fun _ =>
    attributes_call h rfl ⟨.rejectReceipt rfl, by rintro _ ⟨⟩, trivial⟩ nofun fun _ _ _ h' => h'

end Deposits

section Runs

variable {num : Numeric} {s s' : Db}

theorem Attributed.of_same (h : Attributed s) (hledger : s'.ledger = s.ledger)
    (hsame : SameTransactions s s') : Attributed s' := by
  constructor
  · rw [hledger, hsame.withdrawals]
    exact h.withdrawals
  · rw [hledger, hsame.loans]
    exact h.loans
  · rw [hledger, hsame.trades]
    exact h.trades
  · rw [hledger, hsame.withdrawals]
    exact h.paid

/-- A step about pledges and liens leaves the rows of transactions alone, and creates no
receipt that is held for a withdrawal. -/
theorem Attributed.collateral (h : Attributed s) {label : Label}
    (htakes : Takes num (fun _ => True) label s s')
    (hrows : RowTakes Issuer.Collateral label s s') :
    Attributed s' := by
  cases label with
  | read =>
      rw [show s' = s from htakes]
      exact h
  | ledger by_ op =>
      rcases htakes with rfl | ⟨-, hstep⟩
      · exact h
      rcases hrows with rfl | ⟨hby, hrow⟩
      · exact h
      have hsame := hrow.transactions hby
      refine h.ledgerStep hstep (by rintro id rfl; exact hby) ?_
      rw [hsame.trades]
      exact fun t ht => (h.trades t ht).later hstep.later.ledger
  | write by_ =>
      rcases htakes with rfl | ⟨-, hstep⟩
      · exact h
      rcases hrows with rfl | ⟨hby, hrow⟩
      · exact h
      exact h.of_same hstep.ledger (hrow.transactions hby)

/-- Every request keeps the rows attributed, if nothing comes in between. -/
theorem Request.attributes (request : Request) (hs : Custody s) (hl : TransactionLeaves s.ledger)
    (h : Attributed s) : Attributed ((request.run num).exec s).2 := by
  by_cases hcollateral : request.Collateral
  · have hrows : (rowContract (fun _ => True) Issuer.Collateral).Safe (request.run num) s := by
      refine request.rows (fun _ _ => trivial) hcollateral (fun _ hby _ => hby) ?_
        (fun _ _ => fun _ _ _ => trivial) fun _ _ => trivial
      intro _ p by_ _ _ _ hdecides
      cases by_ <;> trivial
    have hsafe : (custody num fun _ => True).Safe (request.run num) s :=
      request.safe (fun _ => trivial) s
    have halso : ((custody num fun _ => True).also Attributed).Safe (request.run num) s :=
      hsafe.also hrows (fun _ _ _ => trivial) fun _ h htakes hrow => h.collateral htakes hrow
    exact (halso.exec ⟨hs, h⟩ fun _ _ => trivial).1.2
  · suffices hends : Attributes (request.run num) s from hends.exec
    cases request with
    | createDeposit dto => exact createDeposit_attributes h dto
    | approveReceipt uuids tenantId receiptId adminId =>
        exact approveReceipt_attributes h uuids tenantId receiptId adminId
    | rejectReceipt uuids tenantId receiptId adminId rejectionReason =>
        exact rejectReceipt_attributes h uuids tenantId receiptId adminId rejectionReason
    | createWithdrawalRequest dto => exact createWithdrawalRequest_attributes dto h
    | confirmPayment uuids tenantId withdrawalId actorUserId actorRoles =>
        exact confirmPayment_attributes hs h uuids tenantId withdrawalId actorUserId actorRoles
    | approveWithdrawal uuids tenantId withdrawalId actorUserId =>
        exact approveWithdrawal_attributes hs h uuids tenantId withdrawalId actorUserId
    | rejectWithdrawal uuids tenantId withdrawalId actorUserId reason =>
        exact rejectWithdrawal_attributes hs hl h uuids tenantId withdrawalId actorUserId reason
    | completeWithdrawal uuids storageFee tenantId withdrawalId actorUserId =>
        exact completeWithdrawal_attributes hs hl h uuids storageFee tenantId withdrawalId
          actorUserId
    | editWithdrawal dto => exact editWithdrawal_attributes h dto
    | expirePendingPayment now => exact expirePendingPayment_attributes h now
    | createLoan dto => exact createLoan_attributes hs h dto
    | approveLoan uuids tenantId loanId actorUserId =>
        exact approveLoan_attributes hs h uuids tenantId loanId actorUserId
    | rejectLoan uuids tenantId loanId actorUserId =>
        exact rejectLoan_attributes hs hl h uuids tenantId loanId actorUserId
    | repayLoan uuids tenantId loanId actorUserId =>
        exact repayLoan_attributes hs hl h uuids tenantId loanId actorUserId
    | editLoan dto => exact editLoan_attributes h dto
    | createTrade dto => exact createTrade_attributes hs h dto
    | settleTrade uuids tenantId tradeId buyerId =>
        exact settleTrade_attributes hs h uuids tenantId tradeId buyerId
    | cancelTrade uuids tenantId tradeId =>
        exact cancelTrade_attributes hs hl h uuids tenantId tradeId
    | _ => exact absurd trivial hcollateral

/-- What requests keep that are run one at a time. -/
structure Accounted (s : Db) : Prop where
  custody : Custody s
  leaves : TransactionLeaves s.ledger
  rows : Attributed s

theorem accounted_initial (directory : Directory) : Accounted (Db.initial directory) :=
  ⟨custody_initial directory, transactionLeaves_empty, attributed_initial directory⟩

/-- Requests that are run one at a time keep the rows attributed. -/
theorem runRequests_accounted (requests : List Request) (h : Accounted s) :
    Accounted (runRequests num requests s) := by
  induction requests generalizing s with
  | nil => exact h
  | cons request rest ih =>
      obtain ⟨hcustody, hleaves⟩ := runRequests_keeps
        (fun hs hl htakes => htakes.transactionLeaves hs hl) [request] h.custody h.leaves
      exact ih ⟨hcustody, hleaves, request.attributes h.custody h.leaves h.rows⟩

end Runs

end SecureStore.Services
