/-
# Every request keeps custody

Each request is followed step by step. Between two of its steps the others may
have moved anything; what it read stays true in the only way that matters here:
the receipt a row pointed at is still held for that row, if it is held.
-/

import SecureStore.Custody.Contract

namespace SecureStore.Services

open SecureStore.Foundation SecureStore.Inventory

section Rows

variable {num : Numeric} {mine : Issuer → Prop} {s : Db} {by_ : Issuer}

theorem WriteStep.of_same {s' : Db} (hledger : s'.ledger = s.ledger) (h : SameCollateral s s') :
    WriteStep by_ s s' := by
  refine ⟨hledger, h.directory, ?_, ?_, fun _ => h⟩
  · rw [h.releaseRequestLines]
    exact fun _ hx => hx
  · rw [h.liens]
    exact fun l hl => ⟨l, hl, rfl, rfl⟩

/-- An update of withdrawals whose new row is in custody. -/
theorem Custody.updateWithdrawals (hs : Custody s) {id : Id} {f : Withdrawal → Withdrawal}
    {hf : ∀ r, Keyed.key (f r) = Keyed.key r} {t : Table Withdrawal}
    (hupdate : updateRow s.withdrawals id f hf = .ok t)
    (hrow : ∀ r, s.withdrawals.find id = some r → (f r).InCustody s.ledger) :
    Custody { s with withdrawals := t } := by
  obtain ⟨-, -, rfl⟩ := updateRow_ok.mp hupdate
  refine { hs with withdrawals := fun w (hw : w ∈ s.withdrawals.modify id f hf) => ?_ }
  rcases Table.mem_modify.mp hw with ⟨r, hfind, rfl⟩ | ⟨hw, -⟩
  · exact hrow r hfind
  · exact hs.withdrawals w hw

theorem safe_updateWithdrawal {id : Id} {f : Withdrawal → Withdrawal}
    {hf : ∀ r, Keyed.key (f r) = Keyed.key r} (hmine : mine by_)
    (hrow : ∀ s', s.Later s' → Custody s' → ∀ r, s'.withdrawals.find id = some r →
      (f r).InCustody s'.ledger) :
    (custody num mine).Safe (updateWithdrawal by_ id f hf) s := by
  refine safe_rows_last hmine fun s' a s'' hlater hs hok => ?_
  obtain ⟨t, hupdate, hresult⟩ := map_ok.mp hok
  cases hresult
  exact ⟨hs.updateWithdrawals hupdate (hrow s' hlater hs),
    .of_same rfl ⟨rfl, rfl, rfl, rfl, rfl, rfl⟩⟩

/-- The cron's rewrite of withdrawals. -/
theorem Custody.rewriteWithdrawals (hs : Custody s) {p : Withdrawal → Prop} [DecidablePred p]
    {f : Withdrawal → Withdrawal} (hf : ∀ r, Keyed.key (f r) = Keyed.key r)
    (hreceipt : ∀ r, (f r).receiptId = r.receiptId) (hstatus : ∀ r, (f r).status ≠ .approved) :
    Custody { s with withdrawals := s.withdrawals.modifyWhere p f hf } := by
  refine { hs with withdrawals := fun w hw => ?_ }
  obtain ⟨r, hr, rfl⟩ := List.mem_map.mp hw
  split
  · refine ⟨?_, fun happroved => absurd happroved (hstatus r)⟩
    rw [hreceipt, show (f r).id = r.id from hf r]
    exact (hs.withdrawals r hr).1
  · exact hs.withdrawals r hr

theorem safe_updateLoan {id : Id} {f : Loan → Loan} {hf : ∀ r, Keyed.key (f r) = Keyed.key r}
    (hmine : mine by_) (hreceipt : ∀ r, (f r).receiptId = r.receiptId) :
    (custody num mine).Safe (updateLoan by_ id f hf) s := by
  refine safe_rows_last hmine fun s' a s'' hlater hs hok => ?_
  obtain ⟨t, hupdate, hresult⟩ := map_ok.mp hok
  cases hresult
  obtain ⟨r, hfind, rfl⟩ := updateRow_ok.mp hupdate
  refine ⟨{ hs with loans := fun l (hl : l ∈ s'.loans.modify id f hf) => ?_ },
    .of_same rfl ⟨rfl, rfl, rfl, rfl, rfl, rfl⟩⟩
  rcases Table.mem_modify.mp hl with ⟨r', hfind', rfl⟩ | ⟨hl, -⟩
  · rw [hreceipt, show (f r').id = r'.id from hf r']
    exact hs.loans r' (Table.mem_of_find hfind')
  · exact hs.loans l hl

theorem safe_updateTrade {id : Id} {f : Trade → Trade} {hf : ∀ r, Keyed.key (f r) = Keyed.key r}
    (hmine : mine by_) (hreceipt : ∀ r, (f r).receiptId = r.receiptId) :
    (custody num mine).Safe (updateTrade by_ id f hf) s := by
  refine safe_rows_last hmine fun s' a s'' hlater hs hok => ?_
  obtain ⟨t, hupdate, hresult⟩ := map_ok.mp hok
  cases hresult
  obtain ⟨r, hfind, rfl⟩ := updateRow_ok.mp hupdate
  refine ⟨{ hs with trades := fun l (hl : l ∈ s'.trades.modify id f hf) => ?_ },
    .of_same rfl ⟨rfl, rfl, rfl, rfl, rfl, rfl⟩⟩
  rcases Table.mem_modify.mp hl with ⟨r', hfind', rfl⟩ | ⟨hl, -⟩
  · rw [hreceipt, show (f r').id = r'.id from hf r']
    exact hs.trades r' (Table.mem_of_find hfind')
  · exact hs.trades l hl

/-- An update of pledges that leaves their held receipts alone. -/
theorem Custody.updatePledges {s' : Db} (hs : Custody s') {id : Id} {f : Pledge → Pledge}
    {hf : ∀ r, Keyed.key (f r) = Keyed.key r} {t : Table Pledge}
    (hupdate : updateRow s'.pledges id f hf = .ok t)
    (hheld : ∀ r, (f r).heldReceiptId = r.heldReceiptId) :
    ∀ p ∈ t, ∀ heldReceiptId, p.heldReceiptId = some heldReceiptId →
      HeldFor s'.ledger heldReceiptId .pledge p.id := by
  obtain ⟨-, -, rfl⟩ := updateRow_ok.mp hupdate
  intro p hp heldReceiptId hsome
  rcases Table.mem_modify.mp hp with ⟨r, hfind, rfl⟩ | ⟨hp, -⟩
  · rw [show (f r).id = r.id from hf r]
    exact hs.pledges r (Table.mem_of_find hfind) heldReceiptId (hheld r ▸ hsome)
  · exact hs.pledges p hp heldReceiptId hsome

theorem safe_updatePledge {id : Id} {f : Pledge → Pledge} {hf : ∀ r, Keyed.key (f r) = Keyed.key r}
    (hmine : mine by_) (hheld : ∀ r, (f r).heldReceiptId = r.heldReceiptId) (hby : by_.Collateral) :
    (custody num mine).Safe (updatePledge by_ id f hf) s := by
  refine safe_rows_last hmine fun s' a s'' hlater hs hok => ?_
  obtain ⟨t, hupdate, hresult⟩ := map_ok.mp hok
  cases hresult
  exact ⟨{ hs with pledges := hs.updatePledges hupdate hheld },
    rfl, rfl, fun _ hx => hx, fun l hl => ⟨l, hl, rfl, rfl⟩, fun h => absurd hby h⟩

theorem safe_updateReleaseRequest {id : Id} {f : ReleaseRequest → ReleaseRequest}
    {hf : ∀ r, Keyed.key (f r) = Keyed.key r} (hmine : mine by_) (hby : by_.Collateral) :
    (custody num mine).Safe (updateReleaseRequest by_ id f hf) s := by
  refine safe_rows_last hmine fun s' a s'' hlater hs hok => ?_
  obtain ⟨t, hupdate, hresult⟩ := map_ok.mp hok
  cases hresult
  exact ⟨{ hs with }, rfl, rfl, fun _ hx => hx, fun l hl => ⟨l, hl, rfl, rfl⟩,
    fun h => absurd hby h⟩

/-- Partial releases keep what they refer to while lines and liens are kept. -/
theorem Custody.partials_kept {s' : Db} (hs : Custody s') {lines : Table ReleaseRequestLine}
    {liens : Table Lien} (hlines : ∀ x ∈ s'.releaseRequestLines, x ∈ lines)
    (hliens : ∀ l ∈ s'.liens, ∃ l' ∈ liens, l'.id = l.id ∧ l'.pledgeId = l.pledgeId) :
    ∀ e ∈ s'.ledger.events, ∀ requestId lineId, e.idempotencyKey = partialKey requestId lineId →
      ∃ x ∈ lines, x.id = lineId ∧ ∃ l ∈ liens, l.id = x.lienId ∧
        ∀ k ∈ s'.ledger.receipts, k.sourceEventId = some e.id → k.status.Held →
          MintedFor k .pledge l.pledgeId := by
  intro e he requestId lineId hkey
  obtain ⟨x, hx, hid, l, hl, hlien, hkids⟩ := hs.partials e he requestId lineId hkey
  obtain ⟨l', hl', hid', hpledge'⟩ := hliens l hl
  exact ⟨x, hlines x hx, hid, l', hl', hid'.trans hlien, by rw [hpledge']; exact hkids⟩

/-- An update of one lien that keeps its pledge. -/
theorem Custody.updateLiens {s' : Db} (hs : Custody s') (id : Id) (f : Lien → Lien)
    (hf : ∀ r, Keyed.key (f r) = Keyed.key r) (hpledge : ∀ r, (f r).pledgeId = r.pledgeId)
    (hrow : ∀ r, s'.liens.find id = some r → HeldFor s'.ledger (f r).receiptId .pledge r.pledgeId) :
    Custody { s' with liens := s'.liens.modify id f hf } ∧
      ∀ l ∈ s'.liens, ∃ l' ∈ s'.liens.modify id f hf, l'.id = l.id ∧ l'.pledgeId = l.pledgeId := by
  have hkept : ∀ l ∈ s'.liens, ∃ l' ∈ s'.liens.modify id f hf,
      l'.id = l.id ∧ l'.pledgeId = l.pledgeId := by
    intro l hl
    by_cases hid : l.id = id
    · refine ⟨f l, Table.mem_modify.mpr (.inl ⟨l, hid ▸ Table.find_of_mem hl, rfl⟩), hf l, ?_⟩
      exact hpledge l
    · exact ⟨l, Table.mem_modify.mpr (.inr ⟨hl, hid⟩), rfl, rfl⟩
  have hliens : ∀ l ∈ s'.liens.modify id f hf,
      HeldFor s'.ledger l.receiptId .pledge l.pledgeId := by
    intro l hl
    rcases Table.mem_modify.mp hl with ⟨r, hfind, rfl⟩ | ⟨hl, -⟩
    · rw [hpledge]
      exact hrow r hfind
    · exact hs.liens l hl
  exact ⟨{ hs with partials := hs.partials_kept (fun _ hx => hx) hkept, liens := hliens }, hkept⟩

theorem safe_updateLien {id : Id} {f : Lien → Lien} {hf : ∀ r, Keyed.key (f r) = Keyed.key r}
    (hmine : mine by_) (hby : by_.Collateral) (hpledge : ∀ r, (f r).pledgeId = r.pledgeId)
    (hrow : ∀ s', s.Later s' → Custody s' → ∀ r, s'.liens.find id = some r →
      HeldFor s'.ledger (f r).receiptId .pledge r.pledgeId) :
    (custody num mine).Safe (updateLien by_ id f hf) s := by
  refine safe_rows_last hmine fun s' a s'' hlater hs hok => ?_
  obtain ⟨t, hupdate, hresult⟩ := map_ok.mp hok
  cases hresult
  obtain ⟨r, hfind, rfl⟩ := updateRow_ok.mp hupdate
  obtain ⟨hs', hkept⟩ := hs.updateLiens id f hf hpledge (hrow s' hlater hs)
  exact ⟨hs', rfl, rfl, fun _ hx => hx, hkept, fun h => absurd hby h⟩

theorem safe_requireParty {c : Contract Label Db} {tenantId actorUserId clientId receiptId : Id}
    {roles : List Role} {e : ApiError} :
    c.Safe (requireParty tenantId actorUserId roles clientId receiptId e) s := by
  unfold requireParty
  split
  · trivial
  · split
    · refine Contract.safe_read fun s₁ _ _ => Contract.safe_orThrow fun r _ => ?_
      refine Contract.safe_read fun s₂ _ _ => ?_
      unfold Api.throwIf Attempt.throwIf
      split <;> trivial
    · trivial

theorem safe_requireFinancierOrg {c : Contract Label Db} {callerUserId : Id} :
    c.Safe (requireFinancierOrg callerUserId) s :=
  Contract.safe_read fun _ _ _ => Contract.safe_orThrow fun _ _ =>
    Contract.safe_throwIf fun _ => trivial

end Rows

/-- The child that a hold returns, from its work or from a replay, is held for the
hold's transaction. -/
theorem held_of_hold {num : Numeric} {uuids : Uuids} {s : Db} {ledger : Ledger} {by_ : Issuer}
    {input : HoldInput} {result : HoldResult} {held : Receipt}
    (hs : Custody s) (hcalls : Calls by_ (.hold input))
    (houtcome : Outcome num uuids (.hold input) s.ledger (.held result) ledger)
    (hheld : result.held = some held) :
    HeldFor ledger held.id input.txnType input.txnId := by
  cases houtcome with
  | replayed e prior reconstructs same =>
      obtain ⟨source, -, hresult⟩ := reconstructs
      cases hresult
      subst same
      obtain ⟨hmem, hsource⟩ := Ledger.mem_byEvent.mp (List.mem_of_find?_eq_some hheld)
      refine ⟨held, Table.find_of_mem hmem, fun hstatus => ?_⟩
      have hkey : holdKey input.txnType input.txnId = some e.idempotencyKey := by
        rw [hcalls.hold_key.1]
        exact congrArg some (Table.key_of_find prior).symm
      exact hs.holds e (Table.mem_of_find prior) _ _ hkey held hmem hsource hstatus
  | committed free events change effect commits =>
      cases effect with
      | hold input src number number' =>
          cases hheld
          exact ⟨_, commits.find_created List.mem_cons_self, fun _ => ⟨rfl, rfl⟩⟩

/-- What a partial release leaves under the lien is held for the lien's pledge. -/
theorem held_of_partial {num : Numeric} {uuids : Uuids} {s : Db} {ledger : Ledger}
    {input : ReleasePartialInput} {result : ReleasePartialResult} {held : Receipt}
    {requestId : Id} {x : ReleaseRequestLine} {l : Lien} (hs : Custody s)
    (hkey : input.idempotencyKey = partialKey requestId x.id)
    (hx : x ∈ s.releaseRequestLines) (hl : l ∈ s.liens) (hlien : l.id = x.lienId)
    (hsrc : HeldFor s.ledger input.heldReceiptId .pledge l.pledgeId)
    (houtcome : Outcome num uuids (.releasePartial input) s.ledger (.partlyReleased result) ledger)
    (hheld : result.remainingHeld = some held) : HeldFor ledger held.id .pledge l.pledgeId := by
  cases houtcome with
  | replayed e prior reconstructs same =>
      cases reconstructs
      subst same
      obtain ⟨hmem, hsource⟩ := Ledger.mem_byEvent.mp (List.mem_of_find?_eq_some hheld)
      refine ⟨held, Table.find_of_mem hmem, fun hstatus => ?_⟩
      obtain ⟨x', hx', hid, l', hl', hlien', hkids⟩ := hs.partials e (Table.mem_of_find prior)
        requestId x.id ((Table.key_of_find prior).trans hkey)
      obtain rfl : x' = x := Table.eq_of_key_eq hx' hx hid
      obtain rfl : l' = l := Table.eq_of_key_eq hl' hl (hlien'.trans hlien.symm)
      exact hkids held hmem hsource hstatus
  | committed free events change effect commits =>
      cases effect with
      | releasePartial input src number number' loaded lien =>
          cases hheld
          obtain ⟨r, hfind, hminted⟩ := hsrc
          rw [loaded.1] at hfind
          obtain rfl := Option.some_inj.mp hfind
          refine ⟨_, commits.find_created (List.mem_cons_of_mem _ List.mem_cons_self), fun _ => ?_⟩
          exact hminted (by rw [lien]; decide)

section Requests

variable {num : Numeric} {mine : Issuer → Prop} {s : Db}

/-- The issuers outside of pledges and liens may act. -/
def FreeToAct (mine : Issuer → Prop) : Prop := ∀ by_ : Issuer, ¬ by_.Collateral → mine by_

section Withdrawals

variable (hmine : FreeToAct mine)
include hmine

theorem createWithdrawalRequest_safe (dto : CreateWithdrawal) :
    (custody num mine).Safe (createWithdrawalRequest dto) s := by
  refine Contract.safe_throwIf fun _ => Contract.safe_ofExcept fun _ _ => ?_
  refine Contract.safe_read fun s₁ _ hs₁ => Contract.safe_orThrow fun r hr => ?_
  obtain ⟨hfind, -⟩ := Option.filter_eq_some_iff.mp hr
  refine Contract.safe_throwIf fun hactive => Contract.safe_throwIf fun _ => ?_
  refine Contract.safe_throwIf fun _ => ?_
  -- the selected leaf is not held, and never will be
  have hfree : HeldFor s₁.ledger r.id .withdrawal dto.withdrawalId := by
    refine ⟨r, Table.find_of_mem (Table.mem_of_find hfind), fun hheld => ?_⟩
    rw [not_not.mp hactive] at hheld
    exact absurd hheld (by decide)
  refine Contract.safe_read fun s₂ h₂ _ => Contract.safe_throwIf fun _ => ?_
  refine Contract.safe_read fun s₃ h₃ _ => Contract.safe_throwIf fun _ => ?_
  refine Contract.safe_ofExcept fun storageFee _ => ?_
  refine safe_rows_last (hmine _ id) fun s' a s'' h' hs' hok => ?_
  have hlater := ((custody_later h₂).trans (custody_later h₃)).trans h'
  split at hok
  · cases hok
    exact ⟨hs', .of_same rfl (.refl _)⟩
  · obtain ⟨t, hcreate, hresult⟩ := map_ok.mp hok
    cases hresult
    obtain ⟨-, hinsert⟩ := createRow_ok.mp hcreate
    refine ⟨{ hs' with withdrawals := fun w hw => ?_ },
      .of_same rfl ⟨rfl, rfl, rfl, rfl, rfl, rfl⟩⟩
    rcases (Table.mem_insert hinsert).mp hw with hw | rfl
    · exact hs'.withdrawals w hw
    · exact ⟨hfree.later hlater.ledger, by simp⟩

theorem confirmPayment_safe (uuids : Uuids) (tenantId withdrawalId actorUserId : Id)
    (actorRoles : List Role) : (custody num mine).Safe
      (confirmPayment num uuids tenantId withdrawalId actorUserId actorRoles) s := by
  refine Contract.safe_find fun s₁ w _ hs₁ hfind => ?_
  obtain ⟨hfind, -⟩ := Option.filter_eq_some_iff.mp hfind
  obtain rfl : w.id = withdrawalId := Table.key_of_find hfind
  refine Contract.safe_bind safe_requireParty fun _ s₂ _ => ?_
  refine Contract.safe_throwIf fun _ => ?_
  have hcalls : ∀ input : HoldInput, input.idempotencyKey = withdrawalKey w.id "hold" →
      input.heldStatus = .heldWithdrawal → input.txnType = .withdrawal → input.txnId = w.id →
      Calls (.confirmPayment w.id) (.hold input) := fun _ => .confirmPayment
  refine safe_ledger rfl (hmine _ id) (fun s' _ _ => ⟨hcalls _ rfl rfl rfl rfl, ?_, trivial⟩) ?_
  · rintro _ ⟨⟩
  intro s₃ result ledger _ hs₃ houtcome _ _
  refine Contract.safe_orThrow fun held hheld => ?_
  have hheldFor := held_of_hold hs₃ (hcalls _ rfl rfl rfl rfl) houtcome hheld
  refine safe_updateWithdrawal (hmine _ id) fun s' h' _ r hr => ⟨?_, by simp⟩
  rw [show r.id = w.id from Table.key_of_find hr]
  exact hheldFor.later h'.ledger

theorem approveWithdrawal_safe (uuids : Uuids) (tenantId withdrawalId : Id)
    (actorUserId : Option Id) : (custody num mine).Safe
      (approveWithdrawal num uuids tenantId withdrawalId actorUserId) s := by
  refine Contract.safe_find fun s₁ w _ hs₁ hfind => ?_
  obtain ⟨hfind, -⟩ := Option.filter_eq_some_iff.mp hfind
  have hw := hs₁.withdrawals w (Table.mem_of_find hfind)
  obtain rfl : w.id = withdrawalId := Table.key_of_find hfind
  refine Contract.safe_throwIf fun _ => ?_
  have hcall : ∀ ctx receiptId, (LedgerOp.approveHold ctx receiptId).call num uuids =
      .node <$> Inventory.approveHold num uuids ctx receiptId := fun _ _ => rfl
  refine safe_ledger (hcall _ _) (hmine _ id)
    (fun s' h' _ => ⟨.approveWithdrawal rfl, ?_, trivial⟩) ?_
  · rintro _ ⟨⟩
    exact ⟨_, _, rfl, hw.1.later h'.ledger⟩
  intro s₂ r ledger _ hs₂ houtcome _ _
  -- the approval is in the log, new or old
  have hlogged : ∃ e ∈ ledger.events, e.idempotencyKey = withdrawalKey w.id "approveHold" := by
    cases houtcome with
    | replayed e prior reconstructs same =>
        exact ⟨e, same ▸ Table.mem_of_find prior, Table.key_of_find prior⟩
    | committed free events change effect commits =>
        obtain ⟨e, he, -, hkey⟩ := effect.keyed_event
        exact ⟨e, commits.mem_events.mpr (.inr he), hkey⟩
  obtain ⟨e, he, hkey⟩ := hlogged
  refine safe_updateWithdrawal (hmine _ id) fun s' h' hs' r hr => ⟨?_, fun _ => ?_⟩
  · exact (hs'.withdrawals r (Table.mem_of_find hr)).1
  · rw [show r.id = w.id from Table.key_of_find hr]
    exact ⟨e, h'.ledger.events e he, hkey⟩

theorem rejectWithdrawal_safe (uuids : Uuids) (tenantId withdrawalId : Id)
    (actorUserId : Option Id) (reason : Option String) : (custody num mine).Safe
      (rejectWithdrawal num uuids tenantId withdrawalId actorUserId reason) s := by
  refine Contract.safe_find fun s₁ w _ hs₁ hfind => ?_
  obtain ⟨hfind, -⟩ := Option.filter_eq_some_iff.mp hfind
  have hw := hs₁.withdrawals w (Table.mem_of_find hfind)
  obtain rfl : w.id = withdrawalId := Table.key_of_find hfind
  refine Contract.safe_throwIf fun _ => ?_
  refine Contract.safe_bind ?_ fun _ s₂ _ => ?_
  · refine Contract.safe_read fun s₂ h₂ _ => ?_
    have hw₂ := hw.later (custody_later h₂).ledger
    split
    · trivial
    · split
      · refine safe_ledger rfl (hmine _ id)
          (fun s' h' _ => ⟨.rejectWithdrawal rfl, ?_, trivial⟩) fun _ _ _ _ _ _ _ _ => trivial
        rintro _ ⟨⟩
        exact ⟨_, _, rfl, hw₂.1.later h'.ledger⟩
      · trivial
  · split
    · trivial
    · exact safe_updateWithdrawal (hmine _ id) fun s' _ hs' r hr =>
        ⟨(hs'.withdrawals r (Table.mem_of_find hr)).1, by simp⟩

theorem completeWithdrawal_safe (uuids : Uuids) (storageFee : Except ApiError ℚ)
    (tenantId withdrawalId : Id) (actorUserId : Option Id) : (custody num mine).Safe
      (completeWithdrawal num uuids storageFee tenantId withdrawalId actorUserId) s := by
  refine Contract.safe_find fun s₁ w _ hs₁ hfind => ?_
  obtain ⟨hfind, -⟩ := Option.filter_eq_some_iff.mp hfind
  have hw := hs₁.withdrawals w (Table.mem_of_find hfind)
  obtain rfl : w.id = withdrawalId := Table.key_of_find hfind
  refine Contract.safe_throwIf fun happroved => ?_
  refine safe_ledger rfl (hmine _ id) (fun s' h' _ => ⟨.completeWithdrawal rfl, ?_, ?_⟩) ?_
  · rintro _ ⟨⟩
    exact ⟨_, _, rfl, hw.1.later h'.ledger⟩
  · exact (hw.later h'.ledger).2 (not_not.mp happroved)
  intro s₂ r ledger _ _ _ _ _
  refine Contract.safe_read fun s₃ _ _ => Contract.safe_orThrow fun _ _ => ?_
  refine Contract.safe_ofExcept fun finalStorageFee _ => ?_
  exact safe_updateWithdrawal (hmine _ id) fun s' _ hs' r hr =>
    ⟨(hs'.withdrawals r (Table.mem_of_find hr)).1, by simp⟩

theorem editWithdrawal_safe (dto : EditWithdrawal) :
    (custody num mine).Safe (editWithdrawal dto) s := by
  refine Contract.safe_find fun s₁ w _ _ _ => Contract.safe_throwIf fun _ => ?_
  refine Contract.safe_bind safe_requireParty fun _ s₂ _ => Contract.safe_throwIf fun _ => ?_
  dsimp only
  split
  · trivial
  · exact safe_updateWithdrawal (hmine _ id) fun s' _ hs' r hr =>
      hs'.withdrawals r (Table.mem_of_find hr)

theorem expirePendingPayment_safe (now : Timestamp) :
    (custody num mine).Safe (expirePendingPayment now) s := by
  refine Contract.safe_read fun s₁ _ _ => ?_
  split
  · trivial
  · refine safe_rows_last (hmine _ id) fun s' a s'' _ hs' hok => ?_
    cases hok
    refine ⟨?_, .of_same rfl ⟨rfl, rfl, rfl, rfl, rfl, rfl⟩⟩
    apply hs'.rewriteWithdrawals
    · exact fun _ => rfl
    · exact fun _ => nofun

end Withdrawals

section Loans

variable (hmine : FreeToAct mine)
include hmine

theorem createLoan_safe (dto : CreateLoan) :
    (custody num mine).Safe (createLoan num dto) s := by
  refine Contract.safe_ofExcept fun _ _ => Contract.safe_read fun s₁ _ _ => ?_
  refine Contract.safe_orThrow fun receipt _ => Contract.safe_read fun s₂ _ _ => ?_
  refine Contract.safe_orThrow fun financier _ => Contract.safe_throwIf fun _ => ?_
  have hcalls : ∀ input : HoldInput, input.idempotencyKey = loanKey dto.loanId "hold" →
      input.heldStatus = .heldLoan → input.txnType = .loan → input.txnId = dto.loanId →
      Calls (.createLoan dto.loanId) (.hold input) := fun _ => .createLoan
  refine safe_ledger rfl (hmine _ id) (fun s' _ _ => ⟨hcalls _ rfl rfl rfl rfl, ?_, trivial⟩) ?_
  · rintro _ ⟨⟩
  intro s₃ result ledger _ hs₃ houtcome _ _
  refine Contract.safe_orThrow fun held hheld => ?_
  have hheldFor := held_of_hold hs₃ (hcalls _ rfl rfl rfl rfl) houtcome hheld
  refine safe_rows_last (hmine _ id) fun s' a s'' h' hs' hok => ?_
  split at hok
  · cases hok
    exact ⟨hs', .of_same rfl (.refl _)⟩
  · obtain ⟨t, hcreate, hresult⟩ := map_ok.mp hok
    cases hresult
    obtain ⟨-, hinsert⟩ := createRow_ok.mp hcreate
    refine ⟨{ hs' with loans := fun l hl => ?_ }, .of_same rfl ⟨rfl, rfl, rfl, rfl, rfl, rfl⟩⟩
    rcases (Table.mem_insert hinsert).mp hl with hl | rfl
    · exact hs'.loans l hl
    · exact hheldFor.later h'.ledger

theorem approveLoan_safe (uuids : Uuids) (tenantId loanId : Id) (actorUserId : Option Id) :
    (custody num mine).Safe (approveLoan num uuids tenantId loanId actorUserId) s := by
  refine Contract.safe_find fun s₁ l _ hs₁ hfind => ?_
  have hl := hs₁.loans l (Table.mem_of_find (Option.filter_eq_some_iff.mp hfind).1)
  refine Contract.safe_throwIf fun _ => ?_
  refine safe_ledger rfl (hmine _ id) (fun s' h' _ => ⟨.approveLoan rfl, ?_, trivial⟩)
    fun _ _ _ _ _ _ _ _ => safe_updateLoan (hmine _ id) fun _ => rfl
  rintro _ ⟨⟩
  exact ⟨_, _, rfl, hl.later h'.ledger⟩

theorem rejectLoan_safe (uuids : Uuids) (tenantId loanId : Id) (actorUserId : Option Id) :
    (custody num mine).Safe (rejectLoan num uuids tenantId loanId actorUserId) s := by
  refine Contract.safe_find fun s₁ l _ hs₁ hfind => ?_
  have hl := hs₁.loans l (Table.mem_of_find (Option.filter_eq_some_iff.mp hfind).1)
  refine Contract.safe_throwIf fun _ => ?_
  refine safe_ledger rfl (hmine _ id) (fun s' h' _ => ⟨.rejectLoan rfl, ?_, trivial⟩)
    fun _ _ _ _ _ _ _ _ => safe_updateLoan (hmine _ id) fun _ => rfl
  rintro _ ⟨⟩
  exact ⟨_, _, rfl, hl.later h'.ledger⟩

theorem repayLoan_safe (uuids : Uuids) (tenantId loanId : Id) (actorUserId : Option Id) :
    (custody num mine).Safe (repayLoan num uuids tenantId loanId actorUserId) s := by
  refine Contract.safe_find fun s₁ l _ hs₁ hfind => ?_
  have hl := hs₁.loans l (Table.mem_of_find (Option.filter_eq_some_iff.mp hfind).1)
  refine Contract.safe_throwIf fun _ => ?_
  refine safe_ledger rfl (hmine _ id) (fun s' h' _ => ⟨.repayLoan rfl, ?_, trivial⟩)
    fun _ _ _ _ _ _ _ _ => safe_updateLoan (hmine _ id) fun _ => rfl
  rintro _ ⟨⟩
  exact ⟨_, _, rfl, hl.later h'.ledger⟩

theorem editLoan_safe (dto : EditLoan) : (custody num mine).Safe (editLoan dto) s := by
  refine Contract.safe_find fun s₁ l _ _ _ => Contract.safe_throwIf fun _ => ?_
  refine Contract.safe_bind safe_requireParty fun _ s₂ _ => Contract.safe_throwIf fun _ => ?_
  refine Contract.safe_throwIf fun _ => Contract.safe_bind ?_ fun _ s₃ _ => ?_
  · unfold checkFinancier
    split
    · trivial
    · exact Contract.safe_read fun _ _ _ => Contract.safe_orThrow fun _ _ => trivial
  · dsimp only
    split
    · trivial
    · exact safe_updateLoan (hmine _ id) fun _ => rfl

end Loans

section Trades

variable (hmine : FreeToAct mine)
include hmine

theorem createTrade_safe (dto : CreateTrade) :
    (custody num mine).Safe (createTrade num dto) s := by
  refine Contract.safe_ofExcept fun _ _ => Contract.safe_read fun s₁ _ _ => ?_
  refine Contract.safe_orThrow fun receipt _ => ?_
  have hcalls : ∀ input : HoldInput, input.idempotencyKey = tradeKey dto.tradeId "hold" →
      input.heldStatus = .heldTrade → input.txnType = .trade → input.txnId = dto.tradeId →
      Calls (.createTrade dto.tradeId) (.hold input) := fun _ => .createTrade
  refine safe_ledger rfl (hmine _ id) (fun s' _ _ => ⟨hcalls _ rfl rfl rfl rfl, ?_, trivial⟩) ?_
  · rintro _ ⟨⟩
  intro s₃ result ledger _ hs₃ houtcome _ _
  refine Contract.safe_orThrow fun held hheld => ?_
  have hheldFor := held_of_hold hs₃ (hcalls _ rfl rfl rfl rfl) houtcome hheld
  refine safe_rows_last (hmine _ id) fun s' a s'' h' hs' hok => ?_
  split at hok
  · cases hok
    exact ⟨hs', .of_same rfl (.refl _)⟩
  · obtain ⟨t, hcreate, hresult⟩ := map_ok.mp hok
    cases hresult
    obtain ⟨-, hinsert⟩ := createRow_ok.mp hcreate
    refine ⟨{ hs' with trades := fun t ht => ?_ }, .of_same rfl ⟨rfl, rfl, rfl, rfl, rfl, rfl⟩⟩
    rcases (Table.mem_insert hinsert).mp ht with ht | rfl
    · exact hs'.trades t ht
    · exact hheldFor.later h'.ledger

omit hmine in
theorem mem_markSettled {trades trades' : Table Trade} {tradeId buyerId : Id}
    (h : markSettled trades tradeId buyerId = .ok trades') :
    ∀ t' ∈ trades', ∃ t ∈ trades, t'.id = t.id ∧ t'.receiptId = t.receiptId := by
  unfold markSettled at h
  split at h
  · cases h
    intro t' ht'
    obtain ⟨t, ht, rfl⟩ := List.mem_map.mp ht'
    refine ⟨t, ht, ?_⟩
    split <;> exact ⟨rfl, rfl⟩
  · cases h

omit hmine in
/-- The transaction of a settlement is a rightful ledger step. -/
theorem transferTx_step {uuids : Uuids} {ctx : ActorCtx} {t : Trade} {tradeId buyerId : Id}
    {r : Receipt} {s s' : Db} (hkey : ctx.idempotencyKey = tradeKey t.id "transfer")
    (ht : HeldFor s.ledger t.receiptId .trade t.id)
    (h : transferTx num uuids ctx t tradeId buyerId s = .ok (r, s')) :
    LedgerStep num (.settleTrade t.id)
      (.transferAndRelease ctx t.receiptId buyerId .trade t.id fun _ => .ok ()) s s' := by
  obtain ⟨trades, ledger, hmark, hfree, ⟨events, change, result, heffect, hcommits⟩, rfl⟩ :=
    transferTx_ok h
  refine ⟨⟨.settleTrade hkey, ?_, trivial⟩, hfree,
    ⟨uuids, events, change, result, heffect, hcommits⟩, ⟨rfl, rfl, rfl, rfl, rfl, rfl⟩, rfl, rfl,
    mem_markSettled hmark⟩
  rintro _ ⟨⟩
  exact ⟨_, _, rfl, ht⟩

omit hmine in
/-- The transaction of a cancellation is a rightful ledger step. -/
theorem releaseTx_step {uuids : Uuids} {ctx : ActorCtx} {t : Trade} {r : Receipt} {s s' : Db}
    (hkey : ctx.idempotencyKey = tradeKey t.id "cancel-release")
    (ht : HeldFor s.ledger t.receiptId .trade t.id)
    (h : Api.within (releaseWork num uuids ctx t.receiptId) s = .ok (r, s')) :
    LedgerStep num (.cancelTrade t.id) (.release ctx t.receiptId) s s' := by
  obtain ⟨ledger, hwork, rfl⟩ := Api.within_ok h
  obtain ⟨hfree, events, change, heffect, hcommits⟩ := releaseWork_commits hwork
  refine Rightful.ledgerStep ⟨.cancelTrade hkey, ?_, trivial⟩ hfree heffect hcommits
  rintro _ ⟨⟩
  exact ⟨_, _, rfl, ht⟩

theorem settleTrade_safe (uuids : Uuids) (tenantId tradeId buyerId : Id) :
    (custody num mine).Safe (settleTrade num uuids tenantId tradeId buyerId) s := by
  refine Contract.safe_find fun s₁ t _ hs₁ hfind => ?_
  have ht := hs₁.trades t (Table.mem_of_find (Option.filter_eq_some_iff.mp hfind).1)
  refine Contract.safe_throwIf fun _ => ?_
  split
  · exact Contract.safe_read fun _ _ _ => trivial
  · refine Contract.safe_throwIf fun _ => Contract.safe_read fun s₂ h₂ _ => ?_
    refine Contract.safe_orThrow fun _ _ => Contract.safe_bind ?_ fun _ _ _ => trivial
    refine safe_runIdempotent (hmine _ id) fun s' r s'' h' _ hwork => ?_
    exact transferTx_step rfl (ht.later ((custody_later h₂).trans h').ledger) hwork

theorem cancelTrade_safe (uuids : Uuids) (tenantId tradeId : Id) :
    (custody num mine).Safe (cancelTrade num uuids tenantId tradeId) s := by
  refine Contract.safe_find fun s₁ t _ hs₁ hfind => ?_
  have ht := hs₁.trades t (Table.mem_of_find (Option.filter_eq_some_iff.mp hfind).1)
  refine Contract.safe_throwIf fun _ => Contract.safe_bind ?_ fun _ _ _ => ?_
  · refine safe_runIdempotent (hmine _ id) fun s' r s'' h' _ hwork => ?_
    exact releaseTx_step rfl (ht.later h'.ledger) hwork
  · exact safe_updateTrade (hmine _ id) fun _ => rfl

end Trades

section Deposits

variable (hmine : FreeToAct mine)
include hmine

theorem createDeposit_safe (dto : CreateDeposit) :
    (custody num mine).Safe (createDeposit num dto) s := by
  refine Contract.safe_ofExcept fun _ _ => ?_
  refine safe_ledger rfl (hmine _ id) (fun s' _ _ => ⟨.createDeposit dto.keyUuid rfl, ?_, trivial⟩)
    fun _ _ _ _ _ _ _ _ => trivial
  rintro _ ⟨⟩

theorem approveReceipt_safe (uuids : Uuids) (tenantId receiptId adminId : Id) :
    (custody num mine).Safe (approveReceipt num uuids tenantId receiptId adminId) s := by
  refine safe_ledger rfl (hmine _ id) (fun s' _ _ => ⟨.approveReceipt rfl, ?_, trivial⟩)
    fun _ _ _ _ _ _ _ _ => trivial
  rintro _ ⟨⟩

theorem rejectReceipt_safe (uuids : Uuids) (tenantId receiptId adminId : Id)
    (rejectionReason : String) : (custody num mine).Safe
      (rejectReceipt num uuids tenantId receiptId adminId rejectionReason) s := by
  refine Contract.safe_throwIf fun _ => ?_
  refine safe_ledger rfl (hmine _ id) (fun s' _ _ => ⟨.rejectReceipt rfl, ?_, trivial⟩)
    fun _ _ _ _ _ _ _ _ => trivial
  rintro _ ⟨⟩

end Deposits

section Pledges

variable (hmine : ∀ by_, mine by_)
include hmine

theorem createPledge_safe (dto : CreatePledge) :
    (custody num mine).Safe (createPledge num dto) s := by
  refine Contract.safe_read fun s₁ _ _ => Contract.safe_orThrow fun caller _ => ?_
  refine Contract.safe_read fun s₂ _ _ => Contract.safe_orThrow fun receipt _ => ?_
  refine Contract.safe_throwIf fun _ => Contract.safe_throwIf fun _ => ?_
  refine Contract.safe_bind ?_ fun available s₃ _ => Contract.safe_throwIf fun _ => ?_
  · exact Contract.safe_read fun _ _ _ => Contract.safe_orThrow fun _ _ =>
      Contract.safe_throwIf fun _ => Contract.safe_read_last
  refine Contract.safe_read fun s₄ _ _ => Contract.safe_orThrow fun org _ => ?_
  refine Contract.safe_throwIf fun _ => ?_
  have hcalls : ∀ input : HoldInput,
      input.idempotencyKey = [.text "pledge", .text "create", .uuid dto.pledgeId] →
      input.heldStatus = .heldPledgePending → input.txnType = .pledge →
      input.txnId = dto.pledgeId → Calls (.createPledge dto.pledgeId) (.hold input) :=
    fun _ => .createPledge
  refine safe_ledger rfl (hmine _) (fun s' _ _ => ⟨hcalls _ rfl rfl rfl rfl, ?_, trivial⟩) ?_
  · rintro _ ⟨⟩
  intro s₅ result ledger _ hs₅ houtcome _ _
  refine Contract.safe_orThrow fun held hheld => ?_
  have hheldFor := held_of_hold hs₅ (hcalls _ rfl rfl rfl rfl) houtcome hheld
  refine safe_rows_last (hmine _) fun s' a s'' h' hs' hok => ?_
  obtain ⟨t, hcreate, hresult⟩ := map_ok.mp hok
  cases hresult
  obtain ⟨-, hinsert⟩ := createRow_ok.mp hcreate
  refine ⟨{ hs' with pledges := fun p hp heldReceiptId hsome => ?_ },
    rfl, rfl, fun _ hx => hx, fun l hl => ⟨l, hl, rfl, rfl⟩, fun h => absurd trivial h⟩
  rcases (Table.mem_insert hinsert).mp hp with hp | rfl
  · exact hs'.pledges p hp heldReceiptId hsome
  · cases hsome
    exact hheldFor.later h'.ledger

/-- The release of a pledge's held leaf by one of its decisions. -/
theorem releaseHeld_safe {by_ : Issuer} {uuids : Uuids} {p : Pledge} {actorUserId : Option Id}
    {decision : String} (htxn : ∀ db, by_.txn db = some (.pledge, p.id))
    (hready : ∀ db, by_.Ready db)
    (hcalls : ∀ (ctx : ActorCtx) heldReceiptId,
      ctx.idempotencyKey = [.text "pledge", .text decision, .uuid p.id] →
        Calls by_ (.release ctx heldReceiptId))
    (hp : ∀ heldReceiptId, p.heldReceiptId = some heldReceiptId →
      HeldFor s.ledger heldReceiptId .pledge p.id) :
    (custody num mine).Safe (releaseHeld num by_ uuids p actorUserId decision) s := by
  unfold releaseHeld
  split
  · trivial
  · rename_i heldReceiptId hsome
    refine safe_ledger rfl (hmine _) (fun s' h' _ => ⟨hcalls _ _ rfl, ?_, hready s'⟩)
      fun _ _ _ _ _ _ _ _ => trivial
    rintro _ ⟨⟩
    exact ⟨_, _, htxn s', (hp heldReceiptId hsome).later h'.ledger⟩

theorem cancelPledge_safe (uuids : Uuids) (callerUserId pledgeId : Id) :
    (custody num mine).Safe (cancelPledge num uuids callerUserId pledgeId) s := by
  refine Contract.safe_read fun s₁ _ hs₁ => Contract.safe_orThrow fun p hp => ?_
  have hheld := hs₁.pledges p (Table.mem_of_find (Option.filter_eq_some_iff.mp hp).1)
  refine Contract.safe_throwIf fun _ => Contract.safe_bind ?_ fun _ s₂ _ => ?_
  · exact releaseHeld_safe hmine (fun _ => rfl) (fun _ => trivial) (fun _ _ => .cancelPledge) hheld
  · exact safe_updatePledge (hmine _) (fun _ => rfl) trivial

omit hmine in
theorem getFinancierPledgeDetail_safe {c : Contract Label Db} (callerUserId pledgeId : Id) :
    c.Safe (getFinancierPledgeDetail callerUserId pledgeId) s :=
  Contract.safe_bind safe_requireFinancierOrg fun _ _ _ =>
    Contract.safe_find fun _ _ _ _ _ => trivial

omit hmine in
/-- The rows of an acceptance keep custody when the leaf is held for the pledge. -/
theorem acceptance_writes {l : Lien} {liens : Table Lien} {pledges : Table Pledge}
    {f : Pledge → Pledge} {hf : ∀ r, Keyed.key (f r) = Keyed.key r} (hs : Custody s)
    (hheld : HeldFor s.ledger l.receiptId .pledge l.pledgeId)
    (hinsert : s.liens.insert l = some liens)
    (hupdate : updateRow s.pledges l.pledgeId f hf = .ok pledges)
    (hsame : ∀ r, (f r).heldReceiptId = r.heldReceiptId) :
    Custody { s with liens, pledges } ∧
      WriteStep (.acceptPledge l.pledgeId) s { s with liens, pledges } := by
  have hkept : ∀ x ∈ s.liens, ∃ x' ∈ liens, x'.id = x.id ∧ x'.pledgeId = x.pledgeId :=
    fun x hx => ⟨x, (Table.mem_insert hinsert).mpr (.inl hx), rfl, rfl⟩
  have hliens : ∀ x ∈ liens, HeldFor s.ledger x.receiptId .pledge x.pledgeId := by
    intro x hx
    rcases (Table.mem_insert hinsert).mp hx with hx | rfl
    · exact hs.liens x hx
    · exact hheld
  exact ⟨{ hs with
      pledges := hs.updatePledges hupdate hsame
      partials := hs.partials_kept (fun _ hx => hx) hkept
      liens := hliens },
    rfl, rfl, fun _ hx => hx, hkept, fun h => absurd trivial h⟩

theorem acceptPledge_safe (dto : AcceptPledge) :
    (custody num mine).Safe (acceptPledge num dto) s := by
  refine Contract.safe_bind safe_requireFinancierOrg fun org s₁ _ => ?_
  refine Contract.safe_find fun s₂ p _ hs₂ hp => ?_
  have hheld := hs₂.pledges p (Table.mem_of_find (Option.filter_eq_some_iff.mp hp).1)
  refine Contract.safe_throwIf fun _ => Contract.safe_throwIf fun _ => ?_
  refine Contract.safe_orThrow fun heldReceiptId hsome => Contract.safe_ofExcept fun _ _ => ?_
  have hheldFor := hheld heldReceiptId hsome
  refine safe_ledger rfl (hmine _) (fun s' h' _ => ⟨.acceptPledge rfl, ?_, trivial⟩) ?_
  · rintro _ ⟨⟩
    exact ⟨_, _, rfl, hheldFor.later h'.ledger⟩
  intro s₃ r ledger _ _ _ _ h₃
  refine safe_rows (hmine _) ?_ fun _ _ _ _ => getFinancierPledgeDetail_safe _ _
  intro s' a s'' h' hs' hok
  obtain ⟨liens, hcreate, hok⟩ := bind_ok.mp hok
  obtain ⟨pledges, hupdate, hok⟩ := bind_ok.mp hok
  cases hok
  exact acceptance_writes hs' (hheldFor.later (h₃.trans h').ledger) (createRow_ok.mp hcreate).2
    hupdate fun _ => rfl

theorem rejectPledge_safe (uuids : Uuids) (callerUserId pledgeId : Id) (reason : String) :
    (custody num mine).Safe (rejectPledge num uuids callerUserId pledgeId reason) s := by
  refine Contract.safe_bind safe_requireFinancierOrg fun org s₁ _ => ?_
  refine Contract.safe_find fun s₂ p _ hs₂ hp => ?_
  have hheld := hs₂.pledges p (Table.mem_of_find (Option.filter_eq_some_iff.mp hp).1)
  refine Contract.safe_throwIf fun _ => Contract.safe_bind ?_ fun _ s₃ _ => ?_
  · exact releaseHeld_safe hmine (fun _ => rfl) (fun _ => trivial) (fun _ _ => .rejectPledge) hheld
  · exact Contract.safe_bind (safe_updatePledge (hmine _) (fun _ => rfl) trivial) fun _ _ _ =>
      getFinancierPledgeDetail_safe _ _

theorem expireStalePledges_safe (uuids : Id → Uuids) (now : Timestamp) :
    (custody num mine).Safe (expireStalePledges num uuids now) s := by
  refine Contract.safe_read fun s₁ _ hs₁ => ?_
  have hheld : ∀ p ∈ s₁.pledges.rows.filter fun p => p.status = .pending ∧ p.expiresAt ≤ now,
      ∀ s', s₁.Later s' → ∀ heldReceiptId, p.heldReceiptId = some heldReceiptId →
        HeldFor s'.ledger heldReceiptId .pledge p.id := fun p hp s' h' heldReceiptId hsome =>
    (hs₁.pledges p (List.mem_of_mem_filter hp) heldReceiptId hsome).later h'.ledger
  refine Contract.safe_forEach (s₁.Later ·) (fun h hrely => h.trans (custody_later hrely)) ?_
    (.refl s₁)
  intro p hp s' h'
  refine Contract.safe_recover (Contract.safe_bind ?_ fun _ s'' _ => ?_) fun _ _ => trivial
  · exact releaseHeld_safe hmine (fun _ => rfl) (fun _ => trivial) (fun _ _ => .expirePledge)
      (hheld p hp s' h')
  · exact safe_updatePledge (hmine _) (fun _ => rfl) trivial

end Pledges

section Liens

variable (hmine : ∀ by_, mine by_)
include hmine

omit hmine in
theorem createLines_kept {requestId : Id} {lienMap : Id → Option Lien}
    {lines : List CreateReleaseRequestLine} {t t' : Table ReleaseRequestLine}
    (h : createLines num requestId lienMap lines t = .ok t') : ∀ x ∈ t, x ∈ t' := by
  induction lines generalizing t with
  | nil =>
      cases h
      exact fun _ hx => hx
  | cons line rest ih =>
      unfold createLines at h
      split at h
      · cases h
      · obtain ⟨t₁, hcreate, hrest⟩ := bind_ok.mp h
        obtain ⟨-, hinsert⟩ := createRow_ok.mp hcreate
        exact fun x hx => ih hrest x ((Table.mem_insert hinsert).mpr (.inl hx))

theorem createReleaseRequest_safe (dto : CreateReleaseRequest) :
    (custody num mine).Safe (createReleaseRequest num dto) s := by
  refine Contract.safe_read fun s₁ _ _ => Contract.safe_orThrow fun caller _ => ?_
  refine Contract.safe_read fun s₂ _ _ => Contract.safe_read fun s₃ _ _ => ?_
  refine Contract.safe_bind ?_ fun _ s₄ _ => ?_
  · refine Contract.safe_forEach (fun _ => True) (fun _ _ => trivial) ?_ trivial
    intro line _ s' _
    refine Contract.safe_orThrow fun l _ => Contract.safe_throwIf fun _ => ?_
    refine Contract.safe_throwIf fun _ => Contract.safe_throwIf fun _ => ?_
    refine Contract.safe_throwIf fun _ => ?_
    unfold Api.throwIf Attempt.throwIf
    split <;> trivial
  · refine safe_rows_last (hmine _) fun s' a s'' _ hs' hok => ?_
    obtain ⟨requests, -, hok⟩ := bind_ok.mp hok
    obtain ⟨lines, hlines, hok⟩ := bind_ok.mp hok
    cases hok
    have hkept := createLines_kept hlines
    have hliens : ∀ l ∈ s'.liens, ∃ l' ∈ s'.liens, l'.id = l.id ∧ l'.pledgeId = l.pledgeId :=
      fun l hl => ⟨l, hl, rfl, rfl⟩
    exact ⟨{ hs' with partials := hs'.partials_kept hkept hliens },
      rfl, rfl, hkept, hliens, fun h => absurd trivial h⟩

theorem cancelReleaseRequest_safe (callerUserId requestId : Id) :
    (custody num mine).Safe (cancelReleaseRequest callerUserId requestId) s :=
  Contract.safe_read fun _ _ _ => Contract.safe_orThrow fun _ _ =>
    Contract.safe_throwIf fun _ => safe_updateReleaseRequest (hmine _) trivial

omit hmine in
theorem getFinancierReleaseRequestDetail_safe {c : Contract Label Db}
    (callerUserId requestId : Id) :
    c.Safe (getFinancierReleaseRequestDetail callerUserId requestId) s :=
  Contract.safe_bind safe_requireFinancierOrg fun _ _ _ =>
    Contract.safe_read fun _ _ _ => Contract.safe_orThrow fun _ _ => trivial

theorem rejectReleaseRequest_safe (callerUserId requestId : Id) (reason : String) :
    (custody num mine).Safe (rejectReleaseRequest callerUserId requestId reason) s :=
  Contract.safe_bind safe_requireFinancierOrg fun _ _ _ =>
    Contract.safe_read fun _ _ _ => Contract.safe_orThrow fun _ _ =>
      Contract.safe_throwIf fun _ =>
        Contract.safe_bind (safe_updateReleaseRequest (hmine _) trivial) fun _ _ _ =>
          getFinancierReleaseRequestDetail_safe _ _

omit hmine in
/-- The lines a query loads, with the liens they name. -/
theorem mem_loadedLines {db : Db} {requestId : Id} {l : LoadedLine}
    (h : l ∈ loadedLines db requestId) : l.line ∈ db.releaseRequestLines ∧
      l.line.releaseRequestId = requestId ∧ l.lien ∈ db.liens ∧ l.lien.id = l.line.lienId := by
  obtain ⟨x, hx, hmap⟩ := List.mem_filterMap.mp h
  obtain ⟨lien, hlien, rfl⟩ := Option.map_eq_some_iff.mp hmap
  obtain ⟨hmem, hrequest⟩ := List.mem_filter.mp hx
  exact ⟨hmem, of_decide_eq_true hrequest, Table.mem_of_find hlien, Table.key_of_find hlien⟩

omit hmine in
/-- A lien read earlier is still there, under the same pledge. -/
theorem lien_later {s' : Db} {l : Lien} (hl : l ∈ s.liens) (h : s.Later s') :
    ∃ l', s'.liens.find l.id = some l' ∧ l'.pledgeId = l.pledgeId := by
  obtain ⟨l', hl', hid, hpledge⟩ := h.liens l hl
  exact ⟨l', Table.find_eq_some_iff.mpr ⟨hl', hid⟩, hpledge⟩

theorem releaseLine_safe {s₁ : Db} (dto : ApproveReleaseRequest) (req : ReleaseRequest)
    {l : LoadedLine} (hline : l.line ∈ s₁.releaseRequestLines) (hlien : l.lien ∈ s₁.liens)
    (hid : l.lien.id = l.line.lienId) (hs₁ : Custody s₁) (h₁ : s₁.Later s) :
    (custody num mine).Safe (releaseLine num dto req l) s := by
  have hheldFor := hs₁.liens l.lien hlien
  have hright : ∀ s', s.Later s' → ∀ heldReceiptId, l.lien.receiptId = heldReceiptId →
      ∃ txnType txnId,
        (Issuer.approveReleaseLine req.id l.line.id l.lien.id).txn s' = some (txnType, txnId) ∧
          HeldFor s'.ledger heldReceiptId txnType txnId := by
    rintro s' h' _ rfl
    obtain ⟨l', hfind, hpledge⟩ := lien_later hlien (h₁.trans h')
    exact ⟨.pledge, l.lien.pledgeId, by simp [Issuer.txn, hfind, hpledge],
      hheldFor.later (h₁.trans h').ledger⟩
  have hready : ∀ s', s.Later s' →
      (Issuer.approveReleaseLine req.id l.line.id l.lien.id).Ready s' := fun s' h' =>
    ⟨l.line, (h₁.trans h').lines _ hline, rfl, hid.symm⟩
  unfold releaseLine
  split
  · refine safe_ledger rfl (hmine _) (fun s' h' _ => ⟨.releaseFully rfl, ?_, hready s' h'⟩) ?_
    · rintro _ ⟨⟩
      exact hright s' h' _ rfl
    · intro _ _ _ _ _ _ _ _
      exact safe_updateLien (hmine _) trivial (fun _ => rfl) fun s' _ hs' r hr =>
        hs'.liens r (Table.mem_of_find hr)
  · refine safe_ledger rfl (hmine _) (fun s' h' _ => ⟨.releasePartly rfl, ?_, hready s' h'⟩) ?_
    · rintro _ ⟨⟩
      exact hright s' h' _ rfl
    · intro s₂ result ledger h₂ hs₂ houtcome _ h₃
      refine Contract.safe_orThrow fun held hheld => ?_
      obtain ⟨l', hfind, hpledge⟩ := lien_later hlien (h₁.trans h₂)
      have hkept : HeldFor ledger held.id .pledge l.lien.pledgeId := by
        rw [← hpledge]
        refine held_of_partial hs₂ rfl ((h₁.trans h₂).lines _ hline) (Table.mem_of_find hfind)
          ((Table.key_of_find hfind).trans hid) ?_ houtcome hheld
        rw [hpledge]
        exact hheldFor.later (h₁.trans h₂).ledger
      refine safe_updateLien (hmine _) trivial (fun _ => rfl) fun s' h' _ r hr => ?_
      obtain ⟨r', hr', hpledge'⟩ := lien_later hlien ((h₁.trans h₃).trans h')
      obtain rfl := Option.some_inj.mp (hr.symm.trans hr')
      rw [hpledge']
      exact hkept.later h'.ledger

theorem approveReleaseRequest_safe (dto : ApproveReleaseRequest) :
    (custody num mine).Safe (approveReleaseRequest num dto) s := by
  refine Contract.safe_bind safe_requireFinancierOrg fun org s₁ _ => ?_
  refine Contract.safe_read fun s₂ _ hs₂ => Contract.safe_orThrow fun found hfound => ?_
  obtain ⟨req, -, rfl⟩ := Option.map_eq_some_iff.mp hfound
  refine Contract.safe_throwIf fun _ => Contract.safe_bind ?_ fun _ s₃ h₃ => ?_
  · refine Contract.safe_forEach (fun _ => True) (fun _ _ => trivial) ?_ trivial
    intro l _ s' _
    refine Contract.safe_throwIf fun _ => ?_
    unfold Api.throwIf Attempt.throwIf
    split <;> trivial
  refine Contract.safe_ofExcept fun _ _ => Contract.safe_bind ?_ fun _ s₄ _ => ?_
  · refine Contract.safe_forEach (s₂.Later ·) (fun h hrely => h.trans (custody_later hrely)) ?_
      (custody_later h₃)
    intro l hl s' h'
    obtain ⟨hline, -, hlien, hid⟩ := mem_loadedLines hl
    exact releaseLine_safe hmine dto req hline hlien hid hs₂ h'
  · exact Contract.safe_bind (safe_updateReleaseRequest (hmine _) trivial) fun _ _ _ =>
      getFinancierReleaseRequestDetail_safe _ _

omit hmine in
/-- The release of a lien's leaf by force is rightful. -/
theorem forceRelease_rightful {s' : Db} {dto : ForceReleaseLien} {l : Lien} (hs : Custody s)
    (hl : l ∈ s.liens) (hlater : s.Later s') : Rightful s' (.forceReleaseLien l.id)
      (.release
        { tenantId := dto.tenantId
          actorUserId := some dto.adminUserId
          idempotencyKey := [.text "lien", .text "force-release", .uuid l.id] } l.receiptId) := by
  refine ⟨.forceReleaseLien rfl, ?_, trivial⟩
  rintro _ ⟨⟩
  obtain ⟨l', hfind, hpledge⟩ := lien_later hl hlater
  exact ⟨.pledge, l.pledgeId, by simp [Issuer.txn, hfind, hpledge],
    (hs.liens l hl).later hlater.ledger⟩

omit hmine in
/-- A lien that was released by force keeps custody. -/
theorem forceRelease_writes (forceReleases : Table ForceRelease) {liens : Table Lien} {id : Id}
    {now : Timestamp} (hs : Custody s) (hupdate : updateRow s.liens id (fun r =>
      { r with status := .forceReleased, remainingQuantity := 0, releasedAt := some now })
        (fun _ => rfl) = .ok liens) :
    Custody { s with forceReleases, liens } ∧
      WriteStep (.forceReleaseLien id) s { s with forceReleases, liens } := by
  obtain ⟨row, hrow, rfl⟩ := updateRow_ok.mp hupdate
  obtain ⟨hs', hkept⟩ := hs.updateLiens id (fun r =>
    { r with status := .forceReleased, remainingQuantity := 0, releasedAt := some now })
    (fun _ => rfl) (fun _ => rfl) fun r hr => hs.liens r (Table.mem_of_find hr)
  exact ⟨{ hs' with }, rfl, rfl, fun _ hx => hx, hkept, fun h => absurd trivial h⟩

theorem forceReleaseLien_safe (dto : ForceReleaseLien) :
    (custody num mine).Safe (forceReleaseLien num dto) s := by
  refine Contract.safe_read fun s₁ _ hs₁ => Contract.safe_orThrow fun found hfound => ?_
  obtain ⟨l, hl, rfl⟩ := Option.map_eq_some_iff.mp hfound
  have hlien : l ∈ s₁.liens := Table.mem_of_find (Option.filter_eq_some_iff.mp hl).1
  dsimp only
  split
  · trivial
  refine Contract.safe_throwIf fun _ => ?_
  refine safe_ledger rfl (hmine _) (fun s' h' _ => forceRelease_rightful hs₁ hlien h') ?_
  intro s₂ r ledger _ _ _ _ _
  refine safe_rows_last (hmine _) fun s' a s'' _ hs' hok => ?_
  obtain ⟨forced, -, hok⟩ := bind_ok.mp hok
  obtain ⟨liens, hupdate, hok⟩ := bind_ok.mp hok
  cases hok
  exact forceRelease_writes forced hs' hupdate

end Liens

end Requests

namespace Request

variable {num : Numeric} {mine : Issuer → Prop}

/-- Requests about pledges, liens and their release. -/
def Collateral : Request → Prop
  | createPledge _ => True
  | cancelPledge _ _ _ => True
  | acceptPledge _ => True
  | rejectPledge _ _ _ _ => True
  | expireStalePledges _ _ => True
  | createReleaseRequest _ => True
  | cancelReleaseRequest _ _ => True
  | approveReleaseRequest _ => True
  | rejectReleaseRequest _ _ _ => True
  | forceReleaseLien _ => True
  | _ => False

/-- The requests outside of pledges and liens act for none of these. -/
theorem safe_frame (hmine : FreeToAct mine) (request : Request) (h : ¬ request.Collateral)
    (s : Db) : (custody num mine).Safe (request.run num) s := by
  cases request with
  | createDeposit dto => exact createDeposit_safe hmine dto
  | approveReceipt uuids tenantId receiptId adminId =>
      exact approveReceipt_safe hmine uuids tenantId receiptId adminId
  | rejectReceipt uuids tenantId receiptId adminId rejectionReason =>
      exact rejectReceipt_safe hmine uuids tenantId receiptId adminId rejectionReason
  | createWithdrawalRequest dto => exact createWithdrawalRequest_safe hmine dto
  | confirmPayment uuids tenantId withdrawalId actorUserId actorRoles =>
      exact confirmPayment_safe hmine uuids tenantId withdrawalId actorUserId actorRoles
  | approveWithdrawal uuids tenantId withdrawalId actorUserId =>
      exact approveWithdrawal_safe hmine uuids tenantId withdrawalId actorUserId
  | rejectWithdrawal uuids tenantId withdrawalId actorUserId reason =>
      exact rejectWithdrawal_safe hmine uuids tenantId withdrawalId actorUserId reason
  | completeWithdrawal uuids storageFee tenantId withdrawalId actorUserId =>
      exact completeWithdrawal_safe hmine uuids storageFee tenantId withdrawalId actorUserId
  | editWithdrawal dto => exact editWithdrawal_safe hmine dto
  | expirePendingPayment now => exact expirePendingPayment_safe hmine now
  | createLoan dto => exact createLoan_safe hmine dto
  | approveLoan uuids tenantId loanId actorUserId =>
      exact approveLoan_safe hmine uuids tenantId loanId actorUserId
  | rejectLoan uuids tenantId loanId actorUserId =>
      exact rejectLoan_safe hmine uuids tenantId loanId actorUserId
  | repayLoan uuids tenantId loanId actorUserId =>
      exact repayLoan_safe hmine uuids tenantId loanId actorUserId
  | editLoan dto => exact editLoan_safe hmine dto
  | createTrade dto => exact createTrade_safe hmine dto
  | settleTrade uuids tenantId tradeId buyerId =>
      exact settleTrade_safe hmine uuids tenantId tradeId buyerId
  | cancelTrade uuids tenantId tradeId => exact cancelTrade_safe hmine uuids tenantId tradeId
  | _ => exact absurd trivial h

/-- Every request keeps custody. -/
theorem safe (hmine : ∀ by_, mine by_) (request : Request) (s : Db) :
    (custody num mine).Safe (request.run num) s := by
  cases request with
  | createPledge dto => exact createPledge_safe hmine dto
  | cancelPledge uuids callerUserId pledgeId =>
      exact cancelPledge_safe hmine uuids callerUserId pledgeId
  | acceptPledge dto => exact acceptPledge_safe hmine dto
  | rejectPledge uuids callerUserId pledgeId reason =>
      exact rejectPledge_safe hmine uuids callerUserId pledgeId reason
  | expireStalePledges uuids now => exact expireStalePledges_safe hmine uuids now
  | createReleaseRequest dto => exact createReleaseRequest_safe hmine dto
  | cancelReleaseRequest callerUserId requestId =>
      exact cancelReleaseRequest_safe hmine callerUserId requestId
  | approveReleaseRequest dto => exact approveReleaseRequest_safe hmine dto
  | rejectReleaseRequest callerUserId requestId reason =>
      exact rejectReleaseRequest_safe hmine callerUserId requestId reason
  | forceReleaseLien dto => exact forceReleaseLien_safe hmine dto
  | _ => exact safe_frame (fun by_ _ => hmine by_) _ id s

end Request

/-- Custody along every run of any requests on an empty store. -/
theorem runs_custody (num : Numeric) (directory : Directory) (requests : List Request)
    {trace : List (Transition Label Db)} {s : Db} {pool : List (Api Unit)}
    (h : Run (Db.initial directory) (requests.map (Request.run num)) trace s pool) :
    (custody num fun _ => True).RunHolds (Db.initial directory) trace s pool := by
  refine Contract.Holds.run ⟨custody_initial directory, fun p hp => ?_, False.elim⟩ h
    fun _ _ => trivial
  obtain ⟨request, -, rfl⟩ := List.mem_map.mp hp
  exact request.safe (fun _ => trivial) _

/-- What every step keeps in custody, requests keep that are run one at a time. -/
theorem runRequests_keeps {num : Numeric} {P : Db → Prop}
    (hstep : ∀ {label : Label} {s s' : Db}, Custody s → P s →
      Takes num (fun _ => True) label s s' → P s')
    (requests : List Request) {s : Db} (hcustody : Custody s) (hs : P s) :
    Custody (runRequests num requests s) ∧ P (runRequests num requests s) := by
  induction requests generalizing s with
  | nil => exact ⟨hcustody, hs⟩
  | cons request rest ih =>
      have hsafe : (custody num fun _ => True).Safe (request.run num) s :=
        request.safe (fun _ => trivial) s
      obtain ⟨hcustody', hrely, -⟩ := hsafe.exec hcustody fun _ _ => trivial
      have hkept : ∀ s', Relation.ReflTransGen
          (fun s s' => Custody s ∧ ∃ label, Takes num (fun _ => True) label s s') s s' → P s' := by
        intro s' hchain
        induction hchain with
        | refl => exact hs
        | tail _ hnext ih =>
            obtain ⟨hbefore, label, htakes⟩ := hnext
            exact hstep hbefore ih htakes
      exact ih hcustody' (hkept _ hrely)

end SecureStore.Services
