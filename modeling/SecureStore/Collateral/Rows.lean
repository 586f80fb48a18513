/-
# Rows of pledges, liens and forced releases

What one write of a request can do to these rows, with the issuer it acts for. From this alone,
and from no interleaving in particular: a lien is of a pledge that was decided, a pledge has one
lien at most and a lien one forced release at most, and a lien's row stays as it is while no
issuer of the lien writes.
-/

import SecureStore.Custody.Frame

namespace SecureStore.Services

open SecureStore.Foundation SecureStore.Inventory

/-- The issuers that decide on a pledge. -/
def Issuer.Decides (pledgeId : Id) : Issuer → Prop
  | cancelPledge id => id = pledgeId
  | acceptPledge id => id = pledgeId
  | rejectPledge id => id = pledgeId
  | expirePledge id => id = pledgeId
  | _ => False

/-- The issuers that release what a lien holds or decide on its pledge. -/
def Issuer.ActsOn (l : Lien) : Issuer → Prop
  | approveReleaseLine _ _ id => id = l.id
  | forceReleaseLien id => id = l.id
  | by_ => by_.Decides l.pledgeId

/-- The row of a lien was there, whatever else it said, or the pledge was decided with it. -/
inductive LienRows (s s' : Db) : Prop where
  | kept (rows : ∀ l' ∈ s'.liens, ∃ l ∈ s.liens, l.id = l'.id ∧ l.pledgeId = l'.pledgeId)
  | opened (l : Lien) (rows : s'.liens.rows = s.liens.rows ++ [l])
      (first : ∀ l' ∈ s.liens, l'.pledgeId ≠ l.pledgeId)
      (decided : ∃ p ∈ s'.pledges, p.id = l.pledgeId ∧ p.status ≠ .pending)

/-- Nothing is forced, or a lien that was not before. -/
inductive ForcedRows (by_ : Issuer) (s s' : Db) : Prop where
  | same (rows : s'.forceReleases = s.forceReleases)
  | forced (f : ForceRelease) (issuer : by_ = .forceReleaseLien f.lienId)
      (rows : s'.forceReleases.rows = s.forceReleases.rows ++ [f])
      (first : ∀ f' ∈ s.forceReleases, f'.lienId ≠ f.lienId)

/-- The rows of withdrawals, loans and trades are the same. -/
structure SameTransactions (s s' : Db) : Prop where
  withdrawals : s'.withdrawals = s.withdrawals
  loans : s'.loans = s.loans
  trades : s'.trades = s.trades

theorem SameTransactions.refl (s : Db) : SameTransactions s s := ⟨rfl, rfl, rfl⟩

theorem SameTransactions.trans {s s' s'' : Db} (h : SameTransactions s s')
    (h' : SameTransactions s' s'') : SameTransactions s s'' :=
  ⟨h'.withdrawals.trans h.withdrawals, h'.loans.trans h.loans, h'.trades.trans h.trades⟩

/-- What a step does to the rows. -/
structure RowStep (by_ : Issuer) (s s' : Db) : Prop where
  decided : ∀ p ∈ s.pledges, p.status ≠ .pending →
    ∃ p' ∈ s'.pledges, p'.id = p.id ∧ p'.status ≠ .pending
  liens : LienRows s s'
  stays : ∀ l ∈ s.liens, ¬ by_.ActsOn l → l ∈ s'.liens
  forced : ForcedRows by_ s s'
  lines : s'.releaseRequestLines = s.releaseRequestLines ∨ ∃ id, by_ = .createReleaseRequest id
  transactions : by_.Collateral → SameTransactions s s'

/-- What a step under a label does to the rows, when the given issuers may act. -/
def RowTakes (mine : Issuer → Prop) : Label → Db → Db → Prop
  | .read _, s, s' => s' = s
  | .ledger by_ _, s, s' => s' = s ∨ (mine by_ ∧ RowStep by_ s s')
  | .write by_, s, s' => s' = s ∨ (mine by_ ∧ RowStep by_ s s')

theorem RowTakes.cases {mine : Issuer → Prop} {label : Label} {s s' : Db}
    (h : RowTakes mine label s s') : s' = s ∨ ∃ by_, mine by_ ∧ RowStep by_ s s' := by
  cases label with
  | read => exact .inl h
  | ledger by_ op => exact h.imp_right fun hstep => ⟨by_, hstep⟩
  | write by_ => exact h.imp_right fun hstep => ⟨by_, hstep⟩

theorem lienRows_of_same {s s' : Db} (h : s'.liens = s.liens) : LienRows s s' := by
  apply LienRows.kept
  rw [h]
  exact fun l hl => ⟨l, hl, rfl, rfl⟩

/-- A decision about one pledge leaves all that were decided so. -/
theorem decided_update {t t' : Table Pledge} {id : Id} {f : Pledge → Pledge}
    {hf : ∀ r, Keyed.key (f r) = Keyed.key r} (hupdate : updateRow t id f hf = .ok t')
    (hdecides : ∀ r, (f r).status ≠ .pending) :
    (∀ p ∈ t, p.status ≠ .pending → ∃ p' ∈ t', p'.id = p.id ∧ p'.status ≠ .pending) ∧
      ∃ p' ∈ t', p'.id = id ∧ p'.status ≠ .pending := by
  obtain ⟨r, hr, rfl⟩ := updateRow_ok.mp hupdate
  obtain ⟨hmem, rfl⟩ := Table.find_eq_some_iff.mp hr
  refine ⟨fun p hp hstatus => ?_, f r, Table.mem_modify_self f hf hmem, hf r, hdecides r⟩
  by_cases hid : p.id = r.id
  · exact ⟨f r, Table.mem_modify_self f hf hmem, (hf r).trans hid.symm, hdecides r⟩
  · exact ⟨p, Table.mem_modify_other f hf hp hid, rfl, hstatus⟩

/-- An update of one lien that keeps the pledges of all. -/
theorem liens_update {t t' : Table Lien} {id : Id} {f : Lien → Lien}
    {hf : ∀ r, Keyed.key (f r) = Keyed.key r} (hupdate : updateRow t id f hf = .ok t')
    (hpledge : ∀ r, (f r).pledgeId = r.pledgeId) :
    (∀ l' ∈ t', ∃ l ∈ t, l.id = l'.id ∧ l.pledgeId = l'.pledgeId) ∧
      ∀ l ∈ t, l.id ≠ id → l ∈ t' := by
  obtain ⟨r, hr, rfl⟩ := updateRow_ok.mp hupdate
  refine ⟨fun l' hl' => ?_, fun l hl hne => Table.mem_modify_other f hf hl hne⟩
  obtain ⟨l, hl, hid, ⟨-, rfl⟩ | ⟨-, rfl⟩⟩ := Table.exists_of_mem_modify f hf hl'
  · exact ⟨l, hl, hid.symm, (hpledge l).symm⟩
  · exact ⟨l', hl, rfl, rfl⟩

/-- A write that leaves liens and forced releases alone. -/
theorem RowStep.of_same {by_ : Issuer} {s s' : Db}
    (hdecided : ∀ p ∈ s.pledges, p.status ≠ .pending →
      ∃ p' ∈ s'.pledges, p'.id = p.id ∧ p'.status ≠ .pending)
    (hliens : s'.liens = s.liens) (hforced : s'.forceReleases = s.forceReleases)
    (hlines : s'.releaseRequestLines = s.releaseRequestLines ∨
      ∃ id, by_ = .createReleaseRequest id)
    (htransactions : by_.Collateral → SameTransactions s s') : RowStep by_ s s' where
  decided := hdecided
  liens := lienRows_of_same hliens
  stays := by
    rw [hliens]
    exact fun l hl _ => hl
  forced := .same hforced
  lines := hlines
  transactions := htransactions

theorem SameCollateral.rowStep {by_ : Issuer} {s s' : Db} (h : SameCollateral s s')
    (htransactions : by_.Collateral → SameTransactions s s') : RowStep by_ s s' := by
  refine .of_same ?_ h.liens h.forceReleases (.inl h.releaseRequestLines) htransactions
  rw [h.pledges]
  exact fun p hp hstatus => ⟨p, hp, rfl, hstatus⟩

/-- A step of a request outside of pledges and liens. -/
theorem Takes.rowTakes {num : Numeric} {mine : Issuer → Prop}
    (hmine : ∀ by_ : Issuer, ¬ by_.Collateral → mine by_) {label : Label} {s s' : Db}
    (h : Takes num (fun by_ => ¬ by_.Collateral) label s s') : RowTakes mine label s s' := by
  cases label with
  | read => exact h
  | ledger by_ op =>
      exact h.imp_right fun ⟨hby, hstep⟩ =>
        ⟨hmine by_ hby, hstep.same.rowStep fun hcollateral => absurd hcollateral hby⟩
  | write by_ =>
      exact h.imp_right fun ⟨hby, hstep⟩ =>
        ⟨hmine by_ hby, (hstep.frame hby).rowStep fun hcollateral => absurd hcollateral hby⟩

theorem RowTakes.refl (mine : Issuer → Prop) (label : Label) (s : Db) :
    RowTakes mine label s s := by
  cases label with
  | read => rfl
  | ledger by_ op => exact .inl rfl
  | write by_ => exact .inl rfl

theorem RowTakes.mono {mine mine' : Issuer → Prop} {label : Label} {s s' : Db}
    (h : RowTakes mine label s s') (himp : ∀ by_, mine by_ → mine' by_) :
    RowTakes mine' label s s' := by
  cases label with
  | read => exact h
  | ledger by_ op => exact h.imp_right fun hstep => ⟨himp by_ hstep.1, hstep.2⟩
  | write by_ => exact h.imp_right fun hstep => ⟨himp by_ hstep.1, hstep.2⟩

/-- The contract about the rows, with an invariant that its steps keep. -/
abbrev rowContract (I : Db → Prop) (mine : Issuer → Prop) : Contract Label Db :=
  .stepping I (RowTakes mine) (RowTakes.refl mine)

section Rules

variable {I : Db → Prop} {mine : Issuer → Prop} {num : Numeric} {s : Db} {by_ : Issuer}
  {α β : Type} (hI : ∀ {label s s'}, I s → RowTakes mine label s s' → I s')

include hI

theorem row_ledger {op : LedgerOp} {tx : Tx α} {g : α → Api β} (hmine : mine by_)
    (hg : ∀ a s', (rowContract I mine).Safe (g a) s') :
    (rowContract I mine).Safe (Api.ledger by_ op tx >>= g : Api β) s := by
  apply Contract.safe_write
  intro s₁ a s₂ _ hinv _ hok
  obtain ⟨ledger, -, rfl⟩ := Api.within_ok hok
  have htakes : RowTakes mine (.ledger by_ op) s₁ { s₁ with ledger } :=
    .inr ⟨hmine, SameCollateral.rowStep ⟨rfl, rfl, rfl, rfl, rfl, rfl⟩ fun _ => ⟨rfl, rfl, rfl⟩⟩
  exact ⟨hI hinv htakes, htakes, False.elim, hg a _⟩

theorem row_write {f : Db → Except ApiError (β × Db)} (hmine : mine by_)
    (h : ∀ s₁ a s₂, f s₁ = .ok (a, s₂) → RowStep by_ s₁ s₂) :
    (rowContract I mine).Safe (Api.write by_ f) s := by
  apply Contract.safe_write_last
  intro s₁ a s₂ _ hinv _ hok
  have htakes : RowTakes mine (.write by_) s₁ s₂ := .inr ⟨hmine, h s₁ a s₂ hok⟩
  exact ⟨hI hinv htakes, htakes, False.elim⟩

theorem row_updatePledge {id : Id} {f : Pledge → Pledge}
    {hf : ∀ r, Keyed.key (f r) = Keyed.key r} (hmine : mine by_)
    (hdecides : ∀ r, (f r).status ≠ .pending) :
    (rowContract I mine).Safe (updatePledge by_ id f hf) s := by
  apply row_write hI hmine
  intro s₁ a s₂ hok
  obtain ⟨pledges, hupdate, hresult⟩ := map_ok.mp hok
  cases hresult
  exact .of_same (decided_update hupdate hdecides).1 rfl rfl (.inl rfl) fun _ => ⟨rfl, rfl, rfl⟩

theorem row_updateReleaseRequest {id : Id} {f : ReleaseRequest → ReleaseRequest}
    {hf : ∀ r, Keyed.key (f r) = Keyed.key r} (hmine : mine by_) :
    (rowContract I mine).Safe (updateReleaseRequest by_ id f hf) s := by
  apply row_write hI hmine
  intro s₁ a s₂ hok
  obtain ⟨requests, -, hresult⟩ := map_ok.mp hok
  cases hresult
  exact .of_same (fun p hp hstatus => ⟨p, hp, rfl, hstatus⟩) rfl rfl (.inl rfl) fun _ =>
    ⟨rfl, rfl, rfl⟩

theorem row_updateLien {id : Id} {f : Lien → Lien} {hf : ∀ r, Keyed.key (f r) = Keyed.key r}
    (hmine : mine by_) (hpledge : ∀ r, (f r).pledgeId = r.pledgeId)
    (hacts : ∀ l : Lien, l.id = id → by_.ActsOn l) :
    (rowContract I mine).Safe (updateLien by_ id f hf) s := by
  apply row_write hI hmine
  intro s₁ a s₂ hok
  obtain ⟨liens, hupdate, hresult⟩ := map_ok.mp hok
  cases hresult
  obtain ⟨hrows, hother⟩ := liens_update hupdate hpledge
  exact ⟨fun p hp hstatus => ⟨p, hp, rfl, hstatus⟩, .kept hrows,
    fun l hl hnot => hother l hl fun hid => hnot (hacts l hid), .same rfl, .inl rfl,
    fun _ => ⟨rfl, rfl, rfl⟩⟩

theorem row_releaseHeld {uuids : Uuids} {p : Pledge} {actorUserId : Option Id}
    {decision : String} (hmine : mine by_) :
    (rowContract I mine).Safe (releaseHeld num by_ uuids p actorUserId decision) s := by
  unfold releaseHeld
  split
  · trivial
  · exact row_ledger hI hmine fun _ _ => trivial

end Rules

section Requests

variable {I : Db → Prop} {mine : Issuer → Prop} {num : Numeric} {s : Db}
  (hI : ∀ {label s s'}, I s → RowTakes mine label s s' → I s')

include hI

theorem createPledge_rows (dto : CreatePledge) (hmine : mine (.createPledge dto.pledgeId)) :
    (rowContract I mine).Safe (createPledge num dto) s := by
  refine Contract.safe_read fun s₁ _ _ => Contract.safe_orThrow fun caller _ => ?_
  refine Contract.safe_read fun s₂ _ _ => Contract.safe_orThrow fun receipt _ => ?_
  refine Contract.safe_throwIf fun _ => Contract.safe_throwIf fun _ => ?_
  refine Contract.safe_bind ?_ fun available s₃ _ => Contract.safe_throwIf fun _ => ?_
  · exact Contract.safe_read fun _ _ _ => Contract.safe_orThrow fun _ _ =>
      Contract.safe_throwIf fun _ => Contract.safe_read_last
  refine Contract.safe_read fun s₄ _ _ => Contract.safe_orThrow fun org _ => ?_
  refine Contract.safe_throwIf fun _ => row_ledger hI hmine fun result s₅ => ?_
  refine Contract.safe_orThrow fun held _ => row_write hI hmine fun s₆ _ s₇ hok => ?_
  obtain ⟨pledges, hcreate, hresult⟩ := map_ok.mp hok
  cases hresult
  obtain ⟨-, hinsert⟩ := createRow_ok.mp hcreate
  exact .of_same (fun p hp hstatus => ⟨p, (Table.mem_insert hinsert).mpr (.inl hp), rfl, hstatus⟩)
    rfl rfl (.inl rfl) fun _ => ⟨rfl, rfl, rfl⟩

section Decisions

variable (hdecide : ∀ {s : Db} {p : Pledge} {by_ : Issuer}, I s → p ∈ s.pledges →
  p.status = .pending → by_.Decides p.id → mine by_)

include hdecide

theorem cancelPledge_rows (uuids : Uuids) (callerUserId pledgeId : Id) :
    (rowContract I mine).Safe (cancelPledge num uuids callerUserId pledgeId) s := by
  refine Contract.safe_read fun s₁ _ hs₁ => Contract.safe_orThrow fun p hp => ?_
  refine Contract.safe_throwIf fun hpending => ?_
  have hmine : mine (.cancelPledge p.id) := hdecide hs₁
    (Table.mem_of_find (Option.filter_eq_some_iff.mp hp).1) (not_not.mp hpending) rfl
  refine Contract.safe_bind (row_releaseHeld hI hmine) fun _ s₂ _ => ?_
  exact row_updatePledge hI hmine fun _ => nofun

theorem acceptPledge_rows (dto : AcceptPledge) :
    (rowContract I mine).Safe (acceptPledge num dto) s := by
  refine Contract.safe_bind safe_requireFinancierOrg fun org s₁ _ => ?_
  refine Contract.safe_find fun s₂ p _ hs₂ hp => Contract.safe_throwIf fun hpending => ?_
  have hmine : mine (.acceptPledge p.id) := hdecide hs₂
    (Table.mem_of_find (Option.filter_eq_some_iff.mp hp).1) (not_not.mp hpending) rfl
  refine Contract.safe_throwIf fun _ => Contract.safe_orThrow fun heldReceiptId _ => ?_
  refine Contract.safe_ofExcept fun _ _ => row_ledger hI hmine fun _ s₃ => ?_
  refine Contract.safe_bind (row_write hI hmine fun s₄ _ s₅ hok => ?_) fun _ _ _ =>
    getFinancierPledgeDetail_safe _ _
  obtain ⟨liens, hcreate, hok⟩ := bind_ok.mp hok
  obtain ⟨pledges, hupdate, hok⟩ := bind_ok.mp hok
  cases hok
  obtain ⟨hfirst, hinsert⟩ := createRow_ok.mp hcreate
  obtain ⟨-, hrows⟩ := Table.insert_eq_some_iff.mp hinsert
  obtain ⟨hkept, hdecided⟩ := decided_update hupdate fun _ => nofun
  exact ⟨hkept, .opened _ hrows hfirst hdecided,
    fun l hl _ => (Table.mem_insert hinsert).mpr (.inl hl), .same rfl, .inl rfl,
    fun _ => ⟨rfl, rfl, rfl⟩⟩

theorem rejectPledge_rows (uuids : Uuids) (callerUserId pledgeId : Id) (reason : String) :
    (rowContract I mine).Safe (rejectPledge num uuids callerUserId pledgeId reason) s := by
  refine Contract.safe_bind safe_requireFinancierOrg fun org s₁ _ => ?_
  refine Contract.safe_find fun s₂ p _ hs₂ hp => Contract.safe_throwIf fun hpending => ?_
  have hmine : mine (.rejectPledge p.id) := hdecide hs₂
    (Table.mem_of_find (Option.filter_eq_some_iff.mp hp).1) (not_not.mp hpending) rfl
  refine Contract.safe_bind (row_releaseHeld hI hmine) fun _ s₃ _ => ?_
  exact Contract.safe_bind (row_updatePledge hI hmine fun _ => nofun) fun _ _ _ =>
    getFinancierPledgeDetail_safe _ _

theorem expireStalePledges_rows (uuids : Id → Uuids) (now : Timestamp) :
    (rowContract I mine).Safe (expireStalePledges num uuids now) s := by
  refine Contract.safe_read fun s₁ _ hs₁ => ?_
  have hmine : ∀ p ∈ s₁.pledges.rows.filter fun p => p.status = .pending ∧ p.expiresAt ≤ now,
      mine (.expirePledge p.id) := by
    intro p hp
    obtain ⟨hmem, hstale⟩ := List.mem_filter.mp hp
    exact hdecide hs₁ hmem (of_decide_eq_true hstale).1 rfl
  refine Contract.safe_forEach (fun _ => True) (fun _ _ => trivial) ?_ trivial
  intro p hp s' _
  refine Contract.safe_recover (Contract.safe_bind ?_ fun _ s'' _ => ?_) fun _ _ => trivial
  · exact row_releaseHeld hI (hmine p hp)
  · exact row_updatePledge hI (hmine p hp) fun _ => nofun

end Decisions

theorem createReleaseRequest_rows (dto : CreateReleaseRequest)
    (hmine : mine (.createReleaseRequest dto.requestId)) :
    (rowContract I mine).Safe (createReleaseRequest num dto) s := by
  refine Contract.safe_read fun s₁ _ _ => Contract.safe_orThrow fun caller _ => ?_
  refine Contract.safe_read fun s₂ _ _ => Contract.safe_read fun s₃ _ _ => ?_
  refine Contract.safe_bind ?_ fun _ s₄ _ => row_write hI hmine fun s₅ _ s₆ hok => ?_
  · refine Contract.safe_forEach (fun _ => True) (fun _ _ => trivial) ?_ trivial
    intro line _ s' _
    refine Contract.safe_orThrow fun l _ => Contract.safe_throwIf fun _ => ?_
    refine Contract.safe_throwIf fun _ => Contract.safe_throwIf fun _ => ?_
    refine Contract.safe_throwIf fun _ => ?_
    unfold Api.throwIf Attempt.throwIf
    split <;> trivial
  obtain ⟨requests, -, hok⟩ := bind_ok.mp hok
  obtain ⟨lines, -, hok⟩ := bind_ok.mp hok
  cases hok
  exact .of_same (fun p hp hstatus => ⟨p, hp, rfl, hstatus⟩) rfl rfl (.inr ⟨_, rfl⟩) fun _ =>
    ⟨rfl, rfl, rfl⟩

theorem approveReleaseRequest_rows (dto : ApproveReleaseRequest)
    (hmine : mine (.approveReleaseRequest dto.requestId))
    (hline : ∀ {s : Db} {x : ReleaseRequestLine}, I s → x ∈ s.releaseRequestLines →
      x.releaseRequestId = dto.requestId →
        mine (.approveReleaseLine dto.requestId x.id x.lienId)) :
    (rowContract I mine).Safe (approveReleaseRequest num dto) s := by
  refine Contract.safe_bind safe_requireFinancierOrg fun org s₁ _ => ?_
  refine Contract.safe_read fun s₂ _ hs₂ => Contract.safe_orThrow fun found hfound => ?_
  obtain ⟨req, hreq, rfl⟩ := Option.map_eq_some_iff.mp hfound
  have hid : req.id = dto.requestId := Table.key_of_find (Option.filter_eq_some_iff.mp hreq).1
  rw [← hid] at hmine hline
  refine Contract.safe_throwIf fun _ => Contract.safe_bind ?_ fun _ s₃ _ => ?_
  · refine Contract.safe_forEach (fun _ => True) (fun _ _ => trivial) ?_ trivial
    intro l _ s' _
    refine Contract.safe_throwIf fun _ => ?_
    unfold Api.throwIf Attempt.throwIf
    split <;> trivial
  refine Contract.safe_ofExcept fun _ _ => Contract.safe_bind ?_ fun _ s₄ _ => ?_
  · refine Contract.safe_forEach (fun _ => True) (fun _ _ => trivial) ?_ trivial
    intro l hl s' _
    obtain ⟨hx, hrequest, -, hlien⟩ := mem_loadedLines hl
    have hmine' : mine (.approveReleaseLine req.id l.line.id l.lien.id) :=
      hlien ▸ hline hs₂ hx hrequest
    dsimp only [releaseLine]
    split
    · exact row_ledger hI hmine' fun _ _ => row_updateLien hI hmine' (fun _ => rfl)
        fun _ hacts => hacts.symm
    · exact row_ledger hI hmine' fun _ _ => Contract.safe_orThrow fun _ _ =>
        row_updateLien hI hmine' (fun _ => rfl) fun _ hacts => hacts.symm
  · exact Contract.safe_bind (row_updateReleaseRequest hI hmine) fun _ _ _ =>
      getFinancierReleaseRequestDetail_safe _ _

omit hI in
/-- The record of a forced release. -/
theorem forceRelease_rowStep {f : ForceRelease} {forceReleases : Table ForceRelease}
    {liens : Table Lien} {now : Timestamp} (hfirst : ∀ f' ∈ s.forceReleases, f'.lienId ≠ f.lienId)
    (hinsert : s.forceReleases.insert f = some forceReleases)
    (hupdate : updateRow s.liens f.lienId (fun r =>
      { r with status := .forceReleased, remainingQuantity := 0, releasedAt := some now })
        (fun _ => rfl) = .ok liens) :
    RowStep (.forceReleaseLien f.lienId) s { s with forceReleases, liens } := by
  obtain ⟨-, hrows⟩ := Table.insert_eq_some_iff.mp hinsert
  obtain ⟨hkept, hother⟩ := liens_update hupdate fun _ => rfl
  exact ⟨fun p hp hstatus => ⟨p, hp, rfl, hstatus⟩, .kept hkept,
    fun l hl hnot => hother l hl fun hsame => hnot hsame.symm, .forced _ rfl hrows hfirst,
    .inl rfl, fun _ => ⟨rfl, rfl, rfl⟩⟩

theorem forceReleaseLien_rows (dto : ForceReleaseLien)
    (hmine : mine (.forceReleaseLien dto.lienId)) :
    (rowContract I mine).Safe (forceReleaseLien num dto) s := by
  refine Contract.safe_read fun s₁ _ hs₁ => Contract.safe_orThrow fun found hfound => ?_
  obtain ⟨l, hl, rfl⟩ := Option.map_eq_some_iff.mp hfound
  obtain hid : l.id = dto.lienId := Table.key_of_find (Option.filter_eq_some_iff.mp hl).1
  rw [← hid] at hmine
  dsimp only
  split
  · trivial
  refine Contract.safe_throwIf fun _ => row_ledger hI hmine fun _ s₂ => ?_
  refine row_write hI hmine fun s₃ _ s₄ hok => ?_
  obtain ⟨forced, hcreate, hok⟩ := bind_ok.mp hok
  obtain ⟨liens, hupdate, hok⟩ := bind_ok.mp hok
  cases hok
  obtain ⟨hfirst, hinsert⟩ := createRow_ok.mp hcreate
  exact forceRelease_rowStep hfirst hinsert hupdate

/-- What the issuers of a request about pledges and liens have to be allowed. -/
theorem Request.rows (request : Request) (hcollateral : request.Collateral)
    (hfree : ∀ by_ : Issuer, by_.Collateral → (∀ l, ¬ by_.ActsOn l) → mine by_)
    (hdecide : ∀ {s : Db} {p : Pledge} {by_ : Issuer}, I s → p ∈ s.pledges →
      p.status = .pending → by_.Decides p.id → mine by_)
    (hline : ∀ dto, request = .approveReleaseRequest dto → ∀ {s : Db} {x : ReleaseRequestLine},
      I s → x ∈ s.releaseRequestLines → x.releaseRequestId = dto.requestId →
        mine (.approveReleaseLine dto.requestId x.id x.lienId))
    (hforce : ∀ dto, request = .forceReleaseLien dto → mine (.forceReleaseLien dto.lienId)) :
    (rowContract I mine).Safe (request.run num) s := by
  cases request with
  | createPledge dto => exact createPledge_rows hI dto (hfree _ trivial fun _ h => h)
  | cancelPledge uuids callerUserId pledgeId =>
      exact cancelPledge_rows hI hdecide uuids callerUserId pledgeId
  | acceptPledge dto => exact acceptPledge_rows hI hdecide dto
  | rejectPledge uuids callerUserId pledgeId reason =>
      exact rejectPledge_rows hI hdecide uuids callerUserId pledgeId reason
  | expireStalePledges uuids now => exact expireStalePledges_rows hI hdecide uuids now
  | createReleaseRequest dto =>
      exact createReleaseRequest_rows hI dto (hfree _ trivial fun _ h => h)
  | cancelReleaseRequest callerUserId requestId =>
      exact Contract.safe_read fun _ _ _ => Contract.safe_orThrow fun _ _ =>
        Contract.safe_throwIf fun _ => row_updateReleaseRequest hI (hfree _ trivial fun _ h => h)
  | approveReleaseRequest dto =>
      exact approveReleaseRequest_rows hI dto (hfree _ trivial fun _ h => h) (hline dto rfl)
  | rejectReleaseRequest callerUserId requestId reason =>
      exact Contract.safe_bind safe_requireFinancierOrg fun _ _ _ =>
        Contract.safe_read fun _ _ _ => Contract.safe_orThrow fun _ _ =>
          Contract.safe_throwIf fun _ =>
            Contract.safe_bind (row_updateReleaseRequest hI (hfree _ trivial fun _ h => h))
            fun _ _ _ =>
              getFinancierReleaseRequestDetail_safe _ _
  | forceReleaseLien dto => exact forceReleaseLien_rows hI dto (hforce dto rfl)
  | _ => exact absurd hcollateral id

end Requests

/-! ## What the rows keep -/

/-- A lien is of a pledge that was decided, a pledge has one lien at most, and a lien one forced
release. -/
structure Rowed (s : Db) : Prop where
  decided : ∀ l ∈ s.liens, ∃ p ∈ s.pledges, p.id = l.pledgeId ∧ p.status ≠ .pending
  single : ∀ l ∈ s.liens, ∀ l' ∈ s.liens, l.pledgeId = l'.pledgeId → l = l'
  unique : ∀ f ∈ s.forceReleases, ∀ f' ∈ s.forceReleases, f.lienId = f'.lienId → f = f'

theorem rowed_initial (directory : Directory) : Rowed (Db.initial directory) := by
  constructor <;> simp [Db.initial]

/-- A row whose value is new leaves the values unique. -/
theorem unique_append {ρ γ : Type} {rows : List ρ} {new : ρ} {value : ρ → γ}
    (h : ∀ x ∈ rows, ∀ y ∈ rows, value x = value y → x = y)
    (hnew : ∀ x ∈ rows, value x ≠ value new) :
    ∀ x ∈ rows ++ [new], ∀ y ∈ rows ++ [new], value x = value y → x = y := by
  intro x hx y hy hsame
  rcases List.mem_append.mp hx with hold | hlast <;>
    rcases List.mem_append.mp hy with hold' | hlast'
  · exact h x hold y hold' hsame
  · obtain rfl := List.mem_singleton.mp hlast'
    exact absurd hsame (hnew x hold)
  · obtain rfl := List.mem_singleton.mp hlast
    exact absurd hsame.symm (hnew y hold')
  · rw [List.mem_singleton.mp hlast, List.mem_singleton.mp hlast']

section Rowed

variable {by_ : Issuer} {s s' : Db}

theorem Rowed.of_same (h : Rowed s) (hsame : SameCollateral s s') : Rowed s' := by
  constructor
  · rw [hsame.liens, hsame.pledges]
    exact h.decided
  · rw [hsame.liens]
    exact h.single
  · rw [hsame.forceReleases]
    exact h.unique

theorem Rowed.step (h : Rowed s) (hstep : RowStep by_ s s') : Rowed s' where
  decided := by
    cases hstep.liens with
    | kept rows =>
        intro l' hl'
        obtain ⟨l, hl, -, hpledge⟩ := rows l' hl'
        obtain ⟨p, hp, hid, hstatus⟩ := h.decided l hl
        obtain ⟨p', hp', hid', hstatus'⟩ := hstep.decided p hp hstatus
        exact ⟨p', hp', hid'.trans (hid.trans hpledge), hstatus'⟩
    | opened new rows first decided =>
        intro l hl
        rw [Table.mem_def, rows] at hl
        rcases List.mem_append.mp hl with hl | hl
        · obtain ⟨p, hp, hid, hstatus⟩ := h.decided l hl
          obtain ⟨p', hp', hid', hstatus'⟩ := hstep.decided p hp hstatus
          exact ⟨p', hp', hid'.trans hid, hstatus'⟩
        · obtain rfl := List.mem_singleton.mp hl
          exact decided
  single := by
    cases hstep.liens with
    | kept rows =>
        intro l₁ hl₁ l₂ hl₂ hsame
        obtain ⟨l, hl, hid, hpledge⟩ := rows l₁ hl₁
        obtain ⟨l', hl', hid', hpledge'⟩ := rows l₂ hl₂
        obtain rfl := h.single l hl l' hl' (hpledge.trans (hsame.trans hpledge'.symm))
        exact Table.eq_of_key_eq hl₁ hl₂ (hid.symm.trans hid')
    | opened new rows first decided =>
        intro l hl l' hl'
        rw [Table.mem_def, rows] at hl hl'
        exact unique_append h.single first l hl l' hl'
  unique := by
    cases hstep.forced with
    | same rows =>
        rw [rows]
        exact h.unique
    | forced new issuer rows first =>
        intro f hf f' hf'
        rw [Table.mem_def, rows] at hf hf'
        exact unique_append h.unique first f hf f' hf'

theorem Rowed.takes {mine : Issuer → Prop} {label : Label} (h : Rowed s)
    (htakes : RowTakes mine label s s') : Rowed s' := by
  rcases htakes.cases with rfl | ⟨by_, -, hstep⟩
  · exact h
  · exact h.step hstep

end Rowed

end SecureStore.Services
