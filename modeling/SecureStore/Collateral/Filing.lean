/-
# Lines, liens and releases on file

Three facts about every reachable state, however its requests were interleaved and wherever
they crashed: a line asks for a positive quantity, a pledge has one lien at most, and the
leaf that a line was released from is held no more, so no second line was released from it.
-/

import SecureStore.Collateral.Backing
import SecureStore.Collateral.Books

namespace SecureStore.Services

open SecureStore.Foundation SecureStore.Inventory

/-! ## Lines and liens -/

/-- Lines are positive, and a pledge has one lien at most. -/
structure Filed (s : Db) : Prop where
  positive : ∀ x ∈ s.releaseRequestLines, 0 < x.quantity
  single : ∀ l ∈ s.liens, ∀ l' ∈ s.liens, l.pledgeId = l'.pledgeId → l = l'

/-- The contract about the files alone. -/
def filing : Contract Label Db where
  inv := Filed
  rely _ _ := True
  admits _ _ := True
  guar _ _ _ := True
  debt _ := False
  rely_refl _ := trivial
  rely_trans _ _ := trivial
  guar_refl _ _ := trivial
  guar_rely _ _ := trivial

theorem Filed.of_same {s s' : Db} (h : Filed s)
    (hlines : s'.releaseRequestLines = s.releaseRequestLines) (hliens : s'.liens = s.liens) :
    Filed s' := by
  constructor
  · rw [hlines]
    exact h.positive
  · rw [hliens]
    exact h.single

/-- An update that leaves every lien with its pledge. -/
theorem Filed.modify {s s' : Db} (h : Filed s) {id : Id} {f : Lien → Lien}
    {hf : ∀ r, Keyed.key (f r) = Keyed.key r} (hpledge : ∀ r, (f r).pledgeId = r.pledgeId)
    (hlines : s'.releaseRequestLines = s.releaseRequestLines)
    (hliens : s'.liens = s.liens.modify id f hf) : Filed s' := by
  constructor
  · rw [hlines]
    exact h.positive
  · intro l hl l' hl' hsame
    have hbefore : ∀ x ∈ s'.liens, ∃ y ∈ s.liens, x.id = y.id ∧ x.pledgeId = y.pledgeId := by
      intro x hx
      rw [hliens] at hx
      obtain ⟨y, hy, hid, ⟨-, rfl⟩ | ⟨-, rfl⟩⟩ := Table.exists_of_mem_modify f hf hx
      · exact ⟨y, hy, hf y, hpledge y⟩
      · exact ⟨x, hy, rfl, rfl⟩
    obtain ⟨y, hy, hid, hyp⟩ := hbefore l hl
    obtain ⟨y', hy', hid', hyp'⟩ := hbefore l' hl'
    have heq : y = y' := h.single y hy y' hy' (hyp.symm.trans (hsame.trans hyp'))
    exact Table.eq_of_key_eq hl hl' (hid.trans ((congrArg Lien.id heq).trans hid'.symm))

section Rules

variable {num : Numeric} {s : Db} {by_ : Issuer} {α β : Type}

theorem filing_ledger {op : LedgerOp} {tx : Tx α} {g : α → Api β}
    (h : ∀ a s', filing.Safe (g a) s') : filing.Safe (Api.ledger by_ op tx >>= g : Api β) s := by
  apply Contract.safe_write
  intro s₁ a s₂ _ hinv _ hok
  obtain ⟨ledger, -, rfl⟩ := Api.within_ok hok
  exact ⟨Filed.of_same hinv rfl rfl, trivial, False.elim, h a _⟩

theorem filing_write {f : Db → Except ApiError (β × Db)}
    (h : ∀ s₁ a s₂, Filed s₁ → f s₁ = .ok (a, s₂) → Filed s₂) :
    filing.Safe (Api.write by_ f) s := by
  apply Contract.safe_write_last
  intro s₁ a s₂ _ hinv _ hok
  exact ⟨h s₁ a s₂ hinv hok, trivial, False.elim⟩

theorem filing_updatePledge {id : Id} {f : Pledge → Pledge}
    {hf : ∀ r, Keyed.key (f r) = Keyed.key r} : filing.Safe (updatePledge by_ id f hf) s := by
  apply filing_write
  intro s₁ _ s₂ hs₁ hok
  obtain ⟨pledges, -, hresult⟩ := map_ok.mp hok
  cases hresult
  exact hs₁.of_same rfl rfl

theorem filing_updateReleaseRequest {id : Id} {f : ReleaseRequest → ReleaseRequest}
    {hf : ∀ r, Keyed.key (f r) = Keyed.key r} :
    filing.Safe (updateReleaseRequest by_ id f hf) s := by
  apply filing_write
  intro s₁ _ s₂ hs₁ hok
  obtain ⟨requests, -, hresult⟩ := map_ok.mp hok
  cases hresult
  exact hs₁.of_same rfl rfl

theorem filing_updateLien {id : Id} {f : Lien → Lien} {hf : ∀ r, Keyed.key (f r) = Keyed.key r}
    (hpledge : ∀ r, (f r).pledgeId = r.pledgeId) : filing.Safe (updateLien by_ id f hf) s := by
  apply filing_write
  intro s₁ _ s₂ hs₁ hok
  obtain ⟨liens, hupdate, hresult⟩ := map_ok.mp hok
  cases hresult
  obtain ⟨-, -, hliens⟩ := updateRow_ok.mp hupdate
  exact hs₁.modify hpledge rfl hliens

theorem filing_releaseHeld {uuids : Uuids} {p : Pledge} {actorUserId : Option Id}
    {decision : String} :
    filing.Safe (releaseHeld num by_ uuids p actorUserId decision) s := by
  unfold releaseHeld
  split
  · trivial
  · exact filing_ledger fun _ _ => trivial

end Rules

section Requests

variable {num : Numeric} {s : Db}

theorem createPledge_filing (dto : CreatePledge) : filing.Safe (createPledge num dto) s := by
  apply Contract.safe_read
  intro s₁ _ _
  apply Contract.safe_orThrow
  intro caller _
  apply Contract.safe_read
  intro s₂ _ _
  apply Contract.safe_orThrow
  intro receipt _
  apply Contract.safe_throwIf
  intro _
  apply Contract.safe_throwIf
  intro _
  apply Contract.safe_bind
  · apply Contract.safe_read
    intro _ _ _
    apply Contract.safe_orThrow
    intro _ _
    apply Contract.safe_throwIf
    intro _
    exact Contract.safe_read_last
  intro available s₃ _
  apply Contract.safe_throwIf
  intro _
  apply Contract.safe_read
  intro s₄ _ _
  apply Contract.safe_orThrow
  intro org _
  apply Contract.safe_throwIf
  intro _
  apply filing_ledger
  intro result s₅
  apply Contract.safe_orThrow
  intro held _
  apply filing_write
  intro s' _ s'' hs' hok
  obtain ⟨pledges, -, hresult⟩ := map_ok.mp hok
  cases hresult
  exact hs'.of_same rfl rfl

/-- The lien of an acceptance is refused when its pledge has one. -/
theorem acceptPledge_filing (dto : AcceptPledge) : filing.Safe (acceptPledge num dto) s := by
  apply Contract.safe_bind safe_requireFinancierOrg
  intro org s₁ _
  apply Contract.safe_find
  intro s₂ p _ _ _
  apply Contract.safe_throwIf
  intro _
  apply Contract.safe_throwIf
  intro _
  apply Contract.safe_orThrow
  intro heldReceiptId _
  apply Contract.safe_ofExcept
  intro _ _
  apply filing_ledger
  intro _ s₃
  apply Contract.safe_bind
  · apply filing_write
    intro s' _ s'' hs' hok
    obtain ⟨liens, hcreate, hok⟩ := bind_ok.mp hok
    obtain ⟨pledges, -, hok⟩ := bind_ok.mp hok
    cases hok
    obtain ⟨hfree, hinsert⟩ := createRow_ok.mp hcreate
    refine ⟨hs'.positive, ?_⟩
    intro l hl l' hl' hsame
    rcases (Table.mem_insert hinsert).mp hl with hl | rfl <;>
      rcases (Table.mem_insert hinsert).mp hl' with hl' | rfl
    · exact hs'.single l hl l' hl' hsame
    · exact absurd hsame (hfree l hl)
    · exact absurd hsame.symm (hfree l' hl')
    · rfl
  · intro _ _ _
    exact getFinancierPledgeDetail_safe _ _

/-- The lines that the request asks for stay positive in their column. -/
def Request.LinesStay (num : Numeric) : Request → Prop
  | .createReleaseRequest dto =>
      ∀ line ∈ dto.lines, 0 < line.quantity → 0 < num.numeric20_4 line.quantity
  | _ => True

theorem Request.linesStay_exact (request : Request) : request.LinesStay .exact := by
  cases request with
  | createReleaseRequest dto => exact fun _ _ hpositive => hpositive
  | _ => trivial

theorem createReleaseRequest_filing {dto : CreateReleaseRequest}
    (hstay : (Request.createReleaseRequest dto).LinesStay num) :
    filing.Safe (createReleaseRequest num dto) s := by
  apply Contract.safe_read
  intro s₁ _ _
  apply Contract.safe_orThrow
  intro caller _
  apply Contract.safe_read
  intro s₂ _ _
  apply Contract.safe_read
  intro s₃ h₃ _
  apply Contract.safe_checks (Attempt.checks_forEach validateLine_checks dto.lines)
  intro hlines
  apply filing_write
  intro s' _ s'' hs' hok
  obtain ⟨requests, -, hok⟩ := bind_ok.mp hok
  obtain ⟨lines, hadd, hok⟩ := bind_ok.mp hok
  cases hok
  obtain ⟨added, hrows, hadded, -⟩ := createLines_adds hadd
  refine ⟨?_, hs'.single⟩
  intro x hx
  rw [Table.mem_def, hrows] at hx
  rcases List.mem_append.mp hx with hx | hx
  · exact hs'.positive x hx
  · obtain ⟨-, line, hline, -, hquantity⟩ := hadded x hx
    rw [hquantity]
    exact hstay line hline (hlines line hline).1

theorem approveReleaseRequest_filing (dto : ApproveReleaseRequest) :
    filing.Safe (approveReleaseRequest num dto) s := by
  apply Contract.safe_bind safe_requireFinancierOrg
  intro org s₁ _
  apply Contract.safe_read
  intro s₂ _ _
  apply Contract.safe_orThrow
  intro found hfound
  obtain ⟨req, -, rfl⟩ := Option.map_eq_some_iff.mp hfound
  apply Contract.safe_throwIf
  intro _
  apply Contract.safe_bind
  · apply Contract.safe_forEach (fun _ => True) (fun _ _ => trivial) _ trivial
    intro l _ s' _
    apply Contract.safe_throwIf
    intro _
    unfold Api.throwIf Attempt.throwIf
    split <;> trivial
  intro _ s₃ _
  apply Contract.safe_ofExcept
  intro _ _
  apply Contract.safe_bind
  · apply Contract.safe_forEach (fun _ => True) (fun _ _ => trivial) _ trivial
    intro l _ s' _
    unfold releaseLine
    split
    · apply filing_ledger
      intro _ _
      exact filing_updateLien fun _ => rfl
    · apply filing_ledger
      intro _ _
      apply Contract.safe_orThrow
      intro held _
      exact filing_updateLien fun _ => rfl
  intro _ s₄ _
  apply Contract.safe_bind filing_updateReleaseRequest
  intro _ _ _
  exact getFinancierReleaseRequestDetail_safe _ _

theorem forceReleaseLien_filing (dto : ForceReleaseLien) :
    filing.Safe (forceReleaseLien num dto) s := by
  apply Contract.safe_read
  intro s₁ _ _
  apply Contract.safe_orThrow
  intro found hfound
  obtain ⟨l, -, rfl⟩ := Option.map_eq_some_iff.mp hfound
  dsimp only
  split
  · trivial
  apply Contract.safe_throwIf
  intro _
  apply filing_ledger
  intro _ s₂
  apply filing_write
  intro s' _ s'' hs' hok
  obtain ⟨forced, -, hok⟩ := bind_ok.mp hok
  obtain ⟨liens, hupdate, hok⟩ := bind_ok.mp hok
  cases hok
  obtain ⟨-, -, hliens⟩ := updateRow_ok.mp hupdate
  refine hs'.modify ?_ rfl hliens
  exact fun _ => rfl

/-- Every request keeps the files. -/
theorem Request.filing {request : Request} (hstay : request.LinesStay num) (s : Db) :
    filing.Safe (request.run num) s := by
  cases request with
  | createPledge dto => exact createPledge_filing dto
  | cancelPledge uuids callerUserId pledgeId =>
      apply Contract.safe_find
      intro s₁ p _ _ _
      apply Contract.safe_throwIf
      intro _
      apply Contract.safe_bind filing_releaseHeld
      intro _ _ _
      exact filing_updatePledge
  | acceptPledge dto => exact acceptPledge_filing dto
  | rejectPledge uuids callerUserId pledgeId reason =>
      apply Contract.safe_bind safe_requireFinancierOrg
      intro org s₁ _
      apply Contract.safe_find
      intro s₂ p _ _ _
      apply Contract.safe_throwIf
      intro _
      apply Contract.safe_bind filing_releaseHeld
      intro _ _ _
      apply Contract.safe_bind filing_updatePledge
      intro _ _ _
      exact getFinancierPledgeDetail_safe _ _
  | expireStalePledges uuids now =>
      apply Contract.safe_read
      intro s₁ _ _
      apply Contract.safe_forEach (fun _ => True) (fun _ _ => trivial) _ trivial
      intro p _ s₂ _
      apply Contract.safe_recover
      · apply Contract.safe_bind filing_releaseHeld
        intro _ _ _
        exact filing_updatePledge
      · exact fun _ _ => trivial
  | createReleaseRequest dto => exact createReleaseRequest_filing hstay
  | cancelReleaseRequest callerUserId requestId =>
      apply Contract.safe_find
      intro s₁ req _ _ _
      apply Contract.safe_throwIf
      intro _
      exact filing_updateReleaseRequest
  | approveReleaseRequest dto => exact approveReleaseRequest_filing dto
  | rejectReleaseRequest callerUserId requestId reason =>
      apply Contract.safe_bind safe_requireFinancierOrg
      intro org s₁ _
      apply Contract.safe_find
      intro s₂ req _ _ _
      apply Contract.safe_throwIf
      intro _
      apply Contract.safe_bind filing_updateReleaseRequest
      intro _ _ _
      exact getFinancierReleaseRequestDetail_safe _ _
  | forceReleaseLien dto => exact forceReleaseLien_filing dto
  | _ =>
      apply Contract.safe_of_takes _ (Request.leaves _ id)
      intro label s s' hs hsame
      exact ⟨Filed.of_same hs hsame.releaseRequestLines hsame.liens, trivial, id⟩

end Requests

theorem filed_initial (directory : Directory) : Filed (Db.initial directory) := by
  constructor <;> simp [Db.initial]

/-! ## Releases in the log -/

/-- The keys under which a line of a request is released. -/
def ReleaseKey (key : IdempotencyKey) : Prop :=
  ∃ requestId lineId, key = fullKey requestId lineId ∨ key = partialKey requestId lineId

/-- A leaf that a line was released from is held no more, and no other line was released
from it. -/
structure ReleasedOnce (s : Ledger) : Prop where
  freed : ∀ e ∈ s.events, ReleaseKey e.idempotencyKey →
    ∃ r ∈ s.receipts, r.id = e.fromReceiptId ∧ ¬ r.status.Held
  once : ∀ e ∈ s.events, ∀ e' ∈ s.events, ReleaseKey e.idempotencyKey →
    ReleaseKey e'.idempotencyKey → e.fromReceiptId = e'.fromReceiptId → e = e'

theorem releasedOnce_empty : ReleasedOnce Ledger.empty := by
  constructor <;> simp

/-- What a call under a release key is. -/
theorem Calls.of_release_key {by_ : Issuer} {op : LedgerOp} (h : Calls by_ op)
    (hkey : ReleaseKey op.idempotencyKey) :
    (∃ ctx id, op = .release ctx id) ∨ ∃ input, op = .releasePartial input := by
  obtain ⟨requestId, lineId, hkey⟩ := hkey
  cases h with
  | releaseFully => exact .inl ⟨_, _, rfl⟩
  | releasePartly => exact .inr ⟨_, rfl⟩
  | _ => simp_all [LedgerOp.idempotencyKey, fullKey, partialKey, withdrawalKey, loanKey, tradeKey]

section Steps

variable {num : Numeric} {uuids : Uuids} {s s' : Ledger} {op : LedgerOp}
  {events : List InventoryEvent} {change : Change} {result : LedgerResult}

/-- A release takes the hold off the leaf that its event names. -/
theorem release_frees (h : Effect num uuids s op events change result)
    (hop : (∃ ctx id, op = .release ctx id) ∨ ∃ input, op = .releasePartial input) :
    ∃ r r' e, events = [e] ∧ s.receipts.find r.id = some r ∧ r.status.Held ∧
      change.rewritten = some (r, r') ∧ ¬ r'.status.Held ∧ e.fromReceiptId = r.id := by
  rcases hop with ⟨ctx, id, rfl⟩ | ⟨input, rfl⟩
  · cases h with
    | release ctx r loaded held =>
        refine ⟨r, _, _, rfl, ?_, held, rfl, ?_, rfl⟩
        · exact Table.find_of_mem (Table.mem_of_find loaded.1)
        · simp [ReceiptStatus.Held, heldStatuses]
  · cases h with
    | releasePartial input src number number' loaded lien =>
        refine ⟨src, _, _, rfl, ?_, ?_, rfl, ?_, rfl⟩
        · exact Table.find_of_mem (Table.mem_of_find loaded.1)
        · rw [lien]
          decide
        · simp [ReceiptStatus.Held, heldStatuses, supersede]

end Steps

theorem LedgerStep.releasedOnce {num : Numeric} {by_ : Issuer} {op : LedgerOp} {s s' : Db}
    (h : LedgerStep num by_ op s s') (hs : ReleasedOnce s.ledger) : ReleasedOnce s'.ledger := by
  obtain ⟨uuids, events, change, result, heffect, hcommits⟩ := h.effect
  have hold : ∀ e ∈ s.ledger.events, ReleaseKey e.idempotencyKey →
      ∃ r ∈ s'.ledger.receipts, r.id = e.fromReceiptId ∧ ¬ r.status.Held := by
    intro e he hkey
    obtain ⟨r, hr, hfrom, hfree⟩ := hs.freed e he hkey
    obtain ⟨r', hr', hnode, hmoves⟩ := (hcommits.later heffect).receipts r hr
    exact ⟨r', hr', hnode.id.trans hfrom, fun hheld => hfree (held_reached hmoves hheld)⟩
  -- a new event under such a key takes the hold off a leaf that no earlier one named
  have hnew : ∀ e ∈ events, ReleaseKey e.idempotencyKey → events = [e] ∧
      (∃ r ∈ s'.ledger.receipts, r.id = e.fromReceiptId ∧ ¬ r.status.Held) ∧
        ∀ e' ∈ s.ledger.events, ReleaseKey e'.idempotencyKey →
          e'.fromReceiptId ≠ e.fromReceiptId := by
    intro e he hkey
    rcases h.rightful.calls.event_key heffect he with hop | ⟨tradeId, hsettle⟩
    · rw [hop] at hkey
      obtain ⟨r, r', e₀, rfl, hfind, hheld, hrewritten, hfree, hfrom⟩ :=
        release_frees heffect (h.rightful.calls.of_release_key hkey)
      obtain rfl := List.mem_singleton.mp he
      have hid : r'.id = r.id := (hcommits.found r r' hrewritten).2
      refine ⟨rfl, ⟨r', ?_, hid.trans hfrom.symm, hfree⟩, ?_⟩
      · have hafter := hcommits.find_receipt hfind
        rw [show change.apply r = r' by simp [Change.apply, hrewritten]] at hafter
        exact Table.mem_of_find hafter
      · intro e' he' hkey' hsame
        obtain ⟨r₀, hr₀, hid₀, hfree₀⟩ := hs.freed e' he' hkey'
        obtain rfl : r₀ = r := Table.eq_of_key_eq hr₀ (Table.mem_of_find hfind)
          (hid₀.trans (hsame.trans hfrom))
        exact hfree₀ hheld
    · obtain ⟨requestId, lineId, hkey⟩ := hkey
      rw [hsettle] at hkey
      simp [releaseKey, tradeKey, fullKey, partialKey] at hkey
  constructor
  · intro e he hkey
    rcases hcommits.mem_events.mp he with he | he
    · exact hold e he hkey
    · exact (hnew e he hkey).2.1
  · intro e he e' he' hkey hkey' hsame
    rcases hcommits.mem_events.mp he with he | he <;>
      rcases hcommits.mem_events.mp he' with he' | he'
    · exact hs.once e he e' he' hkey hkey' hsame
    · exact absurd hsame ((hnew e' he' hkey').2.2 e he hkey)
    · exact absurd hsame.symm ((hnew e he hkey).2.2 e' he' hkey')
    · rw [(hnew e he hkey).1] at he'
      exact (List.mem_singleton.mp he').symm

theorem Takes.releasedOnce {num : Numeric} {mine : Issuer → Prop} {label : Label} {s s' : Db}
    (h : Takes num mine label s s') (hs : ReleasedOnce s.ledger) : ReleasedOnce s'.ledger := by
  cases label with
  | read =>
      rw [show s' = s from h]
      exact hs
  | ledger by_ op =>
      rcases h with rfl | ⟨-, hstep⟩
      · exact hs
      · exact hstep.releasedOnce hs
  | write by_ =>
      rcases h with rfl | ⟨-, hstep⟩
      · exact hs
      · rw [hstep.ledger]
        exact hs

theorem releasedOnce_of_rely {num : Numeric} {mine : Issuer → Prop} {s s' : Db}
    (h : (custody num mine).rely s s') (hs : ReleasedOnce s.ledger) : ReleasedOnce s'.ledger := by
  induction h with
  | refl => exact hs
  | tail _ hnext ih =>
      obtain ⟨-, label, htakes⟩ := hnext
      exact htakes.releasedOnce ih

/-! ## Every reachable state -/

/-- What rows and log tell of the releases in a reachable state. -/
structure OnFile (s : Db) : Prop where
  custody : Custody s
  filed : Filed s
  released : ReleasedOnce s.ledger

/-- The files along every run of any requests on an empty store. -/
theorem runs_onFile {num : Numeric} {directory : Directory} {requests : List Request}
    {trace : List (Transition Label Db)} {s : Db} {pool : List (Api Unit)}
    (hstay : ∀ request ∈ requests, request.LinesStay num)
    (h : Run (Db.initial directory) (requests.map (Request.run num)) trace s pool) :
    OnFile s := by
  have hcustody := runs_custody num directory requests h
  have hfiling : filing.RunHolds (Db.initial directory) trace s pool := by
    apply Contract.Holds.run ⟨filed_initial directory, _, False.elim⟩ h fun _ _ => trivial
    intro p hp
    obtain ⟨request, hmem, rfl⟩ := List.mem_map.mp hp
    exact Request.filing (hstay request hmem) _
  refine ⟨hcustody.final.inv, hfiling.final.inv, ?_⟩
  apply h.history (P := fun _ s => ReleasedOnce s.ledger) releasedOnce_empty
  intro earlier t later htrace hbefore
  obtain ⟨-, htakes, -⟩ := hcustody.each t (by simp [htrace])
  exact Takes.releasedOnce htakes hbefore

end SecureStore.Services
