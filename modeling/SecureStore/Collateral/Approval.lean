/-
# The approval of a release request

An approval reads all lines with their liens once and then releases line by line. As the
lines are on distinct liens, what was read of a lien still holds when its line comes, the
leaf is there to be released, and nothing between the first line and the last can fail.
-/

import SecureStore.Collateral.Agreement

namespace SecureStore.Services

open SecureStore.Foundation SecureStore.Inventory

/-- An approval that passes every check of the code. -/
structure ApproveReleaseRequest.Admitted (dto : ApproveReleaseRequest) (db : Db)
    (req : ReleaseRequest) : Prop where
  found : db.releaseRequests.find dto.requestId = some req
  member : MemberOf db.directory dto.callerUserId req.financierOrgId
  pending : req.status = .pending
  checked : ∀ l ∈ loadedLines db req.id,
    l.lien.status.Live ∧ l.line.quantity ≤ l.lien.remainingQuantity
  otp : dto.otp = .ok ()

/-- Every line that is approved is of a size that leaves carry, and is released under new
uuids. -/
structure ApproveReleaseRequest.Orderly (Sized : ℚ → Prop) (dto : ApproveReleaseRequest)
    (db : Db) : Prop where
  sized : ∀ req, dto.Admitted db req → ∀ x ∈ db.releaseRequestLines,
    x.releaseRequestId = req.id → Sized x.quantity
  fresh : ∀ x ∈ db.releaseRequestLines, x.releaseRequestId = dto.requestId →
    (dto.uuids x.id).Fresh db.ledger
  apart : ∀ x ∈ db.releaseRequestLines, ∀ y ∈ db.releaseRequestLines,
    x.releaseRequestId = dto.requestId → y.releaseRequestId = dto.requestId → x ≠ y →
      (dto.uuids x.id).Apart (dto.uuids y.id)

/-- The lines of the request that are not among the given ones. -/
def Done (requestId : Id) (rest : List LoadedLine) (requestId' lineId : Id) : Prop :=
  requestId' = requestId ∧ ∀ l ∈ rest, l.line.id ≠ lineId

section Approval

variable {num : Numeric} {Admitted Sized : ℚ → Prop} {busy : Id → Id → Prop} {s₀ s : Db}
  {dto : ApproveReleaseRequest} {req : ReleaseRequest} {l : LoadedLine} {rest : List LoadedLine}

theorem Backed.mono {busy' : Id → Id → Prop} (h : Backed num Admitted Sized busy s)
    (hbusy : ∀ requestId lineId, busy requestId lineId → busy' requestId lineId) :
    Backed num Admitted Sized busy' s := by
  refine ⟨h.volumes, h.rows, ?_⟩
  refine { h.logged with shown := fun key hused => ?_ }
  refine { h.logged.shown key hused with release := fun requestId lineId hkey => ?_ }
  exact ((h.logged.shown key hused).release requestId lineId hkey).imp_left (hbusy _ _)

/-- A line as the approval read it, when it is about to be released. -/
structure Waits (Sized : ℚ → Prop) (dto : ApproveReleaseRequest) (req : ReleaseRequest)
    (l : LoadedLine) (s : Db) : Prop where
  line : l.line ∈ s.releaseRequestLines
  request : l.line.releaseRequestId = req.id
  lien : l.lien ∈ s.liens
  id : l.lien.id = l.line.lienId
  live : l.lien.status.Live
  enough : l.line.quantity ≤ l.lien.remainingQuantity
  sized : Sized l.line.quantity
  fresh : (dto.uuids l.line.id).Fresh s.ledger

/-- The state between two lines. -/
structure Approving (num : Numeric) (Admitted Sized : ℚ → Prop) (dto : ApproveReleaseRequest)
    (req : ReleaseRequest) (rest : List LoadedLine) (s : Db) : Prop where
  backed : Backed num Admitted Sized (Done req.id rest) s
  request : req ∈ s.releaseRequests
  waits : ∀ l ∈ rest, Waits Sized dto req l s
  apart : rest.Pairwise fun l l' => l.line.id ≠ l'.line.id ∧ l.lien.id ≠ l'.lien.id ∧
    (dto.uuids l.line.id).Apart (dto.uuids l'.line.id)

/-- A line that waits names a leaf that its request may release. -/
theorem Waits.leaf (h : Waits Sized dto req l s) (hb : Backed num Admitted Sized busy s)
    (hreq : req ∈ s.releaseRequests) :
    ∃ r, Loaded s.ledger l.lien.receiptId req.tenantId r ∧ r.status = .heldLien ∧
      r.quantity = l.lien.remainingQuantity := by
  obtain ⟨r, hr, hid, hstatus, -, hquantity, htenant, -⟩ :=
    hb.volumes.liens l.lien h.lien h.live
  obtain ⟨-, q, hq, hqid, lien, hlien, hlid, hclient⟩ := hb.rows.lines l.line h.line
  obtain rfl : q = req := Table.eq_of_key_eq hq hreq (hqid.trans h.request)
  obtain rfl : lien = l.lien := Table.eq_of_key_eq hlien h.lien (hlid.trans h.id.symm)
  -- lien and request belong to one client, who has one tenant
  have hsame : l.lien.tenantId = q.tenantId := by
    have hlienTenant := (hb.rows.liens l.lien hlien).2
    rw [hclient] at hlienTenant
    exact hlienTenant.unique (hb.rows.requests q hq)
  refine ⟨r, ⟨?_, htenant.trans hsame⟩, hstatus, hquantity⟩
  rw [← hid]
  exact Table.find_of_mem hr

/-- The keys of a line that waits are new. -/
theorem Waits.unused (h : Waits Sized dto req l s)
    (hb : Backed num Admitted Sized (Done req.id (l :: rest)) s) (hreq : req ∈ s.releaseRequests)
    (hpending : req.status = .pending) {key : IdempotencyKey}
    (hkey : key = fullKey req.id l.line.id ∨ key = partialKey req.id l.line.id) :
    s.ledger.events.find key = none := by
  apply not_used_iff.mp
  intro hused
  rcases (hb.logged.shown key hused).release req.id l.line.id hkey
    with ⟨-, hdone⟩ | ⟨q, hq, hid, hnot⟩
  · exact hdone l List.mem_cons_self rfl
  · obtain rfl := Table.eq_of_key_eq hq hreq hid
    exact hnot hpending

/-- A line is done, and the others still wait. -/
theorem Approving.next (h : Approving num Admitted Sized dto req (l :: rest) s) {op : LedgerOp}
    {events : List InventoryEvent} {change : Change} {result : LedgerResult} {ledger : Ledger}
    (heffect : Effect num (dto.uuids l.line.id) s.ledger op events change result)
    (hcommits : Commits s.ledger events change ledger)
    (hop : ∀ ctx id newOwnerId txnType txnId withinTx,
      op ≠ .transferAndRelease ctx id newOwnerId txnType txnId withinTx) {f : Lien → Lien}
    {hkey : ∀ r, Keyed.key (f r) = Keyed.key r}
    (hbacked : Backed num Admitted Sized (Done req.id rest)
      { s with ledger, liens := s.liens.modify l.lien.id f hkey }) :
    Approving num Admitted Sized dto req rest
      { s with ledger, liens := s.liens.modify l.lien.id f hkey } := by
  obtain ⟨hothers, hpairs⟩ := List.pairwise_cons.mp h.apart
  refine ⟨hbacked, h.request, ?_, hpairs⟩
  intro l' hl'
  have hwaits := h.waits l' (List.mem_cons_of_mem _ hl')
  obtain ⟨-, hlien, huuids⟩ := hothers l' hl'
  exact { hwaits with
    lien := Table.mem_modify_other f hkey hwaits.lien hlien.symm
    fresh := hwaits.fresh.commit huuids heffect hcommits hop }

/-- The lines that were done stay done. -/
theorem Done.tail {requestId : Id} (requestId' lineId : Id)
    (h : Done requestId (l :: rest) requestId' lineId) : Done requestId rest requestId' lineId :=
  ⟨h.1, fun l' hl' => h.2 l' (List.mem_cons_of_mem _ hl')⟩

theorem Approving.done (h : Approving num Admitted Sized dto req (l :: rest) s) :
    Done req.id rest l.line.releaseRequestId l.line.id := by
  refine ⟨(h.waits l List.mem_cons_self).request, ?_⟩
  intro l' hl'
  exact ((List.pairwise_cons.mp h.apart).1 l' hl').1.symm

theorem releaseFully_keeps (h : Approving num Admitted Sized dto req (l :: rest) s)
    (hpending : req.status = .pending) (hall : l.line.quantity = l.lien.remainingQuantity) :
    Ends (fun r s' => r = .ok () ∧ Approving num Admitted Sized dto req rest s')
      (releaseFully num dto req l) s := by
  have hwaits := h.waits l List.mem_cons_self
  obtain ⟨r, hloaded, hlien, hquantity⟩ := hwaits.leaf h.backed h.request
  have hunused := hwaits.unused h.backed h.request hpending (.inl rfl)
  have hheld : r.status.Held := by
    rw [hlien]
    decide
  apply ensures_ledger_succeeds rfl (release_succeeds hwaits.fresh.event hunused hloaded hheld)
  intro _ ledger houtcome
  refine ⟨trivial, ?_⟩
  cases houtcome with
  | replayed e prior => cases hunused.symm.trans prior
  | committed free events change effect commits =>
      apply ensures_write_last
      · intro e hrefused
        cases (Table.find_of_mem hwaits.lien).symm.trans (updateRow_refused (map_error.mp hrefused))
      · intro _ s' hok
        obtain ⟨liens, hupdate, hresult⟩ := map_ok.mp hok
        cases hresult
        obtain ⟨-, -, rfl⟩ := updateRow_ok.mp hupdate
        refine ⟨trivial, rfl, h.next effect commits nofun ?_⟩
        apply h.backed.releaseFully hwaits.lien hwaits.live hwaits.line hall _ effect commits
          Done.tail h.done
        · exact fun _ => ⟨rfl, rfl, rfl, rfl⟩
        · exact fun _ => rfl
        · rw [hwaits.request]
          rfl

theorem releasePartly_keeps (hcolumns : Columns num Admitted Sized)
    (h : Approving num Admitted Sized dto req (l :: rest) s) (hpending : req.status = .pending)
    (hpart : l.line.quantity ≠ l.lien.remainingQuantity) :
    Ends (fun r s' => r = .ok () ∧ Approving num Admitted Sized dto req rest s')
      (releasePartly num dto req l) s := by
  have hwaits := h.waits l List.mem_cons_self
  obtain ⟨r, hloaded, hlien, hquantity⟩ := hwaits.leaf h.backed h.request
  have hunused := hwaits.unused h.backed h.request hpending (.inr rfl)
  have hpositive := (h.backed.rows.lines l.line hwaits.line).1
  have havailable : l.line.quantity < r.quantity := by
    rw [hquantity]
    exact lt_of_le_of_ne hwaits.enough hpart
  apply ensures_ledger_succeeds rfl
    (releasePartial_succeeds hwaits.fresh hunused hloaded hlien hpositive havailable)
  intro result ledger houtcome
  refine ⟨trivial, ?_⟩
  cases houtcome with
  | replayed e prior => cases hunused.symm.trans prior
  | committed free events change effect commits =>
      obtain ⟨kept, hkept⟩ : ∃ kept, result.remainingHeld = some kept := by
        cases effect
        exact ⟨_, rfl⟩
      apply ensures_orThrow
      · intro hnone
        cases hkept.symm.trans hnone
      intro kept' hkept'
      obtain rfl : kept = kept' := Option.some_inj.mp (hkept.symm.trans hkept')
      apply ensures_write_last
      · intro e hrefused
        cases (Table.find_of_mem hwaits.lien).symm.trans (updateRow_refused (map_error.mp hrefused))
      · intro _ s' hok
        obtain ⟨liens, hupdate, hresult⟩ := map_ok.mp hok
        cases hresult
        obtain ⟨-, -, rfl⟩ := updateRow_ok.mp hupdate
        refine ⟨trivial, rfl, h.next effect commits nofun ?_⟩
        apply h.backed.releasePartly hcolumns hwaits.lien hwaits.live rfl hwaits.sized _ effect
          commits hkept Done.tail h.done
        · exact fun _ => ⟨rfl, rfl, rfl, rfl⟩
        · exact fun _ => rfl
        · rfl
        · rfl
        · rw [hwaits.request]
          rfl

/-- The next line is released, whatever it asks for. -/
theorem releaseLine_keeps (hcolumns : Columns num Admitted Sized)
    (h : Approving num Admitted Sized dto req (l :: rest) s) (hpending : req.status = .pending) :
    Ends (fun r s' => r = .ok () ∧ Approving num Admitted Sized dto req rest s')
      (releaseLine num dto req l) s := by
  unfold releaseLine
  by_cases hall : l.line.quantity = l.lien.remainingQuantity
  · rw [if_pos hall]
    exact releaseFully_keeps h hpending hall
  · rw [if_neg hall]
    exact releasePartly_keeps hcolumns h hpending hall

/-- The lines of a request have ids of their own. -/
theorem loadedLines_pairwise (db : Db) (requestId : Id) :
    (loadedLines db requestId).Pairwise fun l l' => l.line.id ≠ l'.line.id := by
  have hrows : db.releaseRequestLines.rows.Pairwise fun x y => x.id ≠ y.id :=
    List.pairwise_map.mp db.releaseRequestLines.nodup
  apply List.pairwise_filterMap.mpr
  apply (hrows.filter _).imp
  intro x y hne l hl l' hl'
  obtain ⟨-, -, rfl⟩ := Option.map_eq_some_iff.mp hl
  obtain ⟨-, -, rfl⟩ := Option.map_eq_some_iff.mp hl'
  exact hne

/-- An approval whose checks have passed. -/
theorem Approving.start (h : Backed num Admitted Sized (fun _ _ => False) s)
    (horderly : dto.Orderly Sized s) (hadmitted : dto.Admitted s req) :
    Approving num Admitted Sized dto req (loadedLines s req.id) s where
  backed := h.mono fun _ _ hfalse => hfalse.elim
  request := Table.mem_of_find hadmitted.found
  waits := by
    intro l hl
    obtain ⟨hline, hrequest, hlien, hlid⟩ := mem_loadedLines hl
    obtain ⟨hlive, henough⟩ := hadmitted.checked l hl
    have hid : req.id = dto.requestId := Table.key_of_find hadmitted.found
    exact ⟨hline, hrequest, hlien, hlid, hlive, henough,
      horderly.sized req hadmitted l.line hline hrequest,
      horderly.fresh l.line hline (hrequest.trans hid)⟩
  apart := by
    have hid : req.id = dto.requestId := Table.key_of_find hadmitted.found
    apply (loadedLines_pairwise s req.id).imp_of_mem
    intro l l' hl hl' hne
    obtain ⟨hline, hrequest, -, hlid⟩ := mem_loadedLines hl
    obtain ⟨hline', hrequest', -, hlid'⟩ := mem_loadedLines hl'
    have hlines : l.line ≠ l'.line := fun hsame => hne (congrArg ReleaseRequestLine.id hsame)
    refine ⟨hne, ?_, ?_⟩
    · intro hsame
      apply hlines
      apply h.rows.apart l.line hline l'.line hline' (hrequest.trans hrequest'.symm)
      exact hlid.symm.trans (hsame.trans hlid')
    · exact horderly.apart l.line hline l'.line hline' (hrequest.trans hid)
        (hrequest'.trans hid) hlines

theorem approveReleaseRequest_keeps (h : Backed num Admitted Sized (fun _ _ => False) s)
    (hcolumns : Columns num Admitted Sized) (dto : ApproveReleaseRequest)
    (horderly : dto.Orderly Sized s) :
    Ends (fun _ => Backed num Admitted Sized (fun _ _ => False)) (approveReleaseRequest num dto)
      s := by
  apply requireFinancierOrg_ends (fun _ => h)
  intro org hmember
  apply ensures_read trivial
  apply ensures_orThrow (fun _ => h)
  intro found hfound
  obtain ⟨req, hrequest, rfl⟩ := Option.map_eq_some_iff.mp hfound
  obtain ⟨hfind, horg⟩ := Option.filter_eq_some_iff.mp hrequest
  apply ensures_throwIf (fun _ => h)
  intro hnot
  have hpending : req.status = .pending := not_not.mp hnot
  -- the lines still to check, all of them good once none is left
  apply ensures_bind
  apply ensures_forEach (fun rest s' => s' = s ∧ ∀ l ∈ loadedLines s req.id, l ∉ rest →
    l.lien.status.Live ∧ l.line.quantity ≤ l.lien.remainingQuantity)
  · rintro l rest s' ⟨rfl, hchecked⟩
    apply ensures_throwIf (fun _ => h)
    intro hlive
    apply ensures_throwIf_last (fun _ => h)
    intro henough
    refine ⟨rfl, ?_⟩
    intro l' hl' hrest
    by_cases hself : l' = l
    · rw [hself]
      exact ⟨not_not.mp hlive, not_lt.mp henough⟩
    · exact hchecked l' hl' (by simp [hself, hrest])
  · rintro s' ⟨rfl, hchecked⟩
    apply continues_ok.mpr
    apply ensures_ofExcept (fun _ _ => h)
    intro _ hotp
    apply ensures_bind
    apply ensures_forEach (fun rest s₁ => Approving num Admitted Sized dto req rest s₁)
    · intro l rest s₁ happroving
      apply Process.Ensures.weaken (releaseLine_keeps hcolumns happroving hpending)
      rintro r s₂ ⟨rfl, hnext⟩
      exact hnext
    · intro s₁ hdone
      apply continues_ok.mpr
      apply ensures_bind
      apply Process.Ensures.weaken
      · apply updateReleaseRequest_keeps (fun _ _ => False) hdone.backed
        · exact fun _ => ⟨rfl, rfl, rfl⟩
        · simp
        · rintro requestId lineId ⟨rfl, -⟩
          exact .inr ⟨_, Table.mem_modify_self _ _ hdone.request, rfl, by simp⟩
        · exact ⟨req, hdone.request, rfl⟩
      rintro (e | _) s₂ hs₂
      · exact hs₂
      · exact getFinancierReleaseRequestDetail_ends fun _ => hs₂
    · apply Approving.start h horderly
      refine ⟨hfind, ?_, hpending, fun l hl => hchecked l hl List.not_mem_nil, hotp⟩
      rw [of_decide_eq_true horg]
      exact hmember
  · exact ⟨rfl, fun l hl hnot => absurd hl hnot⟩

end Approval

end SecureStore.Services
