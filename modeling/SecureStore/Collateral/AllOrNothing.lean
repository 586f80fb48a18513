/-
# When the approval of a release request is all-or-nothing

An approval checks all lines against one reading of the liens and then releases line by
line, against that same reading. Whether a line goes through depends on the ledger at its
turn, which the lines before it have changed. The approval keeps its promise exactly when it
stops before it changed anything, or when every line can be served from the state before
the call and no two lines are on one lien.
-/

import SecureStore.Collateral.LineByLine

namespace SecureStore.Services

open SecureStore.Foundation SecureStore.Inventory

/-! ## The promise -/

/-- What an approval promises: when it throws, receipts, liens and requests are as before,
and when it returns, every line has been applied. -/
structure AllOrNothing (num : Numeric) (dto : ApproveReleaseRequest) (db : Db) : Prop where
  nothing : ∀ e, ((approveReleaseRequest num dto).exec db).1 = .error e →
    ((approveReleaseRequest num dto).exec db).2.ledger.receipts = db.ledger.receipts ∧
      ((approveReleaseRequest num dto).exec db).2.liens = db.liens ∧
        ((approveReleaseRequest num dto).exec db).2.releaseRequests = db.releaseRequests
  all : ((approveReleaseRequest num dto).exec db).1 = .ok () →
    ∀ req, db.releaseRequests.find dto.requestId = some req →
      ∀ l ∈ loadedLines db req.id, Applied req l ((approveReleaseRequest num dto).exec db).2

/-! ## The condition -/

/-- The organisation that a user acts for. -/
def callerOrg (db : Db) (callerUserId : Id) : Option FinancierOrg := do
  let user ← db.directory.users.find callerUserId
  let orgId ← user.financierOrgId
  db.directory.financierOrgs.find orgId

/-- The checks that an approval makes of a line. -/
def LoadedLine.Valid (l : LoadedLine) : Prop :=
  l.lien.status.Live ∧ l.line.quantity ≤ l.lien.remainingQuantity

/-- The approval passes every check it makes before its first line. -/
structure ApproveReleaseRequest.Accepted (dto : ApproveReleaseRequest) (db : Db)
    (req : ReleaseRequest) : Prop where
  found : db.releaseRequests.find dto.requestId = some req
  financier : ∃ org, callerOrg db dto.callerUserId = some org ∧ org.status ≠ .suspended ∧
    req.financierOrgId = org.id
  pending : req.status = .pending
  valid : ∀ l ∈ loadedLines db req.id, l.Valid
  otp : dto.otp = .ok ()

/-- The approval stops before its first line or at it, or all its lines can be served and
no two of them are on one lien. -/
def ApproveReleaseRequest.Sound (dto : ApproveReleaseRequest) (db : Db) : Prop :=
  ∀ req, dto.Accepted db req →
    (∃ l rest, loadedLines db req.id = l :: rest ∧ ¬ Passes db.ledger req l) ∨
      (∀ l ∈ loadedLines db req.id, Serves db.ledger req l) ∧
        (loadedLines db req.id).Pairwise fun l l' => l.lien.id ≠ l'.lien.id

/-- The uuids that the lines draw are new. -/
structure ApproveReleaseRequest.Drawn (dto : ApproveReleaseRequest) (db : Db) : Prop where
  fresh : ∀ x ∈ db.releaseRequestLines, x.releaseRequestId = dto.requestId →
    (dto.uuids x.id).Fresh db.ledger
  apart : ∀ x ∈ db.releaseRequestLines, ∀ y ∈ db.releaseRequestLines,
    x.releaseRequestId = dto.requestId → y.releaseRequestId = dto.requestId → x ≠ y →
      (dto.uuids x.id).Apart (dto.uuids y.id)

/-! ## Before and after the lines -/

section Approval

variable {dto : ApproveReleaseRequest} {req : ReleaseRequest} {s : Db}

/-- The caller's organisation is found and active, or the call throws. -/
theorem requireFinancierOrg_exact {callerUserId : Id} {crash : Db → Prop}
    {post : Except ApiError Unit → Db → Prop} {g : FinancierOrg → Api Unit} (hs : crash s)
    (herr : (∀ org, callerOrg s callerUserId = some org → org.status = .suspended) →
      ∀ e, post (.error e) s)
    (h : ∀ org, callerOrg s callerUserId = some org → org.status ≠ .suspended →
      Process.Ensures crash post (g org) s) :
    Process.Ensures crash post (requireFinancierOrg callerUserId >>= g : Api Unit) s := by
  apply ensures_bind
  apply ensures_read hs
  apply ensures_orThrow
  · intro hnone
    have hmissing : callerOrg s callerUserId = none := hnone
    exact herr (by simp [hmissing]) _
  intro org hfound
  have horg : callerOrg s callerUserId = some org := hfound
  apply ensures_throwIf
  · intro hsuspended
    apply herr
    intro org' horg'
    obtain rfl := Option.some_inj.mp (horg.symm.trans horg')
    exact hsuspended
  · intro hactive
    exact h org horg hactive

/-- The request has been approved. -/
def ApprovedIn (releaseRequests : Table ReleaseRequest) (requestId : Id) : Prop :=
  (releaseRequests.find requestId).map ReleaseRequest.status = some .approved

/-- After the last line the request is decided; nothing can fail any more. -/
theorem decided_ends {org : FinancierOrg} (horg : callerOrg s dto.callerUserId = some org)
    (hactive : org.status ≠ .suspended) (hreq : s.releaseRequests.find req.id = some req)
    (hfinancier : req.financierOrgId = org.id) :
    Process.Ensures (fun s' => ApprovedIn s'.releaseRequests req.id)
      (fun r s' => r = .ok () ∧ ∃ releaseRequests, ApprovedIn releaseRequests req.id ∧
        s' = { s with releaseRequests }) (markApproved dto req) s := by
  apply ensures_write
  · intro e hrefused
    cases hreq.symm.trans (updateRow_refused (map_error.mp hrefused))
  intro _ s' hok
  obtain ⟨requests, hupdate, hresult⟩ := map_ok.mp hok
  cases hresult
  obtain ⟨-, -, rfl⟩ := updateRow_ok.mp hupdate
  have happroved : ApprovedIn (s.releaseRequests.modify req.id
      (fun r => { r with status := .approved, decidedById := some dto.callerUserId })
        fun _ => rfl) req.id := by
    simp [ApprovedIn, Table.find_modify_self hreq]
  refine ⟨happroved, ?_⟩
  have horg' : ∀ releaseRequests,
      callerOrg { s with releaseRequests } dto.callerUserId = some org := fun _ => horg
  apply requireFinancierOrg_exact happroved
  · intro hall
    exact absurd (hall org (horg' _)) hactive
  intro org' hfound _
  obtain rfl := Option.some_inj.mp ((horg' _).symm.trans hfound)
  refine ensures_read ?_ ?_
  · exact happroved
  apply ensures_orThrow
  · intro hnone
    simp [getFinancierRequest, Table.find_modify_self hreq, hfinancier] at hnone
  · intro _ _
    exact ⟨rfl, _, happroved, rfl⟩

/-- An approval is refused before its lines, or it runs them and then decides its request. -/
theorem approveReleaseRequest_splits {post : Except ApiError Unit → Db → Prop}
    (hrefused : (∀ req, ¬ dto.Accepted s req) → ∀ e, post (.error e) s)
    (haccepted : ∀ req, dto.Accepted s req → Ends (fun r s' => match r with
      | .error e => post (.error e) s'
      | .ok _ => s'.directory = s.directory ∧ s'.releaseRequests = s.releaseRequests ∧
          ∀ releaseRequests, ApprovedIn releaseRequests req.id →
            post (.ok ()) { s' with releaseRequests })
      (Attempt.forEach (loadedLines s req.id) (releaseLine .exact dto req)) s) :
    Ends post (approveReleaseRequest .exact dto) s := by
  apply requireFinancierOrg_exact trivial
  · intro hall
    apply hrefused
    rintro req ⟨-, ⟨org, horg, hactive, -⟩, -⟩
    exact hactive (hall org horg)
  intro org horg hactive
  apply ensures_read trivial
  apply ensures_orThrow
  · intro hnone
    apply hrefused
    rintro req ⟨hfound, ⟨org', horg', -, hfinancier⟩, -⟩
    obtain rfl := Option.some_inj.mp (horg.symm.trans horg')
    simp [getFinancierRequest, hfound, hfinancier] at hnone
  intro found hloaded
  obtain ⟨req, hrequest, rfl⟩ := Option.map_eq_some_iff.mp hloaded
  obtain ⟨hfind, howner⟩ := Option.filter_eq_some_iff.mp hrequest
  have hfinancier : req.financierOrgId = org.id := of_decide_eq_true howner
  have honly : ∀ req', dto.Accepted s req' → req' = req := fun req' h =>
    Option.some_inj.mp (h.found.symm.trans hfind)
  apply ensures_throwIf
  · intro hdecided
    apply hrefused
    intro req' h
    obtain rfl := honly req' h
    exact hdecided h.pending
  intro hnot
  have hpending : req.status = .pending := not_not.mp hnot
  -- the lines that are no longer to be checked are valid
  apply ensures_bind
  apply ensures_forEach (fun rest s' => s' = s ∧ (∀ l ∈ rest, l ∈ loadedLines s req.id) ∧
    ∀ l ∈ loadedLines s req.id, l ∉ rest → l.Valid)
  · rintro l rest s' ⟨rfl, hsub, hchecked⟩
    have hinvalid : ¬ l.Valid → ∀ e, post (.error e) s' := by
      intro hl
      apply hrefused
      intro req' h
      obtain rfl := honly req' h
      exact hl (h.valid l (hsub l List.mem_cons_self))
    apply ensures_throwIf
    · exact fun hdead => hinvalid (fun hl => hdead hl.1) _
    intro hlive
    apply ensures_throwIf_last
    · exact fun hmore => hinvalid (fun hl => not_lt.mpr hl.2 hmore) _
    intro henough
    refine ⟨rfl, fun l' hl' => hsub l' (List.mem_cons_of_mem _ hl'), ?_⟩
    intro l' hl' hrest
    by_cases hself : l' = l
    · rw [hself]
      exact ⟨not_not.mp hlive, not_lt.mp henough⟩
    · exact hchecked l' hl' (by simp [hself, hrest])
  · rintro s' ⟨rfl, -, hchecked⟩
    apply continues_ok.mpr
    apply ensures_ofExcept
    · intro e hotp
      apply hrefused
      intro req' h
      cases hotp.symm.trans h.otp
    intro _ hotp
    have hadmitted : dto.Accepted s' req :=
      ⟨hfind, ⟨org, horg, hactive, hfinancier⟩, hpending, fun l hl => hchecked l hl (by simp), hotp⟩
    apply ensures_bind
    apply Process.Ensures.weaken (haccepted req hadmitted)
    rintro (e | _) s₁ hs₁
    · exact hs₁
    obtain ⟨hdirectory, hrequests, hpost⟩ := hs₁
    have hkey : req.id = dto.requestId := Table.key_of_find hfind
    have horg₁ : callerOrg s₁ dto.callerUserId = some org := by
      simpa [callerOrg, hdirectory] using horg
    have hfind₁ : s₁.releaseRequests.find req.id = some req := by
      rw [hrequests, hkey]
      exact hfind
    apply (decided_ends horg₁ hactive hfind₁ hfinancier).mono fun _ _ => trivial
    rintro r s₂ ⟨rfl, releaseRequests, happroved, rfl⟩
    exact hpost releaseRequests happroved
  · exact ⟨rfl, fun l hl => hl, fun l hl hrest => absurd hl hrest⟩

end Approval

/-! ## All lines -/

/-- The state between two lines, whatever the lines before have come to. -/
structure Midway (dto : ApproveReleaseRequest) (req : ReleaseRequest) (db : Db)
    (before rest : List LoadedLine) (s : Db) : Prop where
  custody : Custody s
  later : db.Later s
  requests : s.releaseRequests = db.releaseRequests
  lines : s.releaseRequestLines = db.releaseRequestLines
  split : loadedLines db req.id = before ++ rest
  fresh : ∀ l ∈ rest, (dto.uuids l.line.id).Fresh s.ledger

section Midway

variable {dto : ApproveReleaseRequest} {req : ReleaseRequest} {db s s' : Db} {l : LoadedLine}
  {before rest : List LoadedLine} {e : InventoryEvent}

theorem Midway.start (hc : Custody db) (hdrawn : dto.Drawn db)
    (hfound : db.releaseRequests.find dto.requestId = some req) :
    Midway dto req db [] (loadedLines db req.id) db where
  custody := hc
  later := .refl db
  requests := rfl
  lines := rfl
  split := rfl
  fresh := by
    intro l hl
    obtain ⟨hline, hrequest, -⟩ := mem_loadedLines hl
    exact hdrawn.fresh l.line hline (hrequest.trans (Table.key_of_find hfound))

theorem Midway.mem (h : Midway dto req db before rest s) {l : LoadedLine} (hl : l ∈ rest) :
    l ∈ loadedLines db req.id := by
  rw [h.split]
  exact List.mem_append_right _ hl

/-- The lines still to come are other lines than the next. -/
theorem Midway.others (h : Midway dto req db before (l :: rest) s) :
    ∀ l' ∈ rest, l.line.id ≠ l'.line.id := by
  have hpairs := loadedLines_pairwise db req.id
  rw [h.split] at hpairs
  exact (List.pairwise_cons.mp (List.pairwise_append.mp hpairs).2.1).1

theorem Midway.line_ends (h : Midway dto req db before (l :: rest) s) (hc : Custody db) :
    Ends (fun r s' => Custody s' ∧ db.Later s' ∧ LineEnds dto req l s r s')
      (releaseLine .exact dto req l) s := by
  obtain ⟨hline, -, hlien, hid⟩ := mem_loadedLines (h.mem List.mem_cons_self)
  have hsafe : (Services.custody .exact fun _ => True).Safe (releaseLine .exact dto req l) s :=
    releaseLine_safe (fun _ => trivial) dto req hline hlien hid hc h.later
  have hthere : s.liens.find l.lien.id ≠ none := by
    obtain ⟨lien, hfind, -⟩ := lien_later hlien h.later
    simp [hfind]
  have hends : Process.Ensures (LineStops dto req l s) (LineEnds dto req l s)
      (releaseLine .exact dto req l) s :=
    releaseLine_lineEnds h.custody.provenance (h.fresh l List.mem_cons_self) hthere
  have hkept := Process.Ensures.of_keeps hsafe h.custody fun _ _ => trivial
  apply (hends.and hkept).mono
  · exact fun _ _ => trivial
  · rintro r s' ⟨hline', hc', hrely, -⟩
    exact ⟨hc', h.later.trans (custody_later hrely), hline'⟩

theorem Midway.next (h : Midway dto req db before (l :: rest) s) (hdrawn : dto.Drawn db)
    (hfound : db.releaseRequests.find dto.requestId = some req) (hc' : Custody s')
    (hlater : db.Later s')
    (hrelease : LineRelease (dto.uuids l.line.id) req l s.ledger e s'.ledger)
    (hwrite : LineWrite l e s s') : Midway dto req db (before ++ [l]) rest s' where
  custody := hc'
  later := hlater
  requests := hwrite.requests.trans h.requests
  lines := hwrite.lines.trans h.lines
  split := by simp [h.split]
  fresh := by
    intro l' hl'
    obtain ⟨hline', hrequest', -⟩ := mem_loadedLines (h.mem (List.mem_cons_of_mem _ hl'))
    obtain ⟨hline, hrequest, -⟩ := mem_loadedLines (h.mem List.mem_cons_self)
    have hid : req.id = dto.requestId := Table.key_of_find hfound
    apply hrelease.fresh (h.fresh l' (List.mem_cons_of_mem _ hl'))
    apply hdrawn.apart l.line hline l'.line hline' (hrequest.trans hid) (hrequest'.trans hid)
    exact fun hsame => h.others l' hl' (congrArg ReleaseRequestLine.id hsame)

end Midway

/-! ### Lines that can all be served -/

/-- The lines done are applied, and those to come can still be served. -/
structure Serving (dto : ApproveReleaseRequest) (req : ReleaseRequest) (db : Db)
    (before rest : List LoadedLine) (s : Db) : Prop
    extends Midway dto req db before rest s where
  filed : Filed s
  serves : ∀ l ∈ rest, Serves s.ledger req l ∧ l.lien ∈ s.liens
  applied : ∀ l ∈ before, Applied req l s

/-- Lines that can be served and are on liens of their own are all applied. -/
theorem serving_ends {dto : ApproveReleaseRequest} {req : ReleaseRequest} {db : Db}
    (hc : Custody db) (hf : Filed db) (hdrawn : dto.Drawn db)
    (hfound : db.releaseRequests.find dto.requestId = some req)
    (hserves : ∀ l ∈ loadedLines db req.id, Serves db.ledger req l)
    (hliens : (loadedLines db req.id).Pairwise fun l l' => l.lien.id ≠ l'.lien.id) :
    Ends (fun r s => r = .ok () ∧ Serving dto req db (loadedLines db req.id) [] s)
      (Attempt.forEach (loadedLines db req.id) (releaseLine .exact dto req)) db := by
  apply ensures_forEach (fun rest s => ∃ before, Serving dto req db before rest s)
  · rintro l rest s ⟨before, h⟩
    apply Process.Ensures.weaken (h.toMidway.line_ends hc)
    rintro (e | _) s' ⟨hc', hlater, hends⟩
    · exact absurd (h.serves l List.mem_cons_self).1.passes hends.2
    obtain ⟨-, e, hrelease, hwrite⟩ := hends
    obtain ⟨hserve, hlien⟩ := h.serves l List.mem_cons_self
    obtain ⟨f, hkey, hrows, hpledge, -⟩ := hwrite.row
    rw [h.split] at hliens
    obtain ⟨-, hrest, hbefore⟩ := List.pairwise_append.mp hliens
    refine ⟨before ++ [l], h.toMidway.next hdrawn hfound hc' hlater hrelease hwrite,
      h.filed.modify hpledge hwrite.lines hrows, ?_, ?_⟩
    · intro l' hl'
      obtain ⟨hserve', hlien'⟩ := h.serves l' (List.mem_cons_of_mem _ hl')
      obtain ⟨hline', -, -, hid'⟩ := mem_loadedLines (h.mem (List.mem_cons_of_mem _ hl'))
      have hne := (List.pairwise_cons.mp hrest).1 l' hl'
      constructor
      · exact hserve'.after h.custody h.filed hlien hlien' (h.lines ▸ hline') hid' hne.symm
          (h.others l' hl').symm hrelease
      · rw [hrows]
        exact Table.mem_modify_other f hkey hlien' hne.symm
    · intro l' hl'
      rcases List.mem_append.mp hl' with hl' | hl'
      · have hne := hbefore l' hl' l List.mem_cons_self
        exact (h.applied l' hl').after h.custody h.filed hlien hne hrelease hwrite
      · rw [List.mem_singleton.mp hl']
        exact hserve.applied hlien hrelease hwrite
  · rintro s ⟨before, h⟩
    have hsplit : loadedLines db req.id = before := h.split.trans (List.append_nil _)
    exact ⟨rfl, hsplit ▸ h⟩
  · refine ⟨[], .start hc hdrawn hfound, hf, ?_, by simp⟩
    exact fun l hl => ⟨hserves l hl, (mem_loadedLines hl).2.2.1⟩

/-! ### Lines that went through -/

/-- What had to be so before for a line that went through: the lien's leaf was held, unless
the release was logged before. -/
def Went (s₀ : Ledger) (req : ReleaseRequest) (l : LoadedLine) (s : Ledger) : Prop :=
  s₀.events.find (lineKey req l) = none → ∃ r, Loaded s₀ l.lien.receiptId req.tenantId r ∧
    r.status.Held ∧ (¬ l.Full → r.status = .heldLien ∧ 0 < l.line.quantity ∧
      l.line.quantity < r.quantity) ∧ ∃ e, s.events.find (lineKey req l) = some e ∧
        e.quantity = if l.Full then r.quantity else l.line.quantity

/-- The lines done went through and have changed their liens. -/
structure Going (dto : ApproveReleaseRequest) (req : ReleaseRequest) (db : Db)
    (before rest : List LoadedLine) (s : Db) : Prop
    extends Midway dto req db before rest s where
  stems : Stems db.ledger s.ledger
  unused : ∀ l ∈ rest, db.ledger.events.find (lineKey req l) = none →
    s.ledger.events.find (lineKey req l) = none
  went : ∀ l ∈ before, Went db.ledger req l s.ledger ∧ l.lien ∉ s.liens
  untouched : before = [] → s = db

section Going

variable {dto : ApproveReleaseRequest} {req : ReleaseRequest} {db s s' : Db} {l l' : LoadedLine}
  {before rest : List LoadedLine} {e : InventoryEvent}

theorem Went.later {s₀ s s' : Ledger} (h : Went s₀ req l s) (hlater : Later s s') :
    Went s₀ req l s' := by
  intro hfree
  obtain ⟨r, hloaded, hheld, hpart, e, hfind, hquantity⟩ := h hfree
  refine ⟨r, hloaded, hheld, hpart, e, ?_, hquantity⟩
  have hlogged := hlater.events e (Table.mem_of_find hfind)
  rw [← Table.key_of_find hfind]
  exact Table.find_of_mem hlogged

/-- A row that is not there is not there after a line: every line changes what remains of its
lien, as it was read. -/
theorem LineWrite.gone (h : LineWrite l e s s') (hpositive : 0 < l.line.quantity) {lien : Lien}
    (hlien : lien.id = l.lien.id → lien = l.lien) (hgone : lien ∉ s.liens ∨ lien = l.lien) :
    lien ∉ s'.liens := by
  obtain ⟨f, hkey, hrows, -, hleaves⟩ := h.row
  intro hmem
  rw [hrows] at hmem
  obtain ⟨r, hr, hid, ⟨hsame, heq⟩ | ⟨hother, heq⟩⟩ := Table.exists_of_mem_modify f hkey hmem
  · have hthis : lien = l.lien := hlien (hid.trans hsame)
    have hremaining := (hleaves r).remaining
    rw [← heq, hthis] at hremaining
    linarith
  · rcases hgone with hgone | hthis
    · exact hgone (heq ▸ hr)
    · rw [hthis] at hid
      exact hother hid.symm

/-- The next line, when it goes through, finds what it needs in the state before the call. -/
theorem Going.release_went (h : Going dto req db before (l :: rest) s) (hc : Custody db)
    (hrelease : LineRelease (dto.uuids l.line.id) req l s.ledger e s'.ledger) :
    Went db.ledger req l s'.ledger := by
  intro hfree
  have hunused := h.unused l List.mem_cons_self hfree
  have hfound := hrelease.found
  cases hrelease with
  | logged prior same => cases hunused.symm.trans prior
  | @released op change result r r' free effect commits call key loaded held rewritten freed leaf
      quantity part =>
      obtain ⟨-, -, hlien, -⟩ := mem_loadedLines (h.mem List.mem_cons_self)
      obtain ⟨r₀, hfind, -⟩ := hc.liens l.lien hlien
      have hid : r₀.id = r.id := (Table.key_of_find hfind).trans (Table.key_of_find loaded.1).symm
      have hthere : r ∈ db.ledger.receipts := h.stems.same h.later.ledger hc.provenance
        h.custody.provenance (Table.mem_of_find loaded.1) held (Table.mem_of_find hfind) hid
      refine ⟨r, ⟨?_, loaded.2⟩, held, part, e, hfound, quantity⟩
      rw [← Table.key_of_find loaded.1]
      exact Table.find_of_mem hthere

theorem Going.next (h : Going dto req db before (l :: rest) s) (hc : Custody db) (hf : Filed db)
    (hdrawn : dto.Drawn db) (hfound : db.releaseRequests.find dto.requestId = some req)
    (hc' : Custody s') (hlater : db.Later s')
    (hrelease : LineRelease (dto.uuids l.line.id) req l s.ledger e s'.ledger)
    (hwrite : LineWrite l e s s') : Going dto req db (before ++ [l]) rest s' where
  toMidway := h.toMidway.next hdrawn hfound hc' hlater hrelease hwrite
  stems := hrelease.stems h.stems h.later.ledger
  unused := by
    intro l' hl' hfree
    apply hrelease.unused (lineKey_ne (h.others l' hl').symm)
    exact h.unused l' (List.mem_cons_of_mem _ hl') hfree
  went := by
    obtain ⟨hline, -, hlien, -⟩ := mem_loadedLines (h.mem List.mem_cons_self)
    have hpositive := hf.positive l.line hline
    intro l' hl'
    rcases List.mem_append.mp hl' with hl' | hl'
    · obtain ⟨hwent, hgone⟩ := h.went l' hl'
      refine ⟨hwent.later hrelease.later, hwrite.gone hpositive ?_ (.inl hgone)⟩
      have hmem : l' ∈ loadedLines db req.id := by
        rw [h.split]
        exact List.mem_append_left _ hl'
      exact Table.eq_of_key_eq (mem_loadedLines hmem).2.2.1 hlien
    · rw [List.mem_singleton.mp hl']
      exact ⟨h.release_went hc hrelease, hwrite.gone hpositive (fun _ => rfl) (.inr rfl)⟩
  untouched := by simp

/-- The lines stop at the first, or at a later one when a lien has changed, or all of them go
through. -/
theorem going_ends (hc : Custody db) (hf : Filed db) (hdrawn : dto.Drawn db)
    (hfound : db.releaseRequests.find dto.requestId = some req) :
    Ends (fun r s => match r with
      | .error _ => (∃ l rest, loadedLines db req.id = l :: rest ∧ ¬ Passes db.ledger req l) ∨
          ∃ l ∈ loadedLines db req.id, l.lien ∉ s.liens
      | .ok _ => Going dto req db (loadedLines db req.id) [] s)
      (Attempt.forEach (loadedLines db req.id) (releaseLine .exact dto req)) db := by
  apply ensures_forEach (fun rest s => ∃ before, Going dto req db before rest s)
  · rintro l rest s ⟨before, h⟩
    apply Process.Ensures.weaken (h.toMidway.line_ends hc)
    rintro (e | _) s' ⟨hc', hlater, hends⟩
    · obtain ⟨rfl, hstuck⟩ := hends
      cases before with
      | nil =>
          obtain rfl := h.untouched rfl
          exact .inl ⟨l, rest, h.split, hstuck⟩
      | cons first before =>
          refine .inr ⟨first, ?_, (h.went first List.mem_cons_self).2⟩
          rw [h.split]
          exact List.mem_append_left _ List.mem_cons_self
    · obtain ⟨-, e, hrelease, hwrite⟩ := hends
      exact ⟨_, h.next hc hf hdrawn hfound hc' hlater hrelease hwrite⟩
  · rintro s ⟨before, h⟩
    have hsplit : loadedLines db req.id = before := h.split.trans (List.append_nil _)
    exact hsplit ▸ h
  · exact ⟨[], .start hc hdrawn hfound, .refl _, fun _ _ hfree => hfree, by simp, fun _ => rfl⟩

end Going

/-! ## The exact condition -/

section Exactly

variable {dto : ApproveReleaseRequest} {req : ReleaseRequest} {db s : Db} {l : LoadedLine}

/-- What has been applied could be served before. -/
theorem Applied.serves (h : Applied req l s) {s₀ : Ledger} (hwent : Went s₀ req l s.ledger)
    (hstems : Stems s₀ s.ledger) (hlater : Later s₀ s.ledger) (hs : Provenance s.ledger) :
    Serves s₀ req l := by
  obtain ⟨e, hfind, hleaf, hquantity, row, -, -, hleaves⟩ := h
  cases hprior : s₀.events.find (lineKey req l) with
  | none =>
      obtain ⟨r, hloaded, hheld, hpart, e', hfind', hquantity'⟩ := hwent hprior
      obtain rfl := Option.some_inj.mp (hfind.symm.trans hfind')
      refine .released r hprior hloaded hheld (fun hfull => ?_) hpart
      rw [if_pos hfull] at hquantity'
      exact hquantity'.symm.trans hquantity
  | some e' =>
      have hlogged := hlater.events e' (Table.mem_of_find hprior)
      have hfind' := Table.find_of_mem hlogged
      rw [show Keyed.key e' = lineKey req l from Table.key_of_find hprior, hfind] at hfind'
      obtain rfl := Option.some_inj.mp hfind'
      refine .logged e hprior hleaf hquantity fun hpart => ?_
      obtain ⟨-, k, hk, -, hsource, hstatus⟩ := hleaves.part hpart
      have hheld : k.status.Held := by
        rw [hstatus]
        decide
      exact ⟨k, hstems.old hlater hs hk hheld (Table.mem_of_find hprior) hsource, hsource, hstatus⟩

/-- Lines that have all been applied are on different liens: from one leaf one line is
released. -/
theorem applied_apart (hs : ReleasedOnce s.ledger)
    (happlied : ∀ l ∈ loadedLines db req.id, Applied req l s) :
    (loadedLines db req.id).Pairwise fun l l' => l.lien.id ≠ l'.lien.id := by
  apply (loadedLines_pairwise db req.id).imp_of_mem
  intro l l' hl hl' hne hsame
  have hlien : l.lien = l'.lien :=
    Table.eq_of_key_eq (mem_loadedLines hl).2.2.1 (mem_loadedLines hl').2.2.1 hsame
  obtain ⟨e, hfind, hleaf, -⟩ := happlied l hl
  obtain ⟨e', hfind', hleaf', -⟩ := happlied l' hl'
  have hkey : e.idempotencyKey = lineKey req l := Table.key_of_find hfind
  have hkey' : e'.idempotencyKey = lineKey req l' := Table.key_of_find hfind'
  have hfrom : e.fromReceiptId = e'.fromReceiptId := by
    rw [hleaf, hleaf', hlien]
  have heq : e = e' := hs.once e (Table.mem_of_find hfind) e' (Table.mem_of_find hfind')
    (hkey ▸ releaseKey_lineKey) (hkey' ▸ releaseKey_lineKey) hfrom
  exact lineKey_ne hne (hkey.symm.trans ((congrArg InventoryEvent.idempotencyKey heq).trans hkey'))

/-- An approval that keeps its promise is sound. -/
theorem AllOrNothing.sound (h : AllOrNothing .exact dto db) (hs : OnFile db)
    (hdrawn : dto.Drawn db) : dto.Sound db := by
  intro req haccepted
  have hends : Ends (fun r s => match r with
      | .error _ => (∃ l rest, loadedLines db req.id = l :: rest ∧ ¬ Passes db.ledger req l) ∨
          ∃ l ∈ loadedLines db req.id, l.lien ∉ s.liens
      | .ok _ => ∀ l ∈ loadedLines db req.id, Went db.ledger req l s.ledger ∧
          Stems db.ledger s.ledger) (approveReleaseRequest .exact dto) db := by
    apply approveReleaseRequest_splits
    · intro hrefused
      exact absurd haccepted (hrefused req)
    · intro req' haccepted'
      obtain rfl := Option.some_inj.mp (haccepted.found.symm.trans haccepted'.found)
      apply Process.Ensures.weaken (going_ends hs.custody hs.filed hdrawn haccepted.found)
      rintro (e | _) s hgoing
      · exact hgoing
      · exact ⟨hgoing.later.directory, hgoing.requests, fun _ _ l hl =>
          ⟨(hgoing.went l hl).1, hgoing.stems⟩⟩
  have hsafe : (custody .exact fun _ => True).Safe (approveReleaseRequest .exact dto) db :=
    approveReleaseRequest_safe (fun _ => trivial) dto
  obtain ⟨hcustody, hrely, -⟩ := hsafe.exec hs.custody fun _ _ => trivial
  have hresult := hends.exec
  cases hout : ((approveReleaseRequest .exact dto).exec db).1 with
  | error e =>
      obtain ⟨-, hliens, -⟩ := h.nothing e hout
      have hthrown : (Process.exec (approveReleaseRequest .exact dto) db).1 = .error e := hout
      rw [hthrown] at hresult
      rcases hresult with hstuck | ⟨l, hl, hgone⟩
      · exact .inl hstuck
      · refine absurd (mem_loadedLines hl).2.2.1 ?_
        rw [← hliens]
        exact hgone
  | ok =>
      have hreturned : (Process.exec (approveReleaseRequest .exact dto) db).1 = .ok () := hout
      rw [hreturned] at hresult
      have happlied := h.all hout req haccepted.found
      right
      constructor
      · intro l hl
        obtain ⟨hwent, hstems⟩ := hresult l hl
        exact (happlied l hl).serves hwent hstems (custody_later hrely).ledger hcustody.provenance
      · exact applied_apart (releasedOnce_of_rely hrely hs.released) happlied

/-- A sound approval keeps its promise. -/
theorem ApproveReleaseRequest.Sound.allOrNothing (h : dto.Sound db) (hs : OnFile db)
    (hdrawn : dto.Drawn db) : AllOrNothing .exact dto db := by
  have hends : Ends (fun r s => match r with
      | .error _ => s = db
      | .ok _ => ∀ req, db.releaseRequests.find dto.requestId = some req →
          ∀ l ∈ loadedLines db req.id, Applied req l s) (approveReleaseRequest .exact dto) db := by
    apply approveReleaseRequest_splits
    · exact fun _ _ => rfl
    intro req haccepted
    rcases h req haccepted with ⟨l, rest, hlines, hstuck⟩ | ⟨hserves, hliens⟩
    · -- the first line throws
      have hmidway : Midway dto req db [] (l :: rest) db :=
        hlines ▸ .start hs.custody hdrawn haccepted.found
      rw [hlines]
      apply ensures_bind
      apply Process.Ensures.weaken (hmidway.line_ends hs.custody)
      rintro (e | _) s ⟨-, -, hends⟩
      · exact hends.1
      · exact absurd hends.1 hstuck
    · apply Process.Ensures.weaken
        (serving_ends hs.custody hs.filed hdrawn haccepted.found hserves hliens)
      rintro r s ⟨rfl, hserving⟩
      refine ⟨hserving.later.directory, hserving.requests, ?_⟩
      intro requests _ req' hfound' l hl
      obtain rfl := Option.some_inj.mp (haccepted.found.symm.trans hfound')
      exact hserving.applied l hl
  have hresult := hends.exec
  constructor
  · intro e hout
    rw [show (Process.exec (approveReleaseRequest .exact dto) db).1 = .error e from hout] at hresult
    have hsame : ((approveReleaseRequest .exact dto).exec db).2 = db := hresult
    rw [hsame]
    exact ⟨rfl, rfl, rfl⟩
  · intro hout
    rw [show (Process.exec (approveReleaseRequest .exact dto) db).1 = .ok () from hout] at hresult
    exact hresult

end Exactly

/-- In every reachable state, an approval that is not disturbed is all-or-nothing exactly when
it is sound. -/
theorem approval_all_or_nothing_iff (directory : Directory) (requests : List Request)
    {trace : List (Transition Label Db)} {db : Db} {pool : List (Api Unit)}
    (hrun : Run (Db.initial directory) (requests.map (Request.run .exact)) trace db pool)
    (dto : ApproveReleaseRequest) (hdrawn : dto.Drawn db) :
    AllOrNothing .exact dto db ↔ dto.Sound db := by
  have hs : OnFile db := runs_onFile (fun request _ => request.linesStay_exact) hrun
  constructor
  · exact fun h => h.sound hs hdrawn
  · exact fun h => h.allOrNothing hs hdrawn

/-- Two lines of two units each under lien 8, which carries six. -/
def sampleTwice : Request :=
  .createReleaseRequest
    { requestId := 40, callerUserId := 10, financierId := 30, requestedDate := 0, note := none
      firstLine := { id := 41, lienId := 8, quantity := 2 }
      moreLines := [{ id := 42, lienId := 8, quantity := 2 }] }

/-- The approval of the two lines. -/
def sampleTwiceApproval : ApproveReleaseRequest where
  uuids lineId := sampleUuids (10 * lineId)
  now := 0
  otp := .ok ()
  callerUserId := 20
  requestId := 40

/-- The request for the two lines waits for its approval. -/
def twiceRequested : List (Transition Label Db) × Db × List (Api Unit) :=
  interleave ([0, 1, 2, 3, 4].flatMap (List.replicate 12)) (Db.initial sampleDirectory)
    ((sampleStock ++ [samplePledge, sampleAcceptance, sampleTwice]).map (Request.run .exact))

theorem sampleTwiceApproval_drawn : sampleTwiceApproval.Drawn twiceRequested.2.1 := by
  constructor
  · have hfresh : ∀ x ∈ twiceRequested.2.1.releaseRequestLines.rows,
        x.releaseRequestId = sampleTwiceApproval.requestId →
          (sampleTwiceApproval.uuids x.id).Fresh twiceRequested.2.1.ledger := by
      decide +kernel
    exact hfresh
  · have hapart : ∀ x ∈ twiceRequested.2.1.releaseRequestLines.rows,
        ∀ y ∈ twiceRequested.2.1.releaseRequestLines.rows,
          x.releaseRequestId = sampleTwiceApproval.requestId →
            y.releaseRequestId = sampleTwiceApproval.requestId → x ≠ y →
              (sampleTwiceApproval.uuids x.id).Apart (sampleTwiceApproval.uuids y.id) := by
      decide +kernel
    exact hapart

/-- The first line is released and written, and the second then throws: its leaf is split. -/
theorem sampleTwiceApproval_partial :
    ((approveReleaseRequest .exact sampleTwiceApproval).exec twiceRequested.2.1).1 =
        .error (.cannotPartiallyRelease .split) ∧
      ((approveReleaseRequest .exact sampleTwiceApproval).exec twiceRequested.2.1).2.liens.rows ≠
        twiceRequested.2.1.liens.rows := by
  decide +kernel

theorem sampleTwiceApproval_breaks :
    ¬ AllOrNothing .exact sampleTwiceApproval twiceRequested.2.1 := by
  intro h
  obtain ⟨hthrows, hchanged⟩ := sampleTwiceApproval_partial
  obtain ⟨-, hliens, -⟩ := h.nothing _ hthrows
  exact hchanged (congrArg Table.rows hliens)

/-- Two lines on one lien pass every check, and half of the request is applied. -/
theorem two_lines_half_applied :
    ¬ ∀ (directory : Directory) (requests : List Request) (trace : List (Transition Label Db))
        (db : Db) (pool : List (Api Unit)) (dto : ApproveReleaseRequest) (req : ReleaseRequest),
      Run (Db.initial directory) (requests.map (Request.run .exact)) trace db pool →
        db.releaseRequests.find dto.requestId = some req → req.status = .pending →
          dto.Drawn db → AllOrNothing .exact dto db := by
  intro hclaim
  have hpending : ∃ req, twiceRequested.2.1.releaseRequests.find sampleTwiceApproval.requestId =
      some req ∧ req.status = .pending := by
    have hstatus : (twiceRequested.2.1.releaseRequests.find sampleTwiceApproval.requestId).map
        ReleaseRequest.status = some .pending := by
      decide +kernel
    exact Option.map_eq_some_iff.mp hstatus
  obtain ⟨req, hfind, hstatus⟩ := hpending
  exact sampleTwiceApproval_breaks (hclaim _ _ _ _ _ _ req (run_interleave _ _ _) hfind hstatus
    sampleTwiceApproval_drawn)

/-- The approval of the two lines is not sound. -/
theorem approval_all_or_nothing_iff_sample :
    ¬ sampleTwiceApproval.Sound twiceRequested.2.1 := by
  intro hsound
  apply sampleTwiceApproval_breaks
  exact (approval_all_or_nothing_iff sampleDirectory _ (run_interleave _ _ _) sampleTwiceApproval
    sampleTwiceApproval_drawn).mpr hsound

end SecureStore.Services
