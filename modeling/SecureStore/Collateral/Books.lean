/-
# The books of releases

Liens, release requests and their lines are written by few steps: a request comes with
its lines, a decision takes it out of PENDING, an acceptance opens a lien, a release
closes it or moves it to what is left under it. The contract says so of every step that
any request takes, interleaved and crashing anywhere.
-/

import SecureStore.Custody.Frame

namespace SecureStore.Services

open SecureStore.Foundation SecureStore.Inventory

/-- The tables of releases are the same. -/
structure SameReleases (s s' : Db) : Prop where
  liens : s'.liens = s.liens
  requests : s'.releaseRequests = s.releaseRequests
  lines : s'.releaseRequestLines = s.releaseRequestLines

/-- Quantities are not negative, and every line has its request and its lien. -/
structure Booked (s : Db) : Prop where
  pledges : ∀ p ∈ s.pledges, 0 ≤ p.quantity
  lines : ∀ x ∈ s.releaseRequestLines, 0 ≤ x.quantity
  requests : ∀ x ∈ s.releaseRequestLines, s.releaseRequests.find x.releaseRequestId ≠ none
  liens : ∀ x ∈ s.releaseRequestLines, ∃ l ∈ s.liens, l.id = x.lienId

/-- What a write does to the tables of releases. -/
inductive Books (s s' : Db) : Issuer → Prop where
  | same {by_ : Issuer} (releases : SameReleases s s') : Books s s' by_
  | requested {id : Id} {r : ReleaseRequest} {added : List ReleaseRequestLine}
      (request : s.releaseRequests.insert r = some s'.releaseRequests) (row : r.id = id)
      (lines : s'.releaseRequestLines.rows = s.releaseRequestLines.rows ++ added)
      (theirs : ∀ x ∈ added, x.releaseRequestId = id) (liens : s'.liens = s.liens) :
      Books s s' (.createReleaseRequest id)
  | decided {by_ : Issuer} {id : Id} {f : ReleaseRequest → ReleaseRequest}
      (hf : ∀ r, Keyed.key (f r) = Keyed.key r) (decision : ∀ r, (f r).status ≠ .pending)
      (request : s'.releaseRequests = s.releaseRequests.modify id f hf)
      (liens : s'.liens = s.liens) (lines : s'.releaseRequestLines = s.releaseRequestLines) :
      Books s s' by_
  | opened {by_ : Issuer} {l : Lien} (lien : s.liens.insert l = some s'.liens)
      (remains : 0 ≤ l.remainingQuantity) (requests : s'.releaseRequests = s.releaseRequests)
      (lines : s'.releaseRequestLines = s.releaseRequestLines) : Books s s' by_
  | closed {by_ : Issuer} {id : Id} (f : Lien → Lien)
      (hf : ∀ r, Keyed.key (f r) = Keyed.key r) (dead : ∀ l, ¬ (f l).status.Live)
      (lien : s'.liens = s.liens.modify id f hf)
      (requests : s'.releaseRequests = s.releaseRequests)
      (lines : s'.releaseRequestLines = s.releaseRequestLines) : Books s s' by_
  | subtracted {x : ReleaseRequestLine} {f : Lien → Lien}
      (hf : ∀ r, Keyed.key (f r) = Keyed.key r) (line : x ∈ s.releaseRequestLines)
      (lien : s'.liens = s.liens.modify x.lienId f hf)
      (requests : s'.releaseRequests = s.releaseRequests)
      (lines : s'.releaseRequestLines = s.releaseRequestLines) :
      Books s s' (.approveReleaseLine x.releaseRequestId x.id x.lienId)

/-- What a step does to the tables of releases. -/
def BookStep : Label → Db → Db → Prop
  | .write by_, s, s' => Books s s' by_
  | _, s, s' => SameReleases s s'

/-- Lines and liens that were there are still there. -/
structure BooksKept (s s' : Db) : Prop where
  lines : ∀ x ∈ s.releaseRequestLines, x ∈ s'.releaseRequestLines
  liens : ∀ l ∈ s.liens, ∃ l' ∈ s'.liens, l'.id = l.id

theorem BooksKept.refl (s : Db) : BooksKept s s :=
  ⟨fun _ hx => hx, fun l hl => ⟨l, hl, rfl⟩⟩

theorem BooksKept.trans {s s' s'' : Db} (h : BooksKept s s') (h' : BooksKept s' s'') :
    BooksKept s s'' := by
  constructor
  · exact fun x hx => h'.lines x (h.lines x hx)
  · intro l hl
    obtain ⟨l', hl', hid⟩ := h.liens l hl
    obtain ⟨l'', hl'', hid'⟩ := h'.liens l' hl'
    exact ⟨l'', hl'', hid'.trans hid⟩

theorem SameReleases.kept {s s' : Db} (h : SameReleases s s') : BooksKept s s' := by
  constructor
  · rw [h.lines]
    exact fun _ hx => hx
  · rw [h.liens]
    exact fun l hl => ⟨l, hl, rfl⟩

/-- The rows of a table after an update have the keys they had. -/
theorem lien_of_modify {t t' : Table Lien} {id : Id} {f : Lien → Lien}
    {hf : ∀ r, Keyed.key (f r) = Keyed.key r} (h : t' = t.modify id f hf) {l : Lien}
    (hl : l ∈ t) : ∃ l' ∈ t', l'.id = l.id := by
  subst h
  by_cases hid : l.id = id
  · exact ⟨f l, Table.mem_modify.mpr (.inl ⟨l, hid ▸ Table.find_of_mem hl, rfl⟩), hf l⟩
  · exact ⟨l, Table.mem_modify.mpr (.inr ⟨hl, hid⟩), rfl⟩

theorem Books.kept {s s' : Db} {by_ : Issuer} (h : Books s s' by_) : BooksKept s s' := by
  have hsame : s'.releaseRequestLines = s.releaseRequestLines →
      ∀ x ∈ s.releaseRequestLines, x ∈ s'.releaseRequestLines := by
    intro heq x hx
    rw [heq]
    exact hx
  cases h with
  | same releases => exact releases.kept
  | requested request row lines theirs liens =>
      constructor
      · intro x hx
        rw [Table.mem_def, lines]
        exact List.mem_append_left _ hx
      · rw [liens]
        exact fun l hl => ⟨l, hl, rfl⟩
  | decided hf decision request liens lines =>
      constructor
      · exact hsame lines
      · rw [liens]
        exact fun l hl => ⟨l, hl, rfl⟩
  | opened lien remains requests lines =>
      constructor
      · exact hsame lines
      · exact fun l hl => ⟨l, (Table.mem_insert lien).mpr (.inl hl), rfl⟩
  | closed f hf dead lien requests lines =>
      constructor
      · exact hsame lines
      · exact fun l hl => lien_of_modify lien hl
  | subtracted hf line lien requests lines =>
      constructor
      · exact hsame lines
      · exact fun l hl => lien_of_modify lien hl

/-- The contract about the tables of releases. -/
def books : Contract Label Db where
  inv := Booked
  rely := BooksKept
  admits _ _ := True
  guar := BookStep
  debt _ := False
  rely_refl := .refl
  rely_trans := .trans
  guar_refl label s := by
    cases label with
    | write by_ => exact .same ⟨rfl, rfl, rfl⟩
    | read => exact ⟨rfl, rfl, rfl⟩
    | ledger by_ op => exact ⟨rfl, rfl, rfl⟩
  guar_rely {label s s'} _ hguar := by
    cases label with
    | write by_ => exact Books.kept hguar
    | read => exact SameReleases.kept hguar
    | ledger by_ op => exact SameReleases.kept hguar

section Rules

variable {num : Numeric} {s : Db} {by_ : Issuer} {α β : Type}

/-- Nothing that the tables of releases keep depends on other tables than the pledges. -/
theorem Booked.of_same {s' : Db} (hs : Booked s) (hpledges : ∀ p ∈ s'.pledges, 0 ≤ p.quantity)
    (h : SameReleases s s') : Booked s' := by
  constructor
  · exact hpledges
  · rw [h.lines]
    exact hs.lines
  · rw [h.lines, h.requests]
    exact hs.requests
  · rw [h.lines, h.liens]
    exact hs.liens

theorem bookStep_of_same {label : Label} {s' : Db} (h : SameReleases s s') :
    BookStep label s s' := by
  cases label with
  | write by_ => exact .same h
  | read => exact h
  | ledger by_ op => exact h

theorem books_ledger {op : LedgerOp} {tx : Tx α} {g : α → Api β}
    (h : ∀ a s', BooksKept s s' → books.Safe (g a) s') :
    books.Safe (Api.ledger by_ op tx >>= g : Api β) s := by
  apply Contract.safe_write
  intro s₁ a s₂ hrely hinv _ hok
  obtain ⟨ledger, -, rfl⟩ := Api.within_ok hok
  have hinv' : Booked s₁ := hinv
  have hsame : SameReleases s₁ { s₁ with ledger } := ⟨rfl, rfl, rfl⟩
  refine ⟨{ hinv' with }, hsame, False.elim, ?_⟩
  exact h a _ (hrely.trans hsame.kept)

theorem books_write {f : Db → Except ApiError (β × Db)}
    (h : ∀ s₁ a s₂, BooksKept s s₁ → Booked s₁ → f s₁ = .ok (a, s₂) →
      Booked s₂ ∧ Books s₁ s₂ by_) : books.Safe (Api.write by_ f) s := by
  apply Contract.safe_write_last
  intro s₁ a s₂ hrely hinv _ hok
  obtain ⟨hinv', hbooks⟩ := h s₁ a s₂ hrely hinv hok
  exact ⟨hinv', hbooks, False.elim⟩

theorem books_updatePledge {id : Id} {f : Pledge → Pledge}
    {hf : ∀ r, Keyed.key (f r) = Keyed.key r} (hquantity : ∀ p, (f p).quantity = p.quantity) :
    books.Safe (updatePledge by_ id f hf) s := by
  apply books_write
  intro s₁ a s₂ _ hs₁ hok
  obtain ⟨pledges, hupdate, hresult⟩ := map_ok.mp hok
  cases hresult
  refine ⟨hs₁.of_same ?_ ⟨rfl, rfl, rfl⟩, .same ⟨rfl, rfl, rfl⟩⟩
  intro p hp
  rcases mem_updateRow hupdate hp with ⟨r, hr, rfl⟩ | ⟨hp, -⟩
  · rw [hquantity]
    exact hs₁.pledges r (Table.mem_of_find hr)
  · exact hs₁.pledges p hp

theorem books_updateReleaseRequest {id : Id} {f : ReleaseRequest → ReleaseRequest}
    {hf : ∀ r, Keyed.key (f r) = Keyed.key r} (hdecision : ∀ r, (f r).status ≠ .pending) :
    books.Safe (updateReleaseRequest by_ id f hf) s := by
  apply books_write
  intro s₁ a s₂ _ hs₁ hok
  obtain ⟨requests, hupdate, hresult⟩ := map_ok.mp hok
  cases hresult
  obtain ⟨row, hrow, rfl⟩ := updateRow_ok.mp hupdate
  have hdecided : Books s₁ { s₁ with releaseRequests := s₁.releaseRequests.modify id f hf } by_ :=
    .decided hf hdecision rfl rfl rfl
  refine ⟨⟨hs₁.pledges, hs₁.lines, ?_, hs₁.liens⟩, hdecided⟩
  intro x hx
  rw [Table.find_modify]
  have hfind := hs₁.requests x hx
  split <;> simp_all

/-- A lien is closed, or moves to what is left under it. -/
theorem books_updateLien {id : Id} {f : Lien → Lien} {hf : ∀ r, Keyed.key (f r) = Keyed.key r}
    (h : ∀ s₁ s₂ : Db, BooksKept s s₁ → s₂.liens = s₁.liens.modify id f hf →
      s₂.releaseRequests = s₁.releaseRequests → s₂.releaseRequestLines = s₁.releaseRequestLines →
        Books s₁ s₂ by_) : books.Safe (updateLien by_ id f hf) s := by
  apply books_write
  intro s₁ a s₂ hrely hs₁ hok
  obtain ⟨liens, hupdate, hresult⟩ := map_ok.mp hok
  cases hresult
  obtain ⟨row, hrow, hliens⟩ := updateRow_ok.mp hupdate
  refine ⟨⟨hs₁.pledges, hs₁.lines, hs₁.requests, ?_⟩, h s₁ _ hrely hliens rfl rfl⟩
  intro x hx
  obtain ⟨l, hl, hid⟩ := hs₁.liens x hx
  obtain ⟨l', hl', hid'⟩ := lien_of_modify hliens hl
  exact ⟨l', hl', hid'.trans hid⟩

theorem books_releaseHeld {uuids : Uuids} {p : Pledge} {actorUserId : Option Id}
    {decision : String} :
    books.Safe (releaseHeld num by_ uuids p actorUserId decision) s := by
  unfold releaseHeld
  split
  · trivial
  · exact books_ledger fun _ _ _ => trivial

end Rules

/-- A line that passes its checks has a positive quantity and a lien. -/
theorem validateLine_checks {num : Numeric} {dto : CreateReleaseRequest}
    {lienMap : Id → Option Lien} {pending : Id → ℚ} (line : CreateReleaseRequestLine) :
    Attempt.Checks (0 < line.quantity ∧ ∃ l, lienMap line.lienId = some l)
      (validateLine num dto lienMap pending line) := by
  apply Attempt.checks_orThrow
  intro l hl
  apply Attempt.checks_throwIf
  intro _
  apply Attempt.checks_throwIf
  intro _
  apply Attempt.checks_throwIf
  intro _
  apply Attempt.checks_throwIf
  intro hquantity
  apply Attempt.checks_throwIf_last
  intro _
  exact ⟨not_le.mp hquantity, l, hl⟩

section Requests

variable {num : Numeric} {s : Db}

theorem createLines_adds {requestId : Id} {lienMap : Id → Option Lien}
    {lines : List CreateReleaseRequestLine} {t t' : Table ReleaseRequestLine}
    (h : createLines num requestId lienMap lines t = .ok t') :
    ∃ added, t'.rows = t.rows ++ added ∧ (∀ x ∈ added, x.releaseRequestId = requestId ∧
      ∃ line ∈ lines, x.lienId = line.lienId ∧ x.quantity = num.numeric20_4 line.quantity) ∧
        added.map ReleaseRequestLine.lienId = lines.map CreateReleaseRequestLine.lienId := by
  induction lines generalizing t with
  | nil =>
      cases h
      exact ⟨[], by simp, by simp, rfl⟩
  | cons line rest ih =>
      unfold createLines at h
      split at h
      · cases h
      · obtain ⟨t₁, hcreate, hrest⟩ := bind_ok.mp h
        obtain ⟨-, hinsert⟩ := createRow_ok.mp hcreate
        obtain ⟨added, hrows, hadded, hliens⟩ := ih hrest
        rw [(Table.insert_eq_some_iff.mp hinsert).2, List.append_assoc] at hrows
        refine ⟨_, hrows, ?_, congrArg (line.lienId :: ·) hliens⟩
        intro x hx
        rcases List.mem_cons.mp hx with rfl | hx
        · exact ⟨rfl, line, List.mem_cons_self, rfl, rfl⟩
        · obtain ⟨hrequest, line', hline', hx⟩ := hadded x hx
          exact ⟨hrequest, line', List.mem_cons_of_mem _ hline', hx⟩

variable (hstore : ∀ q, 0 ≤ q → 0 ≤ num.numeric20_4 q)
include hstore

theorem createPledge_books (dto : CreatePledge) : books.Safe (createPledge num dto) s := by
  apply Contract.safe_read
  intro s₁ _ _
  apply Contract.safe_orThrow
  intro caller _
  apply Contract.safe_read
  intro s₂ _ _
  apply Contract.safe_orThrow
  intro receipt _
  apply Contract.safe_throwIf
  intro _
  apply Contract.safe_throwIf
  intro hquantity
  apply Contract.safe_bind
  · apply Contract.safe_read
    intro _ _ _
    apply Contract.safe_orThrow
    intro _ _
    apply Contract.safe_throwIf
    intro _
    exact Contract.safe_read_last
  intro available s₃ _
  apply Contract.safe_throwIf
  intro _
  apply Contract.safe_read
  intro s₄ _ _
  apply Contract.safe_orThrow
  intro org _
  apply Contract.safe_throwIf
  intro _
  apply books_ledger
  intro result s₅ _
  apply Contract.safe_orThrow
  intro held _
  apply books_write
  intro s' _ s'' _ hs' hok
  obtain ⟨pledges, hcreate, hresult⟩ := map_ok.mp hok
  cases hresult
  obtain ⟨-, hinsert⟩ := createRow_ok.mp hcreate
  have hsame : SameReleases s' { s' with pledges } := ⟨rfl, rfl, rfl⟩
  refine ⟨hs'.of_same ?_ hsame, .same hsame⟩
  intro p hp
  rcases (Table.mem_insert hinsert).mp hp with hp | rfl
  · exact hs'.pledges p hp
  · exact hstore dto.quantity (not_le.mp hquantity).le

theorem acceptPledge_books (dto : AcceptPledge) : books.Safe (acceptPledge num dto) s := by
  apply Contract.safe_bind safe_requireFinancierOrg
  intro org s₁ _
  apply Contract.safe_find
  intro s₂ p _ hs₂ hp
  have hquantity : 0 ≤ p.quantity :=
    hs₂.pledges p (Table.mem_of_find (Option.filter_eq_some_iff.mp hp).1)
  apply Contract.safe_throwIf
  intro _
  apply Contract.safe_throwIf
  intro _
  apply Contract.safe_orThrow
  intro heldReceiptId _
  apply Contract.safe_ofExcept
  intro _ _
  apply books_ledger
  intro _ s₃ _
  apply Contract.safe_bind
  · apply books_write
    intro s' _ s'' _ hs' hok
    obtain ⟨liens, hcreate, hok⟩ := bind_ok.mp hok
    obtain ⟨pledges, hupdate, hok⟩ := bind_ok.mp hok
    cases hok
    obtain ⟨-, hinsert⟩ := createRow_ok.mp hcreate
    refine ⟨⟨?_, hs'.lines, hs'.requests, ?_⟩, ?_⟩
    · intro x hx
      rcases mem_updateRow hupdate hx with ⟨r, hr, rfl⟩ | ⟨hx, -⟩
      · exact hs'.pledges r (Table.mem_of_find hr)
      · exact hs'.pledges x hx
    · intro x hx
      obtain ⟨l, hl, hid⟩ := hs'.liens x hx
      exact ⟨l, (Table.mem_insert hinsert).mpr (.inl hl), hid⟩
    · exact .opened hinsert (hstore p.quantity hquantity) rfl rfl
  · intro _ _ _
    exact getFinancierPledgeDetail_safe _ _

theorem createReleaseRequest_books (dto : CreateReleaseRequest) :
    books.Safe (createReleaseRequest num dto) s := by
  apply Contract.safe_read
  intro s₁ _ _
  apply Contract.safe_orThrow
  intro caller _
  apply Contract.safe_read
  intro s₂ _ _
  apply Contract.safe_read
  intro s₃ h₃ _
  apply Contract.safe_checks (Attempt.checks_forEach validateLine_checks dto.lines)
  intro hlines
  apply books_write
  intro s' _ s'' h' hs' hok
  obtain ⟨requests, hcreate, hok⟩ := bind_ok.mp hok
  obtain ⟨lines, hadd, hok⟩ := bind_ok.mp hok
  cases hok
  obtain ⟨-, hinsert⟩ := createRow_ok.mp hcreate
  obtain ⟨added, hrows, hadded, -⟩ := createLines_adds hadd
  have hsplit : ∀ x ∈ lines, x ∈ s'.releaseRequestLines ∨ x ∈ added := by
    intro x hx
    rw [Table.mem_def, hrows] at hx
    exact List.mem_append.mp hx
  refine ⟨⟨hs'.pledges, ?_, ?_, ?_⟩, ?_⟩
  · intro x hx
    rcases hsplit x hx with hx | hx
    · exact hs'.lines x hx
    · obtain ⟨-, line, hline, -, hquantity⟩ := hadded x hx
      rw [hquantity]
      exact hstore line.quantity (hlines line hline).1.le
  · intro x hx
    rcases hsplit x hx with hx | hx
    · have hfind := hs'.requests x hx
      rw [Table.find_insert hinsert]
      split <;> simp_all
    · rw [(hadded x hx).1]
      exact fun hnone => by simpa [hnone] using Table.find_insert_self hinsert
  · intro x hx
    rcases hsplit x hx with hx | hx
    · exact hs'.liens x hx
    · obtain ⟨-, line, hline, hlien, -⟩ := hadded x hx
      obtain ⟨l, hl⟩ := (hlines line hline).2
      obtain ⟨l', hl', hid⟩ := (h₃.trans h').liens l (Table.mem_of_find hl)
      exact ⟨l', hl', by rw [hid, hlien]; exact Table.key_of_find hl⟩
  · exact .requested hinsert rfl hrows (fun x hx => (hadded x hx).1) rfl

omit hstore in
theorem cancelReleaseRequest_books (callerUserId requestId : Id) :
    books.Safe (cancelReleaseRequest callerUserId requestId) s := by
  apply Contract.safe_find
  intro s₁ req _ _ _
  apply Contract.safe_throwIf
  intro _
  exact books_updateReleaseRequest (by simp)

omit hstore in
theorem rejectReleaseRequest_books (callerUserId requestId : Id) (reason : String) :
    books.Safe (rejectReleaseRequest callerUserId requestId reason) s := by
  apply Contract.safe_bind safe_requireFinancierOrg
  intro org s₁ _
  apply Contract.safe_find
  intro s₂ req _ _ _
  apply Contract.safe_throwIf
  intro _
  apply Contract.safe_bind (books_updateReleaseRequest (by simp))
  intro _ _ _
  exact getFinancierReleaseRequestDetail_safe _ _

omit hstore in
/-- A line closes its lien or moves it, and is still on the books when it does. -/
theorem releaseLine_books {s₁ : Db} (dto : ApproveReleaseRequest) {req : ReleaseRequest}
    {l : LoadedLine} (hl : l ∈ loadedLines s₁ req.id) (h₁ : BooksKept s₁ s) :
    books.Safe (releaseLine num dto req l) s := by
  obtain ⟨hline, hrequest, -, hid⟩ := mem_loadedLines hl
  unfold releaseLine
  split
  · apply books_ledger
    intro _ s₂ h₂
    apply books_updateLien
    intro s' s'' _ hliens hrequests hlines
    refine .closed _ _ ?_ hliens hrequests hlines
    intro r
    simp [LienStatus.Live]
  · apply books_ledger
    intro result s₂ h₂
    apply Contract.safe_orThrow
    intro held _
    apply books_updateLien
    intro s' s'' h' hliens hrequests hlines
    rw [← hrequest]
    rw [hid] at hliens ⊢
    exact .subtracted _ (((h₁.trans h₂).trans h').lines _ hline) hliens hrequests hlines

omit hstore in
theorem approveReleaseRequest_books (dto : ApproveReleaseRequest) :
    books.Safe (approveReleaseRequest num dto) s := by
  apply Contract.safe_bind safe_requireFinancierOrg
  intro org s₁ _
  apply Contract.safe_read
  intro s₂ _ _
  apply Contract.safe_orThrow
  intro found hfound
  obtain ⟨req, -, rfl⟩ := Option.map_eq_some_iff.mp hfound
  apply Contract.safe_throwIf
  intro _
  apply Contract.safe_bind
  · apply Contract.safe_forEach (fun _ => True) (fun _ _ => trivial) _ trivial
    intro l _ s' _
    apply Contract.safe_throwIf
    intro _
    unfold Api.throwIf Attempt.throwIf
    split <;> trivial
  intro _ s₃ h₃
  apply Contract.safe_ofExcept
  intro _ _
  apply Contract.safe_bind
  · apply Contract.safe_forEach (BooksKept s₂ ·) (fun h hrely => h.trans hrely) _ h₃
    intro l hl s' h'
    exact releaseLine_books dto hl h'
  intro _ s₄ _
  apply Contract.safe_bind (books_updateReleaseRequest (by simp))
  intro _ _ _
  exact getFinancierReleaseRequestDetail_safe _ _

omit hstore in
theorem forceReleaseLien_books (dto : ForceReleaseLien) :
    books.Safe (forceReleaseLien num dto) s := by
  apply Contract.safe_read
  intro s₁ _ _
  apply Contract.safe_orThrow
  intro found hfound
  obtain ⟨l, -, rfl⟩ := Option.map_eq_some_iff.mp hfound
  dsimp only
  split
  · trivial
  apply Contract.safe_throwIf
  intro _
  apply books_ledger
  intro _ s₂ _
  apply books_write
  intro s' _ s'' _ hs' hok
  obtain ⟨forced, -, hok⟩ := bind_ok.mp hok
  obtain ⟨liens, hupdate, hok⟩ := bind_ok.mp hok
  cases hok
  obtain ⟨row, -, hliens⟩ := updateRow_ok.mp hupdate
  refine ⟨⟨hs'.pledges, hs'.lines, hs'.requests, ?_⟩, ?_⟩
  · intro x hx
    obtain ⟨l', hl', hid⟩ := hs'.liens x hx
    obtain ⟨l'', hl'', hid'⟩ := lien_of_modify hliens hl'
    exact ⟨l'', hl'', hid'.trans hid⟩
  · refine .closed _ _ ?_ hliens rfl rfl
    intro r
    simp [LienStatus.Live]

/-- Every request keeps the books. -/
theorem Request.books (request : Request) (s : Db) : books.Safe (request.run num) s := by
  cases request with
  | createPledge dto => exact createPledge_books hstore dto
  | cancelPledge uuids callerUserId pledgeId =>
      apply Contract.safe_find
      intro s₁ p _ _ _
      apply Contract.safe_throwIf
      intro _
      apply Contract.safe_bind books_releaseHeld
      intro _ _ _
      exact books_updatePledge fun _ => rfl
  | acceptPledge dto => exact acceptPledge_books hstore dto
  | rejectPledge uuids callerUserId pledgeId reason =>
      apply Contract.safe_bind safe_requireFinancierOrg
      intro org s₁ _
      apply Contract.safe_find
      intro s₂ p _ _ _
      apply Contract.safe_throwIf
      intro _
      apply Contract.safe_bind books_releaseHeld
      intro _ _ _
      apply Contract.safe_bind
      · exact books_updatePledge fun _ => rfl
      · intro _ _ _
        exact getFinancierPledgeDetail_safe _ _
  | expireStalePledges uuids now =>
      apply Contract.safe_read
      intro s₁ _ _
      apply Contract.safe_forEach (fun _ => True) (fun _ _ => trivial) _ trivial
      intro p _ s₂ _
      apply Contract.safe_recover
      · apply Contract.safe_bind books_releaseHeld
        intro _ _ _
        exact books_updatePledge fun _ => rfl
      · exact fun _ _ => trivial
  | createReleaseRequest dto => exact createReleaseRequest_books hstore dto
  | cancelReleaseRequest callerUserId requestId =>
      exact cancelReleaseRequest_books callerUserId requestId
  | approveReleaseRequest dto => exact approveReleaseRequest_books dto
  | rejectReleaseRequest callerUserId requestId reason =>
      exact rejectReleaseRequest_books callerUserId requestId reason
  | forceReleaseLien dto => exact forceReleaseLien_books dto
  | _ =>
      apply Contract.safe_of_takes _ (Request.leaves _ id)
      intro label s s' hs hsame
      have hreleases : SameReleases s s' :=
        ⟨hsame.liens, hsame.releaseRequests, hsame.releaseRequestLines⟩
      refine ⟨Booked.of_same hs ?_ hreleases, bookStep_of_same hreleases, id⟩
      rw [hsame.pledges]
      exact Booked.pledges hs

end Requests

theorem booked_initial (directory : Directory) : Booked (Db.initial directory) := by
  constructor <;> simp [Db.initial]

/-- The books along every run of any requests on an empty store. -/
theorem runs_books {num : Numeric} (hstore : ∀ q, 0 ≤ q → 0 ≤ num.numeric20_4 q)
    {directory : Directory} {requests : List Request} {trace : List (Transition Label Db)}
    {s : Db} {pool : List (Api Unit)}
    (h : Run (Db.initial directory) (requests.map (Request.run num)) trace s pool) :
    books.RunHolds (Db.initial directory) trace s pool := by
  apply Contract.Holds.run ⟨booked_initial directory, _, False.elim⟩ h fun _ _ => trivial
  intro p hp
  obtain ⟨request, -, rfl⟩ := List.mem_map.mp hp
  exact request.books hstore _

end SecureStore.Services
