/-
# Decisions and their records

Each decision on a pledge, a lien or a release request moves a leaf, logs the move under
the key of the decision and writes the decision into its row. Taken together the three
keep what the tables and the log say about each other; requests of the other modules
leave all of it alone.
-/

import SecureStore.Collateral.Backing
import SecureStore.Collateral.Books

namespace SecureStore.Services

open SecureStore.Foundation SecureStore.Inventory

/-! ## Keys -/

section Keys

variable {busy : Id → Id → Prop} {db : Db}

theorem Shown.of_create {p : Pledge} (hp : p ∈ db.pledges) : Shown busy db (createKey p.id) where
  create := by
    intro id hkey
    exact ⟨p, hp, by simpa [createKey] using hkey⟩
  decision := by
    intro word id hword hkey
    simp only [createKey, decisionKey, List.cons.injEq, KeyPart.text.injEq] at hkey
    exact absurd hkey.2.1.symm hword
  force := by simp [createKey, forceKey]
  release := by simp [createKey, fullKey, partialKey]

theorem Shown.of_decision {p : Pledge} {word : String} (hword : word ≠ "create")
    (hp : p ∈ db.pledges) (hstatus : p.status ≠ .pending) :
    Shown busy db (decisionKey word p.id) where
  create := by
    intro id hkey
    simp only [createKey, decisionKey, List.cons.injEq, KeyPart.text.injEq] at hkey
    exact absurd hkey.2.1 hword
  decision := by
    intro word' id _ hkey
    refine ⟨p, hp, ?_, hstatus⟩
    simp only [decisionKey, List.cons.injEq, KeyPart.uuid.injEq] at hkey
    exact hkey.2.2.1
  force := by simp [decisionKey, forceKey]
  release := by simp [decisionKey, fullKey, partialKey]

theorem Shown.of_force {l : Lien} (hl : l ∈ db.liens) (hdead : ¬ l.status.Live) :
    Shown busy db (forceKey l.id) where
  create := by simp [createKey, forceKey]
  decision := by simp [decisionKey, forceKey]
  force := by
    intro id hkey
    exact ⟨l, hl, by simpa [forceKey] using hkey, hdead⟩
  release := by simp [forceKey, fullKey, partialKey]

theorem Shown.of_release {requestId lineId : Id} {key : IdempotencyKey}
    (hkey : key = fullKey requestId lineId ∨ key = partialKey requestId lineId)
    (hbusy : busy requestId lineId) : Shown busy db key where
  create := by
    rintro id rfl
    simp [createKey, fullKey, partialKey] at hkey
  decision := by
    rintro word id _ rfl
    simp [decisionKey, fullKey, partialKey] at hkey
  force := by
    rintro id rfl
    simp [forceKey, fullKey, partialKey] at hkey
  release := by
    rintro q x hkey'
    have hsame : q = requestId ∧ x = lineId := by
      rcases hkey with rfl | rfl
      · simpa [fullKey, partialKey, eq_comm] using hkey'
      · simpa [fullKey, partialKey, eq_comm] using hkey'
    obtain ⟨rfl, rfl⟩ := hsame
    exact .inl hbusy

/-- A key of another module. -/
def Foreign (key : IdempotencyKey) : Prop :=
  key.head? ∉ [some (.text "pledge"), some (.text "lien"), some (.text "release")]

theorem Shown.of_foreign {key : IdempotencyKey} (hforeign : Foreign key) : Shown busy db key where
  create := by
    rintro id rfl
    simp [Foreign, createKey] at hforeign
  decision := by
    rintro word id _ rfl
    simp [Foreign, decisionKey] at hforeign
  force := by
    rintro id rfl
    simp [Foreign, forceKey] at hforeign
  release := by
    rintro requestId lineId (rfl | rfl)
    · simp [Foreign, fullKey] at hforeign
    · simp [Foreign, partialKey] at hforeign

end Keys

/-! ## Insertions -/

section Insertions

variable {num : Numeric} {Admitted Sized : ℚ → Prop} {busy : Id → Id → Prop} {s : Db}

theorem RowsAgree.insertPledge (h : RowsAgree Admitted s) {p : Pledge} {pledges : Table Pledge}
    (hinsert : s.pledges.insert p = some pledges) (ledger : Ledger)
    (hsingle : ∀ p' ∈ s.pledges, p'.heldReceiptId ≠ p.heldReceiptId)
    (hp : Admitted p.quantity ∧ 0 < p.quantity ∧ InTenant s.directory p.clientId p.tenantId) :
    RowsAgree Admitted { s with ledger, pledges } where
  single := by
    intro p₁ hp₁ p₂ hp₂ heq
    rcases (Table.mem_insert hinsert).mp hp₁ with hold₁ | rfl <;>
      rcases (Table.mem_insert hinsert).mp hp₂ with hold₂ | rfl
    · exact h.single p₁ hold₁ p₂ hold₂ heq
    · exact absurd heq (hsingle p₁ hold₁)
    · exact absurd heq.symm (hsingle p₂ hold₂)
    · rfl
  pledges := by
    intro p' hp'
    rcases (Table.mem_insert hinsert).mp hp' with hold | rfl
    · exact h.pledges p' hold
    · exact hp
  liens := by
    intro l hl
    obtain ⟨⟨p', hp', hdecided⟩, htenant⟩ := h.liens l hl
    exact ⟨⟨p', (Table.mem_insert hinsert).mpr (.inl hp'), hdecided⟩, htenant⟩
  requests := h.requests
  lines := h.lines
  apart := h.apart

theorem RowsAgree.insertLien (h : RowsAgree Admitted s) {l : Lien} {liens : Table Lien}
    (hinsert : s.liens.insert l = some liens)
    (hl : (∃ p ∈ s.pledges, p.id = l.pledgeId ∧ p.status ≠ .pending) ∧
      InTenant s.directory l.clientId l.tenantId) : RowsAgree Admitted { s with liens } where
  single := h.single
  pledges := h.pledges
  liens := by
    intro l' hl'
    rcases (Table.mem_insert hinsert).mp hl' with hold | rfl
    · exact h.liens l' hold
    · exact hl
  requests := h.requests
  lines := by
    intro x hx
    obtain ⟨hpos, q, hq, hqid, l', hl', hlien⟩ := h.lines x hx
    exact ⟨hpos, q, hq, hqid, l', (Table.mem_insert hinsert).mpr (.inl hl'), hlien⟩
  apart := h.apart

theorem Logged.insertLien (h : Logged busy s) {l : Lien} {liens : Table Lien}
    (hinsert : s.liens.insert l = some liens) (hstatus : l.status ≠ .forceReleased) :
    Logged busy { s with liens } where
  recorded := h.recorded
  forced := by
    intro l' hl' hforced
    rcases (Table.mem_insert hinsert).mp hl' with hold | rfl
    · exact h.forced l' hold hforced
    · exact absurd hforced hstatus
  shown := by
    intro key hused
    obtain ⟨hcreate, hdecision, hforce, hrelease⟩ := h.shown key hused
    refine ⟨hcreate, hdecision, ?_, hrelease⟩
    intro id hkey
    obtain ⟨l', hl', hdead⟩ := hforce id hkey
    exact ⟨l', (Table.mem_insert hinsert).mpr (.inl hl'), hdead⟩

/-- A new request with lines on distinct liens of its client. -/
theorem RowsAgree.insertRequest (h : RowsAgree Admitted s) {q : ReleaseRequest}
    {requests : Table ReleaseRequest} {lines : Table ReleaseRequestLine}
    {added : List ReleaseRequestLine} (hinsert : s.releaseRequests.insert q = some requests)
    (hrows : lines.rows = s.releaseRequestLines.rows ++ added)
    (hq : InTenant s.directory q.clientId q.tenantId)
    (hadded : ∀ x ∈ added, x.releaseRequestId = q.id ∧ 0 < x.quantity ∧
      ∃ l ∈ s.liens, l.id = x.lienId ∧ l.clientId = q.clientId)
    (hdistinct : (added.map ReleaseRequestLine.lienId).Nodup) :
    RowsAgree Admitted { s with releaseRequests := requests, releaseRequestLines := lines } := by
  have hsplit : ∀ x ∈ lines, x ∈ s.releaseRequestLines ∨ x ∈ added := by
    intro x hx
    rw [Table.mem_def, hrows] at hx
    exact List.mem_append.mp hx
  have hfree : ∀ q' ∈ s.releaseRequests, q'.id ≠ q.id :=
    Table.find_eq_none_iff.mp (Table.insert_eq_some_iff.mp hinsert).1
  have hold : ∀ x ∈ s.releaseRequestLines, x.releaseRequestId ≠ q.id := by
    intro x hx
    obtain ⟨-, q', hq', hid, -⟩ := h.lines x hx
    exact hid ▸ hfree q' hq'
  constructor
  · exact h.single
  · exact h.pledges
  · exact h.liens
  · intro q' hq'
    rcases (Table.mem_insert hinsert).mp hq' with hq' | rfl
    · exact h.requests q' hq'
    · exact hq
  · intro x hx
    rcases hsplit x hx with hx | hx
    · obtain ⟨hpos, q', hq', hid, hlien⟩ := h.lines x hx
      exact ⟨hpos, q', (Table.mem_insert hinsert).mpr (.inl hq'), hid, hlien⟩
    · obtain ⟨hrequest, hpos, hlien⟩ := hadded x hx
      exact ⟨hpos, q, (Table.mem_insert hinsert).mpr (.inr rfl), hrequest.symm, hlien⟩
  · intro x hx y hy hrequest hlien
    rcases hsplit x hx with hx | hx <;> rcases hsplit y hy with hy | hy
    · exact h.apart x hx y hy hrequest hlien
    · exact absurd (hrequest.trans (hadded y hy).1) (hold x hx)
    · exact absurd (hrequest.symm.trans (hadded x hx).1) (hold y hy)
    · exact List.inj_on_of_nodup_map hdistinct hx hy hlien

end Insertions

/-! ## Decisions -/

section Decisions

variable {num : Numeric} {Admitted Sized : ℚ → Prop} {busy busy' : Id → Id → Prop} {s : Db}
  {ledger : Ledger} {uuids : Uuids} {result : LedgerResult}

/-- A decision on a pledge, logged under its key. -/
theorem Logged.decide (h : Logged busy s) {p : Pledge} (hp : p ∈ s.pledges) {word : String}
    (hword : word ≠ "create")
    (hused : ∀ key, ledger.Used key ↔ s.ledger.Used key ∨ key = decisionKey word p.id)
    {f : Pledge → Pledge} (hkey : ∀ r, Keyed.key (f r) = Keyed.key r) (hf : Decides f) :
    Logged busy { s with ledger, pledges := s.pledges.modify p.id f hkey } := by
  apply h.reworked (Reworked.pledge s ledger p.id hkey hf) (fun _ _ hopen => .inl hopen)
  · exact fun key hold => (hused key).mpr (.inl hold)
  · intro key hafter
    rcases (hused key).mp hafter with hold | rfl
    · exact .inl hold
    · have hafter : f p ∈ ({ s with
          ledger, pledges := s.pledges.modify p.id f hkey } : Db).pledges :=
        Table.mem_modify_self f hkey hp
      have hshown : Shown busy _ _ := Shown.of_decision hword hafter (hf p).2
      rw [(hf p).1.id] at hshown
      exact .inr hshown
  · exact fun l hl hstatus => .inr ⟨l, hl, rfl, hstatus⟩

/-- A decision against a pledge, with the release of its leaf. -/
theorem Backed.settle (h : Backed num Admitted Sized busy s) {p : Pledge} (hp : p ∈ s.pledges)
    (hpending : p.status = .pending) {ctx : ActorCtx} {id : Id} (hheld : p.heldReceiptId = some id)
    {word : String} (hword : word ≠ "create") (hctx : ctx.idempotencyKey = decisionKey word p.id)
    (houtcome : Outcome num uuids (.release ctx id) s.ledger result ledger) {f : Pledge → Pledge}
    (hkey : ∀ r, Keyed.key (f r) = Keyed.key r) (hf : Decides f) :
    Backed num Admitted Sized busy
      { s with ledger, pledges := s.pledges.modify p.id f hkey } := by
  cases houtcome with
  | replayed e prior reconstructs same =>
      obtain ⟨p', hp', hid, hstatus⟩ :=
        (h.logged.shown _ (used_of_find prior)).decision word p.id hword hctx
      obtain rfl := Table.eq_of_key_eq hp' hp hid
      exact absurd hpending hstatus
  | committed free events change effect commits =>
      have hnotFull : ∀ requestId lineId, ctx.idempotencyKey ≠ fullKey requestId lineId := by
        simp [hctx, decisionKey, fullKey]
      have hused : ∀ key, ledger.Used key ↔ s.ledger.Used key ∨ key = ctx.idempotencyKey :=
        effect.used commits nofun
      rw [hctx] at hused
      constructor
      · exact h.volumes.settle h.rows hp hpending hheld hnotFull effect commits hf
      · exact h.rows.reworked (Reworked.pledge s ledger p.id hkey hf)
      · exact h.logged.decide hp hword hused hkey hf

/-- An acceptance, with its lien. -/
theorem Backed.accept (h : Backed num Admitted Sized busy s)
    (hcolumns : Columns num Admitted Sized) {p : Pledge} (hp : p ∈ s.pledges)
    (hpending : p.status = .pending) (hsized : Sized p.quantity) {ctx : ActorCtx} {id : Id}
    (hheld : p.heldReceiptId = some id) (hctx : ctx.idempotencyKey = decisionKey "accept" p.id)
    (houtcome : Outcome num uuids (.transitionPledgeToLien ctx id p.id) s.ledger result ledger)
    {f : Pledge → Pledge} (hkey : ∀ r, Keyed.key (f r) = Keyed.key r) (hf : Decides f) {l : Lien}
    {liens : Table Lien} (hinsert : s.liens.insert l = some liens) (hpledge : l.pledgeId = p.id)
    (hreceipt : l.receiptId = id) (hremaining : l.remainingQuantity = p.quantity)
    (hactive : l.status = .active) (hclient : l.clientId = p.clientId)
    (htenant : l.tenantId = p.tenantId) :
    Backed num Admitted Sized busy
      { s with ledger, liens, pledges := s.pledges.modify p.id f hkey } := by
  have hword : "accept" ≠ "create" := by decide
  cases houtcome with
  | replayed e prior reconstructs same =>
      obtain ⟨p', hp', hid, hstatus⟩ :=
        (h.logged.shown _ (used_of_find prior)).decision "accept" p.id hword hctx
      obtain rfl := Table.eq_of_key_eq hp' hp hid
      exact absurd hpending hstatus
  | committed free events change effect commits =>
      have hnotFull : ∀ requestId lineId, ctx.idempotencyKey ≠ fullKey requestId lineId := by
        simp [hctx, decisionKey, fullKey]
      have hused : ∀ key, ledger.Used key ↔ s.ledger.Used key ∨ key = ctx.idempotencyKey :=
        effect.used commits nofun
      rw [hctx] at hused
      have hrows := h.rows.reworked (Reworked.pledge s ledger p.id hkey hf)
      have hlogged := h.logged.decide hp hword hused hkey hf
      constructor
      · exact h.volumes.accept h.rows hcolumns hp hpending hsized hheld hnotFull effect commits hf
          hinsert hreceipt hremaining (.inl hactive) htenant
      · apply hrows.insertLien hinsert
        refine ⟨⟨f p, Table.mem_modify_self f hkey hp, ?_, (hf p).2⟩, ?_⟩
        · exact (hf p).1.id.trans hpledge.symm
        · rw [hclient, htenant]
          exact (h.rows.pledges p hp).2.2
      · exact hlogged.insertLien hinsert (by simp [hactive])

/-- A new pledge, with the hold of its leaf. -/
theorem Backed.pledge (h : Backed num Admitted Sized busy s) {input : HoldInput}
    {result : HoldResult} {held : Receipt} {events : List InventoryEvent} {change : Change}
    {p : Pledge} {pledges : Table Pledge} (hctx : input.idempotencyKey = createKey p.id)
    (hstatus : input.heldStatus = .heldPledgePending)
    (heffect : Effect num uuids s.ledger (.hold input) events change (.held result))
    (hcommits : Commits s.ledger events change ledger) (hheld : result.held = some held)
    (hinsert : s.pledges.insert p = some pledges) (hleaf : p.heldReceiptId = some held.id)
    (hquantity : p.quantity = input.quantity) (hadmitted : Admitted p.quantity)
    (htenant : p.tenantId = input.tenantId) (hpending : p.status = .pending)
    (hclient : InTenant s.directory p.clientId p.tenantId) :
    Backed num Admitted Sized busy { s with ledger, pledges } := by
  have hused : ∀ key, ledger.Used key ↔ s.ledger.Used key ∨ key = input.idempotencyKey :=
    heffect.used hcommits nofun
  rw [hctx] at hused
  have hnotFull : ∀ requestId lineId, input.idempotencyKey ≠ fullKey requestId lineId := by
    simp [hctx, createKey, fullKey]
  have hpositive : 0 < input.quantity := by
    cases heffect
    assumption
  have hnew : ∀ r ∈ s.ledger.receipts, r.id ≠ held.id := by
    intro r hr
    cases heffect
    cases hheld
    exact hcommits.created_ne List.mem_cons_self hr
  have hkept : ∀ p' ∈ s.pledges, p' ∈ pledges := fun p' hp' =>
    (Table.mem_insert hinsert).mpr (.inl hp')
  constructor
  · exact h.volumes.pledge hnotFull hstatus heffect hcommits hheld hinsert hleaf hquantity htenant
      hpending
  · apply h.rows.insertPledge hinsert
    · intro p' hp' hsame
      obtain ⟨r, hr, hheld', -⟩ := h.volumes.pledges p' hp'
      exact hnew r hr (Option.some_inj.mp (hheld'.symm.trans (hsame.trans hleaf)))
    · exact ⟨hadmitted, hquantity ▸ hpositive, hclient⟩
  · constructor
    · intro p' hp'
      rcases (Table.mem_insert hinsert).mp hp' with hold | rfl
      · exact (hused _).mpr (.inl (h.logged.recorded p' hold))
      · exact (hused _).mpr (.inr rfl)
    · exact fun l hl hforced => (hused _).mpr (.inl (h.logged.forced l hl hforced))
    · intro key hafter
      rcases (hused key).mp hafter with hold | rfl
      · obtain ⟨hcreate, hdecision, hforce, hrelease⟩ := h.logged.shown key hold
        refine ⟨?_, ?_, hforce, hrelease⟩
        · intro id hkey
          obtain ⟨p', hp', hid⟩ := hcreate id hkey
          exact ⟨p', hkept p' hp', hid⟩
        · intro word id hword hkey
          obtain ⟨p', hp', hdecided⟩ := hdecision word id hword hkey
          exact ⟨p', hkept p' hp', hdecided⟩
      · exact Shown.of_create ((Table.mem_insert hinsert).mpr (.inr rfl))

/-- A new release request, with its lines. -/
theorem Backed.request (h : Backed num Admitted Sized busy s) {q : ReleaseRequest}
    {requests : Table ReleaseRequest} {lines : Table ReleaseRequestLine}
    {added : List ReleaseRequestLine} (hinsert : s.releaseRequests.insert q = some requests)
    (hrows : lines.rows = s.releaseRequestLines.rows ++ added)
    (hq : InTenant s.directory q.clientId q.tenantId)
    (hadded : ∀ x ∈ added, x.releaseRequestId = q.id ∧ 0 < x.quantity ∧
      ∃ l ∈ s.liens, l.id = x.lienId ∧ l.clientId = q.clientId)
    (hdistinct : (added.map ReleaseRequestLine.lienId).Nodup) :
    Backed num Admitted Sized busy
      { s with releaseRequests := requests, releaseRequestLines := lines } := by
  have hkept : ∀ x ∈ s.releaseRequestLines, x ∈ lines := by
    intro x hx
    rw [Table.mem_def, hrows]
    exact List.mem_append_left _ hx
  constructor
  · refine { h.volumes with full := ?_ }
    intro e he requestId lineId hkey
    obtain ⟨x, hx, hfull⟩ := h.volumes.full e he requestId lineId hkey
    exact ⟨x, hkept x hx, hfull⟩
  · exact h.rows.insertRequest hinsert hrows hq hadded hdistinct
  · refine ⟨h.logged.recorded, h.logged.forced, ?_⟩
    intro key hused
    obtain ⟨hcreate, hdecision, hforce, hrelease⟩ := h.logged.shown key hused
    refine ⟨hcreate, hdecision, hforce, ?_⟩
    intro requestId lineId hkey
    rcases hrelease requestId lineId hkey with hopen | ⟨q', hq', hdecided⟩
    · exact .inl hopen
    · exact .inr ⟨q', (Table.mem_insert hinsert).mpr (.inl hq'), hdecided⟩

/-- A decision on a release request closes its lines. -/
theorem Backed.decide (h : Backed num Admitted Sized busy s) {id : Id}
    {f : ReleaseRequest → ReleaseRequest} (hkey : ∀ r, Keyed.key (f r) = Keyed.key r)
    (hsame : ∀ q, SameRequest q (f q)) (hdecides : ∀ q, (f q).status ≠ .pending)
    (hbusy : ∀ requestId lineId, busy requestId lineId → busy' requestId lineId ∨
      ∃ q ∈ s.releaseRequests.modify id f hkey, q.id = requestId ∧ q.status ≠ .pending) :
    Backed num Admitted Sized busy'
      { s with releaseRequests := s.releaseRequests.modify id f hkey } := by
  have hre := Reworked.request s id hkey hsame hdecides
  refine ⟨{ h.volumes with }, h.rows.reworked hre, h.logged.reworked hre hbusy ?_ ?_ ?_⟩
  · exact fun key hused => hused
  · exact fun key hused => .inl hused
  · exact fun l hl hstatus => .inr ⟨l, hl, rfl, hstatus⟩

/-- A release logged under the key of a line that is done from now on. -/
theorem Logged.release (h : Logged busy s) {l : Lien} {requestId lineId : Id}
    {key : IdempotencyKey}
    (hline : key = fullKey requestId lineId ∨ key = partialKey requestId lineId)
    (hused : ∀ key', ledger.Used key' ↔ s.ledger.Used key' ∨ key' = key)
    (hbusy : ∀ q x, busy q x → busy' q x) (hdone : busy' requestId lineId) {f : Lien → Lien}
    (hkey : ∀ r, Keyed.key (f r) = Keyed.key r) (hsame : ∀ l, SameLien l (f l))
    (hdead : ∀ l' ∈ s.liens, l'.id = l.id → ¬ l'.status.Live → ¬ (f l').status.Live)
    (hstatus : ∀ l, (f l).status ≠ .forceReleased) :
    Logged busy' { s with ledger, liens := s.liens.modify l.id f hkey } := by
  apply h.reworked (Reworked.lien s ledger l.id hkey hsame hdead)
  · exact fun q x hopen => .inl (hbusy q x hopen)
  · exact fun key' hold => (hused key').mpr (.inl hold)
  · intro key' hafter
    rcases (hused key').mp hafter with hold | rfl
    · exact .inl hold
    · exact .inr (Shown.of_release hline hdone)
  · intro l' hl' hforced
    obtain ⟨l₀, hl₀, -, ⟨-, rfl⟩ | ⟨-, rfl⟩⟩ := Table.exists_of_mem_modify f hkey hl'
    · exact absurd hforced (hstatus l₀)
    · exact .inr ⟨l', hl₀, rfl, hforced⟩

/-- A line that asks for all that is left under its lien. -/
theorem Backed.releaseFully (h : Backed num Admitted Sized busy s) {l : Lien} (hl : l ∈ s.liens)
    (hlive : l.status.Live) {x : ReleaseRequestLine} (hx : x ∈ s.releaseRequestLines)
    (hquantity : x.quantity = l.remainingQuantity) {ctx : ActorCtx}
    (hctx : ctx.idempotencyKey = fullKey x.releaseRequestId x.id) {events : List InventoryEvent}
    {change : Change} (heffect : Effect num uuids s.ledger (.release ctx l.receiptId) events change
      result) (hcommits : Commits s.ledger events change ledger)
    (hbusy : ∀ requestId lineId, busy requestId lineId → busy' requestId lineId)
    (hdone : busy' x.releaseRequestId x.id) {f : Lien → Lien}
    (hkey : ∀ r, Keyed.key (f r) = Keyed.key r) (hsame : ∀ l, SameLien l (f l))
    (hreleased : ∀ l, (f l).status = .released) :
    Backed num Admitted Sized busy' { s with ledger, liens := s.liens.modify l.id f hkey } := by
  have hused : ∀ key, ledger.Used key ↔ s.ledger.Used key ∨ key = ctx.idempotencyKey :=
    heffect.used hcommits nofun
  have hdead : ∀ l, ¬ (f l).status.Live := by simp [hreleased, LienStatus.Live]
  constructor
  · apply h.volumes.freed hl hlive heffect hcommits _ hdead
    intro requestId lineId hfull
    have hsameLine : x.releaseRequestId = requestId ∧ x.id = lineId := by
      simpa [fullKey] using hctx.symm.trans hfull
    exact ⟨x, hx, hsameLine.2, hsameLine.1, hquantity⟩
  · exact h.rows.reworked (Reworked.lien s ledger l.id hkey hsame fun l' _ _ _ => hdead l')
  · apply h.logged.release (.inl hctx) hused hbusy hdone hkey hsame fun l' _ _ _ => hdead l'
    simp [hreleased]

/-- A line that asks for a part of what is left under its lien. -/
theorem Backed.releasePartly (h : Backed num Admitted Sized busy s)
    (hcolumns : Columns num Admitted Sized) {l : Lien} (hl : l ∈ s.liens) (hlive : l.status.Live)
    {x : ReleaseRequestLine} {input : ReleasePartialInput} {result : ReleasePartialResult}
    {kept : Receipt} (hreceipt : input.heldReceiptId = l.receiptId)
    (hsized : Sized input.releaseQuantity)
    (hctx : input.idempotencyKey = partialKey x.releaseRequestId x.id)
    {events : List InventoryEvent} {change : Change}
    (heffect : Effect num uuids s.ledger (.releasePartial input) events change
      (.partlyReleased result))
    (hcommits : Commits s.ledger events change ledger) (hkept : result.remainingHeld = some kept)
    (hbusy : ∀ requestId lineId, busy requestId lineId → busy' requestId lineId)
    (hdone : busy' x.releaseRequestId x.id) {f : Lien → Lien}
    (hkey : ∀ r, Keyed.key (f r) = Keyed.key r) (hsame : ∀ l, SameLien l (f l))
    (hstatus : ∀ l, (f l).status = .partiallyReleased) (hto : (f l).receiptId = kept.id)
    (hafter : (f l).remainingQuantity =
      num.numeric20_4 (num.minus l.remainingQuantity input.releaseQuantity)) :
    Backed num Admitted Sized busy' { s with ledger, liens := s.liens.modify l.id f hkey } := by
  have hused : ∀ key, ledger.Used key ↔ s.ledger.Used key ∨ key = input.idempotencyKey :=
    heffect.used hcommits nofun
  have hnotFull : ∀ requestId lineId, input.idempotencyKey ≠ fullKey requestId lineId := by
    simp [hctx, partialKey, fullKey]
  -- the only row that is written belongs to a live lien
  have hdead : ∀ l' ∈ s.liens, l'.id = l.id → ¬ l'.status.Live → ¬ (f l').status.Live := by
    intro l' hl' hid hdead
    obtain rfl := Table.eq_of_key_eq hl' hl hid
    exact absurd hlive hdead
  constructor
  · apply h.volumes.parted hcolumns hl hlive hreceipt hsized hnotFull heffect hcommits hkept
    exact ⟨hto, (hsame l).tenantId, .inr (hstatus l), hafter⟩
  · exact h.rows.reworked (Reworked.lien s ledger l.id hkey hsame hdead)
  · apply h.logged.release (.inr hctx) hused hbusy hdone hkey hsame hdead
    simp [hstatus]

/-- A release by force, of a lien that is live or was forced before. -/
theorem Backed.forceRelease (h : Backed num Admitted Sized busy s) {l : Lien} (hl : l ∈ s.liens)
    (hstatus : l.status ≠ .released) {ctx : ActorCtx} (hctx : ctx.idempotencyKey = forceKey l.id)
    (houtcome : Outcome num uuids (.release ctx l.receiptId) s.ledger result ledger)
    {f : Lien → Lien} (hkey : ∀ r, Keyed.key (f r) = Keyed.key r) (hsame : ∀ l, SameLien l (f l))
    (hforced : ∀ l, (f l).status = .forceReleased) :
    Backed num Admitted Sized busy { s with ledger, liens := s.liens.modify l.id f hkey } := by
  have hdead : ∀ l, ¬ (f l).status.Live := by simp [hforced, LienStatus.Live]
  have hre := Reworked.lien s ledger l.id hkey hsame fun l' _ _ _ => hdead l'
  have hlogged : ∀ (hkept : ∀ key, s.ledger.Used key → ledger.Used key)
      (hnew : ∀ key, ledger.Used key → s.ledger.Used key ∨ key = forceKey l.id)
      (hlogs : ledger.Used (forceKey l.id)),
      Logged busy { s with ledger, liens := s.liens.modify l.id f hkey } := by
    intro hkept hnew hlogs
    apply h.logged.reworked hre (fun _ _ hopen => .inl hopen) hkept
    · intro key hused
      rcases hnew key hused with hold | rfl
      · exact .inl hold
      · have hafter : f l ∈ ({ s with ledger, liens := s.liens.modify l.id f hkey } : Db).liens :=
          Table.mem_modify_self f hkey hl
        have hshown : Shown busy _ _ := Shown.of_force hafter (hdead l)
        rw [(hsame l).id] at hshown
        exact .inr hshown
    · intro l' hl' hstatus'
      obtain ⟨l₀, hl₀, hid, ⟨heq, rfl⟩ | ⟨-, rfl⟩⟩ := Table.exists_of_mem_modify f hkey hl'
      · left
        rw [(hsame l₀).id, show l₀.id = l.id from heq]
        exact hlogs
      · exact .inr ⟨l', hl₀, rfl, hstatus'⟩
  cases houtcome with
  | replayed e prior reconstructs same =>
      subst same
      have hlogs : s.ledger.Used (forceKey l.id) := hctx ▸ used_of_find prior
      obtain ⟨l', hl', hid, hnot⟩ := (h.logged.shown _ hlogs).force l.id rfl
      obtain rfl := Table.eq_of_key_eq hl' hl hid
      refine ⟨h.volumes.idle hl hnot hdead, h.rows.reworked hre, ?_⟩
      exact hlogged (fun _ hused => hused) (fun _ hused => .inl hused) hlogs
  | committed free events change effect commits =>
      have hused : ∀ key, ledger.Used key ↔ s.ledger.Used key ∨ key = ctx.idempotencyKey :=
        effect.used commits (by rintro _ _ _ _ _ _ ⟨⟩)
      have hlive : l.status.Live := by
        by_cases hforcedBefore : l.status = .forceReleased
        · have hlogs := h.logged.forced l hl hforcedBefore
          rw [← hctx] at hlogs
          exact absurd hlogs (not_used_iff.mpr free)
        · unfold LienStatus.Live
          cases hcase : l.status <;> simp_all
      refine ⟨?_, h.rows.reworked hre, ?_⟩
      · apply h.volumes.freed hl hlive effect commits _ hdead
        intro requestId lineId hfull
        rw [hctx] at hfull
        simp [forceKey, fullKey] at hfull
      · apply hlogged
        · exact fun key hold => (hused key).mpr (.inl hold)
        · exact fun key hafter => hctx ▸ (hused key).mp hafter
        · exact (hused _).mpr (.inr hctx.symm)

end Decisions

end SecureStore.Services
