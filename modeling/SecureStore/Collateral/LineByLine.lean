/-
# A line of a release request against the ledger of its turn

The ledger lets a line through when its leaf is there, or when an earlier attempt logged the
release. What a line takes and what it leaves behind, and that it leaves alone the leaves,
the liens and the keys of the others.
-/

import SecureStore.Collateral.Approval
import SecureStore.Collateral.Filing

namespace SecureStore.Services

open SecureStore.Foundation SecureStore.Inventory

/-! ## Applied, and to be served -/

/-- The line asks for all that remained of its lien when it was read. -/
def LoadedLine.Full (l : LoadedLine) : Prop := l.line.quantity = l.lien.remainingQuantity

instance : DecidablePred LoadedLine.Full := fun _ => instDecidableEqRat _ _

/-- The key under which the line is released. -/
def lineKey (req : ReleaseRequest) (l : LoadedLine) : IdempotencyKey :=
  if l.Full then fullKey req.id l.line.id else partialKey req.id l.line.id

/-- The row of the lien as the line leaves it: closed, or moved to the leaf that stays behind
under the lien. -/
structure LoadedLine.Leaves (l : LoadedLine) (e : InventoryEvent) (s : Ledger) (row : Lien) :
    Prop where
  remaining : row.remainingQuantity = l.lien.remainingQuantity - l.line.quantity
  full : l.Full → row.status = .released
  part : ¬ l.Full → row.status = .partiallyReleased ∧ ∃ k ∈ s.receipts,
    k.id = row.receiptId ∧ k.sourceEventId = some e.id ∧ k.status = .heldLien

/-- The line has been applied: its quantity was released from the leaf that its lien pointed
at, and the lien's row is as the line leaves it. -/
def Applied (req : ReleaseRequest) (l : LoadedLine) (db : Db) : Prop :=
  ∃ e, db.ledger.events.find (lineKey req l) = some e ∧ e.fromReceiptId = l.lien.receiptId ∧
    e.quantity = l.line.quantity ∧
      ∃ row ∈ db.liens, row.id = l.lien.id ∧ l.Leaves e db.ledger row

/-- The ledger lets the line's release through: it was logged by an earlier attempt, whose
leaf is still under the lien, or the leaf of the lien is there to be released. -/
inductive Passes (s : Ledger) (req : ReleaseRequest) (l : LoadedLine) : Prop where
  | logged (e : InventoryEvent) (prior : s.events.find (lineKey req l) = some e)
      (kept : ¬ l.Full → ∃ k ∈ s.receipts, k.sourceEventId = some e.id ∧ k.status = .heldLien)
  | released (r : Receipt) (free : s.events.find (lineKey req l) = none)
      (loaded : Loaded s l.lien.receiptId req.tenantId r) (held : r.status.Held)
      (part : ¬ l.Full → r.status = .heldLien ∧ 0 < l.line.quantity ∧
        l.line.quantity < r.quantity)

/-- The line can be served: its release goes through and takes the line's quantity from the
leaf that the lien points at. -/
inductive Serves (s : Ledger) (req : ReleaseRequest) (l : LoadedLine) : Prop where
  | logged (e : InventoryEvent) (prior : s.events.find (lineKey req l) = some e)
      (leaf : e.fromReceiptId = l.lien.receiptId) (quantity : e.quantity = l.line.quantity)
      (kept : ¬ l.Full → ∃ k ∈ s.receipts, k.sourceEventId = some e.id ∧ k.status = .heldLien)
  | released (r : Receipt) (free : s.events.find (lineKey req l) = none)
      (loaded : Loaded s l.lien.receiptId req.tenantId r) (held : r.status.Held)
      (full : l.Full → r.quantity = l.line.quantity)
      (part : ¬ l.Full → r.status = .heldLien ∧ 0 < l.line.quantity ∧
        l.line.quantity < r.quantity)

/-! ## Keys -/

section Keys

variable {req : ReleaseRequest} {l l' : LoadedLine}

theorem lineKey_full (h : l.Full) : lineKey req l = fullKey req.id l.line.id := if_pos h

theorem lineKey_part (h : ¬ l.Full) : lineKey req l = partialKey req.id l.line.id := if_neg h

theorem releaseKey_lineKey : ReleaseKey (lineKey req l) := by
  refine ⟨req.id, l.line.id, ?_⟩
  by_cases h : l.Full
  · exact .inl (lineKey_full h)
  · exact .inr (lineKey_part h)

/-- Different lines are released under different keys. -/
theorem lineKey_ne (h : l.line.id ≠ l'.line.id) : lineKey req l ≠ lineKey req l' := by
  unfold lineKey
  split <;> split <;> simp [fullKey, partialKey, h]

end Keys

theorem Serves.passes {s : Ledger} {req : ReleaseRequest} {l : LoadedLine} (h : Serves s req l) :
    Passes s req l := by
  cases h with
  | logged e prior leaf quantity kept => exact .logged e prior kept
  | released r free loaded held full part => exact .released r free loaded held part

/-! ## One line -/

/-- What the release of a line does to the ledger: nothing when it was logged before, or it
takes the hold off the leaf of the lien. -/
inductive LineRelease (uuids : Uuids) (req : ReleaseRequest) (l : LoadedLine) (s : Ledger)
    (e : InventoryEvent) (s' : Ledger) : Prop where
  | logged (prior : s.events.find (lineKey req l) = some e) (same : s' = s)
  | released {op : LedgerOp} {change : Change} {result : LedgerResult} {r r' : Receipt}
      (free : s.events.find (lineKey req l) = none)
      (effect : Effect .exact uuids s op [e] change result) (commits : Commits s [e] change s')
      (call : (∃ ctx id, op = .release ctx id) ∨ ∃ input, op = .releasePartial input)
      (key : e.idempotencyKey = lineKey req l)
      (loaded : Loaded s l.lien.receiptId req.tenantId r) (held : r.status.Held)
      (rewritten : change.rewritten = some (r, r')) (freed : ¬ r'.status.Held)
      (leaf : e.fromReceiptId = r.id)
      (quantity : e.quantity = if l.Full then r.quantity else l.line.quantity)
      (part : ¬ l.Full → r.status = .heldLien ∧ 0 < l.line.quantity ∧
        l.line.quantity < r.quantity)
      (kept : ¬ l.Full → ∃ k ∈ s'.receipts, k.sourceEventId = some e.id ∧ k.status = .heldLien)

/-- What a line that went through has written. -/
structure LineWrite (l : LoadedLine) (e : InventoryEvent) (s s' : Db) : Prop where
  row : ∃ f, ∃ hf : ∀ r : Lien, Keyed.key (f r) = Keyed.key r,
    s'.liens = s.liens.modify l.lien.id f hf ∧ (∀ r, (f r).pledgeId = r.pledgeId) ∧
      ∀ r, l.Leaves e s'.ledger (f r)
  directory : s'.directory = s.directory
  requests : s'.releaseRequests = s.releaseRequests
  lines : s'.releaseRequestLines = s.releaseRequestLines

section Line

variable {s : Db} {dto : ApproveReleaseRequest} {req : ReleaseRequest} {l : LoadedLine}

/-- The release of a receipt under a key that was logged returns. -/
theorem release_logged {uuids : Uuids} {ctx : ActorCtx} {id : Id} {e : InventoryEvent}
    {s : Ledger} (hs : Provenance s) (hprior : s.events.find ctx.idempotencyKey = some e) :
    ∃ r s', release .exact uuids ctx id s = .ok (r, s') := by
  obtain ⟨r, hr, hid, htenant, -⟩ := hs.from_exists e (Table.mem_of_find hprior)
  refine ⟨r, s, runIdempotent_ok.mpr (.inl ⟨e, hprior, ?_⟩)⟩
  have hfind : s.receipts.find e.fromReceiptId = some r := hid ▸ Table.find_of_mem hr
  simp [Ledger.affected, Ledger.loadOrThrow, hfind, htenant]

/-- What one line comes to: it throws and nothing has changed, exactly when the ledger does
not let it through, or it releases and writes. -/
def LineEnds (dto : ApproveReleaseRequest) (req : ReleaseRequest) (l : LoadedLine) (s : Db) :
    Except ApiError Unit → Db → Prop
  | .error _, s' => s' = s ∧ ¬ Passes s.ledger req l
  | .ok _, s' => Passes s.ledger req l ∧ ∃ e,
      LineRelease (dto.uuids l.line.id) req l s.ledger e s'.ledger ∧ LineWrite l e s s'

/-- Where one line can stop: before its release, behind it, or behind the update of its lien. -/
inductive LineStops (dto : ApproveReleaseRequest) (req : ReleaseRequest) (l : LoadedLine)
    (s s' : Db) : Prop where
  | before (same : s' = s)
  | released (e : InventoryEvent)
      (release : LineRelease (dto.uuids l.line.id) req l s.ledger e s'.ledger)
      (same : s' = { s with ledger := s'.ledger })
  | written (e : InventoryEvent)
      (release : LineRelease (dto.uuids l.line.id) req l s.ledger e s'.ledger)
      (write : LineWrite l e s s')

theorem updateLien_lineEnds {by_ : Issuer} {e : InventoryEvent} {ledger : Ledger} {f : Lien → Lien}
    {hf : ∀ r, Keyed.key (f r) = Keyed.key r} (hpasses : Passes s.ledger req l)
    (hrelease : LineRelease (dto.uuids l.line.id) req l s.ledger e ledger)
    (hlien : s.liens.find l.lien.id ≠ none) (hpledge : ∀ r, (f r).pledgeId = r.pledgeId)
    (hleaves : ∀ r, l.Leaves e ledger (f r)) :
    Process.Ensures (LineStops dto req l s) (LineEnds dto req l s)
      (updateLien by_ l.lien.id f hf) { s with ledger } := by
  apply ensures_write_last
  · intro e' hrefused
    exact absurd (updateRow_refused (map_error.mp hrefused)) hlien
  · intro _ s' hok
    obtain ⟨liens, hupdate, hresult⟩ := map_ok.mp hok
    cases hresult
    obtain ⟨-, -, hliens⟩ := updateRow_ok.mp hupdate
    have hwrite : LineWrite l e s { s with ledger, liens } :=
      ⟨⟨f, hf, hliens, hpledge, hleaves⟩, rfl, rfl, rfl⟩
    exact ⟨.written e hrelease hwrite, hpasses, e, hrelease, hwrite⟩

theorem releaseFully_lineEnds (hs : Provenance s.ledger) (hfull : l.Full)
    (hfresh : (dto.uuids l.line.id).Fresh s.ledger) (hlien : s.liens.find l.lien.id ≠ none) :
    Process.Ensures (LineStops dto req l s) (LineEnds dto req l s)
      (releaseFully .exact dto req l) s := by
  have hkey : lineKey req l = fullKey req.id l.line.id := lineKey_full hfull
  have hremaining : l.lien.remainingQuantity - l.line.quantity = 0 := by
    rw [hfull]
    exact sub_self _
  have hleaves : ∀ (e : InventoryEvent) (ledger : Ledger) (r : Lien), l.Leaves e ledger
      { r with remainingQuantity := 0, status := .released, releasedAt := some dto.now } :=
    fun e ledger r => ⟨hremaining.symm, fun _ => rfl, fun hpart => absurd hfull hpart⟩
  apply ensures_ledger_or rfl
  · intro e hfails
    refine ⟨.before rfl, rfl, fun hpasses => hfails ?_⟩
    cases hpasses with
    | logged e prior kept => exact release_logged hs (hkey ▸ prior)
    | released r free loaded held part =>
        rw [hkey] at free
        exact release_succeeds hfresh.event free loaded held
  · intro _ ledger houtcome
    cases houtcome with
    | replayed e prior reconstructs same =>
        have hlogged : s.ledger.events.find (lineKey req l) = some e := hkey ▸ prior
        have hrelease : LineRelease (dto.uuids l.line.id) req l s.ledger e ledger :=
          .logged hlogged same
        refine ⟨.released e hrelease rfl, ?_⟩
        exact updateLien_lineEnds (.logged e hlogged fun hpart => absurd hfull hpart) hrelease
          hlien (fun _ => rfl) (hleaves e ledger)
    | committed free events change effect commits =>
        have hfree : s.ledger.events.find (lineKey req l) = none := hkey ▸ free
        cases effect with
        | release ctx r loaded held =>
            obtain ⟨e, hrelease⟩ :
                ∃ e, LineRelease (dto.uuids l.line.id) req l s.ledger e ledger := by
              refine ⟨_, .released hfree (.release _ r loaded held) commits (.inl ⟨_, _, rfl⟩)
                hkey.symm loaded held rfl ?_ rfl ?_ (fun hpart => absurd hfull hpart)
                fun hpart => absurd hfull hpart⟩
              · simp [ReceiptStatus.Held, heldStatuses]
              · rw [if_pos hfull]
                rfl
            refine ⟨.released e hrelease rfl, ?_⟩
            exact updateLien_lineEnds
              (.released r hfree loaded held fun hpart => absurd hfull hpart) hrelease hlien
              (fun _ => rfl) (hleaves e ledger)

theorem releasePartly_lineEnds (hpart : ¬ l.Full) (hfresh : (dto.uuids l.line.id).Fresh s.ledger)
    (hlien : s.liens.find l.lien.id ≠ none) :
    Process.Ensures (LineStops dto req l s) (LineEnds dto req l s)
      (releasePartly .exact dto req l) s := by
  have hkey : lineKey req l = partialKey req.id l.line.id := lineKey_part hpart
  apply ensures_ledger_or rfl
  · intro e hfails
    refine ⟨.before rfl, rfl, fun hpasses => hfails ?_⟩
    cases hpasses with
    | logged e prior kept =>
        rw [hkey] at prior
        exact ⟨_, s.ledger, runIdempotent_ok.mpr (.inl ⟨e, prior, rfl, rfl⟩)⟩
    | released r free loaded held part =>
        rw [hkey] at free
        obtain ⟨hheld, hpositive, havailable⟩ := part hpart
        exact releasePartial_succeeds hfresh free loaded hheld hpositive havailable
  · intro result ledger houtcome
    cases houtcome with
    | replayed e prior reconstructs same =>
        have hlogged : s.ledger.events.find (lineKey req l) = some e := hkey ▸ prior
        subst same
        cases reconstructs
        refine ⟨.before rfl, ?_⟩
        apply ensures_orThrow
        · intro hnone
          refine ⟨rfl, fun hpasses => ?_⟩
          -- the replay finds no leaf under the lien
          cases hpasses with
          | logged e' prior' kept =>
              obtain rfl := Option.some_inj.mp (hlogged.symm.trans prior')
              obtain ⟨k, hk, hsource, hstatus⟩ := kept hpart
              have hmissing := List.find?_eq_none.mp hnone k (Ledger.mem_byEvent.mpr ⟨hk, hsource⟩)
              exact hmissing (decide_eq_true hstatus)
          | released r free => cases hlogged.symm.trans free
        · intro held hheld
          obtain ⟨hk, hsource⟩ := Ledger.mem_byEvent.mp (List.mem_of_find?_eq_some hheld)
          have hstatus : held.status = .heldLien := by
            simpa using List.find?_some hheld
          exact updateLien_lineEnds (.logged e hlogged fun _ => ⟨held, hk, hsource, hstatus⟩)
            (.logged hlogged rfl) hlien (fun _ => rfl)
            fun r => ⟨rfl, fun hfull => absurd hfull hpart,
              fun _ => ⟨rfl, held, hk, rfl, hsource, hstatus⟩⟩
    | committed free events change effect commits =>
        have hfree : s.ledger.events.find (lineKey req l) = none := hkey ▸ free
        cases effect with
        | releasePartial input src number number' loaded lien positive available =>
            have hheld : src.status.Held := by
              rw [lien]
              decide
            have hmem := Table.mem_of_find
              (commits.find_created (List.mem_cons_of_mem _ List.mem_cons_self))
            obtain ⟨e, hrelease, hchild⟩ :
                ∃ e, LineRelease (dto.uuids l.line.id) req l s.ledger e ledger ∧
                  (remainingChild .exact (dto.uuids l.line.id) src l.line.quantity
                    number').sourceEventId = some e.id := by
              refine ⟨_, .released hfree
                (.releasePartial _ src number number' loaded lien positive available) commits
                (.inr ⟨_, rfl⟩) hkey.symm loaded hheld rfl ?_ rfl ?_
                (fun _ => ⟨lien, positive, available⟩) fun _ => ⟨_, hmem, rfl, rfl⟩, rfl⟩
              · simp [ReceiptStatus.Held, heldStatuses, supersede]
              · rw [if_neg hpart]
                rfl
            refine ⟨.released e hrelease rfl, ?_⟩
            apply ensures_orThrow
            · intro hnone
              cases hnone
            intro held hsome
            obtain rfl := Option.some_inj.mp hsome
            exact updateLien_lineEnds
              (.released src hfree loaded hheld fun _ => ⟨lien, positive, available⟩) hrelease
              hlien (fun _ => rfl) fun r => ⟨rfl, fun hfull => absurd hfull hpart,
                fun _ => ⟨rfl, _, hmem, rfl, hchild, rfl⟩⟩

theorem releaseLine_lineEnds (hs : Provenance s.ledger)
    (hfresh : (dto.uuids l.line.id).Fresh s.ledger) (hlien : s.liens.find l.lien.id ≠ none) :
    Process.Ensures (LineStops dto req l s) (LineEnds dto req l s)
      (releaseLine .exact dto req l) s := by
  unfold releaseLine
  by_cases hfull : l.line.quantity = l.lien.remainingQuantity
  · rw [if_pos hfull]
    exact releaseFully_lineEnds hs hfull hfresh hlien
  · rw [if_neg hfull]
    exact releasePartly_lineEnds hfull hfresh hlien

end Line

/-! ## What a line leaves alone -/

/-- A held receipt was there before, or stems from an event that was not. -/
def Stems (s₀ s : Ledger) : Prop :=
  ∀ r ∈ s.receipts, r.status.Held → r ∈ s₀.receipts ∨
    ∃ e ∈ s.events, e ∉ s₀.events ∧ r.sourceEventId = some e.id

theorem Stems.refl (s : Ledger) : Stems s s := fun _ hr _ => .inl hr

/-- A held receipt of an old event was there before. -/
theorem Stems.old {s₀ s : Ledger} (h : Stems s₀ s) (hlater : Later s₀ s) (hs : Provenance s)
    {r : Receipt} (hr : r ∈ s.receipts) (hheld : r.status.Held) {e : InventoryEvent}
    (he : e ∈ s₀.events) (hsource : r.sourceEventId = some e.id) : r ∈ s₀.receipts := by
  rcases h r hr hheld with hold | ⟨e', he', hnew, hsource'⟩
  · exact hold
  · have hid : e'.id = e.id := Option.some_inj.mp (hsource'.symm.trans hsource)
    obtain rfl := hs.event_ids e' he' e (hlater.events e he) hid
    exact absurd he hnew

/-- A held receipt that stands where one stood before was there before. -/
theorem Stems.same {s₀ s : Ledger} (h : Stems s₀ s) (hlater : Later s₀ s) (hs₀ : Provenance s₀)
    (hs : Provenance s) {r r₀ : Receipt} (hr : r ∈ s.receipts) (hheld : r.status.Held)
    (hr₀ : r₀ ∈ s₀.receipts) (hid : r₀.id = r.id) : r ∈ s₀.receipts := by
  rcases h r hr hheld with hold | ⟨e, he, hnew, hsource⟩
  · exact hold
  · -- the receipt at this place has kept its source, which was logged before
    obtain ⟨r', hr', hnode, -⟩ := hlater.receipts r₀ hr₀
    obtain rfl : r' = r := Table.eq_of_key_eq hr' hr (hnode.id.trans hid)
    obtain ⟨e₀, he₀, hid₀⟩ := hs₀.source_logged r₀ hr₀ e.id (hnode.sourceEventId ▸ hsource)
    obtain rfl := hs.event_ids e₀ (hlater.events e₀ he₀) e he hid₀
    exact absurd he₀ hnew

section Release

variable {uuids uuids' : Uuids} {req : ReleaseRequest} {l : LoadedLine} {s₀ s s' : Ledger}
  {e : InventoryEvent}

theorem LineRelease.found (h : LineRelease uuids req l s e s') :
    s'.events.find (lineKey req l) = some e := by
  cases h with
  | logged prior same => exact same ▸ prior
  | released free effect commits call key =>
      have hmem := commits.mem_events.mpr (.inr List.mem_cons_self)
      rw [← key]
      exact Table.find_of_mem hmem

theorem LineRelease.later (h : LineRelease uuids req l s e s') : Later s s' := by
  cases h with
  | logged prior same => exact same ▸ .refl s
  | released free effect commits => exact commits.later effect

/-- The keys of other lines stay new. -/
theorem LineRelease.unused (h : LineRelease uuids req l s e s') {key : IdempotencyKey}
    (hne : key ≠ lineKey req l) (hfree : s.events.find key = none) :
    s'.events.find key = none := by
  cases h with
  | logged prior same => exact same ▸ hfree
  | released free effect commits call keyed =>
      apply not_used_iff.mp
      intro hused
      rcases commits.used_single.mp hused with hold | hnew
      · exact not_used_iff.mpr hfree hold
      · exact hne (hnew.trans keyed)

theorem LineRelease.fresh (h : LineRelease uuids req l s e s') (hfresh : uuids'.Fresh s)
    (hapart : uuids.Apart uuids') : uuids'.Fresh s' := by
  cases h with
  | logged prior same => exact same ▸ hfresh
  | released free effect commits call =>
      apply hfresh.commit hapart effect commits
      rcases call with ⟨ctx, id, rfl⟩ | ⟨input, rfl⟩ <;> nofun

/-- Only the held leaf of its own lien is not what it was. -/
theorem LineRelease.stays (h : LineRelease uuids req l s e s') {x : Receipt}
    (hx : x ∈ s.receipts) :
    x ∈ s'.receipts ∨ (x.status.Held ∧ x.id = l.lien.receiptId) := by
  cases h with
  | logged prior same => exact .inl (same ▸ hx)
  | @released op change result r r' free effect commits call key loaded held rewritten =>
      by_cases hid : r.id = x.id
      · obtain rfl : r = x := Table.eq_of_key_eq (Table.mem_of_find loaded.1) hx hid
        exact .inr ⟨held, Table.key_of_find loaded.1⟩
      · left
        apply commits.stays hx
        intro before after hbefore
        cases rewritten.symm.trans hbefore
        exact hid

theorem LineRelease.stems (h : LineRelease uuids req l s e s') (hs : Stems s₀ s)
    (hlater : Later s₀ s) : Stems s₀ s' := by
  cases h with
  | logged prior same => exact same ▸ hs
  | @released op change result r r' free effect commits call key loaded held rewritten freed =>
      have hnew : e ∉ s₀.events := by
        intro he
        have hused := Table.find_of_mem (hlater.events e he)
        rw [show Keyed.key e = lineKey req l from key, free] at hused
        cases hused
      intro x hx hheld
      rcases commits.receipt_cases hx with hcreated | ⟨before, hrewritten, -⟩ | ⟨hold, -⟩
      · obtain ⟨e', he', hid, -⟩ := effect.keyed_event
        obtain rfl := List.mem_singleton.mp he'
        right
        refine ⟨e', commits.mem_events.mpr (.inr he'), hnew, ?_⟩
        rw [effect.created_source hcreated, hid]
      · cases rewritten.symm.trans hrewritten
        exact absurd hheld freed
      · rcases hs x hold hheld with hthere | ⟨e', he', hlate, hsource⟩
        · exact .inl hthere
        · exact .inr ⟨e', commits.mem_events.mpr (.inl he'), hlate, hsource⟩

end Release

section Others

variable {uuids : Uuids} {req : ReleaseRequest} {l l' : LoadedLine} {s s' : Db}
  {e : InventoryEvent}

/-- A held leaf is under one lien. -/
theorem leaf_unique (hc : Custody s) (hf : Filed s) {lien lien' : Lien} (hl : lien ∈ s.liens)
    (hl' : lien' ∈ s.liens) {r : Receipt} (hr : r ∈ s.ledger.receipts) (hheld : r.status.Held)
    (hid : r.id = lien.receiptId) (hminted : MintedFor r .pledge lien'.pledgeId) :
    lien = lien' := by
  obtain ⟨r₀, hfind, hminted₀⟩ := hc.liens lien hl
  obtain rfl : r₀ = r := by
    rw [← hid] at hfind
    exact Option.some_inj.mp (hfind.symm.trans (Table.find_of_mem hr))
  apply hf.single lien hl lien' hl'
  exact Option.some_inj.mp ((hminted₀ hheld).2.symm.trans hminted.2)

/-- A held leaf of another lien is left alone. -/
theorem LineRelease.leaf_stays (h : LineRelease uuids req l s.ledger e s'.ledger)
    (hc : Custody s) (hf : Filed s) (hl : l.lien ∈ s.liens) {lien : Lien} (hlien : lien ∈ s.liens)
    (hne : lien.id ≠ l.lien.id) {r : Receipt} (hr : r ∈ s.ledger.receipts)
    (hminted : r.status.Held → MintedFor r .pledge lien.pledgeId) : r ∈ s'.ledger.receipts := by
  rcases h.stays hr with hkept | ⟨hheld, hid⟩
  · exact hkept
  · have heq := leaf_unique hc hf hl hlien hr hheld hid (hminted hheld)
    exact absurd (congrArg Lien.id heq.symm) hne

/-- The leaf that a lien points at, held or not. -/
theorem Custody.lien_leaf (hc : Custody s) {lien : Lien} (hlien : lien ∈ s.liens) {r : Receipt}
    (hr : r ∈ s.ledger.receipts) (hid : r.id = lien.receiptId) (hheld : r.status.Held) :
    MintedFor r .pledge lien.pledgeId := by
  obtain ⟨r₀, hfind, hminted⟩ := hc.liens lien hlien
  obtain rfl : r₀ = r := by
    rw [← hid] at hfind
    exact Option.some_inj.mp (hfind.symm.trans (Table.find_of_mem hr))
  exact hminted hheld

/-- A line that can be served still can after a line on another lien. -/
theorem Serves.after (h : Serves s.ledger req l') (hc : Custody s) (hf : Filed s)
    (hl : l.lien ∈ s.liens) (hl' : l'.lien ∈ s.liens) (hline : l'.line ∈ s.releaseRequestLines)
    (hid : l'.lien.id = l'.line.lienId) (hne : l'.lien.id ≠ l.lien.id)
    (hlines : l'.line.id ≠ l.line.id)
    (hrelease : LineRelease uuids req l s.ledger e s'.ledger) : Serves s'.ledger req l' := by
  have hkeys : lineKey req l' ≠ lineKey req l := lineKey_ne hlines
  cases h with
  | logged e' prior leaf quantity kept =>
      have hprior := hrelease.later.events e' (Table.mem_of_find prior)
      have hfind : s'.ledger.events.find (lineKey req l') = some e' := by
        rw [← Table.key_of_find prior]
        exact Table.find_of_mem hprior
      refine .logged e' hfind leaf quantity fun hpart => ?_
      obtain ⟨k, hk, hsource, hstatus⟩ := kept hpart
      have hkey : e'.idempotencyKey = partialKey req.id l'.line.id :=
        (Table.key_of_find prior).trans (lineKey_part hpart)
      obtain ⟨x, hx, hxid, lien, hlien, hlid, hkids⟩ :=
        hc.partials e' (Table.mem_of_find prior) _ _ hkey
      obtain rfl : x = l'.line := Table.eq_of_key_eq hx hline hxid
      obtain rfl : lien = l'.lien := Table.eq_of_key_eq hlien hl' (hlid.trans hid.symm)
      have hthere := hrelease.leaf_stays hc hf hl hlien hne hk (hkids k hk hsource)
      exact ⟨k, hthere, hsource, hstatus⟩
  | released r free loaded held full part =>
      have hr := Table.mem_of_find loaded.1
      have hthere := hrelease.leaf_stays hc hf hl hl' hne hr
        (hc.lien_leaf hl' hr (Table.key_of_find loaded.1))
      refine .released r (hrelease.unused hkeys free) ⟨?_, loaded.2⟩ held full part
      rw [← Table.key_of_find loaded.1]
      exact Table.find_of_mem hthere

/-- A line that has been applied stays so after a line on another lien. -/
theorem Applied.after (h : Applied req l' s) (hc : Custody s) (hf : Filed s)
    (hl : l.lien ∈ s.liens) (hne : l'.lien.id ≠ l.lien.id)
    (hrelease : LineRelease uuids req l s.ledger e s'.ledger) (hwrite : LineWrite l e s s') :
    Applied req l' s' := by
  obtain ⟨e', hfind, hleaf, hquantity, row, hrow, hid, hleaves⟩ := h
  obtain ⟨f, hkey, hliens, -, -⟩ := hwrite.row
  have hlater := hrelease.later.events e' (Table.mem_of_find hfind)
  refine ⟨e', ?_, hleaf, hquantity, row, ?_, hid, hleaves.remaining, hleaves.full, ?_⟩
  · rw [← Table.key_of_find hfind]
    exact Table.find_of_mem hlater
  · rw [hliens]
    apply Table.mem_modify_other f hkey hrow
    exact fun hsame => hne (hid.symm.trans hsame)
  · intro hpart
    obtain ⟨hstatus, k, hk, hkid, hsource, hkstatus⟩ := hleaves.part hpart
    refine ⟨hstatus, k, ?_, hkid, hsource, hkstatus⟩
    apply hrelease.leaf_stays hc hf hl hrow (hid.symm ▸ hne) hk
    exact hc.lien_leaf hrow hk hkid

/-- A line that can be served has been applied once it went through. -/
theorem Serves.applied (h : Serves s.ledger req l) (hl : l.lien ∈ s.liens)
    (hrelease : LineRelease uuids req l s.ledger e s'.ledger) (hwrite : LineWrite l e s s') :
    Applied req l s' := by
  obtain ⟨f, hkey, hliens, -, hleaves⟩ := hwrite.row
  have hagrees : e.fromReceiptId = l.lien.receiptId ∧ e.quantity = l.line.quantity := by
    cases hrelease with
    | logged prior same =>
        cases h with
        | logged e' prior' leaf quantity =>
            obtain rfl := Option.some_inj.mp (prior.symm.trans prior')
            exact ⟨leaf, quantity⟩
        | released r free => cases prior.symm.trans free
    | @released op change result r r' free effect commits call key loaded held rewritten freed
        leaf quantity =>
        cases h with
        | logged e' prior' => cases free.symm.trans prior'
        | released r₀ free₀ loaded₀ held₀ full =>
            obtain rfl := Option.some_inj.mp (loaded.1.symm.trans loaded₀.1)
            refine ⟨leaf.trans (Table.key_of_find loaded.1), ?_⟩
            rw [quantity]
            split
            · exact full ‹_›
            · rfl
  refine ⟨e, hrelease.found, hagrees.1, hagrees.2, f l.lien, ?_, hkey l.lien, hleaves l.lien⟩
  rw [hliens]
  exact Table.mem_modify_self f hkey hl

end Others

end SecureStore.Services
