/-
# What the lines of a request bring

Every line that goes through brings what it asks for, once: what is ACTIVE in a tree and what
its lines have still to bring add up to the same, whichever of the lines went through and
however often they were called. A release in part leaves the rest on the leaf under the lien.
-/

import SecureStore.Collateral.AllOrNothing
import SecureStore.Collateral.Tenancy
import SecureStore.Inventory.Balances

namespace SecureStore.Services

open SecureStore.Foundation SecureStore.Inventory

/-! ## Volumes -/

/-- The volume of a tree that is ACTIVE. -/
def activeVolume (root : Id) (s : Ledger) : ℚ :=
  s.receipts.sumOf fun r => if r.rootReceiptId = root then r.availableQty else 0

/-- What a line asks for, in the tree of the leaf that its lien points at. -/
def LoadedLine.asks (l : LoadedLine) (root : Id) (s : Ledger) : ℚ :=
  if (s.receipts.find l.lien.receiptId).map Receipt.rootReceiptId = some root then
    l.line.quantity
  else 0

/-! ## What a release brings -/

section Release

variable {uuids : Uuids} {req : ReleaseRequest} {l : LoadedLine} {s s' : Ledger}
  {e : InventoryEvent}

/-- A release under a new key makes the volume that it logs ACTIVE. -/
theorem gain_released {op : LedgerOp} {change : Change} {result : LedgerResult} {r r' : Receipt}
    (heffect : Effect .exact uuids s op [e] change result)
    (hcall : (∃ ctx id, op = .release ctx id) ∨ ∃ input, op = .releasePartial input)
    (hrewritten : change.rewritten = some (r, r')) (root : Id) :
    change.gain (fun x => if x.rootReceiptId = root then x.availableQty else 0) =
      if r.rootReceiptId = root then e.quantity else 0 := by
  have hheld : ∀ {x : Receipt}, x.status.Held → x.availableQty = 0 := by
    intro x hx
    refine if_neg fun hactive => ?_
    rw [hactive.1] at hx
    exact absurd hx (by decide)
  rcases hcall with ⟨ctx, id, rfl⟩ | ⟨input, rfl⟩
  · cases heffect with
    | release ctx r₀ loaded held =>
        cases hrewritten
        by_cases hroot : r.rootReceiptId = root
        · simp only [Change.gain, Change.rewritten, Change.created_amend, if_pos hroot, hheld held]
          simp [Receipt.availableQty, Numeric.storeEvent, eventFrom, Numeric.exact]
        · simp [Change.gain, Change.rewritten, hroot]
  · cases heffect with
    | releasePartial input src number number' loaded lien =>
        cases hrewritten
        by_cases hroot : r.rootReceiptId = root
        · simp [Change.gain, Change.rewritten, hroot, Receipt.availableQty, lien]
        · simp [Change.gain, Change.rewritten, hroot]

/-- What a line's release brings: nothing when it was logged, or what the event says, in the
tree of the leaf. -/
theorem LineRelease.active (h : LineRelease uuids req l s e s') :
    (s.events.find (lineKey req l) ≠ none ∧ s' = s) ∨
      s.events.find (lineKey req l) = none ∧ ∃ r ∈ s.receipts, r.id = l.lien.receiptId ∧
        r.status.Held ∧ r.tenantId = req.tenantId ∧
          e.quantity = (if l.Full then r.quantity else l.line.quantity) ∧
            ∀ root, activeVolume root s' = activeVolume root s +
              if r.rootReceiptId = root then e.quantity else 0 := by
  cases h with
  | logged prior same => exact .inl ⟨by simp [prior], same⟩
  | @released op change result r r' free effect commits call key loaded held rewritten freed leaf
      quantity part =>
      refine .inr ⟨free, r, Table.mem_of_find loaded.1, Table.key_of_find loaded.1, held, loaded.2,
        quantity, fun root => ?_⟩
      unfold activeVolume
      rw [commits.sumOf, gain_released effect call rewritten]

/-- The leaf that a release in part leaves under the lien carries the rest. -/
theorem LineRelease.rest (h : LineRelease uuids req l s e s') (hs : Provenance s)
    (hfree : s.events.find (lineKey req l) = none) (hpart : ¬ l.Full) :
    ∃ r ∈ s.receipts, r.id = l.lien.receiptId ∧ r.status.Held ∧ ∀ k ∈ s'.receipts,
      k.sourceEventId = some e.id → k.status = .heldLien →
        k.quantity = r.quantity - l.line.quantity := by
  cases h with
  | logged prior => cases hfree.symm.trans prior
  | @released op change result r r' free effect commits call key loaded held rewritten freed leaf
      quantity part =>
      refine ⟨r, Table.mem_of_find loaded.1, Table.key_of_find loaded.1, held, ?_⟩
      intro k hk hsource hstatus
      have hheld : k.status.Held := by
        rw [hstatus]
        decide
      -- nothing that was there stems from the new event
      have hnew : ∀ x ∈ s.receipts, x.sourceEventId ≠ some e.id := by
        intro x hx hsame
        obtain ⟨e', he', hid⟩ := hs.source_logged x hx e.id hsame
        exact commits.newIds e (List.mem_singleton_self e) e' he' hid
      have hcreated : k ∈ change.created := by
        rcases commits.receipt_cases hk with hcreated | ⟨before, hpair, -⟩ | ⟨hold, -⟩
        · exact hcreated
        · cases rewritten.symm.trans hpair
          exact absurd hheld freed
        · exact absurd hsource (hnew k hold)
      rcases call with ⟨ctx, id, rfl⟩ | ⟨input, rfl⟩
      · cases effect
        cases hcreated
      · cases effect with
        | releasePartial input src number number' =>
            cases rewritten
            have hquantity : input.releaseQuantity = l.line.quantity := by
              rw [if_neg hpart] at quantity
              exact quantity
            rcases List.mem_pair.mp hcreated with rfl | rfl
            · cases hstatus
            · simp [Numeric.exact, hquantity]

end Release

/-! ## The account of the lines -/

/-- What a line is still to bring, by the ledger it started from. -/
def LoadedLine.due (l : LoadedLine) (req : ReleaseRequest) (root : Id) (s₀ s : Ledger) : ℚ :=
  if s.events.find (lineKey req l) = none then l.asks root s₀ else 0

/-- The account of the lines of a request: what is ACTIVE and what is still due adds up to
what it was, and a line that was released had its leaf and has left what remains. -/
structure Tally (req : ReleaseRequest) (lines : List LoadedLine) (s₀ s : Ledger) : Prop where
  later : Later s₀ s
  stems : Stems s₀ s
  volume : ∀ root, activeVolume root s + (lines.map fun l => l.due req root s₀ s).sum =
    activeVolume root s₀ + (lines.map fun l => l.due req root s₀ s₀).sum
  released : ∀ l ∈ lines, s₀.events.find (lineKey req l) = none →
    ∀ e, s.events.find (lineKey req l) = some e → OfTenant s₀ l.lien.receiptId req.tenantId ∧
      (¬ l.Full → ∀ k ∈ s.receipts, k.sourceEventId = some e.id → k.status = .heldLien →
        k.quantity = l.lien.remainingQuantity - l.line.quantity)

/-- The leaf of every line carries what remains of its lien. -/
def LeavesSized (lines : List LoadedLine) (s : Ledger) : Prop :=
  ∀ l ∈ lines, ∃ r ∈ s.receipts, r.id = l.lien.receiptId ∧
    r.quantity = l.lien.remainingQuantity

section Tally

variable {uuids : Uuids} {req : ReleaseRequest} {l : LoadedLine} {lines : List LoadedLine}
  {s₀ s s' : Ledger} {e : InventoryEvent}

theorem Tally.start (req : ReleaseRequest) (lines : List LoadedLine) (s : Ledger) :
    Tally req lines s s where
  later := .refl s
  stems := .refl s
  volume _ := rfl
  released := by
    intro l _ hfree e hfind
    cases hfree.symm.trans hfind

/-- The leaf that a line's release found held is the one it started with. -/
theorem Tally.leaf (h : Tally req lines s₀ s) (hs₀ : Provenance s₀) (hs : Provenance s)
    (hsized : LeavesSized lines s₀) (hl : l ∈ lines) {r : Receipt} (hr : r ∈ s.receipts)
    (hid : r.id = l.lien.receiptId) (hheld : r.status.Held) :
    r ∈ s₀.receipts ∧ r.quantity = l.lien.remainingQuantity := by
  obtain ⟨r₀, hr₀, hid₀, hquantity⟩ := hsized l hl
  have hthere : r ∈ s₀.receipts :=
    h.stems.same h.later hs₀ hs hr hheld hr₀ (hid₀.trans hid.symm)
  obtain rfl : r₀ = r := Table.eq_of_key_eq hr₀ hthere (hid₀.trans hid.symm)
  exact ⟨hthere, hquantity⟩

/-- One line at a time changes what it has still to bring. -/
theorem sum_due (hpairs : lines.Pairwise fun l l' => l.line.id ≠ l'.line.id) (hl : l ∈ lines)
    {f g : LoadedLine → ℚ} (hothers : ∀ l' ∈ lines, l'.line.id ≠ l.line.id → f l' = g l') :
    (lines.map f).sum + g l = (lines.map g).sum + f l := by
  induction lines with
  | nil => cases hl
  | cons first rest ih =>
      obtain ⟨hfirst, hrest⟩ := List.pairwise_cons.mp hpairs
      simp only [List.map_cons, List.sum_cons]
      rcases List.mem_cons.mp hl with rfl | hl
      · have hsame : rest.map f = rest.map g := by
          apply List.map_congr_left
          intro l' hl'
          exact hothers l' (List.mem_cons_of_mem _ hl') (hfirst l' hl').symm
        rw [hsame]
        ring
      · have hhead := hothers first List.mem_cons_self (hfirst l hl)
        have htail := ih hrest hl fun l' hl' => hothers l' (List.mem_cons_of_mem _ hl')
        rw [hhead]
        linarith

/-- What a line has still to bring is what its release brings. -/
theorem Tally.brings (h : Tally req lines s₀ s) (hs₀ : Provenance s₀) (hs : Provenance s)
    (hsized : LeavesSized lines s₀) (hl : l ∈ lines) (hrelease : LineRelease uuids req l s e s')
    (root : Id) : activeVolume root s' = activeVolume root s + l.due req root s₀ s := by
  rcases hrelease.active with ⟨hlogged, rfl⟩ | ⟨hfree, r, hr, hid, hheld, -, hquantity, hactive⟩
  · rw [LoadedLine.due, if_neg hlogged, add_zero]
  · obtain ⟨hthere, hsize⟩ := h.leaf hs₀ hs hsized hl hr hid hheld
    have hevent : e.quantity = l.line.quantity := by
      rw [hquantity]
      split
      · exact hsize.trans (Eq.symm ‹l.Full›)
      · rfl
    have hfind : s₀.receipts.find l.lien.receiptId = some r := hid ▸ Table.find_of_mem hthere
    rw [hactive root, LoadedLine.due, if_pos hfree, LoadedLine.asks, hfind, hevent]
    simp

/-- A line leaves alone what the others have still to bring. -/
theorem LineRelease.due_other {l' : LoadedLine} (h : LineRelease uuids req l s e s')
    (hne : l'.line.id ≠ l.line.id) (root : Id) :
    l'.due req root s₀ s' = l'.due req root s₀ s := by
  have hkeys : s'.events.find (lineKey req l') = none ↔ s.events.find (lineKey req l') = none := by
    constructor
    · intro hfree
      by_contra hlogged
      obtain ⟨e', he'⟩ := Option.ne_none_iff_exists'.mp hlogged
      have hlater := Table.find_of_mem (h.later.events e' (Table.mem_of_find he'))
      rw [show Keyed.key e' = lineKey req l' from Table.key_of_find he', hfree] at hlater
      cases hlater
    · exact h.unused (lineKey_ne hne)
  unfold LoadedLine.due
  simp only [hkeys]

theorem Tally.step (h : Tally req lines s₀ s) (hs₀ : Provenance s₀) (hs : Provenance s)
    (hs' : Provenance s') (hsized : LeavesSized lines s₀)
    (hpairs : lines.Pairwise fun l l' => l.line.id ≠ l'.line.id) (hl : l ∈ lines)
    (hrelease : LineRelease uuids req l s e s') : Tally req lines s₀ s' where
  later := h.later.trans hrelease.later
  stems := hrelease.stems h.stems h.later
  volume := by
    intro root
    have hbrings := h.brings hs₀ hs hsized hl hrelease root
    have hdone : l.due req root s₀ s' = 0 := if_neg (by simp [hrelease.found])
    have hsum := sum_due hpairs hl (f := fun l => l.due req root s₀ s')
      (g := fun l => l.due req root s₀ s) fun l' _ hne => hrelease.due_other hne root
    have hvolume := h.volume root
    simp only [hdone] at hsum
    linarith
  released := by
    intro l' hl' hfree e' hfind
    by_cases hsame : l'.line.id = l.line.id
    · obtain rfl : l' = l := List.inj_on_of_nodup_map (List.pairwise_map.mpr hpairs) hl' hl hsame
      obtain rfl : e = e' := Option.some_inj.mp (hrelease.found.symm.trans hfind)
      rcases hrelease.active with ⟨hlogged, rfl⟩ | ⟨hnew, r, hr, hid, hheld, htenant, -⟩
      · exact h.released l' hl hfree e hfind
      · obtain ⟨hthere, -⟩ := h.leaf hs₀ hs hsized hl hr hid hheld
        refine ⟨⟨r, hthere, hid, htenant⟩, fun hpart => ?_⟩
        obtain ⟨x, hx, hxid, hxheld, hrest⟩ := hrelease.rest hs hnew hpart
        rw [(h.leaf hs₀ hs hsized hl hx hxid hxheld).2] at hrest
        exact hrest
    · -- what stems from the release of another line is as it was
      cases hprior : s.events.find (lineKey req l') with
      | none => cases (hrelease.unused (lineKey_ne hsame) hprior).symm.trans hfind
      | some e'' =>
          have he'' := Table.mem_of_find hprior
          have hlater := Table.find_of_mem (hrelease.later.events e'' he'')
          rw [show Keyed.key e'' = lineKey req l' from Table.key_of_find hprior, hfind] at hlater
          obtain rfl := Option.some_inj.mp hlater
          obtain ⟨htenant, hkids⟩ := h.released l' hl' hfree e' hprior
          refine ⟨htenant, fun hpart k hk hsource hstatus => ?_⟩
          have hheld : k.status.Held := by
            rw [hstatus]
            decide
          have hold := (hrelease.stems (.refl s) (.refl s)).old hrelease.later hs' hk hheld he''
            hsource
          exact hkids hpart k hold hsource hstatus

end Tally

/-! ## All lines -/

/-- The lien of a line carries its quantity less than when it was read. -/
def LoadedLine.Subtracted (l : LoadedLine) (db : Db) : Prop :=
  ∃ row ∈ db.liens, row.id = l.lien.id ∧
    row.remainingQuantity = l.lien.remainingQuantity - l.line.quantity

section Lines

variable {dto : ApproveReleaseRequest} {req : ReleaseRequest} {db s : Db} {s₀ : Ledger}
  {l : LoadedLine}

/-- Lines that all go through have settled the account. -/
theorem tally_ends (hc : Custody db) (hdrawn : dto.Drawn db)
    (hfound : db.releaseRequests.find dto.requestId = some req) (hs₀ : Provenance s₀)
    (hsized : LeavesSized (loadedLines db req.id) s₀)
    (hstart : Tally req (loadedLines db req.id) s₀ db.ledger) :
    Ends (fun r s => s.directory = db.directory ∧ s.releaseRequests = db.releaseRequests ∧
        (r = .ok () → Tally req (loadedLines db req.id) s₀ s.ledger ∧
          ∀ l ∈ loadedLines db req.id, s.ledger.events.find (lineKey req l) ≠ none))
      (Attempt.forEach (loadedLines db req.id) (releaseLine .exact dto req)) db := by
  apply ensures_forEach (fun rest s => ∃ before, Midway dto req db before rest s ∧
    Tally req (loadedLines db req.id) s₀ s.ledger ∧
      ∀ l ∈ before, s.ledger.events.find (lineKey req l) ≠ none)
  · rintro l rest s ⟨before, h, htally, hlogged⟩
    apply Process.Ensures.weaken (h.line_ends hc)
    rintro (e | _) s' ⟨hc', hlater, hends⟩
    · obtain ⟨rfl, -⟩ := hends
      exact ⟨h.later.directory, h.requests, nofun⟩
    obtain ⟨-, e, hrelease, hwrite⟩ := hends
    refine ⟨before ++ [l], h.next hdrawn hfound hc' hlater hrelease hwrite, ?_, ?_⟩
    · exact htally.step hs₀ h.custody.provenance hc'.provenance hsized
        (loadedLines_pairwise db req.id) (h.mem List.mem_cons_self) hrelease
    · intro l' hl'
      rcases List.mem_append.mp hl' with hl' | hl'
      · obtain ⟨e', he'⟩ := Option.ne_none_iff_exists'.mp (hlogged l' hl')
        have hkept := Table.find_of_mem (hrelease.later.events e' (Table.mem_of_find he'))
        rw [show Keyed.key e' = lineKey req l' from Table.key_of_find he'] at hkept
        simp [hkept]
      · simp [List.mem_singleton.mp hl', hrelease.found]
  · rintro s ⟨before, h, htally, hlogged⟩
    have hsplit : loadedLines db req.id = before := h.split.trans (List.append_nil _)
    exact ⟨h.later.directory, h.requests, fun _ => ⟨htally, hsplit ▸ hlogged⟩⟩
  · exact ⟨[], .start hc hdrawn hfound, hstart, by simp⟩

theorem LineWrite.subtracted {s' : Db} {e : InventoryEvent} (h : LineWrite l e s s')
    (hthere : ∃ lien ∈ s.liens, lien.id = l.lien.id) : l.Subtracted s' := by
  obtain ⟨f, hkey, hrows, -, hleaves⟩ := h.row
  obtain ⟨lien, hlien, hid⟩ := hthere
  refine ⟨f lien, ?_, (hkey lien).trans hid, (hleaves lien).remaining⟩
  rw [hrows, ← hid]
  exact Table.mem_modify_self f hkey hlien

/-- A line on another lien leaves the row alone. -/
theorem LoadedLine.Subtracted.other {l' : LoadedLine} {s' : Db} {e : InventoryEvent}
    (h : l'.Subtracted s) (hwrite : LineWrite l e s s') (hne : l'.lien.id ≠ l.lien.id) :
    l'.Subtracted s' := by
  obtain ⟨f, hkey, hrows, -⟩ := hwrite.row
  obtain ⟨row, hrow, hid, hremaining⟩ := h
  refine ⟨row, ?_, hid, hremaining⟩
  rw [hrows]
  exact Table.mem_modify_other f hkey hrow fun hsame => hne (hid.symm.trans hsame)

/-- A lien that is as it was read has had nothing subtracted. -/
theorem LoadedLine.Subtracted.moved (h : l.Subtracted s) (hpositive : 0 < l.line.quantity) :
    l.lien ∉ s.liens := by
  obtain ⟨row, hrow, hid, hremaining⟩ := h
  intro hl
  obtain rfl : row = l.lien := Table.eq_of_key_eq hrow hl hid
  linarith

/-- The liens of the lines are still there. -/
theorem Midway.there {before rest : List LoadedLine} (h : Midway dto req db before rest s)
    (hl : l ∈ rest) : ∃ lien ∈ s.liens, lien.id = l.lien.id := by
  obtain ⟨-, -, hlien, -⟩ := mem_loadedLines (h.mem hl)
  obtain ⟨lien, hfind, -⟩ := lien_later hlien h.later
  exact ⟨lien, Table.mem_of_find hfind, Table.key_of_find hfind⟩

/-- A line that goes through with all others, alone on its lien, has subtracted what it asks
for. -/
theorem subtracted_ends (hc : Custody db) (hdrawn : dto.Drawn db)
    (hfound : db.releaseRequests.find dto.requestId = some req)
    (hl : l ∈ loadedLines db req.id)
    (halone : ∀ l' ∈ loadedLines db req.id, l'.lien.id = l.lien.id → l' = l) :
    Ends (fun r s => s.directory = db.directory ∧ s.releaseRequests = db.releaseRequests ∧
        (r = .ok () → l.Subtracted s))
      (Attempt.forEach (loadedLines db req.id) (releaseLine .exact dto req)) db := by
  apply ensures_forEach (fun rest s => ∃ before, Midway dto req db before rest s ∧
    (l ∈ before → l.Subtracted s))
  · rintro l' rest s ⟨before, h, hdone⟩
    apply Process.Ensures.weaken (h.line_ends hc)
    rintro (e | _) s' ⟨hc', hlater, hends⟩
    · obtain ⟨rfl, -⟩ := hends
      exact ⟨h.later.directory, h.requests, nofun⟩
    obtain ⟨-, e, hrelease, hwrite⟩ := hends
    refine ⟨before ++ [l'], h.next hdrawn hfound hc' hlater hrelease hwrite, fun hmem => ?_⟩
    by_cases hsame : l'.lien.id = l.lien.id
    · obtain rfl := halone l' (h.mem List.mem_cons_self) hsame
      exact hwrite.subtracted (h.there List.mem_cons_self)
    · have hbefore : l ∈ before := by
        rcases List.mem_append.mp hmem with hbefore | hself
        · exact hbefore
        · exact absurd (congrArg (fun l => l.lien.id) (List.mem_singleton.mp hself).symm) hsame
      exact (hdone hbefore).other hwrite (Ne.symm hsame)
  · rintro s ⟨before, h, hdone⟩
    have hsplit : loadedLines db req.id = before := h.split.trans (List.append_nil _)
    exact ⟨h.later.directory, h.requests, fun _ => hdone (hsplit ▸ hl)⟩
  · exact ⟨[], .start hc hdrawn hfound, fun hmem => absurd hmem List.not_mem_nil⟩

/-- What all lines ask for is ACTIVE, once nothing is due any more. -/
theorem Tally.closed {lines : List LoadedLine} {s : Ledger} (h : Tally req lines s₀ s)
    (hlogged : ∀ l ∈ lines, s.events.find (lineKey req l) ≠ none) (root : Id) :
    activeVolume root s = activeVolume root s₀ + (lines.map fun l => l.due req root s₀ s₀).sum := by
  have hnone : (lines.map fun l => l.due req root s₀ s).sum = 0 := by
    apply List.sum_eq_zero
    intro q hq
    obtain ⟨l, hl, rfl⟩ := List.mem_map.mp hq
    exact if_neg (hlogged l hl)
  rw [← h.volume root, hnone, add_zero]

end Lines

end SecureStore.Services
