/-
# Liens backed by their leaves

A live lien names a leaf that is held under it and carries exactly what remains of it,
and a pending pledge names a leaf that is held for it. The tables say so together with
the log: which keys have been used tells which decisions have been made. The facts hold
between requests; within the approval of a release request they hold apart from the keys
of the lines that are done.
-/

import SecureStore.Collateral.Requests
import SecureStore.Custody.Isolation
import SecureStore.Inventory.Progress

namespace SecureStore.Services

open SecureStore.Foundation SecureStore.Inventory

/-- What the columns keep: rows of pledges and liens store what a request may name, and
leaves store the sizes of which the subtraction of volumes is exact. -/
structure Columns (num : Numeric) (Admitted Sized : ℚ → Prop) : Prop where
  row : ∀ {q}, Admitted q → num.numeric20_4 q = q
  lien : ∀ {q}, Sized q → num.numeric20_4 q = q
  leaf : ∀ {q}, Sized q → num.numeric18_3 q = q
  minus : ∀ {x y}, Sized x → Sized y → 0 < y → y < x → num.minus x y = x - y ∧ Sized (x - y)

/-- The key `pledge:${decision}:${pledge}`. -/
def decisionKey (decision : String) (pledgeId : Id) : IdempotencyKey :=
  [.text "pledge", .text decision, .uuid pledgeId]

/-- The key `release:full:${request}:${line}`. -/
def fullKey (requestId lineId : Id) : IdempotencyKey :=
  [.text "release", .text "full", .uuid requestId, .uuid lineId]

/-- The user has an account in the tenant. -/
def InTenant (d : Directory) (userId tenantId : Id) : Prop :=
  ∃ user, d.users.find userId = some user ∧ user.tenantId = tenantId

theorem InTenant.unique {d : Directory} {userId tenantId tenantId' : Id}
    (h : InTenant d userId tenantId) (h' : InTenant d userId tenantId') :
    tenantId = tenantId' := by
  obtain ⟨user, hfind, rfl⟩ := h
  obtain ⟨user', hfind', rfl⟩ := h'
  obtain rfl := Option.some_inj.mp (hfind.symm.trans hfind')
  rfl

/-- The leaf of a pledge is held for it exactly while the pledge is pending. -/
def Pledge.Backed (num : Numeric) (p : Pledge) (s : Ledger) : Prop :=
  ∃ r ∈ s.receipts, p.heldReceiptId = some r.id ∧ r.quantity = num.numeric18_3 p.quantity ∧
    r.tenantId = p.tenantId ∧ (r.status = .heldPledgePending ↔ p.status = .pending) ∧
      (p.status = .pending → r.isParent = false)

/-- The leaf of a lien is held under it and carries what remains of it. -/
def Lien.Backed (Sized : ℚ → Prop) (l : Lien) (s : Ledger) : Prop :=
  ∃ r ∈ s.receipts, r.id = l.receiptId ∧ r.status = .heldLien ∧ r.isParent = false ∧
    r.quantity = l.remainingQuantity ∧ r.tenantId = l.tenantId ∧ 0 < l.remainingQuantity ∧
      Sized l.remainingQuantity

/-- Leaves, pledges and liens agree. -/
structure Volumes (num : Numeric) (Sized : ℚ → Prop) (db : Db) : Prop where
  pledges : ∀ p ∈ db.pledges, p.Backed num db.ledger
  liens : ∀ l ∈ db.liens, l.status.Live → l.Backed Sized db.ledger
  /-- No leaf is under two liens. -/
  apart : ∀ l ∈ db.liens, ∀ l' ∈ db.liens, l.status.Live → l'.status.Live →
    l.receiptId = l'.receiptId → l = l'
  /-- A leaf under a lien has its lien. -/
  owned : ∀ r ∈ db.ledger.receipts, r.status = .heldLien →
    ∃ l ∈ db.liens, l.status.Live ∧ l.receiptId = r.id
  /-- A release in full was of what its line named. -/
  full : ∀ e ∈ db.ledger.events, ∀ requestId lineId,
    e.idempotencyKey = fullKey requestId lineId →
      ∃ x ∈ db.releaseRequestLines, x.id = lineId ∧ x.releaseRequestId = requestId ∧
        ∃ r ∈ db.ledger.receipts, r.id = e.fromReceiptId ∧ r.quantity = x.quantity

/-- The rows of pledges, liens and release requests refer to each other. -/
structure RowsAgree (Admitted : ℚ → Prop) (db : Db) : Prop where
  single : ∀ p ∈ db.pledges, ∀ p' ∈ db.pledges, p.heldReceiptId = p'.heldReceiptId → p = p'
  pledges : ∀ p ∈ db.pledges, Admitted p.quantity ∧ 0 < p.quantity ∧
    InTenant db.directory p.clientId p.tenantId
  liens : ∀ l ∈ db.liens, (∃ p ∈ db.pledges, p.id = l.pledgeId ∧ p.status ≠ .pending) ∧
    InTenant db.directory l.clientId l.tenantId
  requests : ∀ q ∈ db.releaseRequests, InTenant db.directory q.clientId q.tenantId
  lines : ∀ x ∈ db.releaseRequestLines, 0 < x.quantity ∧
    ∃ q ∈ db.releaseRequests, q.id = x.releaseRequestId ∧
      ∃ l ∈ db.liens, l.id = x.lienId ∧ l.clientId = q.clientId
  /-- The lines of a request are on different liens. -/
  apart : ∀ x ∈ db.releaseRequestLines, ∀ y ∈ db.releaseRequestLines,
    x.releaseRequestId = y.releaseRequestId → x.lienId = y.lienId → x = y

/-- What the rows say about a key that was used; `busy` lines are done although their
request is still open. -/
structure Shown (busy : Id → Id → Prop) (db : Db) (key : IdempotencyKey) : Prop where
  create : ∀ id, key = createKey id → ∃ p ∈ db.pledges, p.id = id
  decision : ∀ word id, word ≠ "create" → key = decisionKey word id →
    ∃ p ∈ db.pledges, p.id = id ∧ p.status ≠ .pending
  force : ∀ id, key = forceKey id → ∃ l ∈ db.liens, l.id = id ∧ ¬ l.status.Live
  release : ∀ requestId lineId, key = fullKey requestId lineId ∨ key = partialKey requestId lineId →
    busy requestId lineId ∨ ∃ q ∈ db.releaseRequests, q.id = requestId ∧ q.status ≠ .pending

/-- Rows and log tell the same decisions. -/
structure Logged (busy : Id → Id → Prop) (db : Db) : Prop where
  recorded : ∀ p ∈ db.pledges, db.ledger.Used (createKey p.id)
  forced : ∀ l ∈ db.liens, l.status = .forceReleased → db.ledger.Used (forceKey l.id)
  shown : ∀ key, db.ledger.Used key → Shown busy db key

/-- What holds of the tables and the log. -/
structure Backed (num : Numeric) (Admitted Sized : ℚ → Prop) (busy : Id → Id → Prop)
    (db : Db) : Prop where
  volumes : Volumes num Sized db
  rows : RowsAgree Admitted db
  logged : Logged busy db

section Ledger

variable {num : Numeric} {Sized : ℚ → Prop} {uuids : Uuids} {op : LedgerOp} {s s' : Ledger}
  {events : List InventoryEvent} {change : Change} {result : LedgerResult}

/-- A pledge whose leaf, if it is held for the pledge, is left alone. -/
theorem Pledge.Backed.commit {p : Pledge} (h : p.Backed num s)
    (hcommits : Commits s events change s')
    (heffect : Effect num uuids s op events change result)
    (hother : p.status = .pending → ∀ before after, change.rewritten = some (before, after) →
      p.heldReceiptId ≠ some before.id) : p.Backed num s' := by
  obtain ⟨r, hr, hheld, hquantity, htenant, hstatus, hleaf⟩ := h
  by_cases hpending : p.status = .pending
  · have hkept : r ∈ s'.receipts := by
      apply hcommits.stays hr
      intro before after hrewritten hid
      exact hother hpending before after hrewritten (hid ▸ hheld)
    exact ⟨r, hkept, hheld, hquantity, htenant, hstatus, hleaf⟩
  · obtain ⟨hnode, hmoved⟩ := hcommits.advance heffect hr
    refine ⟨change.apply r, hcommits.mem_receipts.mpr (.inl ⟨r, hr, rfl⟩), ?_,
      hnode.quantity.trans hquantity, hnode.tenantId.trans htenant, ?_,
      fun h => absurd h hpending⟩
    · rw [hnode.id]
      exact hheld
    · apply iff_of_false _ hpending
      rcases hmoved with hsame | hmove
      · rw [hsame]
        exact fun h => hpending (hstatus.mp h)
      · exact hmove.not_pledged

/-- A lien whose leaf is left alone. -/
theorem Lien.Backed.commit {l : Lien} (h : l.Backed Sized s)
    (hcommits : Commits s events change s')
    (hother : ∀ before after, change.rewritten = some (before, after) →
      before.id ≠ l.receiptId) : l.Backed Sized s' := by
  obtain ⟨r, hr, hid, h⟩ := h
  refine ⟨r, hcommits.stays hr ?_, hid, h⟩
  intro before after hrewritten
  rw [hid]
  exact hother before after hrewritten

end Ledger

/-! ## Rows that are rewritten in place -/

/-- The row of a pledge after a decision. -/
structure SameParties (p p' : Pledge) : Prop where
  id : p'.id = p.id
  heldReceiptId : p'.heldReceiptId = p.heldReceiptId
  quantity : p'.quantity = p.quantity
  clientId : p'.clientId = p.clientId
  tenantId : p'.tenantId = p.tenantId

theorem SameParties.refl (p : Pledge) : SameParties p p := ⟨rfl, rfl, rfl, rfl, rfl⟩

/-- The row of a lien after a release. -/
structure SameLien (l l' : Lien) : Prop where
  id : l'.id = l.id
  pledgeId : l'.pledgeId = l.pledgeId
  clientId : l'.clientId = l.clientId
  tenantId : l'.tenantId = l.tenantId

theorem SameLien.refl (l : Lien) : SameLien l l := ⟨rfl, rfl, rfl, rfl⟩

/-- The row of a release request after a decision. -/
structure SameRequest (q q' : ReleaseRequest) : Prop where
  id : q'.id = q.id
  clientId : q'.clientId = q.clientId
  tenantId : q'.tenantId = q.tenantId

theorem SameRequest.refl (q : ReleaseRequest) : SameRequest q q := ⟨rfl, rfl, rfl⟩

/-- Rows are rewritten in place, and what has been decided stays decided. -/
structure Reworked (s s' : Db) : Prop where
  directory : s'.directory = s.directory
  pledges : ∀ p' ∈ s'.pledges, ∃ p ∈ s.pledges, SameParties p p'
  pledgeKept : ∀ p ∈ s.pledges, ∃ p' ∈ s'.pledges, SameParties p p' ∧
    (p.status ≠ .pending → p'.status ≠ .pending)
  liens : ∀ l' ∈ s'.liens, ∃ l ∈ s.liens, SameLien l l'
  lienKept : ∀ l ∈ s.liens, ∃ l' ∈ s'.liens, SameLien l l' ∧ (¬ l.status.Live → ¬ l'.status.Live)
  requests : ∀ q' ∈ s'.releaseRequests, ∃ q ∈ s.releaseRequests, SameRequest q q'
  requestKept : ∀ q ∈ s.releaseRequests, ∃ q' ∈ s'.releaseRequests, SameRequest q q' ∧
    (q.status ≠ .pending → q'.status ≠ .pending)
  lines : s'.releaseRequestLines = s.releaseRequestLines

theorem Reworked.refl (s : Db) : Reworked s s where
  directory := rfl
  pledges p hp := ⟨p, hp, .refl p⟩
  pledgeKept p hp := ⟨p, hp, .refl p, id⟩
  liens l hl := ⟨l, hl, .refl l⟩
  lienKept l hl := ⟨l, hl, .refl l, id⟩
  requests q hq := ⟨q, hq, .refl q⟩
  requestKept q hq := ⟨q, hq, .refl q, id⟩
  lines := rfl

/-- What a decision on a pledge writes. -/
def Decides (f : Pledge → Pledge) : Prop :=
  ∀ p, SameParties p (f p) ∧ (f p).status ≠ .pending

section Rows

variable {num : Numeric} {Admitted Sized : ℚ → Prop} {busy : Id → Id → Prop} {s s' : Db}

theorem RowsAgree.reworked (h : RowsAgree Admitted s) (hre : Reworked s s') :
    RowsAgree Admitted s' where
  single := by
    intro p hp p' hp' hheld
    obtain ⟨p₀, hp₀, hsame⟩ := hre.pledges p hp
    obtain ⟨p₀', hp₀', hsame'⟩ := hre.pledges p' hp'
    have heq := h.single p₀ hp₀ p₀' hp₀'
      (hsame.heldReceiptId.symm.trans (hheld.trans hsame'.heldReceiptId))
    exact Table.eq_of_key_eq hp hp' (hsame.id.trans ((congrArg Pledge.id heq).trans hsame'.id.symm))
  pledges := by
    intro p' hp'
    obtain ⟨p, hp, hsame⟩ := hre.pledges p' hp'
    rw [hsame.quantity, hsame.clientId, hsame.tenantId, hre.directory]
    exact h.pledges p hp
  liens := by
    intro l' hl'
    obtain ⟨l, hl, hsame⟩ := hre.liens l' hl'
    obtain ⟨⟨p, hp, hid, hstatus⟩, htenant⟩ := h.liens l hl
    obtain ⟨p', hp', hsame', hclosed⟩ := hre.pledgeKept p hp
    rw [hsame.clientId, hsame.tenantId, hre.directory]
    exact ⟨⟨p', hp', hsame'.id.trans (hid.trans hsame.pledgeId.symm), hclosed hstatus⟩, htenant⟩
  requests := by
    intro q' hq'
    obtain ⟨q, hq, hsame⟩ := hre.requests q' hq'
    rw [hsame.clientId, hsame.tenantId, hre.directory]
    exact h.requests q hq
  lines := by
    rw [hre.lines]
    intro x hx
    obtain ⟨hpos, q, hq, hqid, l, hl, hlid, hclient⟩ := h.lines x hx
    obtain ⟨q', hq', hsame, -⟩ := hre.requestKept q hq
    obtain ⟨l', hl', hsame', -⟩ := hre.lienKept l hl
    refine ⟨hpos, q', hq', hsame.id.trans hqid, l', hl', hsame'.id.trans hlid, ?_⟩
    rw [hsame'.clientId, hsame.clientId, hclient]
  apart := by
    rw [hre.lines]
    exact h.apart

/-- A decision on a pledge. -/
theorem Reworked.pledge (s : Db) (ledger : Ledger) (id : Id) {f : Pledge → Pledge}
    (hkey : ∀ r, Keyed.key (f r) = Keyed.key r) (hf : Decides f) :
    Reworked s { s with ledger, pledges := s.pledges.modify id f hkey } := by
  refine { Reworked.refl s with directory := rfl, pledges := ?_, pledgeKept := ?_ }
  · intro p' hp'
    obtain ⟨p, hp, -, ⟨-, rfl⟩ | ⟨-, rfl⟩⟩ := Table.exists_of_mem_modify f hkey hp'
    · exact ⟨p, hp, (hf p).1⟩
    · exact ⟨p', hp, .refl p'⟩
  · intro p hp
    obtain ⟨p', hp', -, ⟨-, rfl⟩ | ⟨-, rfl⟩⟩ := Table.exists_mem_modify f hkey hp id
    · exact ⟨f p, hp', (hf p).1, fun _ => (hf p).2⟩
    · exact ⟨p', hp', .refl p', fun hstatus => hstatus⟩

/-- A release on a lien. -/
theorem Reworked.lien (s : Db) (ledger : Ledger) (id : Id) {f : Lien → Lien}
    (hkey : ∀ r, Keyed.key (f r) = Keyed.key r) (hsame : ∀ l, SameLien l (f l))
    (hdead : ∀ l ∈ s.liens, l.id = id → ¬ l.status.Live → ¬ (f l).status.Live) :
    Reworked s { s with ledger, liens := s.liens.modify id f hkey } := by
  refine { Reworked.refl s with directory := rfl, liens := ?_, lienKept := ?_ }
  · intro l' hl'
    obtain ⟨l, hl, -, ⟨-, rfl⟩ | ⟨-, rfl⟩⟩ := Table.exists_of_mem_modify f hkey hl'
    · exact ⟨l, hl, hsame l⟩
    · exact ⟨l', hl, .refl l'⟩
  · intro l hl
    obtain ⟨l', hl', -, ⟨hid, rfl⟩ | ⟨-, rfl⟩⟩ := Table.exists_mem_modify f hkey hl id
    · exact ⟨f l, hl', hsame l, hdead l hl hid⟩
    · exact ⟨l', hl', .refl l', fun hstatus => hstatus⟩

/-- A decision on a release request. -/
theorem Reworked.request (s : Db) (id : Id) {f : ReleaseRequest → ReleaseRequest}
    (hkey : ∀ r, Keyed.key (f r) = Keyed.key r) (hsame : ∀ q, SameRequest q (f q))
    (hdecides : ∀ q, (f q).status ≠ .pending) :
    Reworked s { s with releaseRequests := s.releaseRequests.modify id f hkey } := by
  refine { Reworked.refl s with directory := rfl, requests := ?_, requestKept := ?_ }
  · intro q' hq'
    obtain ⟨q, hq, -, ⟨-, rfl⟩ | ⟨-, rfl⟩⟩ := Table.exists_of_mem_modify f hkey hq'
    · exact ⟨q, hq, hsame q⟩
    · exact ⟨q', hq, .refl q'⟩
  · intro q hq
    obtain ⟨q', hq', -, ⟨-, rfl⟩ | ⟨-, rfl⟩⟩ := Table.exists_mem_modify f hkey hq id
    · exact ⟨f q, hq', hsame q, fun _ => hdecides q⟩
    · exact ⟨q', hq', .refl q', fun hstatus => hstatus⟩

theorem Shown.reworked {busy busy' : Id → Id → Prop} {key : IdempotencyKey}
    (h : Shown busy s key) (hre : Reworked s s')
    (hbusy : ∀ requestId lineId, busy requestId lineId → busy' requestId lineId ∨
      ∃ q ∈ s'.releaseRequests, q.id = requestId ∧ q.status ≠ .pending) :
    Shown busy' s' key where
  create := by
    intro id hkey
    obtain ⟨p, hp, hid⟩ := h.create id hkey
    obtain ⟨p', hp', hsame, -⟩ := hre.pledgeKept p hp
    exact ⟨p', hp', hsame.id.trans hid⟩
  decision := by
    intro word id hword hkey
    obtain ⟨p, hp, hid, hstatus⟩ := h.decision word id hword hkey
    obtain ⟨p', hp', hsame, hclosed⟩ := hre.pledgeKept p hp
    exact ⟨p', hp', hsame.id.trans hid, hclosed hstatus⟩
  force := by
    intro id hkey
    obtain ⟨l, hl, hid, hdead⟩ := h.force id hkey
    obtain ⟨l', hl', hsame, hclosed⟩ := hre.lienKept l hl
    exact ⟨l', hl', hsame.id.trans hid, hclosed hdead⟩
  release := by
    intro requestId lineId hkey
    rcases h.release requestId lineId hkey with hopen | ⟨q, hq, hid, hstatus⟩
    · exact hbusy requestId lineId hopen
    · obtain ⟨q', hq', hsame, hclosed⟩ := hre.requestKept q hq
      exact .inr ⟨q', hq', hsame.id.trans hid, hclosed hstatus⟩

/-- Rows that are rewritten while the log grows. -/
theorem Logged.reworked {busy busy' : Id → Id → Prop} (h : Logged busy s) (hre : Reworked s s')
    (hbusy : ∀ requestId lineId, busy requestId lineId → busy' requestId lineId ∨
      ∃ q ∈ s'.releaseRequests, q.id = requestId ∧ q.status ≠ .pending)
    (hkept : ∀ key, s.ledger.Used key → s'.ledger.Used key)
    (hnew : ∀ key, s'.ledger.Used key → s.ledger.Used key ∨ Shown busy' s' key)
    (hforced : ∀ l' ∈ s'.liens, l'.status = .forceReleased → s'.ledger.Used (forceKey l'.id) ∨
      ∃ l ∈ s.liens, l.id = l'.id ∧ l.status = .forceReleased) : Logged busy' s' where
  recorded := by
    intro p' hp'
    obtain ⟨p, hp, hsame⟩ := hre.pledges p' hp'
    rw [hsame.id]
    exact hkept _ (h.recorded p hp)
  forced := by
    intro l' hl' hstatus
    rcases hforced l' hl' hstatus with hused | ⟨l, hl, hid, hstatus'⟩
    · exact hused
    · exact hid ▸ hkept _ (h.forced l hl hstatus')
  shown := by
    intro key hused
    rcases hnew key hused with hold | hshown
    · exact (h.shown key hold).reworked hre hbusy
    · exact hshown

end Rows

/-! ## Operations on one leaf -/

section Volumes

variable {num : Numeric} {Admitted Sized : ℚ → Prop} {busy : Id → Id → Prop} {s : Db}
  {ledger : Ledger} {uuids : Uuids} {op : LedgerOp} {events : List InventoryEvent}
  {change : Change} {result : LedgerResult}

/-- Releases in full that were made before are as they were. -/
theorem Volumes.full_commit (h : Volumes num Sized s)
    (hcommits : Commits s.ledger events change ledger)
    (heffect : Effect num uuids s.ledger op events change result)
    (hnew : ∀ e ∈ events, ∀ requestId lineId, e.idempotencyKey = fullKey requestId lineId →
      ∃ x ∈ s.releaseRequestLines, x.id = lineId ∧ x.releaseRequestId = requestId ∧
        ∃ r ∈ s.ledger.receipts, r.id = e.fromReceiptId ∧ r.quantity = x.quantity) :
    ∀ e ∈ ledger.events, ∀ requestId lineId, e.idempotencyKey = fullKey requestId lineId →
      ∃ x ∈ s.releaseRequestLines, x.id = lineId ∧ x.releaseRequestId = requestId ∧
        ∃ r ∈ ledger.receipts, r.id = e.fromReceiptId ∧ r.quantity = x.quantity := by
  intro e he requestId lineId hkey
  have hbefore : ∃ x ∈ s.releaseRequestLines, x.id = lineId ∧ x.releaseRequestId = requestId ∧
      ∃ r ∈ s.ledger.receipts, r.id = e.fromReceiptId ∧ r.quantity = x.quantity := by
    rcases hcommits.mem_events.mp he with hold | hnewer
    · exact h.full e hold requestId lineId hkey
    · exact hnew e hnewer requestId lineId hkey
  obtain ⟨x, hx, hid, hrequest, r, hr, hfrom, hquantity⟩ := hbefore
  obtain ⟨r', hr', hnode, -⟩ := (hcommits.later heffect).receipts r hr
  exact ⟨x, hx, hid, hrequest, r', hr', hnode.id.trans hfrom, hnode.quantity.trans hquantity⟩

/-- The leaf of a pledge, found by its id. -/
theorem Pledge.Backed.leaf {p : Pledge} (h : p.Backed num s.ledger) {r : Receipt}
    (hr : r ∈ s.ledger.receipts) (hheld : p.heldReceiptId = some r.id) :
    r.quantity = num.numeric18_3 p.quantity ∧ r.tenantId = p.tenantId ∧
      (r.status = .heldPledgePending ↔ p.status = .pending) ∧
        (p.status = .pending → r.isParent = false) := by
  obtain ⟨r₀, hr₀, hheld₀, hfacts⟩ := h
  obtain rfl : r₀ = r :=
    Table.eq_of_key_eq hr₀ hr (Option.some_inj.mp (hheld₀.symm.trans hheld))
  exact hfacts

/-- The leaf of a lien, found by its id. -/
theorem Lien.Backed.leaf {l : Lien} (h : l.Backed Sized s.ledger) {r : Receipt}
    (hr : r ∈ s.ledger.receipts) (hid : r.id = l.receiptId) :
    r.status = .heldLien ∧ r.isParent = false ∧ r.quantity = l.remainingQuantity ∧
      r.tenantId = l.tenantId ∧ 0 < l.remainingQuantity ∧ Sized l.remainingQuantity := by
  obtain ⟨r₀, hr₀, hid₀, hfacts⟩ := h
  obtain rfl : r₀ = r := Table.eq_of_key_eq hr₀ hr (hid₀.trans hid.symm)
  exact hfacts

/-- Pledges after the leaf of one of them has moved on together with its row. -/
theorem Volumes.pledges_settled (h : Volumes num Sized s) (hrows : RowsAgree Admitted s)
    {p : Pledge} (hp : p ∈ s.pledges) {r r' : Receipt} (hheld : p.heldReceiptId = some r.id)
    (hcommits : Commits s.ledger events (.amend r r') ledger)
    (heffect : Effect num uuids s.ledger op events (.amend r r') result)
    (hstatus : r'.status ≠ .heldPledgePending) {f : Pledge → Pledge}
    (hkey : ∀ r, Keyed.key (f r) = Keyed.key r) (hf : Decides f) :
    ∀ p' ∈ s.pledges.modify p.id f hkey, p'.Backed num ledger := by
  intro p' hp'
  obtain ⟨p₀, hp₀, -, ⟨hid, rfl⟩ | ⟨hne, rfl⟩⟩ := Table.exists_of_mem_modify f hkey hp'
  · obtain rfl : p₀ = p := Table.eq_of_key_eq hp₀ hp hid
    obtain ⟨hfound, -⟩ := hcommits.found r r' rfl
    have hnode := heffect.sameNode rfl
    obtain ⟨hquantity, htenant, -⟩ := (h.pledges p₀ hp).leaf (Table.mem_of_find hfound) hheld
    obtain ⟨hsame, hdecided⟩ := hf p₀
    have hafter := hcommits.find_receipt hfound
    rw [Change.apply_amend_self] at hafter
    refine ⟨r', Table.mem_of_find hafter, ?_, ?_, ?_, iff_of_false hstatus hdecided,
      fun hpending => absurd hpending hdecided⟩
    · rw [hsame.heldReceiptId, hnode.id, hheld]
    · rw [hnode.quantity, hsame.quantity, hquantity]
    · rw [hnode.tenantId, hsame.tenantId, htenant]
  · apply (h.pledges p' hp₀).commit hcommits heffect
    rintro _ before after hrewritten hsame
    cases hrewritten
    exact hne (congrArg Pledge.id (hrows.single p' hp₀ p hp (hsame.trans hheld.symm)))

/-- A decision against a pledge frees its leaf. -/
theorem Volumes.settle (h : Volumes num Sized s) (hrows : RowsAgree Admitted s) {p : Pledge}
    (hp : p ∈ s.pledges) (hpending : p.status = .pending) {ctx : ActorCtx} {id : Id}
    (hheld : p.heldReceiptId = some id) (hfull : ∀ q x, ctx.idempotencyKey ≠ fullKey q x)
    (heffect : Effect num uuids s.ledger (.release ctx id) events change result)
    (hcommits : Commits s.ledger events change ledger) {f : Pledge → Pledge}
    {hkey : ∀ r, Keyed.key (f r) = Keyed.key r} (hf : Decides f) :
    Volumes num Sized { s with ledger, pledges := s.pledges.modify p.id f hkey } := by
  have hheffect := heffect
  cases heffect with
  | release ctx r loaded held =>
      have hr := Table.mem_of_find loaded.1
      have hheld' : p.heldReceiptId = some r.id := by
        rw [hheld, ← Table.key_of_find loaded.1]
        rfl
      have hstatus : r.status = .heldPledgePending :=
        ((h.pledges p hp).leaf hr hheld').2.2.1.mpr hpending
      constructor
      · exact h.pledges_settled hrows hp hheld' hcommits hheffect (by simp) hkey hf
      · intro l hl hlive
        apply (h.liens l hl hlive).commit hcommits
        rintro before after hrewritten hid
        cases hrewritten
        have hlien := ((h.liens l hl hlive).leaf hr hid).1
        rw [hstatus] at hlien
        cases hlien
      · exact h.apart
      · intro x hx hlien
        rcases hcommits.receipt_cases hx with hnew | ⟨before, hrewritten, -⟩ | ⟨hold, -⟩
        · cases hnew
        · cases hrewritten
          cases hlien
        · exact h.owned x hold hlien
      · apply h.full_commit hcommits hheffect
        intro e he q x hlogged
        rw [List.mem_singleton.mp he] at hlogged
        exact absurd hlogged (hfull q x)

/-- An acceptance puts the leaf under a lien of its own. -/
theorem Volumes.accept (h : Volumes num Sized s) (hrows : RowsAgree Admitted s)
    (hcolumns : Columns num Admitted Sized) {p : Pledge} (hp : p ∈ s.pledges)
    (hpending : p.status = .pending) (hsized : Sized p.quantity) {ctx : ActorCtx} {id : Id}
    (hheld : p.heldReceiptId = some id) (hfull : ∀ q x, ctx.idempotencyKey ≠ fullKey q x)
    (heffect : Effect num uuids s.ledger (.transitionPledgeToLien ctx id p.id) events change result)
    (hcommits : Commits s.ledger events change ledger) {f : Pledge → Pledge}
    {hkey : ∀ r, Keyed.key (f r) = Keyed.key r} (hf : Decides f) {l : Lien} {liens : Table Lien}
    (hinsert : s.liens.insert l = some liens) (hreceipt : l.receiptId = id)
    (hremaining : l.remainingQuantity = p.quantity) (hlive : l.status.Live)
    (htenant : l.tenantId = p.tenantId) :
    Volumes num Sized { s with ledger, liens, pledges := s.pledges.modify p.id f hkey } := by
  have hheffect := heffect
  cases heffect with
  | transitionPledgeToLien ctx pledgeId r loaded pledged =>
      have hr := Table.mem_of_find loaded.1
      obtain rfl : r.id = id := Table.key_of_find loaded.1
      obtain ⟨hquantity, htenant', -, hleaf⟩ := (h.pledges p hp).leaf hr hheld
      have hafter := hcommits.find_receipt loaded.1
      rw [Change.apply_amend_self] at hafter
      -- no live lien was on this leaf
      have hfree : ∀ l' ∈ s.liens, l'.status.Live → r.id ≠ l'.receiptId := by
        intro l' hl' hlive' hid
        have hlien := ((h.liens l' hl' hlive').leaf hr hid).1
        rw [pledged] at hlien
        cases hlien
      constructor
      · exact h.pledges_settled hrows hp hheld hcommits hheffect (by simp) hkey hf
      · intro l' hl' hlive'
        rcases (Table.mem_insert hinsert).mp hl' with hold | rfl
        · apply (h.liens l' hold hlive').commit hcommits
          rintro before after hrewritten
          cases hrewritten
          exact hfree l' hold hlive'
        · refine ⟨_, Table.mem_of_find hafter, hreceipt.symm, rfl, hleaf hpending, ?_,
            htenant'.trans htenant.symm, ?_, ?_⟩
          · rw [hremaining]
            exact hquantity.trans (hcolumns.leaf hsized)
          · rw [hremaining]
            exact (hrows.pledges p hp).2.1
          · rw [hremaining]
            exact hsized
      · intro l₁ hl₁ l₂ hl₂ hlive₁ hlive₂ hsame
        rcases (Table.mem_insert hinsert).mp hl₁ with hold₁ | rfl <;>
          rcases (Table.mem_insert hinsert).mp hl₂ with hold₂ | rfl
        · exact h.apart l₁ hold₁ l₂ hold₂ hlive₁ hlive₂ hsame
        · exact absurd (hreceipt.symm.trans hsame.symm) (hfree l₁ hold₁ hlive₁)
        · exact absurd (hreceipt.symm.trans hsame) (hfree l₂ hold₂ hlive₂)
        · rfl
      · intro x hx hlien
        rcases hcommits.receipt_cases hx with hnew | ⟨before, hrewritten, -⟩ | ⟨hold, -⟩
        · cases hnew
        · cases hrewritten
          exact ⟨l, (Table.mem_insert hinsert).mpr (.inr rfl), hlive, hreceipt⟩
        · obtain ⟨l', hl', hlive', hreceipt'⟩ := h.owned x hold hlien
          exact ⟨l', (Table.mem_insert hinsert).mpr (.inl hl'), hlive', hreceipt'⟩
      · apply h.full_commit hcommits hheffect
        intro e he q x hlogged
        rw [List.mem_singleton.mp he] at hlogged
        exact absurd hlogged (hfull q x)

/-- A hold for a new pledge touches nothing that is pledged already. -/
theorem Volumes.pledge (h : Volumes num Sized s) {input : HoldInput} {result : HoldResult}
    {held : Receipt} (hfull : ∀ q x, input.idempotencyKey ≠ fullKey q x)
    (hstatus : input.heldStatus = .heldPledgePending)
    (heffect : Effect num uuids s.ledger (.hold input) events change (.held result))
    (hcommits : Commits s.ledger events change ledger) (hheld : result.held = some held)
    {p : Pledge} {pledges : Table Pledge} (hinsert : s.pledges.insert p = some pledges)
    (hleaf : p.heldReceiptId = some held.id) (hquantity : p.quantity = input.quantity)
    (htenant : p.tenantId = input.tenantId) (hpending : p.status = .pending) :
    Volumes num Sized { s with ledger, pledges } := by
  have hheffect := heffect
  cases heffect with
  | hold input src number number' loaded active =>
      cases hheld
      have hsrc := Table.mem_of_find loaded.1
      constructor
      · intro p' hp'
        rcases (Table.mem_insert hinsert).mp hp' with hold | rfl
        · apply (h.pledges p' hold).commit hcommits hheffect
          rintro hpending' before after hrewritten hsame
          cases hrewritten
          have hwaiting := ((h.pledges p' hold).leaf hsrc hsame).2.2.1.mpr hpending'
          rw [active] at hwaiting
          cases hwaiting
        · refine ⟨_, Table.mem_of_find (hcommits.find_created List.mem_cons_self), hleaf,
            ?_, ?_, ?_, fun _ => rfl⟩
          · rw [hquantity]
            rfl
          · exact loaded.2.trans htenant.symm
          · apply iff_of_true _ hpending
            show input.heldStatus.status = _
            rw [hstatus]
            rfl
      · intro l hl hlive
        apply (h.liens l hl hlive).commit hcommits
        rintro before after hrewritten hid
        cases hrewritten
        have hlien := ((h.liens l hl hlive).leaf hsrc hid).1
        rw [active] at hlien
        cases hlien
      · exact h.apart
      · intro x hx hlien
        rcases hcommits.receipt_cases hx with hnew | ⟨before, hrewritten, -⟩ | ⟨hold, -⟩
        · rcases List.mem_cons.mp hnew with rfl | hnew
          · have hnot : input.heldStatus.status = .heldLien := hlien
            rw [hstatus] at hnot
            cases hnot
          · obtain rfl := mem_partitionRemainder hnew
            cases hlien
        · cases hrewritten
          cases hlien
        · exact h.owned x hold hlien
      · apply h.full_commit hcommits hheffect
        intro e he q x hlogged
        rw [List.mem_singleton.mp he] at hlogged
        exact absurd hlogged (hfull q x)

/-- A pledge whose leaf is under a lien is not pending. -/
theorem Volumes.pledges_lien (h : Volumes num Sized s) {r : Receipt}
    (hr : r ∈ s.ledger.receipts) (hlien : r.status = .heldLien)
    (hcommits : Commits s.ledger events change ledger)
    (heffect : Effect num uuids s.ledger op events change result)
    (hrewrites : ∀ before r', change.rewritten = some (before, r') → before = r) :
    ∀ p ∈ s.pledges, p.Backed num ledger := by
  intro p hp
  apply (h.pledges p hp).commit hcommits heffect
  intro hpending before r' hrewritten hheld
  obtain rfl := hrewrites before r' hrewritten
  have hwaiting := ((h.pledges p hp).leaf hr hheld).2.2.1.mpr hpending
  rw [hlien] at hwaiting
  cases hwaiting

/-- The release of all that is left under a lien frees its leaf. -/
theorem Volumes.freed (h : Volumes num Sized s) {l : Lien} (hl : l ∈ s.liens)
    (hlive : l.status.Live) {ctx : ActorCtx}
    (heffect : Effect num uuids s.ledger (.release ctx l.receiptId) events change result)
    (hcommits : Commits s.ledger events change ledger)
    (hfull : ∀ requestId lineId, ctx.idempotencyKey = fullKey requestId lineId →
      ∃ x ∈ s.releaseRequestLines, x.id = lineId ∧ x.releaseRequestId = requestId ∧
        x.quantity = l.remainingQuantity)
    {f : Lien → Lien} {hkey : ∀ r, Keyed.key (f r) = Keyed.key r}
    (hf : ∀ r, ¬ (f r).status.Live) :
    Volumes num Sized { s with ledger, liens := s.liens.modify l.id f hkey } := by
  have hheffect := heffect
  cases heffect with
  | release ctx r loaded held =>
      have hr := Table.mem_of_find loaded.1
      have hid : r.id = l.receiptId := Table.key_of_find loaded.1
      obtain ⟨hlien, -, hquantity, -⟩ := (h.liens l hl hlive).leaf hr hid
      have hother : ∀ l' ∈ s.liens.modify l.id f hkey, l'.status.Live → l' ∈ s.liens ∧
          l'.receiptId ≠ r.id := by
        intro l' hl' hlive'
        obtain ⟨l₀, hl₀, -, ⟨-, rfl⟩ | ⟨hne, rfl⟩⟩ := Table.exists_of_mem_modify f hkey hl'
        · exact absurd hlive' (hf l₀)
        · refine ⟨hl₀, fun hsame => hne ?_⟩
          exact congrArg Lien.id (h.apart l' hl₀ l hl hlive' hlive (hsame.trans hid))
      constructor
      · apply h.pledges_lien hr hlien hcommits hheffect
        rintro before r' hrewritten
        cases hrewritten
        rfl
      · intro l' hl' hlive'
        obtain ⟨hold, hne⟩ := hother l' hl' hlive'
        apply (h.liens l' hold hlive').commit hcommits
        rintro before after hrewritten
        cases hrewritten
        exact hne.symm
      · intro l₁ hl₁ l₂ hl₂ hlive₁ hlive₂
        exact h.apart l₁ (hother l₁ hl₁ hlive₁).1 l₂ (hother l₂ hl₂ hlive₂).1 hlive₁ hlive₂
      · intro x hx hxlien
        rcases hcommits.receipt_cases hx with hnew | ⟨before, hrewritten, -⟩ | ⟨hold, hne⟩
        · cases hnew
        · cases hrewritten
          cases hxlien
        · obtain ⟨l', hl', hlive', hreceipt⟩ := h.owned x hold hxlien
          obtain ⟨l'', hl'', -, ⟨heq, -⟩ | ⟨-, rfl⟩⟩ :=
            Table.exists_mem_modify f hkey hl' l.id
          · obtain rfl := Table.eq_of_key_eq hl' hl heq
            exact absurd (hreceipt.symm.trans hid.symm) (hne r _ rfl)
          · exact ⟨l'', hl'', hlive', hreceipt⟩
      · apply h.full_commit hcommits hheffect
        intro e he q x hlogged
        rw [List.mem_singleton.mp he] at hlogged ⊢
        obtain ⟨y, hy, hyid, hrequest, hyquantity⟩ := hfull q x hlogged
        exact ⟨y, hy, hyid, hrequest, r, hr, rfl, hquantity.trans hyquantity.symm⟩

/-- A lien that is not live may be written again. -/
theorem Volumes.idle (h : Volumes num Sized s) {l : Lien} (hl : l ∈ s.liens)
    (hnot : ¬ l.status.Live) {f : Lien → Lien} {hkey : ∀ r, Keyed.key (f r) = Keyed.key r}
    (hf : ∀ r, ¬ (f r).status.Live) :
    Volumes num Sized { s with liens := s.liens.modify l.id f hkey } := by
  have hother : ∀ l' ∈ s.liens.modify l.id f hkey, l'.status.Live → l' ∈ s.liens := by
    intro l' hl' hlive'
    obtain ⟨l₀, hl₀, -, ⟨-, rfl⟩ | ⟨-, rfl⟩⟩ := Table.exists_of_mem_modify f hkey hl'
    · exact absurd hlive' (hf l₀)
    · exact hl₀
  constructor
  · exact h.pledges
  · exact fun l' hl' hlive' => h.liens l' (hother l' hl' hlive') hlive'
  · intro l₁ hl₁ l₂ hl₂ hlive₁ hlive₂
    exact h.apart l₁ (hother l₁ hl₁ hlive₁) l₂ (hother l₂ hl₂ hlive₂) hlive₁ hlive₂
  · intro r hr hlien
    obtain ⟨l', hl', hlive', hreceipt⟩ := h.owned r hr hlien
    obtain ⟨l'', hl'', -, ⟨heq, -⟩ | ⟨-, rfl⟩⟩ := Table.exists_mem_modify f hkey hl' l.id
    · obtain rfl := Table.eq_of_key_eq hl' hl heq
      exact absurd hlive' hnot
    · exact ⟨l'', hl'', hlive', hreceipt⟩
  · exact h.full

/-- The release of a part moves the lien to the leaf that carries the rest. -/
theorem Volumes.parted (h : Volumes num Sized s) (hcolumns : Columns num Admitted Sized) {l : Lien}
    (hl : l ∈ s.liens) (hlive : l.status.Live) {input : ReleasePartialInput}
    {result : ReleasePartialResult} {kept : Receipt} (hreceipt : input.heldReceiptId = l.receiptId)
    (hsized : Sized input.releaseQuantity)
    (hfull : ∀ q x, input.idempotencyKey ≠ fullKey q x)
    (heffect : Effect num uuids s.ledger (.releasePartial input) events change
      (.partlyReleased result))
    (hcommits : Commits s.ledger events change ledger) (hkept : result.remainingHeld = some kept)
    {f : Lien → Lien} {hkey : ∀ r, Keyed.key (f r) = Keyed.key r}
    (hf : (f l).receiptId = kept.id ∧ (f l).tenantId = l.tenantId ∧ (f l).status.Live ∧
      (f l).remainingQuantity =
        num.numeric20_4 (num.minus l.remainingQuantity input.releaseQuantity)) :
    Volumes num Sized { s with ledger, liens := s.liens.modify l.id f hkey } := by
  have hheffect := heffect
  cases heffect with
  | releasePartial input src number number' loaded lien positive available =>
      cases hkept
      have hr := Table.mem_of_find loaded.1
      have hid : src.id = l.receiptId := (Table.key_of_find loaded.1).trans hreceipt
      obtain ⟨-, -, hquantity, htenant, -, hremaining⟩ := (h.liens l hl hlive).leaf hr hid
      obtain ⟨hminus, hrest⟩ := hcolumns.minus hremaining hsized positive (hquantity ▸ available)
      obtain ⟨hto, hsame, hlive', hafter⟩ := hf
      have hcreated := hcommits.find_created (List.mem_cons_of_mem _ List.mem_cons_self)
      have hother : ∀ l' ∈ s.liens.modify l.id f hkey, l'.status.Live → l' = f l ∨
          (l' ∈ s.liens ∧ l'.receiptId ≠ src.id) := by
        intro l' hl' hlive''
        obtain ⟨l₀, hl₀, -, ⟨heq, rfl⟩ | ⟨hne, rfl⟩⟩ := Table.exists_of_mem_modify f hkey hl'
        · obtain rfl := Table.eq_of_key_eq hl₀ hl heq
          exact .inl rfl
        · refine .inr ⟨hl₀, fun hsrc => hne ?_⟩
          exact congrArg Lien.id (h.apart l' hl₀ l hl hlive'' hlive (hsrc.trans hid))
      -- the new leaf is under no other lien
      have hnew : ∀ l' ∈ s.liens, l'.status.Live → l'.receiptId ≠ (f l).receiptId := by
        intro l' hl' hlive'' heq
        obtain ⟨r', hr', hid', -⟩ := h.liens l' hl' hlive''
        apply hcommits.created_ne (List.mem_cons_of_mem _ List.mem_cons_self) hr'
        exact hid'.trans (heq.trans hto)
      constructor
      · apply h.pledges_lien hr lien hcommits hheffect
        rintro before r' hrewritten
        cases hrewritten
        rfl
      · intro l' hl' hlive''
        rcases hother l' hl' hlive'' with rfl | ⟨hold, hne⟩
        · refine ⟨_, Table.mem_of_find hcreated, hto.symm, rfl, rfl, ?_, htenant.trans hsame.symm,
            ?_, ?_⟩
          · rw [hafter, hminus, hcolumns.lien hrest]
            show num.numeric18_3 (num.minus src.quantity input.releaseQuantity) = _
            rw [hquantity, hminus, hcolumns.leaf hrest]
          · rw [hafter, hminus, hcolumns.lien hrest]
            exact sub_pos.mpr (hquantity ▸ available)
          · rw [hafter, hminus, hcolumns.lien hrest]
            exact hrest
        · apply (h.liens l' hold hlive'').commit hcommits
          rintro before after hrewritten
          cases hrewritten
          exact hne.symm
      · intro l₁ hl₁ l₂ hl₂ hlive₁ hlive₂ heq
        rcases hother l₁ hl₁ hlive₁ with rfl | ⟨hold₁, -⟩ <;>
          rcases hother l₂ hl₂ hlive₂ with rfl | ⟨hold₂, -⟩
        · rfl
        · exact absurd heq.symm (hnew l₂ hold₂ hlive₂)
        · exact absurd heq (hnew l₁ hold₁ hlive₁)
        · exact h.apart l₁ hold₁ l₂ hold₂ hlive₁ hlive₂ heq
      · intro x hx hxlien
        rcases hcommits.receipt_cases hx with hmade | ⟨before, hrewritten, -⟩ | ⟨hold, hne⟩
        · rcases List.mem_pair.mp hmade with rfl | rfl
          · cases hxlien
          · exact ⟨f l, Table.mem_modify_self f hkey hl, hlive', hto⟩
        · cases hrewritten
          cases hxlien
        · obtain ⟨l', hl', hlive'', hreceipt'⟩ := h.owned x hold hxlien
          obtain ⟨l'', hl'', -, ⟨heq, -⟩ | ⟨-, rfl⟩⟩ :=
            Table.exists_mem_modify f hkey hl' l.id
          · obtain rfl := Table.eq_of_key_eq hl' hl heq
            exact absurd (hreceipt'.symm.trans hid.symm) (hne src _ rfl)
          · exact ⟨l'', hl'', hlive'', hreceipt'⟩
      · apply h.full_commit hcommits hheffect
        intro e he q x hlogged
        rw [List.mem_singleton.mp he] at hlogged
        exact absurd hlogged (hfull q x)

end Volumes

end SecureStore.Services
