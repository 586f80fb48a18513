/-
# Where pledged volume lies

A pledge names the warehouse of the receipt it was made on, and everything that is split
off for it stays in that warehouse. Requests executed one at a time keep this, and a lien
stays live only as what it was.
-/

import SecureStore.Custody.Requests
import SecureStore.Foundation.Alone

namespace SecureStore.Services

open SecureStore.Foundation SecureStore.Inventory

/-- The key under which a pledge's volume is held. -/
def createKey (pledgeId : Id) : IdempotencyKey :=
  [.text "pledge", .text "create", .uuid pledgeId]

/-- The key `lien:force-release:${lien}`. -/
def forceKey (lienId : Id) : IdempotencyKey :=
  [.text "lien", .text "force-release", .uuid lienId]

/-- The receipt lies in the warehouse. -/
def InWarehouse (s : Ledger) (receiptId warehouseId : Id) : Prop :=
  ∃ r, s.receipts.find receiptId = some r ∧ r.warehouseId = warehouseId

/-- Receipts, pledges and liens agree on the warehouse, and a pledge's hold and its row
come together. -/
structure Placed (db : Db) : Prop where
  minted : ∀ r ∈ db.ledger.receipts, ∀ id, MintedFor r .pledge id →
    ∃ p ∈ db.pledges, p.id = id ∧ r.warehouseId = p.warehouseId
  recorded : ∀ p ∈ db.pledges, db.ledger.Used (createKey p.id)
  logged : ∀ id, db.ledger.Used (createKey id) → ∃ p ∈ db.pledges, p.id = id
  pledges : ∀ p ∈ db.pledges, ∀ heldReceiptId, p.heldReceiptId = some heldReceiptId →
    InWarehouse db.ledger heldReceiptId p.warehouseId
  liens : ∀ l ∈ db.liens, ∃ p ∈ db.pledges, p.id = l.pledgeId ∧ p.tenantId = l.tenantId ∧
    p.financierOrgId = l.financierOrgId ∧ InWarehouse db.ledger l.receiptId p.warehouseId

theorem placed_initial (directory : Directory) : Placed (Db.initial directory) where
  minted := by simp [Db.initial]
  recorded := by simp [Db.initial]
  logged := by simp [Db.initial, Ledger.Used]
  pledges := by simp [Db.initial]
  liens := by simp [Db.initial]

section Commits

variable {num : Numeric} {uuids : Uuids} {op : LedgerOp} {s s' : Ledger}
  {events : List InventoryEvent} {change : Change} {result : LedgerResult}

theorem InWarehouse.commit {receiptId warehouseId : Id} (h : InWarehouse s receiptId warehouseId)
    (hcommits : Commits s events change s')
    (heffect : Effect num uuids s op events change result) :
    InWarehouse s' receiptId warehouseId := by
  obtain ⟨r, hfind, hwarehouse⟩ := h
  refine ⟨change.apply r, hcommits.find_receipt hfind, ?_⟩
  exact (hcommits.sameWarehouse heffect (Table.mem_of_find hfind)).trans hwarehouse

end Commits

section Placed

variable {num : Numeric} {uuids : Uuids} {op : LedgerOp} {s : Db} {ledger : Ledger}
  {events : List InventoryEvent} {change : Change} {result : LedgerResult}

/-- A commit keeps the placement when what it creates for a pledge lies in the pledge's
warehouse, and when it holds for no pledge without a row. -/
theorem Placed.commit (h : Placed s) (hcommits : Commits s.ledger events change ledger)
    (heffect : Effect num uuids s.ledger op events change result)
    (hcreated : ∀ k ∈ change.created, ∀ id, MintedFor k .pledge id →
      ∃ p ∈ s.pledges, p.id = id ∧ k.warehouseId = p.warehouseId)
    (hkeys : ∀ e ∈ events, ∀ id, e.idempotencyKey = createKey id → ∃ p ∈ s.pledges, p.id = id) :
    Placed { s with ledger } where
  minted := by
    intro r hr id hminted
    rcases hcommits.mem_receipts.mp hr with ⟨r₀, hr₀, rfl⟩ | hnew
    · rw [hcommits.sameWarehouse heffect hr₀]
      have hnode := (hcommits.advance heffect hr₀).1
      exact h.minted r₀ hr₀ id ((MintedFor.of_sameNode hnode).mp hminted)
    · exact hcreated r hnew id hminted
  recorded p hp := hcommits.used_iff.mpr (.inl (h.recorded p hp))
  logged := by
    intro id hused
    rcases hcommits.used_iff.mp hused with hold | ⟨e, he, hkey⟩
    · exact h.logged id hold
    · exact hkeys e he id hkey
  pledges p hp heldReceiptId hheld := (h.pledges p hp heldReceiptId hheld).commit hcommits heffect
  liens := by
    intro l hl
    obtain ⟨p, hp, hid, htenant, horg, hwarehouse⟩ := h.liens l hl
    exact ⟨p, hp, hid, htenant, horg, hwarehouse.commit hcommits heffect⟩

/-- A call that neither creates receipts nor holds keeps the placement. -/
theorem Placed.amend (h : Placed s) (hcommits : Commits s.ledger events change ledger)
    (heffect : Effect num uuids s.ledger op events change result) (hcreated : change.created = [])
    (hkeys : ∀ e ∈ events, ∀ id, e.idempotencyKey ≠ createKey id) : Placed { s with ledger } := by
  apply h.commit hcommits heffect
  · intro k hk
    rw [hcreated] at hk
    cases hk
  · intro e he id hkey
    exact absurd hkey (hkeys e he id)

/-- The changes of a pledge's row that leave it where it is. -/
def SamePledge (p p' : Pledge) : Prop :=
  p'.id = p.id ∧ p'.tenantId = p.tenantId ∧ p'.financierOrgId = p.financierOrgId ∧
    p'.warehouseId = p.warehouseId ∧ p'.heldReceiptId = p.heldReceiptId

theorem SamePledge.refl (p : Pledge) : SamePledge p p := ⟨rfl, rfl, rfl, rfl, rfl⟩

/-- New rows of the pledges that are there, with their liens. -/
theorem Placed.rows (h : Placed s) {pledges : Table Pledge} {liens : Table Lien}
    (hkept : ∀ p ∈ s.pledges, ∃ p' ∈ pledges, SamePledge p p')
    (hsame : ∀ p' ∈ pledges, ∃ p ∈ s.pledges, SamePledge p p')
    (hliens : ∀ l ∈ liens, ∃ p ∈ s.pledges, p.id = l.pledgeId ∧ p.tenantId = l.tenantId ∧
      p.financierOrgId = l.financierOrgId ∧
        InWarehouse s.ledger l.receiptId p.warehouseId) :
    Placed { s with pledges, liens } where
  minted := by
    intro r hr id hminted
    obtain ⟨p, hp, hid, hwarehouse⟩ := h.minted r hr id hminted
    obtain ⟨p', hp', hsame'⟩ := hkept p hp
    exact ⟨p', hp', hsame'.1.trans hid, hwarehouse.trans hsame'.2.2.2.1.symm⟩
  recorded := by
    intro p' hp'
    obtain ⟨p, hp, hsame'⟩ := hsame p' hp'
    rw [hsame'.1]
    exact h.recorded p hp
  logged := by
    intro id hused
    obtain ⟨p, hp, hid⟩ := h.logged id hused
    obtain ⟨p', hp', hsame'⟩ := hkept p hp
    exact ⟨p', hp', hsame'.1.trans hid⟩
  pledges := by
    intro p' hp' heldReceiptId hheld
    obtain ⟨p, hp, -, -, -, hwarehouse, hsame'⟩ := hsame p' hp'
    rw [hwarehouse]
    exact h.pledges p hp heldReceiptId (hsame'.symm.trans hheld)
  liens := by
    intro l hl
    obtain ⟨p, hp, hid, htenant, horg, hwarehouse⟩ := hliens l hl
    obtain ⟨p', hp', hsame'⟩ := hkept p hp
    refine ⟨p', hp', hsame'.1.trans hid, hsame'.2.1.trans htenant, hsame'.2.2.1.trans horg, ?_⟩
    rw [hsame'.2.2.2.1]
    exact hwarehouse

/-- A call of a decision on held volume, under a key of its own. -/
theorem Placed.outcome (h : Placed s) (houtcome : Outcome num uuids op s.ledger result ledger)
    (hamends : ∀ events change result, Effect num uuids s.ledger op events change result →
      change.created = [] ∧ ∀ e ∈ events, e.idempotencyKey = op.idempotencyKey)
    (hkey : ∀ id, op.idempotencyKey ≠ createKey id) : Placed { s with ledger } := by
  cases houtcome with
  | replayed e prior reconstructs same => exact same ▸ h
  | committed free events change effect commits =>
      obtain ⟨hcreated, hkeyed⟩ := hamends events change _ effect
      apply h.amend commits effect hcreated
      intro e he id hlogged
      exact hkey id ((hkeyed e he).symm.trans hlogged)

theorem Placed.release (h : Placed s) {ctx : ActorCtx} {id : Id}
    (houtcome : Outcome num uuids (.release ctx id) s.ledger result ledger)
    (hkey : ∀ id, ctx.idempotencyKey ≠ createKey id) : Placed { s with ledger } := by
  apply h.outcome houtcome ?_ hkey
  intro events change result heffect
  cases heffect with
  | release ctx r loaded held =>
      refine ⟨rfl, ?_⟩
      intro e he
      rw [List.mem_singleton.mp he]
      rfl

theorem Placed.transitionPledgeToLien (h : Placed s) {ctx : ActorCtx} {id pledgeId : Id}
    (houtcome : Outcome num uuids (.transitionPledgeToLien ctx id pledgeId) s.ledger result ledger)
    (hkey : ∀ id, ctx.idempotencyKey ≠ createKey id) : Placed { s with ledger } := by
  apply h.outcome houtcome ?_ hkey
  intro events change result heffect
  cases heffect with
  | transitionPledgeToLien ctx pledgeId r loaded pledged =>
      refine ⟨rfl, ?_⟩
      intro e he
      rw [List.mem_singleton.mp he]
      rfl

/-- A partial release leaves the rest under the lien where it lay. -/
theorem Placed.releasePartial (h : Placed s) {input : ReleasePartialInput}
    (houtcome : Outcome num uuids (.releasePartial input) s.ledger result ledger)
    (hkey : ∀ id, input.idempotencyKey ≠ createKey id) : Placed { s with ledger } := by
  cases houtcome with
  | replayed e prior reconstructs same => exact same ▸ h
  | committed free events change effect commits =>
      apply h.commit commits effect
      · intro k hk id hminted
        cases effect with
        | releasePartial input src number number' loaded lien =>
            rcases List.mem_pair.mp hk with rfl | rfl
            · cases hminted.1
            · exact h.minted src (Table.mem_of_find loaded.1) id hminted
      · intro e he id hlogged
        cases effect with
        | releasePartial input src number number' loaded lien =>
            rw [List.mem_singleton.mp he] at hlogged
            exact absurd hlogged (hkey id)

/-- A hold that commits for a new pledge, with the pledge's row. -/
theorem Placed.pledge {input : HoldInput} {result : HoldResult} {held src : Receipt} {row : Pledge}
    {pledges : Table Pledge} (hs : Placed s)
    (heffect : Effect num uuids s.ledger (.hold input) events change (.held result))
    (hcommits : Commits s.ledger events change ledger) (hheld : result.held = some held)
    (hkey : input.idempotencyKey = createKey row.id) (htxnId : input.txnId = row.id)
    (hsrc : s.ledger.receipts.find input.sourceReceiptId = some src)
    (hwarehouse : row.warehouseId = src.warehouseId) (hrow : row.heldReceiptId = some held.id)
    (hinsert : s.pledges.insert row = some pledges) :
    Placed { s with ledger, pledges } := by
  have hold : ∀ p ∈ s.pledges, p ∈ pledges := fun p hp => (Table.mem_insert hinsert).mpr (.inl hp)
  have hnew : row ∈ pledges := (Table.mem_insert hinsert).mpr (.inr rfl)
  have hplace : ∀ k ∈ change.created, k.warehouseId = src.warehouseId ∧
      ∀ id, MintedFor k .pledge id → id = row.id := by
    intro k hk
    cases heffect with
    | hold input src' number number' loaded =>
        obtain rfl : src' = src := Option.some_inj.mp (loaded.1.symm.trans hsrc)
        rcases List.mem_cons.mp hk with rfl | hk
        · exact ⟨rfl, fun id hminted => (Option.some_inj.mp hminted.2).symm.trans htxnId⟩
        · obtain rfl := mem_partitionRemainder hk
          exact ⟨rfl, fun id hminted => by cases hminted.1⟩
  have hkeyed : ∀ e ∈ events, e.idempotencyKey = createKey row.id := by
    intro e he
    cases heffect with
    | hold input src' number number' loaded =>
        rw [List.mem_singleton.mp he]
        exact hkey
  have hcreated : held ∈ change.created := by
    cases heffect with
    | hold input src' number number' loaded =>
        cases hheld
        exact List.mem_cons_self
  constructor
  · intro r hr id hminted
    rcases hcommits.mem_receipts.mp hr with ⟨r₀, hr₀, rfl⟩ | hk
    · rw [hcommits.sameWarehouse heffect hr₀]
      have hnode := (hcommits.advance heffect hr₀).1
      obtain ⟨p, hp, hid, hw⟩ := hs.minted r₀ hr₀ id ((MintedFor.of_sameNode hnode).mp hminted)
      exact ⟨p, hold p hp, hid, hw⟩
    · obtain ⟨hw, hid⟩ := hplace r hk
      exact ⟨row, hnew, (hid id hminted).symm, hw.trans hwarehouse.symm⟩
  · intro p hp
    rcases (Table.mem_insert hinsert).mp hp with hp | rfl
    · exact hcommits.used_iff.mpr (.inl (hs.recorded p hp))
    · obtain ⟨e, he, -, hlogged⟩ := heffect.keyed_event
      exact hcommits.used_iff.mpr (.inr ⟨e, he, hlogged.trans hkey⟩)
  · intro id hused
    rcases hcommits.used_iff.mp hused with hbefore | ⟨e, he, hlogged⟩
    · obtain ⟨p, hp, hid⟩ := hs.logged id hbefore
      exact ⟨p, hold p hp, hid⟩
    · have hid : createKey id = createKey row.id := hlogged.symm.trans (hkeyed e he)
      simp only [createKey, List.cons.injEq, KeyPart.uuid.injEq, true_and, and_true] at hid
      exact ⟨row, hnew, hid.symm⟩
  · intro p hp heldReceiptId hsome
    rcases (Table.mem_insert hinsert).mp hp with hp | rfl
    · exact (hs.pledges p hp heldReceiptId hsome).commit hcommits heffect
    · obtain rfl : held.id = heldReceiptId := Option.some_inj.mp (hrow.symm.trans hsome)
      refine ⟨held, hcommits.find_created hcreated, ?_⟩
      exact (hplace held hcreated).1.trans hwarehouse.symm
  · intro l hl
    obtain ⟨p, hp, hid, htenant, horg, hw⟩ := hs.liens l hl
    exact ⟨p, hold p hp, hid, htenant, horg, hw.commit hcommits heffect⟩

end Placed

/-- What a partial release leaves under the lien is there, and under a lien. -/
theorem mem_of_partial {num : Numeric} {uuids : Uuids} {s ledger : Ledger}
    {input : ReleasePartialInput} {result : ReleasePartialResult} {held : Receipt}
    (houtcome : Outcome num uuids (.releasePartial input) s (.partlyReleased result) ledger)
    (hheld : result.remainingHeld = some held) :
    ledger.receipts.find held.id = some held ∧ held.status = .heldLien := by
  cases houtcome with
  | replayed e prior reconstructs same =>
      cases reconstructs
      subst same
      obtain ⟨hmem, -⟩ := Ledger.mem_byEvent.mp (List.mem_of_find?_eq_some hheld)
      exact ⟨Table.find_of_mem hmem, by simpa using List.find?_some hheld⟩
  | committed free events change effect commits =>
      cases effect with
      | releasePartial input src number number' loaded lien =>
          cases hheld
          exact ⟨commits.find_created (List.mem_cons_of_mem _ List.mem_cons_self), rfl⟩

/-- The financier of the pledge is still on the platform, and linked to its warehouse. -/
def Linked (d : Directory) (tenantId financierOrgId warehouseId : Id) : Prop :=
  (∃ o, d.financierOrgs.find financierOrgId = some o ∧ o.status ≠ .offboarded) ∧
    ∃ link ∈ d.warehouseLinks, link.tenantId = tenantId ∧ link.financierOrgId = financierOrgId ∧
      link.warehouseId = warehouseId ∧ link.status = .active

def Pledge.Linked (p : Pledge) (d : Directory) : Prop :=
  Services.Linked d p.tenantId p.financierOrgId p.warehouseId

/-- What a request leaves of the pledges, and where its live liens come from. -/
structure Continued (s s' : Db) : Prop where
  directory : s'.directory = s.directory
  pledges : ∀ p ∈ s.pledges, ∃ p' ∈ s'.pledges, SamePledge p p'
  liens : ∀ l' ∈ s'.liens, l'.status.Live → ∃ p ∈ s.pledges, p.id = l'.pledgeId ∧
    (p.Linked s.directory ∨ ∃ l ∈ s.liens, l.status.Live ∧ l.pledgeId = p.id)

/-- A request that leaves the liens alone. -/
structure Spares (s s' : Db) : Prop where
  directory : s'.directory = s.directory
  liens : s'.liens = s.liens
  pledges : ∀ p ∈ s.pledges, ∃ p' ∈ s'.pledges, SamePledge p p'

theorem Spares.refl (s : Db) : Spares s s := ⟨rfl, rfl, fun p hp => ⟨p, hp, .refl p⟩⟩

theorem Spares.trans {s s' s'' : Db} (h : Spares s s') (h' : Spares s' s'') : Spares s s'' := by
  refine ⟨h'.directory.trans h.directory, h'.liens.trans h.liens, ?_⟩
  intro p hp
  obtain ⟨p', hp', hid, htenant, horg, hwarehouse, hheld⟩ := h.pledges p hp
  obtain ⟨p'', hp'', hid', htenant', horg', hwarehouse', hheld'⟩ := h'.pledges p' hp'
  exact ⟨p'', hp'', hid'.trans hid, htenant'.trans htenant, horg'.trans horg,
    hwarehouse'.trans hwarehouse, hheld'.trans hheld⟩

theorem Spares.continued {s s' : Db} (h : Spares s s') (hs : Placed s) : Continued s s' := by
  refine ⟨h.directory, h.pledges, ?_⟩
  intro l hl hlive
  rw [h.liens] at hl
  obtain ⟨p, hp, hid, -⟩ := hs.liens l hl
  exact ⟨p, hp, hid, .inr ⟨l, hl, hlive, hid.symm⟩⟩

end SecureStore.Services
