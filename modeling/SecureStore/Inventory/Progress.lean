/-
# When ledger operations succeed

What the effects leave open: an operation whose guards hold commits, as long as
the uuids it draws are new and its key was not used. The receipt numbers of a
split never collide, because a suffix is taken from those that are not in use.
-/

import SecureStore.Inventory.Lifecycle

namespace SecureStore.Inventory

open SecureStore.Foundation

/-- The uuids a call draws are new. -/
structure Uuids.Fresh (uuids : Uuids) (s : Ledger) : Prop where
  event : uuids.event ∉ s.events.rows.map InventoryEvent.id
  primary : s.receipts.find uuids.primary = none
  remainder : s.receipts.find uuids.remainder = none
  distinct : uuids.primary ≠ uuids.remainder

instance (uuids : Uuids) (s : Ledger) : Decidable (uuids.Fresh s) :=
  decidable_of_iff
    (uuids.event ∉ s.events.rows.map InventoryEvent.id ∧
      s.receipts.find uuids.primary = none ∧ s.receipts.find uuids.remainder = none ∧
        uuids.primary ≠ uuids.remainder)
    ⟨fun ⟨event, primary, remainder, distinct⟩ => ⟨event, primary, remainder, distinct⟩,
      fun h => ⟨h.event, h.primary, h.remainder, h.distinct⟩⟩

/-- The ids of the events that a call draws are new. -/
structure Uuids.Unlogged (uuids : Uuids) (s : Ledger) : Prop where
  event : uuids.event ∉ s.events.rows.map InventoryEvent.id
  releaseEvent : uuids.releaseEvent ∉ s.events.rows.map InventoryEvent.id
  distinct : uuids.event ≠ uuids.releaseEvent

/-- Two calls draw different uuids. -/
structure Uuids.Apart (uuids uuids' : Uuids) : Prop where
  event : uuids.event ≠ uuids'.event
  primary : uuids.primary ≠ uuids'.primary ∧ uuids.primary ≠ uuids'.remainder
  remainder : uuids.remainder ≠ uuids'.primary ∧ uuids.remainder ≠ uuids'.remainder

instance (uuids uuids' : Uuids) : Decidable (uuids.Apart uuids') :=
  decidable_of_iff
    (uuids.event ≠ uuids'.event ∧
      (uuids.primary ≠ uuids'.primary ∧ uuids.primary ≠ uuids'.remainder) ∧
        uuids.remainder ≠ uuids'.primary ∧ uuids.remainder ≠ uuids'.remainder)
    ⟨fun ⟨event, primary, remainder⟩ => ⟨event, primary, remainder⟩,
      fun h => ⟨h.event, h.primary, h.remainder⟩⟩

/-- The ids in a commit are those that its call drew. -/
theorem Effect.ids {num : Numeric} {uuids : Uuids} {s : Ledger} {op : LedgerOp}
    {events : List InventoryEvent} {change : Change} {result : LedgerResult}
    (h : Effect num uuids s op events change result)
    (hop : ∀ ctx id newOwnerId txnType txnId withinTx,
      op ≠ .transferAndRelease ctx id newOwnerId txnType txnId withinTx) :
    (∀ e ∈ events, e.id = uuids.event) ∧
      ∀ k ∈ change.created, k.id = uuids.primary ∨ k.id = uuids.remainder := by
  cases h with
  | transferAndRelease => exact absurd rfl (hop _ _ _ _ _ _)
  | deposit => simp
  | hold | seizePart =>
      refine ⟨by simp, ?_⟩
      intro k hk
      rcases List.mem_cons.mp hk with rfl | hk
      · exact .inl rfl
      · obtain rfl := mem_partitionRemainder hk
        exact .inr rfl
  | releasePartial => simp
  | _ => simp

/-- Uuids that a call did not draw are new after it. -/
theorem Uuids.Fresh.commit {num : Numeric} {uuids uuids' : Uuids} {s s' : Ledger} {op : LedgerOp}
    {events : List InventoryEvent} {change : Change} {result : LedgerResult}
    (h : uuids'.Fresh s) (hapart : uuids.Apart uuids')
    (heffect : Effect num uuids s op events change result) (hcommits : Commits s events change s')
    (hop : ∀ ctx id newOwnerId txnType txnId withinTx,
      op ≠ .transferAndRelease ctx id newOwnerId txnType txnId withinTx) : uuids'.Fresh s' := by
  obtain ⟨hevents, hcreated⟩ := heffect.ids hop
  have hreceipt : ∀ id, s.receipts.find id = none → uuids.primary ≠ id → uuids.remainder ≠ id →
      s'.receipts.find id = none := by
    intro id hfind hprimary hremainder
    rw [Table.find_eq_none_iff] at hfind ⊢
    intro r hr hid
    rcases hcommits.mem_receipts.mp hr with ⟨r₀, hr₀, rfl⟩ | hnew
    · exact hfind r₀ hr₀ ((hcommits.apply_id r₀).symm.trans hid)
    · rcases hcreated r hnew with hnew | hnew
      · exact hprimary (hnew.symm.trans hid)
      · exact hremainder (hnew.symm.trans hid)
  constructor
  · intro hevent
    obtain ⟨e, he, hid⟩ := List.mem_map.mp hevent
    rcases hcommits.mem_events.mp he with hold | hnew
    · exact h.event (List.mem_map.mpr ⟨e, hold, hid⟩)
    · exact hapart.event ((hevents e hnew).symm.trans hid)
  · exact hreceipt _ h.primary hapart.primary.1 hapart.remainder.1
  · exact hreceipt _ h.remainder hapart.primary.2 hapart.remainder.2
  · exact h.distinct

/-- A quantity can be held from the receipt that a hold names. -/
structure Holdable (s : Ledger) (input : HoldInput) (src : Receipt) : Prop where
  loaded : Loaded s input.sourceReceiptId input.tenantId src
  active : src.status = .active
  approved : src.approvalStatus = .approved
  leaf : src.isParent = false
  positive : 0 < input.quantity
  available : input.quantity ≤ src.quantity

section Calls

variable {num : Numeric} {uuids : Uuids} {s : Ledger}

/-- Rows are there after they were appended. -/
theorem Grows.find_eq_none {s' : Ledger} {kids : List Receipt} (h : Grows s kids s') {id : Id}
    (hfind : s.receipts.find id = none) (hkids : ∀ r ∈ kids, r.id ≠ id) :
    s'.receipts.find id = none := by
  rw [Table.find_eq_none_iff] at hfind ⊢
  intro r hr
  rw [Table.mem_def, h.rows, List.mem_append] at hr
  rcases hr with hr | hr
  · exact hfind r hr
  · exact hkids r hr

theorem Grows.find_eq_some {s' : Ledger} {kids : List Receipt} (h : Grows s kids s') {id : Id}
    {r : Receipt} (hfind : s.receipts.find id = some r) : s'.receipts.find id = some r := by
  obtain ⟨hmem, hkey⟩ := Table.find_eq_some_iff.mp hfind
  apply Table.find_eq_some_iff.mpr
  constructor
  · rw [Table.mem_def, h.rows]
    exact List.mem_append_left _ hmem
  · exact hkey

/-- A number built on a suffix that is not in use is not in use. -/
theorem number_fresh {base : List Char} {taken : List (List Char)}
    (htaken : ∀ suffix ∈ existingChildSuffixes s.receipts.rows base, suffix ∈ taken)
    (hletters : ∀ suffix ∈ taken, IsSuffix suffix) :
    ∀ r ∈ s.receipts, r.receiptNumber ≠ base ++ '-' :: nextSuffix taken := by
  intro r hr hnumber
  obtain ⟨hsuffix, hnew⟩ := nextSuffix_spec hletters
  exact hnew (htaken _ (mem_existingChildSuffixes.mpr ⟨hsuffix, r, hr, hnumber⟩))

/-- Two children can be created one after the other: the second suffix is taken after the
first is in use. -/
theorem createReceipt_pair {base : List Char} {taken : List (List Char)} {row row' : Receipt}
    (htaken : taken = existingChildSuffixes s.receipts.rows base)
    (hnumber : row.receiptNumber = base ++ '-' :: nextSuffix taken)
    (hnumber' : row'.receiptNumber = base ++ '-' :: nextSuffix (taken ++ [nextSuffix taken]))
    (hid : s.receipts.find row.id = none) (hid' : s.receipts.find row'.id = none)
    (hne : row.id ≠ row'.id) :
    ∃ s₁ s₂, createReceipt num row s = .ok (num.storeReceipt row, s₁) ∧
      createReceipt num row' s₁ = .ok (num.storeReceipt row', s₂) ∧
        Grows s [num.storeReceipt row] s₁ ∧ Grows s₁ [num.storeReceipt row'] s₂ := by
  have hletters : ∀ suffix ∈ taken, IsSuffix suffix := by
    intro suffix hsuffix
    rw [htaken] at hsuffix
    exact (mem_existingChildSuffixes.mp hsuffix).1
  have hfresh : ∀ r ∈ s.receipts, r.receiptNumber ≠ row.receiptNumber := by
    rw [hnumber]
    apply number_fresh _ hletters
    intro suffix hsuffix
    rw [htaken]
    exact hsuffix
  obtain ⟨s₁, hcreate⟩ : ∃ s₁, createReceipt num row s = .ok (num.storeReceipt row, s₁) :=
    createReceipt_succeeds hid hfresh
  have hgrows := (createReceipt_ok hcreate).2
  have hletters' : ∀ suffix ∈ taken ++ [nextSuffix taken], IsSuffix suffix := by
    intro suffix hsuffix
    rcases List.mem_append.mp hsuffix with hold | hnew
    · exact hletters suffix hold
    · rw [List.mem_singleton.mp hnew]
      exact (nextSuffix_spec hletters).1
  have htaken' : ∀ suffix ∈ existingChildSuffixes s₁.receipts.rows base,
      suffix ∈ taken ++ [nextSuffix taken] := by
    intro suffix hsuffix
    obtain ⟨hletter, r, hr, hsame⟩ := mem_existingChildSuffixes.mp hsuffix
    rw [hgrows.rows, List.mem_append, List.mem_singleton] at hr
    apply List.mem_append.mpr
    rcases hr with hr | rfl
    · left
      rw [htaken]
      exact mem_existingChildSuffixes.mpr ⟨hletter, r, hr, hsame⟩
    · right
      have hsuffixes : base ++ '-' :: nextSuffix taken = base ++ '-' :: suffix :=
        hnumber.symm.trans hsame
      simpa using hsuffixes.symm
  have hfresh' : ∀ r ∈ s₁.receipts, r.receiptNumber ≠ row'.receiptNumber := by
    rw [hnumber']
    exact number_fresh htaken' hletters'
  have hfree : s₁.receipts.find row'.id = none := by
    apply hgrows.find_eq_none hid'
    intro r hr
    rw [List.mem_singleton.mp hr]
    exact hne
  obtain ⟨s₂, hcreate'⟩ : ∃ s₂, createReceipt num row' s₁ = .ok (num.storeReceipt row', s₂) :=
    createReceipt_succeeds hfree hfresh'
  exact ⟨s₁, s₂, hcreate, hcreate', hgrows, (createReceipt_ok hcreate').2⟩

/-- A split of a receipt that is there succeeds. -/
theorem partition_succeeds {source : Receipt} {primaryQty : ℚ} {primary : Primary} {eventId : Id}
    (hfind : s.receipts.find source.id = some source)
    (hprimary : s.receipts.find uuids.primary = none)
    (hremainder : s.receipts.find uuids.remainder = none)
    (hdistinct : uuids.primary ≠ uuids.remainder) :
    ∃ result s', partition num uuids source primaryQty primary eventId s = .ok (result, s') := by
  let base := baseReceiptNumber source.receiptNumber
  let taken := existingChildSuffixes s.receipts.rows base
  let row := childOf source uuids.primary (base ++ '-' :: nextSuffix taken) primary.status
    primaryQty primary.clientId primary.approvalStatus primary.sourceTxnType primary.sourceTxnId
    eventId
  let row' := childOf source uuids.remainder
    (base ++ '-' :: nextSuffix (taken ++ [nextSuffix taken])) .active
    (num.minus source.quantity primaryQty) source.clientId .approved none none eventId
  obtain ⟨s₁, s₂, hcreate, hcreate', hgrows, hgrows'⟩ : ∃ s₁ s₂,
      createReceipt num row s = .ok (num.storeReceipt row, s₁) ∧
        createReceipt num row' s₁ = .ok (num.storeReceipt row', s₂) ∧
          Grows s [num.storeReceipt row] s₁ ∧ Grows s₁ [num.storeReceipt row'] s₂ :=
    createReceipt_pair rfl rfl rfl hprimary hremainder hdistinct
  have hremainder' : ∃ remainder s₂, createRemainder num uuids source
      (num.minus source.quantity primaryQty) base (taken ++ [nextSuffix taken]) eventId s₁ =
        .ok (remainder, s₂) ∧ s₂.receipts.find source.id = some source := by
    unfold createRemainder
    by_cases hpos : 0 < num.minus source.quantity primaryQty
    · rw [if_pos hpos]
      exact ⟨_, s₂, Tx.map_ok.mpr ⟨_, hcreate', rfl⟩,
        hgrows'.find_eq_some (hgrows.find_eq_some hfind)⟩
    · rw [if_neg hpos]
      exact ⟨none, s₁, Tx.pure_ok.mpr ⟨rfl, rfl⟩, hgrows.find_eq_some hfind⟩
  obtain ⟨remainder, s₃, hrem, hsource⟩ := hremainder'
  refine ⟨(num.storeReceipt row, remainder),
    { s₃ with receipts := s₃.receipts.modify source.id supersede }, ?_⟩
  simp only [partition, Tx.bind_ok, Tx.query_ok]
  exact ⟨taken, s, ⟨rfl, rfl⟩, _, s₁, hcreate, remainder, s₃, hrem, supersede source, _,
    updateReceipt_ok.mpr ⟨source, hsource, rfl, rfl⟩, Tx.pure_ok.mpr ⟨rfl, rfl⟩⟩

/-- An entry under a new key and a new id is logged. -/
theorem Uuids.Fresh.logs (h : uuids.Fresh s) {e : InventoryEvent} (hid : e.id = uuids.event)
    (hkey : s.events.find e.idempotencyKey = none) :
    ∃ s', SecureStore.Inventory.event num e s = .ok (num.storeEvent e, s') := by
  apply event_succeeds hkey
  intro x hx heq
  exact h.event (hid ▸ heq ▸ List.mem_map_of_mem hx)

/-- Work under a new key. -/
theorem runIdempotent_succeeds {α : Type} {key : IdempotencyKey}
    {reconstruct : InventoryEvent → Ledger → Except ApiError α} {work : Tx α}
    (hkey : s.events.find key = none) (hwork : ∃ a s', work s = .ok (a, s')) :
    ∃ a s', runIdempotent key reconstruct work s = .ok (a, s') := by
  obtain ⟨a, s', hok⟩ := hwork
  exact ⟨a, s', runIdempotent_ok.mpr (.inr ⟨hkey, hok⟩)⟩

/-- A receipt that passes its check is amended under a new key and a new id. -/
theorem amendReceipt_succeeds {tenantId receiptId : Id} {check : Receipt → Except ApiError Unit}
    {entry : Receipt → InventoryEvent} {update : Receipt → Receipt}
    {hf : ∀ r, Keyed.key (update r) = Keyed.key r} {r : Receipt}
    (hloaded : Loaded s receiptId tenantId r) (hcheck : check r = .ok ())
    (hid : ∀ x ∈ s.events, x.id ≠ (entry r).id)
    (hkey : s.events.find (entry r).idempotencyKey = none) :
    ∃ r' s', amendReceipt num tenantId receiptId check entry update hf s = .ok (r', s') := by
  obtain ⟨s₁, hlogged⟩ : ∃ s₁, event num (entry r) s = .ok (num.storeEvent (entry r), s₁) :=
    event_succeeds hkey hid
  have hfind : s₁.receipts.find r.id = some r := by
    rw [(event_ok hlogged).2.1]
    exact Table.find_of_mem (Table.mem_of_find hloaded.1)
  refine ⟨update r, { s₁ with receipts := s₁.receipts.modify r.id update hf }, ?_⟩
  simp only [amendReceipt, Tx.bind_ok, Tx.query_ok, Ledger.loadOrThrow_ok]
  exact ⟨r, s, ⟨hloaded, rfl⟩, (), s, ⟨hcheck, rfl⟩, _, s₁, hlogged,
    updateReceipt_ok.mpr ⟨r, hfind, rfl, rfl⟩⟩

/-- A held receipt can be released under a new key and a new event id. -/
theorem release_succeeds {ctx : ActorCtx} {id : Id} {r : Receipt}
    (hevent : uuids.event ∉ s.events.rows.map InventoryEvent.id)
    (hkey : s.events.find ctx.idempotencyKey = none) (hloaded : Loaded s id ctx.tenantId r)
    (hheld : r.status.Held) : ∃ r' s', release num uuids ctx id s = .ok (r', s') := by
  apply runIdempotent_succeeds hkey
  apply amendReceipt_succeeds hloaded (assertHeld_ok.mpr hheld)
  · intro x hx heq
    exact hevent (List.mem_map.mpr ⟨x, hx, heq⟩)
  · exact hkey

/-- A part of a leaf under a lien can be released under a new key. -/
theorem releasePartial_succeeds {input : ReleasePartialInput} {src : Receipt}
    (hfresh : uuids.Fresh s) (hkey : s.events.find input.idempotencyKey = none)
    (hloaded : Loaded s input.heldReceiptId input.tenantId src) (hlien : src.status = .heldLien)
    (hpositive : 0 < input.releaseQuantity) (havailable : input.releaseQuantity < src.quantity) :
    ∃ result s', releasePartial num uuids input s = .ok (result, s') := by
  let entry := eventFrom uuids.event input.tenantId src .holdReleased (some .pledge)
    (some input.releaseRequestId) input.releaseQuantity input.actorUserId input.idempotencyKey
  obtain ⟨s₁, hlogged⟩ : ∃ s₁, event num entry s = .ok (num.storeEvent entry, s₁) :=
    hfresh.logs rfl hkey
  have hreceipts := (event_ok hlogged).2.1
  let base := baseReceiptNumber src.receiptNumber
  let taken := existingChildSuffixes s₁.receipts.rows base
  let released := childOf src uuids.primary (base ++ '-' :: nextSuffix taken) .active
    input.releaseQuantity src.clientId .approved none none uuids.event
  let remaining := childOf src uuids.remainder
    (base ++ '-' :: nextSuffix (taken ++ [nextSuffix taken])) .heldLien
    (num.minus src.quantity input.releaseQuantity) src.clientId src.approvalStatus
    src.sourceTxnType src.sourceTxnId uuids.event
  obtain ⟨s₂, s₃, hcreate, hcreate', hgrows, hgrows'⟩ : ∃ s₂ s₃,
      createReceipt num released s₁ = .ok (num.storeReceipt released, s₂) ∧
        createReceipt num remaining s₂ = .ok (num.storeReceipt remaining, s₃) ∧
          Grows s₁ [num.storeReceipt released] s₂ ∧ Grows s₂ [num.storeReceipt remaining] s₃ :=
    createReceipt_pair rfl rfl rfl (hreceipts ▸ hfresh.primary) (hreceipts ▸ hfresh.remainder)
      hfresh.distinct
  have hsrc : s₃.receipts.find src.id = some src := by
    apply hgrows'.find_eq_some
    apply hgrows.find_eq_some
    rw [hreceipts]
    exact Table.find_of_mem (Table.mem_of_find hloaded.1)
  apply runIdempotent_succeeds hkey
  refine ⟨{ released := some (num.storeReceipt released)
            remainingHeld := some (num.storeReceipt remaining) },
    { s₃ with receipts := s₃.receipts.modify src.id supersede }, ?_⟩
  simp only [Tx.bind_ok, Tx.query_ok, Tx.throwIf_ok, Ledger.loadOrThrow_ok, not_not, not_le]
  exact ⟨src, s, ⟨hloaded, rfl⟩, (), s, ⟨hlien, rfl⟩, (), s, ⟨hpositive, rfl⟩, (), s,
    ⟨havailable, rfl⟩, _, s₁, hlogged, taken, s₁, ⟨rfl, rfl⟩, _, s₂, hcreate, _, s₃, hcreate',
    supersede src, _, updateReceipt_ok.mpr ⟨src, hsrc, rfl, rfl⟩, Tx.pure_ok.mpr ⟨rfl, rfl⟩⟩

/-- A hold under a new key succeeds exactly when its quantity can be held. -/
theorem hold_succeeds_iff {input : HoldInput} (hfresh : uuids.Fresh s)
    (hkey : s.events.find input.idempotencyKey = none) :
    (∃ result s', hold num uuids input s = .ok (result, s') ∧ ∃ held, result.held = some held) ↔
      ∃ src, Holdable s input src := by
  constructor
  · rintro ⟨result, s', h, -⟩
    unfold hold at h
    rcases runIdempotent_returns h with ⟨e, hprior, -⟩ | ⟨-, hwork⟩
    · rw [hkey] at hprior
      cases hprior
    · simp only [Tx.bind_ok, Tx.query_ok, Tx.throwIf_ok, Ledger.loadOrThrow_ok, not_or, not_not,
        not_le, not_lt, Bool.not_eq_true] at hwork
      obtain ⟨src, _, ⟨hloaded, rfl⟩, _, _, ⟨⟨hactive, happroved⟩, rfl⟩, _, _, ⟨hleaf, rfl⟩, _, _,
        ⟨hpositive, rfl⟩, _, _, ⟨havailable, rfl⟩, -⟩ := hwork
      exact ⟨src, hloaded, hactive, happroved, hleaf, hpositive, havailable⟩
  · rintro ⟨src, h⟩
    obtain ⟨hfind, htenant⟩ := h.loaded
    let entry := eventFrom uuids.event input.tenantId src .holdPlaced (some input.txnType)
      (some input.txnId) input.quantity input.actorUserId input.idempotencyKey
    obtain ⟨s₁, hlogged⟩ : ∃ s₁, event num entry s = .ok (num.storeEvent entry, s₁) :=
      hfresh.logs rfl hkey
    have hreceipts := (event_ok hlogged).2.1
    have hsrc : s₁.receipts.find src.id = some src := by
      rw [hreceipts]
      exact Table.find_of_mem (Table.mem_of_find hfind)
    obtain ⟨split, s₂, hpartition⟩ : ∃ split s₂, partition num uuids src input.quantity
        (heldPrimary input src) uuids.event s₁ = .ok (split, s₂) :=
      partition_succeeds hsrc (hreceipts ▸ hfresh.primary) (hreceipts ▸ hfresh.remainder)
        hfresh.distinct
    refine ⟨{ source := supersede src, held := some split.1, remainder := split.2 }, s₂, ?_,
      split.1, rfl⟩
    apply runIdempotent_ok.mpr
    refine .inr ⟨hkey, ?_⟩
    simp only [Tx.bind_ok, Tx.query_ok, Tx.throwIf_ok, Ledger.loadOrThrow_ok, not_or, not_not,
      not_le, not_lt, Bool.not_eq_true]
    exact ⟨src, s, ⟨h.loaded, rfl⟩, (), s, ⟨⟨h.active, h.approved⟩, rfl⟩, (), s, ⟨h.leaf, rfl⟩,
      (), s, ⟨h.positive, rfl⟩, (), s, ⟨h.available, rfl⟩, _, s₁, hlogged, split, s₂, hpartition,
      Tx.pure_ok.mpr ⟨rfl, rfl⟩⟩

/-- The transaction of a settlement commits for a held receipt, under new keys and new event ids,
when the caller's work succeeds. -/
theorem transferAndReleaseWork_succeeds {τ : Type} {ctx : ActorCtx} {id newOwnerId txnId : Id}
    {txnType : TxnType} {withinTx : Receipt → Except ApiError τ} {r : Receipt} {work : τ}
    (hnew : uuids.Unlogged s) (hkey : s.events.find ctx.idempotencyKey = none)
    (hkey' : s.events.find (releaseKey ctx.idempotencyKey) = none)
    (hloaded : Loaded s id ctx.tenantId r) (hheld : r.status.Held)
    (hwork : withinTx { r with
      clientId := newOwnerId, status := .active, approvalStatus := .approved } = .ok work) :
    ∃ s', transferAndReleaseWork num uuids ctx id newOwnerId txnType txnId withinTx s =
        .ok (({ r with
          clientId := newOwnerId, status := .active, approvalStatus := .approved }, work), s') ∧
      s'.receipts.find id = some { r with
        clientId := newOwnerId, status := .active, approvalStatus := .approved } := by
  have hids : ∀ {x : Id}, x ∉ s.events.rows.map InventoryEvent.id → ∀ e ∈ s.events, e.id ≠ x :=
    fun hx e he heq => hx (List.mem_map.mpr ⟨e, he, heq⟩)
  let entry := eventFrom uuids.event ctx.tenantId r .ownershipTransferred (some txnType)
    (some txnId) r.quantity ctx.actorUserId ctx.idempotencyKey
  let entry' := eventFrom uuids.releaseEvent ctx.tenantId r .holdReleased (some txnType)
    (some txnId) r.quantity ctx.actorUserId (releaseKey ctx.idempotencyKey) r.sourceEventId
  obtain ⟨s₁, hlogged⟩ : ∃ s₁, event num entry s = .ok (num.storeEvent entry, s₁) :=
    event_succeeds hkey (hids hnew.event)
  obtain ⟨-, hreceipts, hinsert, -⟩ := event_ok hlogged
  have hevents : ∀ e ∈ s₁.events, e ∈ s.events ∨ e = num.storeEvent entry := fun e he =>
    (Table.mem_insert hinsert).mp he
  obtain ⟨s₂, hlogged'⟩ : ∃ s₂, event num entry' s₁ = .ok (num.storeEvent entry', s₂) := by
    apply event_succeeds
    · apply Table.find_eq_none_iff.mpr
      intro e he heq
      rcases hevents e he with hold | rfl
      · exact Table.find_eq_none_iff.mp hkey' e hold heq
      · exact releaseKey_ne ctx.idempotencyKey heq.symm
    · intro e he
      rcases hevents e he with hold | rfl
      · exact hids hnew.releaseEvent e hold
      · exact hnew.distinct
  have hreceipts' : s₂.receipts = s.receipts := (event_ok hlogged').2.1.trans hreceipts
  have hid : r.id = id := Table.key_of_find hloaded.1
  have hfind : s₂.receipts.find r.id = some r := by
    rw [hreceipts', hid]
    exact hloaded.1
  let settled : Ledger := { s₂ with receipts := s₂.receipts.modify r.id fun r =>
    { r with clientId := newOwnerId, status := .active, approvalStatus := .approved } }
  refine ⟨settled, ?_, ?_⟩
  · simp only [transferAndReleaseWork, Tx.bind_ok, Tx.query_ok, Ledger.loadOrThrow_ok]
    exact ⟨r, s, ⟨hloaded, rfl⟩, (), s, ⟨assertHeld_ok.mpr hheld, rfl⟩, _, s₁, hlogged, _, s₂,
      hlogged', _, _, updateReceipt_ok.mpr ⟨r, hfind, rfl, rfl⟩, work, _, ⟨hwork, rfl⟩,
      Tx.pure_ok.mpr ⟨rfl, rfl⟩⟩
  · rw [← hid]
    apply Table.find_modify_self
    · exact fun _ => rfl
    · exact hfind

end Calls

end SecureStore.Inventory
