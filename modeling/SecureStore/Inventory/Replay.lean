/-
# Idempotent replay

A call whose key belongs to a logged event changes nothing and rebuilds its
result from that event. For most operations the result is the receipt the event
is about. The operations that split a receipt look for their children by the
children's present status, so they designate the same receipts as the first
call exactly as long as no child has left the status it was created with.
-/

import SecureStore.Inventory.Lifecycle

namespace SecureStore.Inventory

open SecureStore.Foundation

section Effects

variable {num : Numeric} {uuids : Uuids} {op : LedgerOp} {s s' : Ledger}
  {events : List InventoryEvent} {change : Change} {result : LedgerResult}

/-- The event under the key of the call carries the call's event id. -/
theorem Effect.keyed_event (h : Effect num uuids s op events change result) :
    ∃ e ∈ events, e.id = uuids.event ∧ e.idempotencyKey = op.idempotencyKey := by
  cases h <;> exact ⟨_, List.mem_cons_self, rfl, rfl⟩

/-- Created receipts point at the call's event. -/
theorem Effect.created_source (h : Effect num uuids s op events change result) {k : Receipt}
    (hk : k ∈ change.created) : k.sourceEventId = some uuids.event := by
  cases h with
  | deposit input positive =>
      obtain rfl := List.mem_singleton.mp hk
      rfl
  | hold =>
      rcases List.mem_cons.mp hk with rfl | hk
      · rfl
      · obtain rfl := mem_partitionRemainder hk
        rfl
  | releasePartial =>
      rcases List.mem_pair.mp hk with rfl | rfl <;> rfl
  | seizePart =>
      rcases List.mem_cons.mp hk with rfl | hk
      · rfl
      · obtain rfl := mem_partitionRemainder hk
        rfl
  | _ => cases hk

/-- An event is about a receipt of its tenant and its tree. -/
theorem Effect.event_from (h : Effect num uuids s op events change result)
    {e : InventoryEvent} (he : e ∈ events) :
    ∃ r, (r ∈ s.receipts ∨ r ∈ change.created) ∧ r.id = e.fromReceiptId ∧
      r.tenantId = e.tenantId ∧ r.rootReceiptId = e.rootReceiptId := by
  cases h with
  | deposit input positive =>
      obtain rfl := List.mem_singleton.mp he
      exact ⟨_, .inr (List.mem_singleton.mpr rfl), rfl, rfl, rfl⟩
  | transferAndRelease ctx newOwnerId txnType txnId withinTx r loaded =>
      refine ⟨r, .inl (Table.mem_of_find loaded.1), ?_⟩
      rcases List.mem_pair.mp he with rfl | rfl <;> exact ⟨rfl, loaded.2, rfl⟩
  | hold input src number number' loaded =>
      obtain rfl := List.mem_singleton.mp he
      exact ⟨src, .inl (Table.mem_of_find loaded.1), rfl, loaded.2, rfl⟩
  | releasePartial input src number number' loaded =>
      obtain rfl := List.mem_singleton.mp he
      exact ⟨src, .inl (Table.mem_of_find loaded.1), rfl, loaded.2, rfl⟩
  | _ =>
      have loaded := ‹Loaded s _ _ _›
      obtain rfl := List.mem_singleton.mp he
      exact ⟨_, .inl (Table.mem_of_find loaded.1), rfl, loaded.2, rfl⟩

/-- Events and receipts refer to each other consistently. -/
structure Provenance (s : Ledger) : Prop where
  event_ids : ∀ e ∈ s.events, ∀ e' ∈ s.events, e.id = e'.id → e = e'
  source_logged : ∀ r ∈ s.receipts, ∀ x, r.sourceEventId = some x → ∃ e ∈ s.events, e.id = x
  from_exists : ∀ e ∈ s.events, ∃ r ∈ s.receipts, r.id = e.fromReceiptId ∧
    r.tenantId = e.tenantId ∧ r.rootReceiptId = e.rootReceiptId

theorem provenance_empty : Provenance Ledger.empty := by
  constructor <;> simp

theorem Provenance.step (h : Provenance s) (heffect : Effect num uuids s op events change result)
    (hcommits : Commits s events change s') : Provenance s' := by
  constructor
  · intro e he e' he' hid
    rcases hcommits.mem_events.mp he with hold | hnew <;>
      rcases hcommits.mem_events.mp he' with hold' | hnew'
    · exact h.event_ids e hold e' hold' hid
    · exact absurd hid (hcommits.newIds e' hnew' e hold)
    · exact absurd hid.symm (hcommits.newIds e hnew e' hold')
    · exact List.inj_on_of_nodup_map hcommits.distinctIds hnew hnew' hid
  · intro r hr x hx
    rcases hcommits.mem_receipts.mp hr with ⟨r₀, hr₀, rfl⟩ | hcreated
    · rw [(hcommits.advance heffect hr₀).1.sourceEventId] at hx
      obtain ⟨e, he, hid⟩ := h.source_logged r₀ hr₀ x hx
      exact ⟨e, hcommits.mem_events.mpr (.inl he), hid⟩
    · rw [heffect.created_source hcreated] at hx
      obtain ⟨e, he, hid, -⟩ := heffect.keyed_event
      exact ⟨e, hcommits.mem_events.mpr (.inr he), hid.trans (Option.some_inj.mp hx)⟩
  · intro e he
    have keep : ∀ r ∈ s.receipts, r.id = e.fromReceiptId → r.tenantId = e.tenantId →
        r.rootReceiptId = e.rootReceiptId → ∃ r ∈ s'.receipts, r.id = e.fromReceiptId ∧
          r.tenantId = e.tenantId ∧ r.rootReceiptId = e.rootReceiptId := by
      intro r hr hid htenant hroot
      have hnode := (hcommits.advance heffect hr).1
      exact ⟨_, hcommits.mem_receipts.mpr (.inl ⟨r, hr, rfl⟩), hnode.id.trans hid,
        hnode.tenantId.trans htenant, hnode.rootReceiptId.trans hroot⟩
    rcases hcommits.mem_events.mp he with hold | hnew
    · obtain ⟨r, hr, hid, htenant, hroot⟩ := h.from_exists e hold
      exact keep r hr hid htenant hroot
    · obtain ⟨r, hr | hr, hid, htenant, hroot⟩ := heffect.event_from hnew
      · exact keep r hr hid htenant hroot
      · exact ⟨r, hcommits.mem_receipts.mpr (.inr hr), hid, htenant, hroot⟩

/-- The receipts under an event: old ones under an old event, new ones under the
event of the commit. -/
theorem Provenance.kid_cases (h : Provenance s)
    (heffect : Effect num uuids s op events change result) (hcommits : Commits s events change s')
    {e : InventoryEvent} (he : e ∈ s'.events) {k : Receipt} (hk : k ∈ s'.receipts)
    (hsource : k.sourceEventId = some e.id) :
    (e ∈ s.events ∧ ∃ k₀ ∈ s.receipts, change.apply k₀ = k ∧ SameNode k₀ k ∧
        k₀.sourceEventId = some e.id) ∨
      (e ∈ events ∧ k ∈ change.created) := by
  rcases hcommits.mem_receipts.mp hk with ⟨k₀, hk₀, rfl⟩ | hcreated
  · have hnode := (hcommits.advance heffect hk₀).1
    have hsource₀ := hnode.sourceEventId ▸ hsource
    rcases hcommits.mem_events.mp he with hold | hnew
    · exact .inl ⟨hold, k₀, hk₀, rfl, hnode, hsource₀⟩
    · obtain ⟨e₀, he₀, hid⟩ := h.source_logged k₀ hk₀ _ hsource₀
      exact absurd hid (hcommits.newIds e hnew e₀ he₀)
  · rcases hcommits.mem_events.mp he with hold | hnew
    · obtain ⟨e', he', hid, -⟩ := heffect.keyed_event
      rw [heffect.created_source hcreated] at hsource
      exact absurd (hid.trans (Option.some_inj.mp hsource)).symm (hcommits.newIds e' he' e hold)
    · exact .inr ⟨hnew, hcreated⟩

end Effects

theorem provenance_run (num : Numeric) {s : Ledger} (h : Provenance s)
    (calls : List LedgerCall) : Provenance (runCalls num calls s) :=
  runCalls_invariant (fun hs _ heffect hcommits => hs.step heffect hcommits) calls h

/-- The receipts a result designates. -/
def LedgerResult.ids : LedgerResult → List (Option Id)
  | .node receipt => [some receipt.id]
  | .held result =>
      [some result.source.id, result.held.map Receipt.id, result.remainder.map Receipt.id]
  | .partlyReleased result =>
      [result.released.map Receipt.id, result.remainingHeld.map Receipt.id]
  | .seized result => [result.seized.map Receipt.id, result.remainder.map Receipt.id]

/-- Every receipt that the event under the key created held or ACTIVE is still
held or ACTIVE. -/
def ChildrenKept (key : IdempotencyKey) (created now : Ledger) : Prop :=
  ∀ e, created.events.find key = some e → ∀ k ∈ created.createdBy e, ∀ k' ∈ now.receipts,
    k'.id = k.id → (k.status.Held → k'.status.Held) ∧ (k.status = .active → k'.status = .active)

section Replays

variable {num : Numeric} {uuids : Uuids} {s : Ledger}

/-- A call whose key is in the log returns its reconstruction. -/
theorem call_replays {op : LedgerOp} {e : InventoryEvent} {result : LedgerResult}
    (hpositive : ∀ input, op = .deposit input → 0 < input.quantity)
    (hprior : s.events.find op.idempotencyKey = some e)
    (hreconstructs : op.Reconstructs uuids.scan s e result) :
    op.call num uuids s = .ok (result, s) := by
  cases op with
  | deposit input =>
      obtain ⟨r, haffected, rfl⟩ := hreconstructs
      refine Tx.map_ok.mpr ⟨r, Tx.bind_ok.mpr ⟨(), s, ?_, ?_⟩, rfl⟩
      · exact Tx.throwIf_ok.mpr ⟨not_le.mpr (hpositive input rfl), rfl⟩
      · exact runIdempotent_ok.mpr (.inl ⟨e, hprior, haffected, rfl⟩)
  | hold input =>
      obtain ⟨source, haffected, rfl⟩ := hreconstructs
      refine Tx.map_ok.mpr ⟨_, runIdempotent_ok.mpr (.inl ⟨e, hprior, ?_, rfl⟩), rfl⟩
      simp [haffected, bind, Except.bind, pure, Except.pure]
  | releasePartial input =>
      obtain rfl := hreconstructs
      exact Tx.map_ok.mpr ⟨_, runIdempotent_ok.mpr (.inl ⟨e, hprior, rfl, rfl⟩), rfl⟩
  | seize input =>
      unfold LedgerOp.Reconstructs at hreconstructs
      dsimp only at hreconstructs
      split at hreconstructs
      · rename_i hkids
        obtain rfl := hreconstructs
        refine Tx.map_ok.mpr ⟨_, runIdempotent_ok.mpr (.inl ⟨e, hprior, ?_, rfl⟩), rfl⟩
        dsimp only
        rw [if_pos hkids]
        rfl
      · rename_i hkids
        obtain ⟨r, haffected, rfl⟩ := hreconstructs
        refine Tx.map_ok.mpr ⟨_, runIdempotent_ok.mpr (.inl ⟨e, hprior, ?_, rfl⟩), rfl⟩
        dsimp only
        rw [if_neg hkids, haffected]
        rfl
  | _ =>
      obtain ⟨r, haffected, rfl⟩ := hreconstructs
      exact Tx.map_ok.mpr ⟨r, runIdempotent_ok.mpr (.inl ⟨e, hprior, haffected, rfl⟩), rfl⟩

theorem find?_unique {α : Type} {l : List α} {p : α → Bool} {x : α} (hx : x ∈ l)
    (hp : p x = true) (huniq : ∀ y ∈ l, p y = true → y = x) : l.find? p = some x := by
  cases hfind : l.find? p with
  | none => exact absurd hp (List.find?_eq_none.mp hfind x hx)
  | some y =>
      rw [huniq y (List.mem_of_find?_eq_some hfind) (List.find?_some hfind)]

theorem Ledger.mem_createdBy {e : InventoryEvent} {k : Receipt} :
    k ∈ s.createdBy e ↔ k ∈ s.receipts ∧ k.sourceEventId = some e.id := by
  simp [Ledger.createdBy, Table.mem_def]

theorem Ledger.mem_byEvent {scan : Scan Receipt} {e : InventoryEvent} {k : Receipt} :
    k ∈ s.byEvent scan e ↔ k ∈ s.receipts ∧ k.sourceEventId = some e.id :=
  scan.mem_order.trans Ledger.mem_createdBy

/-- No event's children appear after the event. -/
theorem createdBy_of_later {calls : List LedgerCall} {e : InventoryEvent} {k' : Receipt}
    (hs : Provenance s) (he : e ∈ s.events)
    (hk' : k' ∈ (runCalls num calls s).createdBy e) : ∃ k ∈ s.createdBy e, k'.id = k.id := by
  have hinv : e ∈ (runCalls num calls s).events ∧ Provenance (runCalls num calls s) ∧
      ∀ k' ∈ (runCalls num calls s).receipts, k'.sourceEventId = some e.id →
        ∃ k ∈ s.createdBy e, k'.id = k.id := by
    refine runCalls_invariant (P := fun now => e ∈ now.events ∧ Provenance now ∧
      ∀ k' ∈ now.receipts, k'.sourceEventId = some e.id → ∃ k ∈ s.createdBy e, k'.id = k.id)
      ?_ calls ⟨he, hs, fun k' hk' hsource => ⟨k', Ledger.mem_createdBy.mpr ⟨hk', hsource⟩, rfl⟩⟩
    rintro uuids op now next events change result ⟨hmem, hprov, hkids⟩ - heffect hcommits
    refine ⟨hcommits.mem_events.mpr (.inl hmem), hprov.step heffect hcommits, ?_⟩
    intro k' hk' hsource
    rcases hprov.kid_cases heffect hcommits (hcommits.mem_events.mpr (.inl hmem)) hk' hsource with
      ⟨-, k, hk, -, hnode, hsource₀⟩ | ⟨hnew, -⟩
    · rw [hnode.id]
      exact hkids k hk hsource₀
    · exact absurd rfl (hcommits.newIds e hnew e hmem)
  obtain ⟨hk', hsource⟩ := Ledger.mem_createdBy.mp hk'
  exact hinv.2.2 k' hk' hsource

/-- What a later replay finds: the event, the receipt it is about, and its
children. -/
structure FirstCall (num : Numeric) (uuids : Uuids) (op : LedgerOp) (s₀ : Ledger)
    (change : Change) (s₁ : Ledger) (e : InventoryEvent) (s₂ : Ledger) : Prop where
  logged : s₁.events.find op.idempotencyKey = some e
  prior : s₂.events.find op.idempotencyKey = some e
  children : ∀ k, k ∈ s₁.createdBy e ↔ k ∈ change.created
  kids : ∀ scan k', k' ∈ s₂.byEvent scan e ↔
    k' ∈ s₂.receipts ∧ ∃ k ∈ change.created, k'.id = k.id
  now : ∀ k ∈ change.created, ∃ k', s₂.receipts.find k.id = some k' ∧
    Relation.ReflTransGen Moves k.status k'.status
  affected : ∃ r, s₂.affected e = .ok r ∧ r.id = e.fromReceiptId

theorem firstCall {op : LedgerOp} {s₁ : Ledger} {events : List InventoryEvent} {change : Change}
    {result : LedgerResult} (hs : Provenance s)
    (heffect : Effect num uuids s op events change result) (hcommits : Commits s events change s₁)
    {e : InventoryEvent} (he : e ∈ events) (hid : e.id = uuids.event)
    (hkey : e.idempotencyKey = op.idempotencyKey) (more : List LedgerCall) :
    FirstCall num uuids op s change s₁ e (runCalls num more s₁) := by
  have hs₁ := hs.step heffect hcommits
  have he₁ : e ∈ s₁.events := hcommits.mem_events.mpr (.inr he)
  have hchildren : ∀ k, k ∈ s₁.createdBy e ↔ k ∈ change.created := by
    intro k
    rw [Ledger.mem_createdBy]
    constructor
    · rintro ⟨hk, hsource⟩
      rcases hs.kid_cases heffect hcommits he₁ hk hsource with ⟨hold, -⟩ | ⟨-, hcreated⟩
      · exact absurd rfl (hcommits.newIds e he e hold)
      · exact hcreated
    · intro hcreated
      exact ⟨hcommits.mem_receipts.mpr (.inr hcreated),
        by rw [heffect.created_source hcreated, hid]⟩
  have hnow : ∀ k ∈ change.created, ∃ k', (runCalls num more s₁).receipts.find k.id = some k' ∧
      SameNode k k' ∧ Relation.ReflTransGen Moves k.status k'.status := fun k hk =>
    (runCalls_later more _).find (hcommits.find_created hk)
  have hlogged : s₁.events.find op.idempotencyKey = some e := hkey ▸ Table.find_of_mem he₁
  have hprior : (runCalls num more s₁).events.find op.idempotencyKey = some e :=
    runCalls_invariant (P := fun now => now.events.find op.idempotencyKey = some e)
      (fun h _ _ hcommits => hcommits.find_event h) more hlogged
  refine ⟨hlogged, hprior, hchildren, ?_, ?_, ?_⟩
  · intro scan k'
    rw [Ledger.mem_byEvent]
    constructor
    · rintro ⟨hk', hsource⟩
      obtain ⟨k, hk, hid'⟩ := createdBy_of_later hs₁ he₁ (Ledger.mem_createdBy.mpr ⟨hk', hsource⟩)
      exact ⟨hk', k, (hchildren k).mp hk, hid'⟩
    · rintro ⟨hk', k, hk, hid'⟩
      obtain ⟨k'', hfind, hnode, -⟩ := hnow k hk
      obtain rfl := Table.eq_of_key_eq hk' (Table.mem_of_find hfind)
        (hid'.trans (Table.key_of_find hfind).symm)
      refine ⟨hk', ?_⟩
      rw [hnode.sourceEventId, heffect.created_source hk, hid]
  · intro k hk
    obtain ⟨k', hfind, -, hmoves⟩ := hnow k hk
    exact ⟨k', hfind, hmoves⟩
  · obtain ⟨r, hr, hrid, htenant, -⟩ := (provenance_run num hs₁ more).from_exists e
      (Table.mem_of_find hprior)
    refine ⟨r, Ledger.loadOrThrow_ok.mpr ⟨?_, htenant⟩, hrid⟩
    rw [← hrid]
    exact Table.find_of_mem hr

section Kids

variable {op : LedgerOp} {s₁ s₂ : Ledger} {change : Change} {e : InventoryEvent}
  (scan : Scan Receipt)

/-- The children of a first call, as they are now. -/
theorem FirstCall.kept_iff (h : FirstCall num uuids op s change s₁ e s₂) :
    ChildrenKept op.idempotencyKey s₁ s₂ ↔
      ∀ k ∈ change.created, ∀ k', s₂.receipts.find k.id = some k' →
        (k.status.Held → k'.status.Held) ∧ (k.status = .active → k'.status = .active) := by
  constructor
  · intro hkept k hk k' hfind
    exact hkept e h.logged k ((h.children k).mpr hk) k' (Table.mem_of_find hfind)
      (Table.key_of_find hfind)
  · intro hkept e' he' k hk k' hk' hid
    rw [h.logged] at he'
    cases he'
    exact hkept k ((h.children k).mp hk) k' (hid ▸ Table.find_of_mem hk')

theorem FirstCall.mem_kids (h : FirstCall num uuids op s change s₁ e s₂) {k k' : Receipt}
    (hk : k ∈ change.created) (hfind : s₂.receipts.find k.id = some k') :
    k' ∈ s₂.byEvent scan e :=
  (h.kids scan k').mpr ⟨Table.mem_of_find hfind, k, hk, Table.key_of_find hfind⟩

/-- A child that a replay designates satisfies the predicate it was found by. -/
theorem FirstCall.of_find_kid (_ : FirstCall num uuids op s change s₁ e s₂) {p : Receipt → Bool}
    {k k' : Receipt} (hfind : s₂.receipts.find k.id = some k')
    (hids : ((s₂.byEvent scan e).find? p).map Receipt.id = some k.id) : p k' = true := by
  obtain ⟨y, hy, hid⟩ := Option.map_eq_some_iff.mp hids
  have hmem := (Ledger.mem_byEvent.mp (List.mem_of_find?_eq_some hy)).1
  obtain rfl := Table.eq_of_key_eq hmem (Table.mem_of_find hfind)
    (hid.trans (Table.key_of_find hfind).symm)
  exact List.find?_some hy

/-- The only child that satisfies a predicate is found by it. -/
theorem FirstCall.find_kid (h : FirstCall num uuids op s change s₁ e s₂) {p : Receipt → Bool}
    {k k' : Receipt} (hk : k ∈ change.created) (hfind : s₂.receipts.find k.id = some k')
    (hp : p k' = true)
    (hother : ∀ x ∈ change.created, x ≠ k → ∀ x', s₂.receipts.find x.id = some x' →
      p x' = false) :
    ((s₂.byEvent scan e).find? p).map Receipt.id = some k.id := by
  rw [find?_unique (h.mem_kids scan hk hfind) hp]
  · exact congrArg some (Table.key_of_find hfind)
  · intro y hy hpy
    obtain ⟨hmem, x, hx, hid⟩ := (h.kids scan y).mp hy
    have hy' : s₂.receipts.find x.id = some y := hid ▸ Table.find_of_mem hmem
    by_cases hxk : x = k
    · rw [hxk, hfind] at hy'
      exact (Option.some_inj.mp hy').symm
    · rw [hother x hx hxk y hy'] at hpy
      cases hpy

/-- No child satisfies the predicate. -/
theorem FirstCall.find_no_kid (h : FirstCall num uuids op s change s₁ e s₂)
    {p : Receipt → Bool}
    (hother : ∀ x ∈ change.created, ∀ x', s₂.receipts.find x.id = some x' → p x' = false) :
    (s₂.byEvent scan e).find? p = none := by
  rw [List.find?_eq_none]
  intro y hy
  obtain ⟨hmem, x, hx, hid⟩ := (h.kids scan y).mp hy
  rw [hother x hx y (hid ▸ Table.find_of_mem hmem)]
  simp

/-- The remainder of a partition is found by its status when the primary child is
not ACTIVE. -/
theorem FirstCall.find_remainder {src p : Receipt} {remainder : Option Receipt}
    (h : FirstCall num uuids op s (.split src (p :: remainder.toList)) s₁ e s₂)
    (hp : ∀ x', s₂.receipts.find p.id = some x' → x'.status ≠ .active)
    (hkept : ∀ m ∈ remainder, ∀ m', s₂.receipts.find m.id = some m' → m'.status = .active) :
    ((s₂.byEvent scan e).find? fun k => decide (k.status = .active)).map Receipt.id =
      remainder.map Receipt.id := by
  cases remainder with
  | none =>
      rw [h.find_no_kid scan]
      intro x hx x' hx'
      obtain rfl := List.mem_singleton.mp hx
      simpa using hp x' hx'
  | some m =>
      have hmem : m ∈ (Change.split src (p :: (some m).toList)).created := by simp
      obtain ⟨m', hm', -⟩ := h.now m hmem
      refine h.find_kid scan hmem hm' (by simpa using hkept m rfl m' hm') ?_
      intro x hx hne x' hx'
      rcases List.mem_cons.mp hx with rfl | hx
      · simpa using hp x' hx'
      · exact absurd (List.mem_singleton.mp hx) hne

/-- A receipt created ACTIVE is never held. -/
theorem FirstCall.active_not_held (h : FirstCall num uuids op s change s₁ e s₂) {k k' : Receipt}
    (hk : k ∈ change.created) (hactive : k.status = .active)
    (hfind : s₂.receipts.find k.id = some k') : ¬ k'.status.Held := by
  obtain ⟨k'', hfind', hmoves⟩ := h.now k hk
  rw [hfind] at hfind'
  cases hfind'
  rw [hactive] at hmoves
  rcases active_reaches hmoves with hs | hs | hs <;> rw [hs] <;> decide

/-- A lien leaf that is still held is still a lien leaf. -/
theorem FirstCall.lien_held (h : FirstCall num uuids op s change s₁ e s₂) {k k' : Receipt}
    (hk : k ∈ change.created) (hlien : k.status = .heldLien)
    (hfind : s₂.receipts.find k.id = some k') : k'.status.Held ↔ k'.status = .heldLien := by
  obtain ⟨k'', hfind', hmoves⟩ := h.now k hk
  rw [hfind] at hfind'
  cases hfind'
  rw [hlien] at hmoves
  refine ⟨fun hheld => ?_, fun hs => by rw [hs]; decide⟩
  rcases Relation.ReflTransGen.cases_head hmoves with heq | ⟨middle, hmove, hrest⟩
  · exact heq.symm
  · exfalso
    cases hmove with
    | release =>
        rcases active_reaches hrest with hs | hs | hs <;> rw [hs] at hheld <;> revert hheld <;>
          decide
    | withdraw =>
        rw [terminal_stays hrest (by decide)] at hheld
        revert hheld
        decide
    | releasePart =>
        rw [terminal_stays hrest (by decide)] at hheld
        revert hheld
        decide

/-- A terminal child stays as it was created. -/
theorem FirstCall.terminal_kid (h : FirstCall num uuids op s change s₁ e s₂) {k k' : Receipt}
    (hk : k ∈ change.created) (hterminal : Terminal k.status)
    (hfind : s₂.receipts.find k.id = some k') : k'.status = k.status := by
  obtain ⟨k'', hfind', hmoves⟩ := h.now k hk
  rw [hfind] at hfind'
  cases hfind'
  exact terminal_stays hmoves hterminal

/-- A replayed hold designates the first call's children exactly when they are kept. -/
theorem hold_replay_iff {input : HoldInput} {src p : Receipt} {remainder : Option Receipt}
    (h : FirstCall num uuids (.hold input) s (.split src (p :: remainder.toList)) s₁ e s₂)
    (hp : p.status.Held) (hremainder : ∀ m ∈ remainder, m.status = .active)
    (hfrom : e.fromReceiptId = src.id) :
    (∃ result, (LedgerOp.hold input).Reconstructs scan s₂ e result ∧
      result.ids = [some src.id, some p.id, remainder.map Receipt.id]) ↔
    ChildrenKept (LedgerOp.hold input).idempotencyKey s₁ s₂ := by
  rw [h.kept_iff]
  have hpmem : p ∈ (Change.split src (p :: remainder.toList)).created := List.mem_cons_self
  have hmmem : ∀ m ∈ remainder, m ∈ (Change.split src (p :: remainder.toList)).created :=
    fun m hm => List.mem_cons_of_mem _ (Option.mem_toList.mpr hm)
  obtain ⟨p', hp', -⟩ := h.now p hpmem
  obtain ⟨source, hsource, hsid⟩ := h.affected
  constructor
  · rintro ⟨result, ⟨source', -, rfl⟩, hids⟩ k hk k' hfind
    simp only [LedgerResult.ids, List.cons.injEq, and_true] at hids
    obtain ⟨-, hheld, hrem⟩ := hids
    rcases List.mem_cons.mp hk with rfl | hk
    · refine ⟨fun _ => by simpa using h.of_find_kid scan hfind hheld, fun hactive => ?_⟩
      rw [hactive] at hp
      exact absurd hp (by decide)
    · have hm := Option.mem_toList.mp hk
      refine ⟨fun hheld' => ?_, fun _ => ?_⟩
      · rw [hremainder k hm] at hheld'
        exact absurd hheld' (by decide)
      · obtain rfl := hm
        simpa using h.of_find_kid scan hfind hrem
  · intro hkept
    have hp'held : p'.status.Held := (hkept p hpmem p' hp').1 hp
    refine ⟨_, ⟨source, hsource, rfl⟩, ?_⟩
    have hheld := h.find_kid scan (p := fun k => decide k.status.Held) hpmem hp'
      (by simpa using hp'held)
      fun x hx hne x' hx' => by
        rcases List.mem_cons.mp hx with rfl | hx
        · exact absurd rfl hne
        · have hm := Option.mem_toList.mp hx
          simpa using h.active_not_held (hmmem x hm) (hremainder x hm) hx'
    have hrem := h.find_remainder scan
      (fun x' hx' hactive => by
        rw [hp'] at hx'
        cases hx'
        rw [hactive] at hp'held
        exact absurd hp'held (by decide))
      fun m hm m' hm' => (hkept m (hmmem m hm) m' hm').2 (hremainder m hm)
    simp only [LedgerResult.ids, hheld, hrem, hsid, hfrom]

/-- A replayed partial release designates the first call's children exactly when
they are kept. -/
theorem releasePartial_replay_iff {input : ReleasePartialInput} {src released remaining : Receipt}
    (h : FirstCall num uuids (.releasePartial input) s (.split src [released, remaining]) s₁ e s₂)
    (hactive : released.status = .active) (hlien : remaining.status = .heldLien) :
    (∃ result, (LedgerOp.releasePartial input).Reconstructs scan s₂ e result ∧
      result.ids = [some released.id, some remaining.id]) ↔
    ChildrenKept (LedgerOp.releasePartial input).idempotencyKey s₁ s₂ := by
  rw [h.kept_iff]
  have hmem : released ∈ (Change.split src [released, remaining]).created := by simp
  have hmem' : remaining ∈ (Change.split src [released, remaining]).created := by simp
  obtain ⟨x, hx, -⟩ := h.now released hmem
  obtain ⟨y, hy, -⟩ := h.now remaining hmem'
  constructor
  · rintro ⟨result, rfl, hids⟩ k hk k' hfind
    simp only [LedgerResult.ids, List.cons.injEq, and_true] at hids
    rcases List.mem_pair.mp hk with rfl | rfl
    · refine ⟨fun hheld => ?_, fun _ => by simpa using h.of_find_kid scan hfind hids.1⟩
      rw [hactive] at hheld
      exact absurd hheld (by decide)
    · refine ⟨fun _ => ?_, fun hs => ?_⟩
      · exact (h.lien_held hmem' hlien hfind).mpr (by simpa using h.of_find_kid scan hfind hids.2)
      · rw [hlien] at hs
        cases hs
  · intro hkept
    have hxactive : x.status = .active := (hkept released hmem x hx).2 hactive
    have hylien : y.status = .heldLien := (h.lien_held hmem' hlien hy).mp
      ((hkept remaining hmem' y hy).1 (by rw [hlien]; decide))
    refine ⟨_, rfl, ?_⟩
    have hreleased := h.find_kid scan (p := fun k => decide (k.status = .active)) hmem hx
      (by simpa using hxactive) fun z hz hne z' hz' => by
        rcases List.mem_pair.mp hz with rfl | rfl
        · exact absurd rfl hne
        · rw [hy] at hz'
          cases hz'
          simp [hylien]
    have hremaining := h.find_kid scan (p := fun k => decide (k.status = .heldLien)) hmem' hy
      (by simpa using hylien) fun z hz hne z' hz' => by
        rcases List.mem_pair.mp hz with rfl | rfl
        · rw [hx] at hz'
          cases hz'
          simp [hxactive]
        · exact absurd rfl hne
    simp only [LedgerResult.ids, hreleased, hremaining]

/-- A replayed partial seizure designates the first call's children exactly when
they are kept. -/
theorem seize_replay_iff {input : SeizeInput} {src p : Receipt} {remainder : Option Receipt}
    (h : FirstCall num uuids (.seize input) s (.split src (p :: remainder.toList)) s₁ e s₂)
    (hp : p.status = .seized) (hremainder : ∀ m ∈ remainder, m.status = .active) :
    (∃ result, (LedgerOp.seize input).Reconstructs scan s₂ e result ∧
      result.ids = [some p.id, remainder.map Receipt.id]) ↔
    ChildrenKept (LedgerOp.seize input).idempotencyKey s₁ s₂ := by
  rw [h.kept_iff]
  have hpmem : p ∈ (Change.split src (p :: remainder.toList)).created := List.mem_cons_self
  have hmmem : ∀ m ∈ remainder, m ∈ (Change.split src (p :: remainder.toList)).created :=
    fun m hm => List.mem_cons_of_mem _ (Option.mem_toList.mpr hm)
  obtain ⟨p', hp', -⟩ := h.now p hpmem
  have hp'seized : p'.status = .seized :=
    (h.terminal_kid hpmem (by rw [hp]; decide) hp').trans hp
  have hkids : s₂.byEvent scan e ≠ [] := List.ne_nil_of_mem (h.mem_kids scan hpmem hp')
  simp only [LedgerOp.Reconstructs, if_pos hkids]
  constructor
  · rintro ⟨result, rfl, hids⟩ k hk k' hfind
    simp only [LedgerResult.ids, List.cons.injEq, and_true] at hids
    rcases List.mem_cons.mp hk with rfl | hk
    · rw [hp]
      exact ⟨fun hheld => absurd hheld (by decide), fun hs => by cases hs⟩
    · have hm := Option.mem_toList.mp hk
      refine ⟨fun hheld => ?_, fun _ => ?_⟩
      · rw [hremainder k hm] at hheld
        exact absurd hheld (by decide)
      · obtain rfl := hm
        simpa using h.of_find_kid scan hfind hids.2
  · intro hkept
    refine ⟨_, rfl, ?_⟩
    have hseized := h.find_kid scan (p := fun k => decide (k.status = .seized)) hpmem hp'
      (by simpa using hp'seized) fun x hx hne x' hx' => by
        rcases List.mem_cons.mp hx with rfl | hx
        · exact absurd rfl hne
        · have hm := Option.mem_toList.mp hx
          simp [(hkept x (hmmem x hm) x' hx').2 (hremainder x hm)]
    have hrem := h.find_remainder scan
      (fun x' hx' => by
        rw [hp'] at hx'
        cases hx'
        simp [hp'seized])
      fun m hm m' hm' => (hkept m (hmmem m hm) m' hm').2 (hremainder m hm)
    simp only [LedgerResult.ids, hseized, hrem]

end Kids

/-- The replay of a call rebuilds a result from the first call's event, and it
designates the same receipts exactly when the children are kept. -/
theorem reconstructs_iff {op : LedgerOp} {s₁ s₂ : Ledger} {events : List InventoryEvent}
    {change : Change} {e : InventoryEvent} {result : LedgerResult}
    (heffect : Effect num uuids s op events change result) (he : e ∈ events)
    (hkey : e.idempotencyKey = op.idempotencyKey)
    (h : FirstCall num uuids op s change s₁ e s₂) (scan : Scan Receipt) :
    (∃ result', op.Reconstructs scan s₂ e result') ∧
      ((∃ result', op.Reconstructs scan s₂ e result' ∧ result'.ids = result.ids) ↔
        ChildrenKept op.idempotencyKey s₁ s₂) := by
  obtain ⟨r, hr, hid⟩ := h.affected
  -- an operation on one node returns the node its event is about
  have node : ∀ {r₀ : Receipt}, e.fromReceiptId = r₀.id →
      (∀ k ∈ change.created, ¬ k.status.Held ∧ k.status ≠ .active) →
      (∀ result', op.Reconstructs scan s₂ e result' ↔
          ∃ r, s₂.affected e = .ok r ∧ result' = .node r) →
      (∃ result', op.Reconstructs scan s₂ e result') ∧
        ((∃ result', op.Reconstructs scan s₂ e result' ∧ result'.ids = (LedgerResult.node r₀).ids) ↔
          ChildrenKept op.idempotencyKey s₁ s₂) := by
    intro r₀ hfrom hcreated hrec
    refine ⟨⟨_, (hrec _).mpr ⟨r, hr, rfl⟩⟩, iff_of_true ⟨_, (hrec _).mpr ⟨r, hr, rfl⟩, ?_⟩ ?_⟩
    · simp [LedgerResult.ids, hid, hfrom]
    · rw [h.kept_iff]
      intro k hk k' _
      exact ⟨fun hheld => absurd hheld (hcreated k hk).1,
        fun hactive => absurd hactive (hcreated k hk).2⟩
  cases heffect with
  | deposit input positive =>
      obtain rfl := List.mem_singleton.mp he
      refine node rfl (fun k hk => ?_) fun _ => Iff.rfl
      obtain rfl := List.mem_singleton.mp hk
      exact ⟨by rw [depositRoot_status]; decide, by simp⟩
  | hold input src number number' loaded =>
      obtain rfl := List.mem_singleton.mp he
      have hiff := hold_replay_iff scan h (HeldStatus.held input.heldStatus)
        (fun m hm => by rw [mem_partitionRemainder (Option.mem_toList.mpr hm)]; rfl) rfl
      exact ⟨⟨_, r, hr, rfl⟩, hiff⟩
  | releasePartial input src number number' loaded =>
      exact ⟨⟨_, rfl⟩, releasePartial_replay_iff scan h rfl rfl⟩
  | seizePart input src pq number number' loaded =>
      refine ⟨?_, seize_replay_iff scan h rfl ?_⟩
      · by_cases hkids : s₂.byEvent scan e = []
        · exact ⟨_, by simp only [LedgerOp.Reconstructs, hkids]; exact ⟨r, hr, rfl⟩⟩
        · simp only [LedgerOp.Reconstructs, ne_eq, hkids, not_false_eq_true, if_true, exists_eq]
      · intro m hm
        rw [mem_partitionRemainder (Option.mem_toList.mpr hm)]
        rfl
  | seizeAll input src loaded loan whole =>
      have hnone : s₂.byEvent scan e = [] := List.eq_nil_iff_forall_not_mem.mpr fun k hk => by
        obtain ⟨-, x, hx, -⟩ := (h.kids scan k).mp hk
        cases hx
      have hrec : (LedgerOp.seize input).Reconstructs scan s₂ e
          (.seized { seized := some r, remainder := none }) := by
        simp only [LedgerOp.Reconstructs, hnone]
        exact ⟨r, hr, rfl⟩
      obtain rfl := List.mem_singleton.mp he
      refine ⟨⟨_, hrec⟩, iff_of_true ⟨_, hrec, ?_⟩ ?_⟩
      · simp [LedgerResult.ids, hid]
      · rw [h.kept_iff]
        intro k hk
        cases hk
  | transferAndRelease ctx newOwnerId txnType txnId withinTx src loaded =>
      rcases List.mem_pair.mp he with rfl | rfl
      · exact node rfl (fun k hk => by cases hk) fun _ => Iff.rfl
      · exact absurd hkey (releaseKey_ne _)
  | _ =>
      obtain rfl := List.mem_singleton.mp he
      exact node rfl (fun k hk => by cases hk) fun _ => Iff.rfl

end Replays

/-- A later call under the key of a committed call changes nothing, and it
designates the same receipts as the committed call exactly when every child that
call created held or ACTIVE is still held or ACTIVE. -/
theorem replay_designates_iff (num : Numeric) (calls more : List LedgerCall)
    (first : LedgerCall) (uuids : Uuids) (result : LedgerResult) (s₁ : Ledger)
    (hfree : (runCalls num calls Ledger.empty).events.find first.op.idempotencyKey = none)
    (hfirst : first.op.call num first.uuids (runCalls num calls Ledger.empty) = .ok (result, s₁)) :
    let s₂ := runCalls num more s₁
    (∃ result', first.op.call num uuids s₂ = .ok (result', s₂)) ∧
      ((∃ result', first.op.call num uuids s₂ = .ok (result', s₂) ∧
        result'.ids = result.ids) ↔ ChildrenKept first.op.idempotencyKey s₁ s₂) := by
  intro s₂
  have hprov := provenance_run num provenance_empty calls
  cases call_outcome hfirst with
  | replayed e prior =>
      rw [hfree] at prior
      cases prior
  | committed free events change heffect hcommits =>
      obtain ⟨e, he, hid, hkey⟩ := heffect.keyed_event
      have hfc := firstCall hprov heffect hcommits he hid hkey more
      obtain ⟨⟨result', hrec⟩, hiff⟩ := reconstructs_iff heffect he hkey hfc uuids.scan
      have hpositive : ∀ input, first.op = .deposit input → 0 < input.quantity := by
        intro input hop
        rw [hop] at heffect
        cases heffect
        assumption
      refine ⟨⟨result', call_replays hpositive hfc.prior hrec⟩, ?_⟩
      rw [← hiff]
      constructor
      · rintro ⟨result'', hcall, hids⟩
        cases call_outcome hcall with
        | replayed e' prior' hrec' =>
            rw [hfc.prior] at prior'
            cases prior'
            exact ⟨result'', hrec', hids⟩
        | committed free' =>
            rw [hfc.prior] at free'
            cases free'
      · rintro ⟨result'', hrec', hids⟩
        exact ⟨result'', call_replays hpositive hfc.prior hrec', hids⟩

/-- Ten units deposited under root 1 in tenant 7, and approved. -/
def sampleDeposit : List LedgerCall :=
  [⟨⟨101, 0, 1, 0, .stored⟩, .deposit
      { tenantId := 7, clientId := 8, commodityId := 9, warehouseId := 5, quantity := 10
        grade := none, dateOfDeposit := 0, expiryDate := none
        receiptNumber := some "WR-2026-1".toList, actorUserId := none
        idempotencyKey := [.text "deposit"], currentYear := 2026 }⟩,
    ⟨⟨102, 0, 0, 0, .stored⟩, .approveReceipt ⟨7, none, [.text "approve"]⟩ 1⟩]

/-- Four of the ten units held for withdrawal 50. -/
def sampleHold : LedgerCall :=
  ⟨⟨103, 0, 2, 3, .stored⟩, .hold
    { tenantId := 7, sourceReceiptId := 1, quantity := 4, heldStatus := .heldWithdrawal
      txnType := .withdrawal, txnId := 50, actorUserId := none
      idempotencyKey := [.text "hold"] }⟩

/-- The release of the held units. -/
def sampleRelease : LedgerCall :=
  ⟨⟨104, 0, 0, 0, .stored⟩, .release ⟨7, none, [.text "release"]⟩ 2⟩

/-- The receipts a call designates, if it returns. -/
def designated (x : Except ApiError (LedgerResult × Ledger)) : Option (List (Option Id)) :=
  x.toOption.map fun p => p.1.ids

/-- A hold that is replayed after its release designates no held receipt,
whichever of the two children the query returns first. -/
theorem replay_after_release :
    designated (sampleHold.op.call .decimalJs sampleHold.uuids
        (runCalls .decimalJs sampleDeposit Ledger.empty)) = some [some 1, some 2, some 3] ∧
      ∀ scan ∈ [Scan.stored, Scan.reversed],
        (designated (sampleHold.op.call .decimalJs { sampleHold.uuids with scan := scan }
          (runCalls .decimalJs (sampleDeposit ++ [sampleHold, sampleRelease])
            Ledger.empty))).map (List.take 2) = some [some 1, none] := by
  decide +kernel

/-- The replay theorem at the sample hold and its release. -/
theorem replay_designates_iff_sample :
    ∃ result s₁,
      sampleHold.op.call .decimalJs sampleHold.uuids
          (runCalls .decimalJs sampleDeposit Ledger.empty) = .ok (result, s₁) ∧
        ((∃ result', sampleHold.op.call .decimalJs sampleHold.uuids
              (runCalls .decimalJs [sampleRelease] s₁) =
            .ok (result', runCalls .decimalJs [sampleRelease] s₁) ∧ result'.ids = result.ids) ↔
          ChildrenKept sampleHold.op.idempotencyKey s₁
            (runCalls .decimalJs [sampleRelease] s₁)) := by
  cases hfirst : sampleHold.op.call .decimalJs sampleHold.uuids
      (runCalls .decimalJs sampleDeposit Ledger.empty) with
  | error e =>
      have hok : designated (sampleHold.op.call .decimalJs sampleHold.uuids
          (runCalls .decimalJs sampleDeposit Ledger.empty)) ≠ none := by decide +kernel
      rw [hfirst] at hok
      exact absurd rfl hok
  | ok p =>
      exact ⟨p.1, p.2, rfl, (replay_designates_iff .decimalJs sampleDeposit [sampleRelease]
        sampleHold sampleHold.uuids p.1 p.2 (by decide +kernel) hfirst).2⟩

end SecureStore.Inventory
