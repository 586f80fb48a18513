/-
# What a committed operation does

Every ledger operation either replays an earlier event and changes nothing, or
commits one transaction. A committed transaction appends events and does one of
three things to the receipts: it mints a root, amends one receipt in place, or
splits a leaf into children. The effect of each operation is stated once, with
its guards; what follows about runs is derived from these statements.
-/

import SecureStore.Inventory.Ledger

namespace SecureStore.Inventory

open SecureStore.Foundation

namespace Tx

variable {α β : Type} {s : Ledger}

theorem bind_ok {x : Tx α} {f : α → Tx β} {r : β × Ledger} :
    (x >>= f) s = .ok r ↔ ∃ a s', x s = .ok (a, s') ∧ f a s' = .ok r := by
  change (x s >>= fun p => f p.1 p.2) = .ok r ↔ _
  cases hx : x s with
  | error e => simp [bind, Except.bind]
  | ok p =>
      obtain ⟨a, s'⟩ := p
      simp [bind, Except.bind]

theorem map_ok {x : Tx α} {f : α → β} {b : β} {s' : Ledger} :
    (f <$> x) s = .ok (b, s') ↔ ∃ a, x s = .ok (a, s') ∧ f a = b := by
  change (x s >>= fun p => Except.ok (f p.1, p.2)) = .ok (b, s') ↔ _
  cases hx : x s with
  | error e => simp [bind, Except.bind]
  | ok p =>
      obtain ⟨a, s''⟩ := p
      simp only [bind, Except.bind, Except.ok.injEq, Prod.mk.injEq]
      constructor
      · rintro ⟨rfl, rfl⟩
        exact ⟨a, ⟨rfl, rfl⟩, rfl⟩
      · rintro ⟨_, ⟨rfl, rfl⟩, rfl⟩
        exact ⟨rfl, rfl⟩

@[simp]
theorem pure_ok {a b : α} {s' : Ledger} :
    (pure a : Tx α) s = .ok (b, s') ↔ a = b ∧ s = s' := by
  change Except.ok (a, s) = .ok (b, s') ↔ _
  simp

@[simp]
theorem query_ok {f : Ledger → Except ApiError α} {a : α} {s' : Ledger} :
    query f s = .ok (a, s') ↔ f s = .ok a ∧ s = s' := by
  unfold query
  cases f s <;> simp

@[simp]
theorem throwIf_ok {c : Prop} [Decidable c] {e : ApiError} {u : Unit} {s' : Ledger} :
    throwIf c e s = .ok (u, s') ↔ ¬ c ∧ s = s' := by
  unfold throwIf
  split <;> simp [*]

theorem throwIf_bind {c : Prop} [Decidable c] (h : ¬ c) (e : ApiError) (g : Unit → Tx α) :
    (throwIf c e >>= g : Tx α) = g () := by
  funext s
  simp [throwIf, h, bind, StateT.bind, Except.bind]

theorem throwIf_throws {c : Prop} [Decidable c] (h : c) (e : ApiError) (g : Unit → Tx α)
    (s : Ledger) : (throwIf c e >>= g : Tx α) s = .error e := by
  simp [throwIf, h, bind, StateT.bind, Except.bind]

theorem map_query (g : α → β) (f : Ledger → Except ApiError α) :
    (g <$> query f : Tx β) s = (f s).map fun a => (g a, s) := by
  change (query f s >>= fun p => Except.ok (g p.1, p.2)) = _
  unfold query
  cases f s <;> rfl

/-! Transactions that do alike from one state. -/

theorem map_congr {tx tx' : Tx α} (h : tx s = tx' s) (f : α → β) :
    (f <$> tx : Tx β) s = (f <$> tx' : Tx β) s := by
  change (tx s >>= fun p => Except.ok (f p.1, p.2)) = tx' s >>= fun p => Except.ok (f p.1, p.2)
  rw [h]

theorem bind_query_congr {f : Ledger → Except ApiError α} {g g' : α → Tx β}
    (h : ∀ a, f s = .ok a → g a s = g' a s) :
    (query f >>= g : Tx β) s = (query f >>= g' : Tx β) s := by
  cases hf : f s with
  | error e => simp [query, hf, bind, StateT.bind, Except.bind]
  | ok a => simpa [query, hf, bind, StateT.bind, Except.bind] using h a hf

theorem bind_throwIf_congr {c : Prop} [Decidable c] {e : ApiError} {g g' : Unit → Tx α}
    (h : ¬ c → g () s = g' () s) :
    (throwIf c e >>= g : Tx α) s = (throwIf c e >>= g' : Tx α) s := by
  by_cases hc : c
  · rw [throwIf_throws hc, throwIf_throws hc]
  · rw [throwIf_bind hc, throwIf_bind hc]
    exact h hc

end Tx

@[simp]
theorem rejectIf_ok {c : Prop} [Decidable c] {e : ApiError} {u : Unit} :
    rejectIf c e = .ok u ↔ ¬ c := by
  unfold rejectIf
  split <;> simp [*]

@[simp]
theorem assertHeld_ok {r : Receipt} {u : Unit} : assertHeld r = .ok u ↔ r.status.Held := by
  simp [assertHeld]

@[simp]
theorem Ledger.loadOrThrow_ok {s : Ledger} {id tenantId : Id} {r : Receipt} :
    s.loadOrThrow id tenantId = .ok r ↔ s.receipts.find id = some r ∧ r.tenantId = tenantId := by
  unfold Ledger.loadOrThrow
  split
  · split
    · simp only [Except.ok.injEq, Option.some_inj, *]
      grind
    · grind
  · simp [*]

/-- How the receipts change in one transaction. -/
inductive Change where
  | mint (root : Receipt)
  | amend (before after : Receipt)
  | split (source : Receipt) (kids : List Receipt)

namespace Change

/-- The receipts a change creates. -/
def created : Change → List Receipt
  | mint root => [root]
  | amend _ _ => []
  | split _ kids => kids

/-- The receipt a change rewrites, before and after. -/
def rewritten : Change → Option (Receipt × Receipt)
  | mint _ => none
  | amend before after => some (before, after)
  | split source _ => some (source, supersede source)

/-- A receipt after the change. -/
def apply (c : Change) (r : Receipt) : Receipt :=
  match c.rewritten with
  | some (before, after) => if r.id = before.id then after else r
  | none => r

@[simp]
theorem apply_mint (root r : Receipt) : (mint root).apply r = r := rfl

@[simp]
theorem map_apply_mint (root : Receipt) (rows : List Receipt) :
    rows.map (mint root).apply = rows := List.map_id rows

@[simp]
theorem apply_amend_self (before after : Receipt) : (amend before after).apply before = after :=
  if_pos rfl

@[simp]
theorem apply_split_self (source : Receipt) (kids : List Receipt) :
    (split source kids).apply source = supersede source :=
  if_pos rfl

theorem apply_amend_of_ne {before after r : Receipt} (h : r.id ≠ before.id) :
    (amend before after).apply r = r :=
  if_neg h

@[simp]
theorem created_mint (root : Receipt) : (mint root).created = [root] := rfl

@[simp]
theorem created_amend (before after : Receipt) : (amend before after).created = [] := rfl

@[simp]
theorem created_split (source : Receipt) (kids : List Receipt) :
    (split source kids).created = kids := rfl

end Change

/-- One transaction turned the first ledger into the second. -/
structure Commits (s : Ledger) (events : List InventoryEvent) (change : Change)
    (s' : Ledger) : Prop where
  log : s'.events.rows = s.events.rows ++ events
  newIds : ∀ e ∈ events, ∀ e' ∈ s.events, e'.id ≠ e.id
  distinctIds : (events.map InventoryEvent.id).Nodup
  rows : s'.receipts.rows = s.receipts.rows.map change.apply ++ change.created
  numbers : ∀ r ∈ change.created, ∀ r' ∈ s.receipts, r'.receiptNumber ≠ r.receiptNumber
  found : ∀ before after, change.rewritten = some (before, after) →
    s.receipts.find before.id = some before ∧ after.id = before.id

section Frame

variable {s s' : Ledger} {events : List InventoryEvent} {change : Change}

theorem Commits.apply_id (h : Commits s events change s') (r : Receipt) :
    (change.apply r).id = r.id := by
  unfold Change.apply
  split
  · rename_i before after hrewritten
    split
    · rename_i hid
      rw [hid, (h.found before after hrewritten).2]
    · rfl
  · rfl

theorem Commits.mem_receipts (h : Commits s events change s') {r : Receipt} :
    r ∈ s'.receipts ↔ (∃ r₀ ∈ s.receipts, change.apply r₀ = r) ∨ r ∈ change.created := by
  rw [Table.mem_def, h.rows, List.mem_append, List.mem_map]
  rfl

/-- A receipt that was there is there after the change, rewritten or not. -/
theorem Commits.find_receipt (h : Commits s events change s') {id : Id} {r : Receipt}
    (hfind : s.receipts.find id = some r) : s'.receipts.find id = some (change.apply r) := by
  obtain ⟨hmem, rfl⟩ := Table.find_eq_some_iff.mp hfind
  exact Table.find_eq_some_iff.mpr ⟨h.mem_receipts.mpr (.inl ⟨r, hmem, rfl⟩), h.apply_id r⟩

/-- What the rewritten receipt keeps, every receipt keeps. -/
theorem Commits.keeps {β : Type} (h : Commits s events change s') {f : Receipt → β}
    (hf : ∀ before after, change.rewritten = some (before, after) → f after = f before)
    {r : Receipt} (hr : r ∈ s.receipts) : f (change.apply r) = f r := by
  unfold Change.apply
  split
  · rename_i before after hrewritten
    split
    · rename_i hid
      obtain rfl := Table.eq_of_key_eq hr
        (Table.mem_of_find (h.found before after hrewritten).1) hid
      exact hf r after hrewritten
    · rfl
  · rfl

/-- A receipt with another id than the rewritten one stays as it is. -/
theorem Commits.stays (h : Commits s events change s') {r : Receipt} (hr : r ∈ s.receipts)
    (hother : ∀ before after, change.rewritten = some (before, after) → before.id ≠ r.id) :
    r ∈ s'.receipts := by
  apply h.mem_receipts.mpr
  refine .inl ⟨r, hr, ?_⟩
  unfold Change.apply
  split
  · rename_i before after hrewritten
    exact if_neg fun hid => hother before after hrewritten hid.symm
  · rfl

/-- The ids of created receipts are new. -/
theorem Commits.created_fresh (h : Commits s events change s') {k : Receipt}
    (hk : k ∈ change.created) : s.receipts.find k.id = none := by
  rw [Table.find_eq_none_iff]
  intro r hr hid
  have hnodup := s'.receipts.nodup
  rw [h.rows, List.map_append] at hnodup
  refine (List.nodup_append.mp hnodup).2.2 (change.apply r).id ?_ k.id
    (List.mem_map_of_mem (f := Keyed.key) hk) ((h.apply_id r).trans hid)
  exact List.mem_map_of_mem (f := Keyed.key) (List.mem_map_of_mem hr)

theorem Commits.created_ne (h : Commits s events change s') {k r : Receipt}
    (hk : k ∈ change.created) (hr : r ∈ s.receipts) : r.id ≠ k.id :=
  Table.find_eq_none_iff.mp (h.created_fresh hk) r hr

theorem Commits.find_created (h : Commits s events change s') {k : Receipt}
    (hk : k ∈ change.created) : s'.receipts.find k.id = some k :=
  Table.find_of_mem (h.mem_receipts.mpr (.inr hk))

theorem Commits.mem_events (h : Commits s events change s') {e : InventoryEvent} :
    e ∈ s'.events ↔ e ∈ s.events ∨ e ∈ events := by
  rw [Table.mem_def, h.log, List.mem_append]
  rfl

/-- Logged events stay. -/
theorem Commits.find_event (h : Commits s events change s') {key : IdempotencyKey}
    {e : InventoryEvent} (hfind : s.events.find key = some e) :
    s'.events.find key = some e := by
  obtain ⟨hmem, rfl⟩ := Table.find_eq_some_iff.mp hfind
  exact Table.find_of_mem (h.mem_events.mpr (.inl hmem))

/-- A key that is in the log. -/
def Ledger.Used (s : Ledger) (key : IdempotencyKey) : Prop :=
  ∃ e ∈ s.events, e.idempotencyKey = key

theorem used_iff_find {key : IdempotencyKey} : s.Used key ↔ s.events.find key ≠ none := by
  rw [Ne, Table.find_eq_none_iff]
  simp [Ledger.Used]

theorem used_of_find {key : IdempotencyKey} {e : InventoryEvent}
    (hfind : s.events.find key = some e) : s.Used key :=
  ⟨e, Table.mem_of_find hfind, Table.key_of_find hfind⟩

theorem not_used_iff {key : IdempotencyKey} : ¬ s.Used key ↔ s.events.find key = none := by
  rw [used_iff_find, not_not]

instance (s : Ledger) (key : IdempotencyKey) : Decidable (s.Used key) :=
  decidable_of_iff _ used_iff_find.symm

/-- The keys in the log after a commit. -/
theorem Commits.used_iff (h : Commits s events change s') {key : IdempotencyKey} :
    s'.Used key ↔ s.Used key ∨ ∃ e ∈ events, e.idempotencyKey = key := by
  constructor
  · rintro ⟨e, he, hkey⟩
    exact (h.mem_events.mp he).imp (fun hold => ⟨e, hold, hkey⟩) fun hnew => ⟨e, hnew, hkey⟩
  · rintro (⟨e, he, hkey⟩ | ⟨e, he, hkey⟩)
    · exact ⟨e, h.mem_events.mpr (.inl he), hkey⟩
    · exact ⟨e, h.mem_events.mpr (.inr he), hkey⟩

/-- A commit of one event uses one more key. -/
theorem Commits.used_single {e : InventoryEvent} (h : Commits s [e] change s')
    {key : IdempotencyKey} : s'.Used key ↔ s.Used key ∨ key = e.idempotencyKey := by
  rw [h.used_iff]
  simp [eq_comm]

/-- The keys of new events are new. -/
theorem Commits.event_fresh (h : Commits s events change s') {e : InventoryEvent}
    (he : e ∈ events) : s.events.find e.idempotencyKey = none := by
  rw [Table.find_eq_none_iff]
  intro x hx hkey
  have hnodup := s'.events.nodup
  rw [h.log, List.map_append] at hnodup
  exact (List.nodup_append.mp hnodup).2.2 x.idempotencyKey
    (List.mem_map_of_mem (f := Keyed.key) hx) e.idempotencyKey
    (List.mem_map_of_mem (f := Keyed.key) he) hkey

/-- A receipt after the change is new, untouched, or the rewritten one. -/
theorem Commits.receipt_cases (h : Commits s events change s') {r : Receipt}
    (hr : r ∈ s'.receipts) :
    r ∈ change.created ∨
      (∃ before, change.rewritten = some (before, r) ∧ before ∈ s.receipts) ∨
      (r ∈ s.receipts ∧ ∀ before after, change.rewritten = some (before, after) →
        r.id ≠ before.id) := by
  rcases h.mem_receipts.mp hr with ⟨r₀, hr₀, rfl⟩ | hcreated
  · unfold Change.apply
    split
    · rename_i before after hrewritten
      have hbefore := (h.found before after hrewritten).1
      split
      · exact .inr (.inl ⟨before, hrewritten, Table.mem_of_find hbefore⟩)
      · rename_i hne
        refine .inr (.inr ⟨hr₀, ?_⟩)
        intro b a hba
        rw [hrewritten] at hba
        cases hba
        exact hne
    · rename_i hrewritten
      exact .inr (.inr ⟨hr₀, fun b a hba => by rw [hrewritten] at hba; cases hba⟩)
  · exact .inl hcreated

end Frame

section Statements

variable {num : Numeric} {s s' : Ledger}

/-- Rows are appended to the receipts; the events stay. -/
structure Grows (s : Ledger) (kids : List Receipt) (s' : Ledger) : Prop where
  rows : s'.receipts.rows = s.receipts.rows ++ kids
  numbers : ∀ r ∈ kids, ∀ r' ∈ s.receipts, r'.receiptNumber ≠ r.receiptNumber
  events : s'.events = s.events

theorem Grows.trans {s'' : Ledger} {kids kids' : List Receipt} (h : Grows s kids s')
    (h' : Grows s' kids' s'') : Grows s (kids ++ kids') s'' := by
  refine ⟨by rw [h'.rows, h.rows, List.append_assoc], ?_, h'.events.trans h.events⟩
  intro r hr r' hr'
  rcases List.mem_append.mp hr with hr | hr
  · exact h.numbers r hr r' hr'
  · refine h'.numbers r hr r' ?_
    rw [Table.mem_def, h.rows]
    exact List.mem_append_left _ hr'

theorem createReceipt_ok {r r' : Receipt} (h : createReceipt num r s = .ok (r', s')) :
    r' = num.storeReceipt r ∧ Grows s [r'] s' := by
  unfold createReceipt at h
  simp only at h
  split at h
  · cases h
  · rename_i hnumber
    split at h
    · rename_i receipts hinsert
      cases h
      refine ⟨rfl, (Table.insert_eq_some_iff.mp hinsert).2, ?_, rfl⟩
      intro x hx x' hx' heq
      obtain rfl := List.mem_singleton.mp hx
      exact hnumber (List.mem_map.mpr ⟨x', hx', heq⟩)
    · cases h

theorem createReceipt_succeeds {r : Receipt} (hid : s.receipts.find r.id = none)
    (hnumber : ∀ r' ∈ s.receipts, r'.receiptNumber ≠ r.receiptNumber) :
    ∃ s', createReceipt num r s = .ok (num.storeReceipt r, s') := by
  obtain ⟨receipts, hinsert⟩ := Table.insert_of_find_none (r := num.storeReceipt r) hid
  refine ⟨{ s with receipts }, ?_⟩
  unfold createReceipt
  simp only
  rw [if_neg]
  · rw [hinsert]
  · intro hmem
    obtain ⟨r', hr', heq⟩ := List.mem_map.mp hmem
    exact hnumber r' hr' heq

theorem event_ok {e e' : InventoryEvent} (h : event num e s = .ok (e', s')) :
    e' = num.storeEvent e ∧ s'.receipts = s.receipts ∧
      s.events.insert e' = some s'.events ∧ ∀ x ∈ s.events, x.id ≠ e'.id := by
  unfold event at h
  simp only at h
  split at h
  · cases h
  · rename_i hid
    split at h
    · rename_i events hinsert
      cases h
      refine ⟨rfl, rfl, hinsert, ?_⟩
      intro x hx heq
      exact hid (List.mem_map.mpr ⟨x, hx, heq⟩)
    · cases h

theorem event_succeeds {e : InventoryEvent} (hkey : s.events.find e.idempotencyKey = none)
    (hid : ∀ x ∈ s.events, x.id ≠ e.id) :
    ∃ s', event num e s = .ok (num.storeEvent e, s') := by
  obtain ⟨events, hinsert⟩ := Table.insert_of_find_none (r := num.storeEvent e) hkey
  refine ⟨{ s with events }, ?_⟩
  unfold event
  simp only
  rw [if_neg]
  · rw [hinsert]
  · intro hmem
    obtain ⟨x, hx, heq⟩ := List.mem_map.mp hmem
    exact hid x hx heq

theorem updateReceipt_ok {id : Id} {f : Receipt → Receipt}
    {hf : ∀ r, Keyed.key (f r) = Keyed.key r} {r' : Receipt} :
    updateReceipt id f hf s = .ok (r', s') ↔
      ∃ r, s.receipts.find id = some r ∧ r' = f r ∧
        s' = { s with receipts := s.receipts.modify id f hf } := by
  unfold updateReceipt
  split
  · rename_i r hr
    simp only [Except.ok.injEq, Prod.mk.injEq, hr, Option.some_inj]
    constructor
    · rintro ⟨rfl, rfl⟩
      exact ⟨r, rfl, rfl, rfl⟩
    · rintro ⟨_, rfl, rfl, rfl⟩
      exact ⟨rfl, rfl⟩
  · simp [*]

/-- The single event of a transaction. -/
theorem commits_of_event {e e' : InventoryEvent} {change : Change} {s₁ : Ledger}
    (hevent : event num e s = .ok (e', s₁)) (hlog : s'.events = s₁.events)
    (hrows : s'.receipts.rows = s.receipts.rows.map change.apply ++ change.created)
    (hnumbers : ∀ r ∈ change.created, ∀ r' ∈ s.receipts, r'.receiptNumber ≠ r.receiptNumber)
    (hfound : ∀ before after, change.rewritten = some (before, after) →
      s.receipts.find before.id = some before ∧ after.id = before.id) :
    Commits s [num.storeEvent e] change s' := by
  obtain ⟨rfl, -, hinsert, hid⟩ := event_ok hevent
  refine ⟨by rw [hlog, (Table.insert_eq_some_iff.mp hinsert).2], ?_, by simp, hrows, hnumbers,
    hfound⟩
  intro x hx x' hx'
  obtain rfl := List.mem_singleton.mp hx
  exact hid x' hx'

/-- Rewriting one row, as a change of the receipts. -/
theorem rows_modify {before : Receipt} {f : Receipt → Receipt}
    {hf : ∀ r, Keyed.key (f r) = Keyed.key r} (hfind : s.receipts.find before.id = some before) :
    (s.receipts.modify before.id f hf).rows =
      s.receipts.rows.map (Change.amend before (f before)).apply := by
  rw [Table.modify, Table.rows_modifyWhere]
  refine List.map_congr_left fun r hr => ?_
  simp only [Change.apply, Change.rewritten, key_receipt]
  split
  · rename_i hid
    rw [Table.eq_of_key_eq hr (Table.mem_of_find hfind) hid]
  · rfl

theorem amendReceipt_ok {tenantId receiptId : Id} {check : Receipt → Except ApiError Unit}
    {entry : Receipt → InventoryEvent} {update : Receipt → Receipt}
    {hf : ∀ r, Keyed.key (update r) = Keyed.key r} {r' : Receipt}
    (h : amendReceipt num tenantId receiptId check entry update hf s = .ok (r', s')) :
    ∃ r, s.receipts.find receiptId = some r ∧ r.tenantId = tenantId ∧ check r = .ok () ∧
      r' = update r ∧ Commits s [num.storeEvent (entry r)] (.amend r (update r)) s' := by
  simp only [amendReceipt, Tx.bind_ok, Tx.query_ok, Ledger.loadOrThrow_ok] at h
  obtain ⟨r, _, ⟨⟨hfind, htenant⟩, rfl⟩, _, _, ⟨hcheck, rfl⟩, _, s₁, hevent, h⟩ := h
  have hreceipts := (event_ok hevent).2.1
  obtain rfl : r.id = receiptId := Table.key_of_find hfind
  obtain ⟨_, hfind', rfl, rfl⟩ := updateReceipt_ok.mp h
  rw [hreceipts, hfind] at hfind'
  cases hfind'
  refine ⟨r, hfind, htenant, hcheck, rfl, commits_of_event hevent rfl ?_ (by simp) ?_⟩
  · simpa [hreceipts] using rows_modify hfind
  · rintro _ _ ⟨⟩
    exact ⟨hfind, hf r⟩

/-- Children are created and their source is superseded, in one transaction. -/
theorem commits_split {e e' : InventoryEvent} {src r : Receipt} {kids : List Receipt}
    {s₁ s₂ : Ledger} (hfind : s.receipts.find src.id = some src)
    (hevent : event num e s = .ok (e', s₁)) (hgrows : Grows s₁ kids s₂)
    (hupdate : updateReceipt src.id supersede (fun _ => rfl) s₂ = .ok (r, s')) :
    Commits s [num.storeEvent e] (.split src kids) s' := by
  have hreceipts := (event_ok hevent).2.1
  obtain ⟨_, -, -, rfl⟩ := updateReceipt_ok.mp hupdate
  have hrows : s₂.receipts.rows = s.receipts.rows ++ kids := by rw [hgrows.rows, hreceipts]
  have hnodup := s₂.receipts.nodup
  rw [hrows, List.map_append] at hnodup
  have hsrc : src ∈ s.receipts := Table.mem_of_find hfind
  have hkids : ∀ k ∈ kids, k.id ≠ src.id := fun k hk heq =>
    (List.nodup_append.mp hnodup).2.2 src.id (List.mem_map_of_mem (f := Keyed.key) hsrc)
      k.id (List.mem_map_of_mem hk) heq.symm
  have hfind₂ : s₂.receipts.find src.id = some src := by
    refine Table.find_of_mem ?_
    rw [Table.mem_def, hrows]
    exact List.mem_append_left _ hsrc
  refine commits_of_event hevent hgrows.events ?_ ?_ ?_
  · have hmodified : (s₂.receipts.modify src.id supersede fun _ => rfl).rows = _ :=
      rows_modify hfind₂
    refine hmodified.trans ?_
    rw [hrows, List.map_append]
    congr 1
    exact (List.map_congr_left fun k hk => if_neg (hkids k hk)).trans (List.map_id kids)
  · simpa [hreceipts] using hgrows.numbers
  · rintro _ _ ⟨⟩
    exact ⟨hfind, rfl⟩

/-- The first child of a partition. -/
@[simps!]
def primaryChild (num : Numeric) (uuids : Uuids) (source : Receipt) (primaryQty : ℚ)
    (primary : Primary) (number : List Char) : Receipt :=
  childOf source uuids.primary number primary.status (num.numeric18_3 primaryQty)
    primary.clientId primary.approvalStatus primary.sourceTxnType primary.sourceTxnId uuids.event

/-- The ACTIVE remainder of a partition. -/
@[simps!]
def remainderChild (num : Numeric) (uuids : Uuids) (source : Receipt) (primaryQty : ℚ)
    (number : List Char) : Receipt :=
  childOf source uuids.remainder number .active
    (num.numeric18_3 (num.minus source.quantity primaryQty)) source.clientId .approved none none
    uuids.event

/-- The remainder is created when it is positive. -/
def partitionRemainder (num : Numeric) (uuids : Uuids) (source : Receipt) (primaryQty : ℚ)
    (number : List Char) : Option Receipt :=
  if 0 < num.minus source.quantity primaryQty then
    some (remainderChild num uuids source primaryQty number)
  else none

theorem partition_ok {uuids : Uuids} {source : Receipt} {primaryQty : ℚ} {primary : Primary}
    {s₁ : Ledger} {e e' : InventoryEvent} {result : Receipt × Option Receipt}
    (hfind : s.receipts.find source.id = some source)
    (hevent : event num e s = .ok (e', s₁)) (hid : e.id = uuids.event)
    (h : partition num uuids source primaryQty primary e'.id s₁ = .ok (result, s')) :
    ∃ number number', result = (primaryChild num uuids source primaryQty primary number,
        partitionRemainder num uuids source primaryQty number') ∧
      Commits s [num.storeEvent e]
        (.split source (primaryChild num uuids source primaryQty primary number ::
          (partitionRemainder num uuids source primaryQty number').toList)) s' := by
  obtain rfl : e' = num.storeEvent e := (event_ok hevent).1
  have hsource : (num.storeEvent e).id = uuids.event := hid
  rw [hsource] at h
  simp only [partition, Tx.bind_ok, Tx.query_ok] at h
  obtain ⟨taken, _, ⟨-, rfl⟩, primaryRow, s₂, hprimary, remainder, s₃, hremainder, _, _, hupdate,
    hresult⟩ := h
  obtain ⟨rfl, rfl⟩ := Tx.pure_ok.mp hresult
  obtain ⟨rfl, hgrows⟩ := createReceipt_ok hprimary
  let base := baseReceiptNumber source.receiptNumber
  refine ⟨base ++ '-' :: nextSuffix taken,
    base ++ '-' :: nextSuffix (taken ++ [nextSuffix taken]), ?_⟩
  unfold createRemainder at hremainder
  unfold partitionRemainder
  split at hremainder
  · rename_i hpos
    obtain ⟨row, hrow, rfl⟩ := Tx.map_ok.mp hremainder
    obtain ⟨rfl, hgrows'⟩ := createReceipt_ok hrow
    rw [if_pos hpos]
    exact ⟨rfl, commits_split hfind hevent (hgrows.trans hgrows') hupdate⟩
  · rename_i hpos
    obtain ⟨rfl, rfl⟩ := Tx.pure_ok.mp hremainder
    rw [if_neg hpos]
    exact ⟨rfl, commits_split hfind hevent hgrows hupdate⟩

end Statements

end SecureStore.Inventory
