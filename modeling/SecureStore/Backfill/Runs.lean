/-
# Runs of the backfill

A run stops between two of its statements, or a statement fails. What it leaves behind is
one of a few stages, and from every stage a run settles the remaining roots in the order in
which the gap query returns them, up to a root where a transaction fails, if there is one.
Where the ids it draws are new, that root is one that the structure blocks. The order is
the database's own for each run.
-/

import SecureStore.Backfill.Settled

namespace SecureStore.Backfill

open SecureStore.Foundation SecureStore.Inventory

namespace LegacyDb

variable {base db db' : LegacyDb} {close : ℚ → ℚ → Bool} {genesis draws : Draws}
  {rest : List LegacyReceipt} {done : List Settlement} {root : LegacyReceipt}

/-! ### Inserting events -/

theorem insertEvents_ok {new : List BackfillEvent} (h : db.insertEvents new = .ok ((), db')) :
    (db'.events.rows.map fun e => e.id).Nodup ∧
      ∃ events, events.rows = db.events.rows ++ new ∧ db' = { db with events := events } := by
  unfold insertEvents at h
  split at h
  · rename_i hids
    split at h
    · rename_i events hinsert
      cases h
      have hrows := Table.insertAll_eq_some hinsert
      refine ⟨?_, events, hrows, rfl⟩
      rw [hrows, List.map_append]
      exact List.nodup_append_comm.mp hids
    · cases h
  · cases h

/-- Events with new ids and keys are inserted. -/
theorem insertEvents_succeeds {new : List BackfillEvent}
    (hids : (new.map (fun e => e.id) ++ db.events.rows.map fun e => e.id).Nodup)
    (hfree : ∀ e ∈ new, db.events.find e.idempotencyKey = none)
    (hkeys : (new.map fun e => e.idempotencyKey).Nodup) :
    ∃ db', db.insertEvents new = .ok ((), db') := by
  obtain ⟨events, hinsert⟩ := Table.insertAll_succeeds (t := db.events) hfree hkeys
  refine ⟨{ db with events := events }, ?_⟩
  unfold insertEvents
  rw [if_pos hids, hinsert]

theorem insertEvents_nil (hids : (db.events.rows.map fun e => e.id).Nodup) :
    db.insertEvents [] = .ok ((), db) := by
  unfold insertEvents
  rw [if_pos (by simpa using hids)]
  rfl

/-! ### Linking -/

/-- A receipt after the roots were linked to their genesis events. -/
def relinked (db : LegacyDb) (r : LegacyReceipt) : LegacyReceipt :=
  if r.parentReceiptId = none ∧ (db.events.find (depositKey r.id)).isSome ∧
      r.sourceEventId ≠ (db.events.find (depositKey r.id)).map (fun e => e.id) then
    { r with sourceEventId := (db.events.find (depositKey r.id)).map fun e => e.id }
  else r

theorem linkGenesis_rows : db.linkGenesis.receipts.rows =
    db.receipts.rows.map db.relinked := rfl

theorem id_relinked (db : LegacyDb) (r : LegacyReceipt) : (db.relinked r).id = r.id := by
  unfold relinked
  split <;> rfl

theorem parentReceiptId_relinked (db : LegacyDb) (r : LegacyReceipt) :
    (db.relinked r).parentReceiptId = r.parentReceiptId := by
  unfold relinked
  split <;> rfl

/-! ### The statements on a settled database -/

section Statements

variable (h : base.Settled close genesis done db)

include h

theorem Settled.find_genesis {r : LegacyReceipt} (hr : r ∈ base.roots) :
    db.events.find (depositKey r.id) = some (genesisEvent genesis r) := by
  apply Table.find_eq_some_iff.mpr
  refine ⟨?_, rfl⟩
  rw [Table.mem_def, h.events]
  exact List.mem_append_left _ (List.mem_map_of_mem hr)

theorem Settled.missingGenesis_eq : db.missingGenesis = [] := by
  unfold missingGenesis
  rw [List.filter_eq_nil_iff, h.roots_eq]
  intro r' hr'
  obtain ⟨r, hr, rfl⟩ := List.mem_map.mp hr'
  rw [id_finished, h.find_genesis hr]
  simp

theorem Settled.insertGenesis_eq (draws : Draws) : db.insertGenesis draws = .ok ((), db) := by
  unfold insertGenesis
  rw [h.missingGenesis_eq]
  exact insertEvents_nil h.eventIds

theorem Settled.linkGenesis_eq : db.linkGenesis = db := by
  have hrows : db.linkGenesis.receipts.rows = db.receipts.rows := by
    rw [linkGenesis_rows]
    apply (List.map_congr_left _).trans (List.map_id _)
    intro r' hr'
    apply if_neg
    rintro ⟨hparent, -, hdiffers⟩
    rcases h.mem_receipts.mp hr' with ⟨r, hr, rfl⟩ | ⟨x, -, rfl⟩
    · rw [parentReceiptId_finished] at hparent
      apply hdiffers
      rw [id_finished, h.find_genesis (mem_roots.mpr ⟨hr, hparent⟩),
        sourceEventId_finished genesis done r hparent]
      rfl
    · cases hparent
  have htable : db.linkGenesis.receipts = db.receipts := Table.ext hrows
  calc db.linkGenesis = { db with receipts := db.linkGenesis.receipts } := rfl
    _ = db := by rw [htable]

omit h

theorem finished_unsettled {r : LegacyReceipt} (hparent : r.parentReceiptId = none)
    (hnot : ∀ x ∈ done, x.root.id ≠ r.id) : finished genesis done r = linked genesis r := by
  have hnone : (done.find? fun x => x.root.id = r.id) = none := by
    rw [List.find?_eq_none]
    simpa using hnot
  unfold finished
  rw [if_pos hparent, hnone]

variable (hcovers : base.Covers done) (hroot : root ∈ base.roots)
  (hnot : root ∉ done.map Settlement.root)

include hcovers hroot hnot

theorem Covers.finished_next : finished genesis done root = linked genesis root :=
  finished_unsettled (mem_roots.mp hroot).2 (hcovers.unsettled hroot hnot)

/-- Settling one more root changes that root only. -/
theorem Covers.finished_append (draws : Draws) {r : LegacyReceipt} (hr : r ∈ base.receipts.rows) :
    finished genesis (done ++ [⟨root, draws⟩]) r =
      if r.id = root.id then settle draws (linked genesis root) (finished genesis done r)
      else finished genesis done r := by
  by_cases hid : r.id = root.id
  · have hsame : r = root := eq_of_id hr (mem_roots.mp hroot).1 hid
    subst hsame
    have hnone : (done.find? fun x => x.root.id = r.id) = none := by
      rw [List.find?_eq_none]
      simpa using hcovers.unsettled hroot hnot
    rw [if_pos rfl, hcovers.finished_next hroot hnot, finished, if_pos (mem_roots.mp hroot).2,
      List.find?_append, hnone]
    simp [settle, linked]
  · rw [if_neg hid, finished, finished, List.find?_append]
    have hother : ([⟨root, draws⟩] : List Settlement).find? (fun x => x.root.id = r.id) = none := by
      simpa using Ne.symm hid
    rw [hother, Option.or_none]

include h

theorem Settled.find_recon : db.events.find (reconKey root.id) = none := by
  rw [Table.find_eq_none_iff]
  intro e he hkey
  rw [Table.mem_def, h.events] at he
  rcases List.mem_append.mp he with he | he
  · obtain ⟨r, -, rfl⟩ := List.mem_map.mp he
    simp [genesisEvent, depositKey, reconKey] at hkey
  · obtain ⟨x, hx, rfl⟩ := List.mem_map.mp he
    apply hcovers.unsettled hroot hnot x hx
    simpa [settlementEvent, reconEvent, reconKey] using hkey

theorem Settled.find_root : db.receipts.find root.id = some (linked genesis root) := by
  apply Table.find_eq_some_iff.mpr
  refine ⟨?_, rfl⟩
  rw [Table.mem_def, h.mem_receipts]
  exact .inl ⟨root, (mem_roots.mp hroot).1, hcovers.finished_next hroot hnot⟩

theorem Settled.matchWithdrawal_eq :
    db.matchWithdrawal close root.id (base.gap root) = base.matched close root := by
  unfold matched matchWithdrawal
  rw [h.withdrawals]
  have hany : ∀ w : LegacyWithdrawal,
      (db.receipts.rows.any fun r => r.id = w.receiptId ∧ r.rootReceiptId = some root.id) =
        base.receipts.rows.any fun r => r.id = w.receiptId ∧ r.rootReceiptId = some root.id := by
    intro w
    rw [h.receipts, List.any_append, List.any_map, List.any_map]
    have hchildren : (done.any ((fun r : LegacyReceipt =>
        decide (r.id = w.receiptId ∧ r.rootReceiptId = some root.id)) ∘
          base.settlementChild close)) = false := by
      rw [List.any_eq_false]
      intro x hx
      have hne := hcovers.unsettled hroot hnot x hx
      simp [settlementChild, reconChild, hne]
    rw [hchildren, Bool.or_false]
    simp [Function.comp_def]
  simp only [hany]

end Statements

end LegacyDb

/-! ### Settling one more root -/

/-- The ids that a run draws are new. -/
structure Draws.New (draws : Draws) (db : LegacyDb) : Prop where
  events : (db.roots.map (fun r => draws.genesis r.id) ++
    (db.roots.map (fun r => draws.event r.id) ++ db.events.rows.map fun e => e.id)).Nodup
  children : (db.roots.map (fun r => draws.child r.id) ++
    db.receipts.rows.map LegacyReceipt.id).Nodup

/-- The ids that are drawn for the roots still to come are new. -/
structure Draws.Unused (draws : Draws) (rest : List LegacyReceipt) (db : LegacyDb) : Prop where
  events : (rest.map (fun r => draws.event r.id) ++ db.events.rows.map fun e => e.id).Nodup
  children : (rest.map (fun r => draws.child r.id) ++ db.receipts.rows.map LegacyReceipt.id).Nodup

namespace LegacyDb

variable {base db db' : LegacyDb} {close : ℚ → ℚ → Bool} {genesis draws : Draws}
  {rest : List LegacyReceipt} {done : List Settlement} {root : LegacyReceipt}

theorem unused_tail (h : draws.Unused (root :: rest) db) : draws.Unused rest db where
  events := (List.nodup_cons.mp h.events).2
  children := (List.nodup_cons.mp h.children).2

/-- Ids that are new are new for the roots in any order. -/
theorem unused_perm {todo : List LegacyReceipt} (h : draws.Unused todo db)
    (hroots : (rest.map LegacyReceipt.id).Perm (todo.map LegacyReceipt.id)) :
    draws.Unused rest db where
  events := by
    have hdrawn := hroots.map draws.event
    rw [List.map_map, List.map_map] at hdrawn
    exact (hdrawn.append_right _).nodup_iff.mpr h.events
  children := by
    have hdrawn := hroots.map draws.child
    rw [List.map_map, List.map_map] at hdrawn
    exact (hdrawn.append_right _).nodup_iff.mpr h.children

theorem unused_of_new (h : draws.New db) : draws.Unused db.roots db :=
  ⟨(List.nodup_append.mp h.events).2.1, h.children⟩

/-- What a reconciliation that commits has done. -/
structure Reconciled (db : LegacyDb) (draws : Draws) (root : LegacyReceipt) (stored : ℚ)
    (w : Option Id) (db' : LegacyDb) : Prop where
  small : ¬ 10 ^ 15 ≤ |stored|
  available : db.availableRequired = false
  number : root.receiptNumber ++ "-RCN".toList ∉ db.receipts.rows.map LegacyReceipt.receiptNumber
  events : db'.events.rows = db.events.rows ++ [reconEvent draws root stored w]
  eventIds : (db'.events.rows.map fun e => e.id).Nodup
  fresh : ∀ r ∈ db.receipts.rows, draws.child root.id ≠ r.id
  receipts : db'.receipts.rows = (db.receipts.rows ++ [reconChild draws root stored w]).map
    fun r => if r.id = root.id then settle draws root r else r
  withdrawals : db'.withdrawals = db.withdrawals
  availableRequired : db'.availableRequired = db.availableRequired

theorem reconcile_ok {gap : ℚ} {w : Option Id} (h : db.reconcile draws root gap w = .ok ((), db')) :
    db.Reconciled draws root (roundScale 3 gap) w db' := by
  unfold reconcile at h
  by_cases hlarge : 10 ^ 15 ≤ |roundScale 3 gap|
  · rw [if_pos hlarge] at h
    cases h
  rw [if_neg hlarge] at h
  split at h
  · cases h
  rename_i db₁ hinsert
  obtain ⟨hids, events, hevents, rfl⟩ := insertEvents_ok hinsert
  by_cases hrequired : db.availableRequired = true
  · rw [if_pos hrequired] at h
    cases h
  rw [if_neg hrequired] at h
  split at h
  · cases h
  rename_i hnumber
  split at h
  · cases h
  rename_i receipts hchild
  split at h
  · cases h
  cases h
  obtain ⟨hfree, hreceipts⟩ := Table.insert_eq_some_iff.mp hchild
  rw [Table.find_eq_none_iff] at hfree
  exact ⟨hlarge, by simpa using hrequired, hnumber, hevents, hids,
    fun r hr hid => hfree r hr hid.symm, congrArg (List.map _) hreceipts, rfl, rfl⟩

/-- Where its ids and keys are new and the root is there, a reconciliation fails only on a
column or on the receipt number. -/
theorem reconcile_error {gap : ℚ} {w : Option Id} {e : BackfillError}
    (h : db.reconcile draws root gap w = .error e)
    (hids : (draws.event root.id :: db.events.rows.map fun e => e.id).Nodup)
    (hkey : db.events.find (reconKey root.id) = none)
    (hchild : draws.child root.id ∉ db.receipts.rows.map LegacyReceipt.id)
    (hroot : (db.receipts.find root.id).isSome) :
    (if 10 ^ 15 ≤ |roundScale 3 gap| then some .numericOverflow
      else if db.availableRequired then some .notNullViolation
      else if root.receiptNumber ++ "-RCN".toList ∈
        db.receipts.rows.map LegacyReceipt.receiptNumber then some .uniqueViolation
      else none) = some e := by
  unfold reconcile at h
  by_cases hlarge : 10 ^ 15 ≤ |roundScale 3 gap|
  · rw [if_pos hlarge] at h ⊢
    cases h
    rfl
  rw [if_neg hlarge] at h ⊢
  obtain ⟨db₁, hinsert⟩ : ∃ db₁,
      db.insertEvents [reconEvent draws root (roundScale 3 gap) w] = .ok ((), db₁) :=
    insertEvents_succeeds hids (by simpa [reconEvent] using hkey) (List.nodup_singleton _)
  rw [hinsert] at h
  obtain ⟨-, events, -, rfl⟩ := insertEvents_ok hinsert
  by_cases hrequired : db.availableRequired = true
  · simp only [hrequired, if_true] at h ⊢
    cases h
    rfl
  simp only [hrequired] at h ⊢
  by_cases hnumber : root.receiptNumber ++ "-RCN".toList ∈
      db.receipts.rows.map LegacyReceipt.receiptNumber
  · have hnumber' : (reconChild draws root (roundScale 3 gap) w).receiptNumber ∈
        db.receipts.rows.map LegacyReceipt.receiptNumber := hnumber
    simp only [hnumber, hnumber', if_true] at h ⊢
    cases h
    rfl
  have hnumber' : (reconChild draws root (roundScale 3 gap) w).receiptNumber ∉
      db.receipts.rows.map LegacyReceipt.receiptNumber := hnumber
  exfalso
  rw [if_neg (by simp), if_neg hnumber'] at h
  have hfree :
      db.receipts.find (Keyed.key (reconChild draws root (roundScale 3 gap) w)) = none := by
    rw [Table.find_eq_none_iff]
    intro r hr hid
    apply hchild
    rw [show draws.child root.id = r.id from hid.symm]
    exact List.mem_map_of_mem hr
  obtain ⟨receipts, hinsert⟩ := Table.insert_of_find_none hfree
  obtain ⟨r, hr⟩ := Option.isSome_iff_exists.mp hroot
  simp only [hinsert, Table.find_insert_of_find hinsert hr] at h
  cases h

/-- The ids for the roots still to come stay new. -/
theorem Reconciled.unused {stored : ℚ} {w : Option Id}
    (hrec : db.Reconciled draws root stored w db')
    (hunused : draws.Unused (root :: rest) db) : draws.Unused rest db' where
  events := by
    rw [hrec.events, List.map_append, ← List.append_assoc]
    exact (List.perm_append_singleton _ _).nodup_iff.mpr hunused.events
  children := by
    have hids : db'.receipts.rows.map LegacyReceipt.id =
        db.receipts.rows.map LegacyReceipt.id ++ [draws.child root.id] := by
      rw [hrec.receipts, List.map_map, List.map_append]
      have hkeep : ∀ r : LegacyReceipt, (LegacyReceipt.id ∘ fun r : LegacyReceipt =>
          if r.id = root.id then settle draws root r else r) r = r.id := by
        intro r
        simp only [Function.comp]
        split <;> rfl
      congr 1
      · exact List.map_congr_left fun r _ => hkeep r
      · exact congrArg (fun k => [k]) (hkeep _)
    rw [hids, ← List.append_assoc]
    exact (List.perm_append_singleton _ _).nodup_iff.mpr hunused.children

section Reconcile

variable (hcovers : base.Covers done) (hroot : root ∈ base.roots)
  (hnot : root ∉ done.map Settlement.root) (h : base.Settled close genesis done db)

include hcovers hroot hnot h

/-- A transaction that commits settles its root. -/
theorem Settled.settled (hrec : db.Reconciled draws (linked genesis root) (base.storedGap root)
    (base.matched close root) db') :
    base.Settled close genesis (done ++ [⟨root, draws⟩]) db' where
  receipts := by
    have hrow := (mem_roots.mp hroot).1
    have hkeep : ∀ r : LegacyReceipt, r.id ≠ root.id →
        (if r.id = (linked genesis root).id then settle draws (linked genesis root) r else r) = r :=
      fun _ hne => if_neg hne
    have hnew : (base.settlementChild close ⟨root, draws⟩).id ≠ root.id := by
      have hmem : finished genesis done root ∈ db.receipts.rows :=
        h.mem_receipts.mpr (.inl ⟨root, hrow, rfl⟩)
      have hfresh := hrec.fresh _ hmem
      rw [id_finished] at hfresh
      exact hfresh
    rw [hrec.receipts, h.receipts, List.map_append, List.map_append, List.map_append,
      List.append_assoc, List.map_map]
    congr 1
    · apply List.map_congr_left
      intro r hr
      rw [hcovers.finished_append hroot hnot draws hr, Function.comp, id_finished]
      rfl
    · congr 1
      · apply (List.map_congr_left _).trans (List.map_id _)
        intro r hr
        obtain ⟨x, hx, rfl⟩ := List.mem_map.mp hr
        exact hkeep _ (h.child_fresh hx hrow)
      · exact congrArg (fun r => [r]) (hkeep _ hnew)
  events := by
    rw [hrec.events, h.events, List.append_assoc, List.map_append]
    rfl
  eventIds := hrec.eventIds
  withdrawals := hrec.withdrawals.trans h.withdrawals
  availableRequired := hrec.availableRequired.trans h.availableRequired

omit hcovers hroot hnot in
/-- The root that a transaction settles was not blocked. -/
theorem Settled.unblocked (hrec : db.Reconciled draws (linked genesis root) (base.storedGap root)
    (base.matched close root) db') : base.blocked root = none := by
  unfold blocked
  rw [if_neg hrec.small, ← h.availableRequired, if_neg (by simp [hrec.available]), if_neg]
  intro hmem
  apply hrec.number
  rw [h.receipts, List.map_append, List.map_map]
  apply List.mem_append_left
  simpa [Function.comp_def, linked] using hmem

/-- A transaction whose ids are new fails only where its root is blocked. -/
theorem Settled.blocked_of_error (hbase : base.Prepared)
    (hunused : draws.Unused (root :: rest) db) {e : BackfillError}
    (herr : db.reconcile draws (linked genesis root) (base.gap root)
      (base.matched close root) = .error e) : base.blocked root = some e := by
  have hids : (draws.event root.id :: db.events.rows.map fun e => e.id).Nodup := by
    apply List.Nodup.sublist _ hunused.events
    exact (List.sublist_append_right _ _).cons_cons _
  have hchild : draws.child root.id ∉ db.receipts.rows.map LegacyReceipt.id := by
    intro hmem
    exact (List.nodup_cons.mp hunused.children).1 (List.mem_append_right _ hmem)
  have hkey := h.find_recon hcovers hroot hnot
  have hfound := Option.isSome_of_eq_some (h.find_root hcovers hroot hnot)
  rw [blocked, storedGap, ← reconcile_error herr hids hkey hchild hfound, h.availableRequired]
  have hnumber : (linked genesis root).receiptNumber ++ "-RCN".toList ∈
      db.receipts.rows.map LegacyReceipt.receiptNumber ↔ root.receiptNumber ++ "-RCN".toList ∈
        base.receipts.rows.map LegacyReceipt.receiptNumber := by
    rw [h.receipts, List.map_append, List.mem_append, List.map_map, List.map_map]
    constructor
    · rintro (hmem | hmem)
      · simpa [Function.comp_def, linked] using hmem
      · -- two settlements have different receipt numbers
        exfalso
        obtain ⟨x, hx, hnumber⟩ := List.mem_map.mp hmem
        have hsame : x.root.receiptNumber = root.receiptNumber :=
          List.append_cancel_right hnumber
        apply hcovers.unsettled hroot hnot x hx
        exact congrArg LegacyReceipt.id (List.inj_on_of_nodup_map hbase.numbers
          (mem_roots.mp (hcovers.root_mem hx)).1 (mem_roots.mp hroot).1 hsame)
    · intro hmem
      left
      simpa [Function.comp_def, linked] using hmem
  simp only [hnumber]

end Reconcile

/-! ### Stages -/

/-- The genesis events are logged and the roots are not linked to them yet. -/
structure Logged (base : LegacyDb) (genesis : Draws) (db : LegacyDb) : Prop where
  receipts : db.receipts = base.receipts
  events : db.events.rows = base.roots.map (genesisEvent genesis)
  eventIds : (db.events.rows.map fun e => e.id).Nodup
  withdrawals : db.withdrawals = base.withdrawals
  availableRequired : db.availableRequired = base.availableRequired

/-- What a run that stops leaves behind. -/
inductive Stage (close : ℚ → ℚ → Bool) (db : LegacyDb) : LegacyDb → Prop where
  | legacy : Stage close db db
  | rooted : Stage close db db.setRoots
  | prepared : Stage close db db.setRoots.promoteParents
  | logged {genesis : Draws} {s : LegacyDb} (h : db.setRoots.promoteParents.Logged genesis s) :
      Stage close db s
  | settled {genesis : Draws} {done : List Settlement} {s : LegacyDb}
      (hcovers : db.setRoots.promoteParents.Covers done)
      (h : db.setRoots.promoteParents.Settled close genesis done s) : Stage close db s

/-- Why a loop over the roots has ended: it is through, or at a root whose transaction failed;
where the ids were new, that root is blocked. -/
inductive Halted (base : LegacyDb) (new : Prop) :
    List LegacyReceipt → Except BackfillError Unit → Prop where
  | through : Halted base new [] (.ok ())
  | failed {root : LegacyReceipt} {rest : List LegacyReceipt} {e : BackfillError}
      (h : new → 0 < base.gap root ∧ base.blocked root = some e) :
      Halted base new (root :: rest) (.error e)

/-- The roots that a loop has settled besides those settled before: the ones with a gap among
the roots that it passed. -/
structure Passed (base : LegacyDb) (passed : List LegacyReceipt) (done done' : List Settlement) :
    Prop where
  extends_ : done <+: done'
  settled : ∀ root ∈ passed, 0 < base.gap root → root ∈ done'.map Settlement.root
  only : ∀ root ∈ done'.map Settlement.root, root ∈ done.map Settlement.root ∨ root ∈ passed

/-- How a loop over some roots ends: those before the one it halted at are passed. -/
def LoopEnd (base : LegacyDb) (close : ℚ → ℚ → Bool) (new : Prop) (genesis : Draws)
    (todo : List LegacyReceipt) (done : List Settlement) (result : Except BackfillError Unit)
    (s : LegacyDb) : Prop :=
  ∃ passed rest done', todo = passed ++ rest ∧ base.Passed passed done done' ∧
    base.Covers done' ∧ base.Settled close genesis done' s ∧ base.Halted new rest result

section Loop

variable {crash : LegacyDb → Prop} {new : Prop} {todo : List LegacyReceipt}

/-- A root without a gap, and one that is settled, are passed over. -/
theorem LoopEnd.skip {result : Except BackfillError Unit} {s : LegacyDb}
    (hskip : root ∈ done.map Settlement.root ∨ ¬ 0 < base.gap root)
    (hend : base.LoopEnd close new genesis todo done result s) :
    base.LoopEnd close new genesis (root :: todo) done result s := by
  obtain ⟨passed, rest, done', rfl, hpassed, hend⟩ := hend
  refine ⟨root :: passed, rest, done', rfl, ⟨hpassed.extends_, ?_, ?_⟩, hend⟩
  · intro x hx hgap
    rcases List.mem_cons.mp hx with rfl | hx
    · rcases hskip with hsettled | hnone
      · exact (hpassed.extends_.map Settlement.root).subset hsettled
      · exact absurd hgap hnone
    · exact hpassed.settled x hx hgap
  · intro x hx
    exact (hpassed.only x hx).imp_right (List.mem_cons_of_mem root)

/-- The loop goes on behind a root that it settled. -/
theorem LoopEnd.settle {result : Except BackfillError Unit} {s : LegacyDb}
    (hend : base.LoopEnd close new genesis todo (done ++ [⟨root, draws⟩]) result s) :
    base.LoopEnd close new genesis (root :: todo) done result s := by
  obtain ⟨passed, rest, done', rfl, hpassed, hend⟩ := hend
  refine ⟨root :: passed, rest, done', rfl,
    ⟨(List.prefix_append _ _).trans hpassed.extends_, ?_, ?_⟩, hend⟩
  · intro x hx hgap
    rcases List.mem_cons.mp hx with rfl | hx
    · apply (hpassed.extends_.map Settlement.root).subset
      simp
    · exact hpassed.settled x hx hgap
  · intro x hx
    rcases hpassed.only x hx with hbefore | hx
    · rw [List.map_append, List.mem_append] at hbefore
      rcases hbefore with hbefore | hlast
      · exact .inl hbefore
      · exact .inr (List.mem_cons.mpr (.inl (List.mem_singleton.mp hlast)))
    · exact .inr (List.mem_cons_of_mem root hx)

/-- The loop over the rows of some roots. -/
theorem reconcileGaps_ensures (hbase : base.Prepared)
    (hcrash : ∀ {done s}, base.Covers done → base.Settled close genesis done s → crash s)
    (htodo : todo.Nodup) (hroots : ∀ root ∈ todo, root ∈ base.roots)
    {row : LegacyReceipt → GapRow} (hrow : ∀ root ∈ todo, row root = base.rowAfter done root)
    (hcovers : base.Covers done) (h : base.Settled close genesis done db)
    (hunused : new → draws.Unused todo db) :
    Process.Ensures crash (base.LoopEnd close new genesis todo done)
      (Attempt.forEach (todo.map row) (reconcileGap draws close)) db := by
  induction todo generalizing done db with
  | nil =>
      exact ⟨[], [], done, rfl, ⟨List.prefix_rfl, by simp, fun _ => .inl⟩, hcovers, h, .through⟩
  | cons root todo ih =>
      have hnow := hcrash hcovers h
      have hroot := hroots root List.mem_cons_self
      obtain ⟨hlater, htail⟩ := List.nodup_cons.mp htodo
      have hnext : ∀ root' ∈ todo, root' ∈ base.roots := fun root' hmem =>
        hroots root' (List.mem_cons_of_mem root hmem)
      have hsame : ∀ root' ∈ todo, row root' = base.rowAfter done root' := fun root' hmem =>
        hrow root' (List.mem_cons_of_mem root hmem)
      rw [List.map_cons, hrow root List.mem_cons_self]
      apply ensures_bind
      unfold reconcileGap
      by_cases hskip : root ∈ done.map Settlement.root ∨ ¬ 0 < base.gap root
      · have hnone : roundSig 20 ((base.rowAfter done root).rootQty -
            (base.rowAfter done root).leafSum) ≤ 0 := by
          unfold rowAfter
          split
          · rw [sub_self, (roundSig_eq_zero_iff (by norm_num)).mpr rfl]
          · rename_i hnot
            exact not_lt.mp (hskip.resolve_left hnot)
        rw [if_pos hnone]
        apply (ih htail hnext hsame hcovers h fun hnew => unused_tail (hunused hnew)).weaken
        intro result s hend
        exact hend.skip hskip
      · obtain ⟨hnot, hgap⟩ := not_or.mp hskip
        rw [not_not] at hgap
        have hself : base.rowAfter done root = base.gapRow root := if_neg hnot
        have hpositive : ¬ roundSig 20 ((base.gapRow root).rootQty -
            (base.gapRow root).leafSum) ≤ 0 := not_le.mpr hgap
        rw [hself, if_neg hpositive]
        apply ensures_read hnow
        rw [show (base.gapRow root).rootId = root.id from rfl, h.find_recon hcovers hroot hnot]
        apply ensures_read hnow
        rw [h.find_root hcovers hroot hnot]
        apply ensures_orThrow (fun hnone => by cases hnone)
        rintro _ ⟨⟩
        apply ensures_read hnow
        have hmatched := h.matchWithdrawal_eq hcovers hroot hnot
        rw [show db.matchWithdrawal close (linked genesis root).id (roundSig 20
          ((base.gapRow root).rootQty - (base.gapRow root).leafSum)) = _ from hmatched]
        apply ensures_write_last
        · intro e herr
          refine ⟨hnow, [], root :: todo, done, rfl, ⟨List.prefix_rfl, by simp, fun _ => .inl⟩,
            hcovers, h, .failed ?_⟩
          intro hnew
          exact ⟨hgap, h.blocked_of_error hcovers hroot hnot hbase (hunused hnew) herr⟩
        · rintro ⟨⟩ s' hok
          have hrec := reconcile_ok hok
          have hcovers' := hcovers.settled hroot hnot hgap (h.unblocked hrec) draws
          have hsettled := h.settled hcovers hroot hnot hrec
          refine ⟨hcrash hcovers' hsettled, ?_⟩
          have hunused' : new → draws.Unused todo s' := by
            intro hnew
            exact hrec.unused ⟨(hunused hnew).events, (hunused hnew).children⟩
          have hrow' : ∀ root' ∈ todo,
              row root' = base.rowAfter (done ++ [⟨root, draws⟩]) root' := by
            intro root' hmem
            have hne : root' ≠ root := fun heq => hlater (heq ▸ hmem)
            rw [hsame root' hmem]
            simp [rowAfter, hne]
          apply (ih htail hnext hrow' hcovers' hsettled hunused').weaken
          intro result s hend
          exact hend.settle

/-- The order in which a run goes over the roots: that of the groups of its query. -/
structure Goes (base : LegacyDb) (draws : Draws) (order : List LegacyReceipt) : Prop where
  perm : order.Perm base.roots
  asked : ∃ gaps, gaps.map GapRow.rootId = base.roots.map LegacyReceipt.id ∧
    (draws.groups.order gaps).map GapRow.rootId = order.map LegacyReceipt.id

/-- How a run ends: the loop halted, and where it got through, roots that weigh less than
their leaves abort the run. -/
inductive Ended (base : LegacyDb) (new : Prop) :
    List LegacyReceipt → Except BackfillError Unit → Prop where
  | completed (h : negatives base.gapRows = []) : Ended base new [] (.ok ())
  | aborted {ids : List Id} (h : ids ≠ []) (hids : ids.Perm (negatives base.gapRows)) :
      Ended base new [] (.error (.abort ids))
  | failed {root : LegacyReceipt} {rest : List LegacyReceipt} {e : BackfillError}
      (h : new → 0 < base.gap root ∧ base.blocked root = some e) :
      Ended base new (root :: rest) (.error e)

def RunEnd (base : LegacyDb) (close : ℚ → ℚ → Bool) (new : Prop) (genesis draws : Draws)
    (done : List Settlement) (result : Except BackfillError Unit) (s : LegacyDb) : Prop :=
  ∃ passed rest done', base.Goes draws (passed ++ rest) ∧ base.Passed passed done done' ∧
    base.Covers done' ∧ base.Settled close genesis done' s ∧ base.Ended new rest result

theorem negatives_perm {gaps gaps' : List GapRow} (h : gaps.Perm gaps') :
    (negatives gaps).Perm (negatives gaps') :=
  (h.filter _).map _

/-- A gap query after some settlements finds the same negative gaps. -/
theorem Settled.negatives_eq (hbase : base.Prepared) (hcovers : base.Covers done)
    (h : base.Settled close genesis done db) :
    negatives db.gapRows = negatives base.gapRows := by
  rw [h.gapRows_eq hbase hcovers, LegacyDb.gapRows_eq hbase.forest hbase.toRooted]
  unfold negatives
  rw [List.filter_map, List.filter_map, List.map_map, List.map_map]
  have hfilter : base.roots.filter ((fun g : GapRow =>
      decide (roundSig 20 (g.rootQty - g.leafSum) < 0)) ∘ base.rowAfter done) =
      base.roots.filter ((fun g : GapRow =>
        decide (roundSig 20 (g.rootQty - g.leafSum) < 0)) ∘ base.gapRow) := by
    apply List.filter_congr
    intro root _
    simp only [Function.comp, rowAfter]
    split
    · rename_i hsettled
      have hpos : ¬ roundSig 20 ((base.gapRow root).rootQty - (base.gapRow root).leafSum) < 0 :=
        not_lt.mpr (hcovers.of_settled hsettled).2.1.le
      rw [sub_self, (roundSig_eq_zero_iff (by norm_num)).mpr rfl]
      simp [hpos]
    · rfl
  rw [hfilter]
  apply List.map_congr_left
  intro root _
  simp only [Function.comp, rowAfter]
  split <;> rfl

/-- A list that a function maps to a permutation of an image comes from a permutation. -/
theorem exists_perm_map {α β : Type*} {f : α → β} {l : List α} {l' : List β}
    (h : l'.Perm (l.map f)) : ∃ order : List α, order.Perm l ∧ l' = order.map f := by
  have hmapped : List.Forall₂ (fun y x => y = f x) (l.map f) l :=
    List.forall₂_map_left_iff.mpr (List.forall₂_same.mpr fun x _ => rfl)
  obtain ⟨order, hforall, hperm⟩ := List.perm_comp_forall₂ h hmapped
  refine ⟨order, hperm, ?_⟩
  have heq : List.Forall₂ (fun y z => y = z) l' (order.map f) :=
    List.forall₂_map_right_iff.mpr hforall
  exact List.forall₂_eq_eq_eq ▸ heq

/-- Step C on a database with some gaps settled. -/
theorem stepC_ensures (hbase : base.Prepared)
    (hcrash : ∀ {done s}, base.Covers done → base.Settled close genesis done s → crash s)
    (hcovers : base.Covers done) (h : base.Settled close genesis done db)
    (hunused : new → draws.Unused db.roots db) :
    Process.Ensures crash (base.RunEnd close new genesis draws done)
      (stepC_reconcile draws close) db := by
  have hgaps := h.gapRows_eq hbase hcovers
  obtain ⟨order, hperm, horder⟩ : ∃ order : List LegacyReceipt, order.Perm base.roots ∧
      draws.groups.order db.gapRows = order.map (base.rowAfter done) :=
    exists_perm_map (hgaps ▸ draws.groups.perm db.gapRows)
  have hgoes : base.Goes draws order := by
    have hid : ∀ root, (base.rowAfter done root).rootId = root.id := by
      intro root
      unfold rowAfter
      split <;> rfl
    refine ⟨hperm, db.gapRows, ?_, ?_⟩
    · rw [hgaps, List.map_map]
      exact List.map_congr_left fun root _ => hid root
    · rw [horder, List.map_map]
      exact List.map_congr_left fun root _ => hid root
  have hroots : order.map LegacyReceipt.id |>.Perm (db.roots.map LegacyReceipt.id) := by
    rw [h.roots_eq, List.map_map]
    refine (hperm.map _).trans (.of_eq ?_)
    exact List.map_congr_left fun root _ => (id_finished genesis done root).symm
  have hunused' : new → draws.Unused order db := fun hnew =>
    unused_perm (hunused hnew) hroots
  unfold stepC_reconcile
  apply ensures_read (hcrash hcovers h)
  have hnegatives : (negatives (draws.groups.order db.gapRows)).Perm (negatives base.gapRows) :=
    (negatives_perm (draws.groups.perm _)).trans (.of_eq (h.negatives_eq hbase hcovers))
  rw [horder] at hnegatives ⊢
  apply ensures_bind
  apply (reconcileGaps_ensures hbase hcrash (hperm.nodup_iff.mpr base.roots_nodup)
    (fun root hmem => hperm.mem_iff.mp hmem) (fun _ _ => rfl) hcovers h hunused').weaken
  rintro result s ⟨passed, rest, done', rfl, hpassed, hcovers', hsettled, hhalted⟩
  cases hhalted with
  | through =>
      apply ensures_throwIf_last
      · intro hsome
        exact ⟨passed, [], done', hgoes, hpassed, hcovers', hsettled, .aborted hsome hnegatives⟩
      · intro hnone
        rw [not_not] at hnone
        rw [hnone] at hnegatives
        exact ⟨passed, [], done', hgoes, hpassed, hcovers', hsettled,
          .completed hnegatives.symm.eq_nil⟩
  | failed hblocked =>
      exact ⟨passed, _, done', hgoes, hpassed, hcovers', hsettled, .failed hblocked⟩

end Loop

/-! ### Runs from every stage -/

/-- A change of the rows that leaves their parents has the same roots. -/
theorem roots_map {f : LegacyReceipt → LegacyReceipt}
    (hrows : db'.receipts.rows = db.receipts.rows.map f)
    (hparent : ∀ r, (f r).parentReceiptId = r.parentReceiptId) : db'.roots = db.roots.map f := by
  unfold roots
  rw [hrows, List.filter_map]
  congr 1
  apply List.filter_congr
  intro r _
  simp [hparent]

theorem roots_setRoots (hforest : legacyTree.IsForest db.receipts.rows) :
    db.setRoots.roots = db.roots.map db.rerooted :=
  roots_map (setRoots_rows hforest) fun _ => rfl

theorem roots_promoteParents : db.promoteParents.roots = db.roots.map db.promoted :=
  roots_map promoteParents_rows db.parentReceiptId_promoted

/-- Ids that are new stay so while the rows keep their ids and parents. -/
theorem new_of_map (h : draws.New db) {f : LegacyReceipt → LegacyReceipt}
    (hrows : db'.receipts.rows = db.receipts.rows.map f) (hid : ∀ r, (f r).id = r.id)
    (hparent : ∀ r, (f r).parentReceiptId = r.parentReceiptId)
    (hevents : db'.events.rows = db.events.rows) : draws.New db' := by
  have hdrawn : ∀ g : Id → Id, (db'.roots.map fun r => g r.id) = db.roots.map fun r => g r.id := by
    intro g
    rw [roots_map hrows hparent, List.map_map]
    exact List.map_congr_left fun r _ => congrArg g (hid r)
  have hids : db'.receipts.rows.map LegacyReceipt.id =
      db.receipts.rows.map LegacyReceipt.id := by
    rw [hrows, List.map_map]
    exact List.map_congr_left fun r _ => hid r
  constructor
  · rw [hdrawn, hdrawn, hevents]
    exact h.events
  · rw [hdrawn, hids]
    exact h.children

theorem new_setRoots (hforest : legacyTree.IsForest db.receipts.rows) (h : draws.New db) :
    draws.New db.setRoots :=
  new_of_map h (setRoots_rows hforest) (fun _ => rfl) (fun _ => rfl) rfl

theorem new_promoteParents (h : draws.New db) : draws.New db.promoteParents :=
  new_of_map h promoteParents_rows db.id_promoted db.parentReceiptId_promoted rfl

theorem new_linkGenesis (h : draws.New db) : draws.New db.linkGenesis :=
  new_of_map h linkGenesis_rows db.id_relinked db.parentReceiptId_relinked rfl

theorem Logged.insertGenesis_eq (h : base.Logged genesis db) (draws : Draws) :
    db.insertGenesis draws = .ok ((), db) := by
  have hnone : db.missingGenesis = [] := by
    unfold missingGenesis roots
    rw [h.receipts, List.filter_eq_nil_iff]
    intro r hr
    have hmem : genesisEvent genesis r ∈ db.events := by
      rw [Table.mem_def, h.events]
      exact List.mem_map_of_mem hr
    have hfind : db.events.find (depositKey r.id) = some (genesisEvent genesis r) :=
      Table.find_of_mem hmem
    rw [hfind]
    simp
  unfold insertGenesis
  rw [hnone]
  exact insertEvents_nil h.eventIds

theorem Logged.rooted (h : base.Logged genesis db) (hrooted : base.Rooted) : db.Rooted where
  self := by
    rw [h.receipts]
    exact hrooted.self
  inherited := by
    rw [h.receipts]
    exact hrooted.inherited

theorem Logged.promoted (h : base.Logged genesis db) (hpromoted : base.Promoted) :
    db.Promoted := by
  unfold Promoted kids
  rw [h.receipts]
  exact hpromoted

/-- Linking the roots leaves a database with no gap settled. -/
theorem Logged.linkGenesis (hbase : base.Prepared) (h : base.Logged genesis db) :
    base.Settled close genesis [] db.linkGenesis where
  receipts := by
    rw [linkGenesis_rows, h.receipts, List.map_nil, List.append_nil]
    apply List.map_congr_left
    intro r hr
    unfold relinked
    by_cases hparent : r.parentReceiptId = none
    · have hmem : genesisEvent genesis r ∈ db.events := by
        rw [Table.mem_def, h.events]
        exact List.mem_map_of_mem (mem_roots.mpr ⟨hr, hparent⟩)
      have hfind : db.events.find (depositKey r.id) = some (genesisEvent genesis r) :=
        Table.find_of_mem hmem
      rw [finished_unsettled hparent (by simp), if_pos]
      · rw [hfind]
        rfl
      · rw [hfind, hbase.noSources r hr]
        exact ⟨hparent, rfl, by simp⟩
    · rw [if_neg fun hlink => hparent hlink.1, finished, if_neg hparent]
  events := by
    rw [List.map_nil, List.append_nil]
    exact h.events
  eventIds := h.eventIds
  withdrawals := h.withdrawals
  availableRequired := h.availableRequired

/-- Where the ids are new, those for the settlements still are when the genesis is logged. -/
theorem Logged.unused (hbase : base.Prepared) (h : base.Logged draws db)
    (hnew : draws.New base) : draws.Unused db.linkGenesis.roots db.linkGenesis := by
  have hids : db.linkGenesis.receipts.rows.map LegacyReceipt.id =
      base.receipts.rows.map LegacyReceipt.id := by
    rw [linkGenesis_rows, List.map_map, h.receipts]
    exact List.map_congr_left fun r _ => id_relinked db r
  have hroots : db.linkGenesis.roots.map LegacyReceipt.id = base.roots.map LegacyReceipt.id := by
    rw [roots_map linkGenesis_rows db.parentReceiptId_relinked, List.map_map, roots, h.receipts]
    exact List.map_congr_left fun r _ => id_relinked db r
  have hunused : draws.Unused base.roots db.linkGenesis := by
    constructor
    · have hdrawn := hnew.events
      rw [hbase.noEvents, List.map_nil, List.append_nil] at hdrawn
      have hevents : db.linkGenesis.events.rows = db.events.rows := rfl
      rw [hevents, h.events, List.map_map]
      exact List.nodup_append_comm.mp hdrawn
    · rw [hids]
      exact hnew.children
  exact unused_perm hunused (.of_eq hroots)

section Run

variable {new : Prop} (hlegacy : db.Legacy) {s : LegacyDb}

theorem stepA_ensures {crash : LegacyDb → Prop} (hroots : crash s.setRoots)
    (hparents : crash s.setRoots.promoteParents) :
    Process.Ensures crash (fun result s' => result = .ok () ∧ s' = s.setRoots.promoteParents)
      stepA_structural s := by
  apply ensures_write
  · intro e herr
    cases herr
  · rintro _ _ ⟨⟩
    refine ⟨hroots, ?_⟩
    apply ensures_write_last
    · intro e herr
      cases herr
    · rintro _ _ ⟨⟩
      exact ⟨hparents, rfl, rfl⟩

include hlegacy

theorem Logged.run (h : db.setRoots.promoteParents.Logged genesis s)
    (hunused : new → draws.Unused s.linkGenesis.roots s.linkGenesis) :
    Process.Ensures (Stage close db)
      (db.setRoots.promoteParents.RunEnd close new genesis draws [])
      (Attempt.write Statement.linkGenesis (fun s => .ok ((), s.linkGenesis)) >>=
        fun _ => stepC_reconcile draws close : Run Unit) s := by
  have hsettled : db.setRoots.promoteParents.Settled close genesis [] s.linkGenesis :=
    h.linkGenesis hlegacy.prepared
  apply ensures_write
  · intro e herr
    cases herr
  · rintro _ _ ⟨⟩
    refine ⟨.settled (.nil _) hsettled, ?_⟩
    exact stepC_ensures hlegacy.prepared .settled (.nil _) hsettled hunused

/-- Steps B and C on the structure alone. -/
theorem Prepared.run (hnew : new → draws.New db.setRoots.promoteParents) :
    Process.Ensures (Stage close db)
      (fun result s =>
        (∃ genesis, db.setRoots.promoteParents.RunEnd close new genesis draws [] result s) ∨
          ¬ new ∧ ∃ e, result = .error e)
      (Attempt.write Statement.insertGenesis (fun s => s.insertGenesis draws) >>= fun _ =>
        Attempt.write Statement.linkGenesis (fun s => .ok ((), s.linkGenesis)) >>=
          fun _ => stepC_reconcile draws close : Run Unit) db.setRoots.promoteParents := by
  have hbase := hlegacy.prepared
  have hmissing : db.setRoots.promoteParents.missingGenesis = db.setRoots.promoteParents.roots := by
    unfold missingGenesis
    rw [List.filter_eq_self]
    intro r _
    rw [Table.find_eq_none_iff.mpr]
    · rfl
    · intro e he
      rw [Table.mem_def, hbase.noEvents] at he
      cases he
  generalize hgeneral : db.setRoots.promoteParents = base at hnew hbase hmissing ⊢
  apply ensures_write
  · intro e herr
    refine ⟨hgeneral ▸ .prepared, .inr ⟨?_, e, rfl⟩⟩
    intro h
    unfold insertGenesis at herr
    rw [hmissing] at herr
    have hids := (hnew h).events
    rw [hbase.noEvents] at hids
    obtain ⟨s', hok⟩ : ∃ s', base.insertEvents (base.roots.map (genesisEvent draws)) =
        .ok ((), s') := by
      apply insertEvents_succeeds
      · rw [hbase.noEvents, List.map_map]
        exact hids.sublist ((List.Sublist.refl _).append (List.nil_sublist _))
      · intro e _
        rw [Table.find_eq_none_iff]
        intro x hx
        rw [Table.mem_def, hbase.noEvents] at hx
        cases hx
      · rw [List.map_map]
        apply List.Nodup.map_on _ base.roots_nodup
        intro x hx y hy hkey
        apply eq_of_id (mem_roots.mp hx).1 (mem_roots.mp hy).1
        simpa [genesisEvent, depositKey] using hkey
    rw [hok] at herr
    cases herr
  · rintro ⟨⟩ s' hok
    unfold insertGenesis at hok
    rw [hmissing] at hok
    obtain ⟨hids, events, hevents, rfl⟩ := insertEvents_ok hok
    rw [hbase.noEvents, List.nil_append] at hevents
    subst hgeneral
    have hlogged : db.setRoots.promoteParents.Logged draws
        { db.setRoots.promoteParents with events := events } := ⟨rfl, hevents, hids, rfl, rfl⟩
    refine ⟨.logged hlogged, ?_⟩
    apply (hlogged.run hlegacy _).weaken
    · intro result s hend
      exact .inl ⟨draws, hend⟩
    · exact fun h => hlogged.unused hbase (hnew h)

omit hlegacy in
/-- Step B is two statements. -/
theorem stepsBC_eq : (stepB_genesis draws >>= fun _ => stepC_reconcile draws close : Run Unit) =
    (Attempt.write Statement.insertGenesis (fun s => s.insertGenesis draws) >>= fun _ =>
      Attempt.write Statement.linkGenesis (fun s => .ok ((), s.linkGenesis)) >>=
        fun _ => stepC_reconcile draws close) :=
  Attempt.bind_assoc _ _ _

omit hlegacy in
/-- Step A leaves the structure set. -/
theorem backfill_ensures {crash : LegacyDb → Prop}
    {post : Except BackfillError Unit → LegacyDb → Prop}
    (hroots : crash s.setRoots) (hparents : crash s.setRoots.promoteParents)
    (h : Process.Ensures crash post
      (Attempt.write Statement.insertGenesis (fun s => s.insertGenesis draws) >>= fun _ =>
        Attempt.write Statement.linkGenesis (fun s => .ok ((), s.linkGenesis)) >>=
          fun _ => stepC_reconcile draws close : Run Unit) s.setRoots.promoteParents) :
    Process.Ensures crash post (backfill draws close) s := by
  apply ensures_bind
  apply (stepA_ensures hroots hparents).weaken
  rintro _ s' ⟨rfl, rfl⟩
  rw [continues_ok, stepsBC_eq]
  exact h

/-- A run from a database with some gaps settled. -/
theorem Settled.run (hcovers : db.setRoots.promoteParents.Covers done)
    (h : db.setRoots.promoteParents.Settled close genesis done s) (hnew : new → draws.New s) :
    Process.Ensures (Stage close db)
      (db.setRoots.promoteParents.RunEnd close new genesis draws done)
      (backfill draws close) s := by
  have hbase := hlegacy.prepared
  have hstage : Stage close db s := .settled hcovers h
  have hroots := (h.rooted hbase hcovers).setRoots_eq (h.forest hbase hcovers)
  have hparents := (h.promoted hbase hcovers).promoteParents_eq
  apply backfill_ensures
  · rw [hroots]
    exact hstage
  · rw [hroots, hparents]
    exact hstage
  · rw [hroots, hparents]
    apply ensures_write
    · intro e herr
      rw [h.insertGenesis_eq] at herr
      cases herr
    · rintro _ s' hok
      rw [h.insertGenesis_eq] at hok
      cases hok
      refine ⟨hstage, ?_⟩
      apply ensures_write
      · intro e herr
        cases herr
      · rintro _ _ ⟨⟩
        rw [h.linkGenesis_eq]
        exact ⟨hstage, stepC_ensures hbase .settled hcovers h fun hn => unused_of_new (hnew hn)⟩

/-- A run from the legacy table. -/
theorem Legacy.run (hnew : new → draws.New db) :
    Process.Ensures (Stage close db)
      (fun result s =>
        (∃ genesis, db.setRoots.promoteParents.RunEnd close new genesis draws [] result s) ∨
          ¬ new ∧ ∃ e, result = .error e)
      (backfill draws close) db := by
  apply backfill_ensures .rooted .prepared
  exact Prepared.run hlegacy fun hn => new_promoteParents (new_setRoots hlegacy.forest (hnew hn))

/-- A run from any stage. -/
theorem Stage.run (hstage : Stage close db s) (hnew : new → draws.New s) :
    Process.Ensures (Stage close db)
      (fun result s =>
        (∃ genesis done, db.setRoots.promoteParents.RunEnd close new genesis draws done result s) ∨
          ¬ new ∧ ∃ e, result = .error e)
      (backfill draws close) s := by
  have hbase := hlegacy.prepared
  have hfirst : ∀ {result : Except BackfillError Unit} {s : LegacyDb},
      (∃ genesis, db.setRoots.promoteParents.RunEnd close new genesis draws [] result s) ∨
          ¬ new ∧ (∃ e, result = .error e) →
        (∃ genesis done,
          db.setRoots.promoteParents.RunEnd close new genesis draws done result s) ∨
            ¬ new ∧ ∃ e, result = .error e :=
    fun h => h.imp_left fun hend => hend.imp fun _ hend => ⟨[], hend⟩
  cases hstage with
  | legacy => exact (Legacy.run hlegacy hnew).weaken fun _ _ => hfirst
  | rooted =>
      have hroots := (rooted_setRoots hlegacy.forest).setRoots_eq (forest_setRoots hlegacy.forest)
      apply backfill_ensures
      · rw [hroots]
        exact .rooted
      · rw [hroots]
        exact .prepared
      · rw [hroots]
        exact (Prepared.run hlegacy fun hn => new_promoteParents (hnew hn)).weaken
          fun _ _ => hfirst
  | prepared =>
      have hroots := hbase.toRooted.setRoots_eq hbase.forest
      have hparents := hbase.promoted.promoteParents_eq
      apply backfill_ensures
      · rw [hroots]
        exact .prepared
      · rw [hroots, hparents]
        exact .prepared
      · rw [hroots, hparents]
        exact (Prepared.run hlegacy hnew).weaken fun _ _ => hfirst
  | @logged genesis _ h =>
      have hforest : legacyTree.IsForest s.receipts.rows := by
        rw [h.receipts]
        exact hbase.forest
      have hroots : s.setRoots = s := (h.rooted hbase.toRooted).setRoots_eq hforest
      have hparents : s.promoteParents = s := (h.promoted hbase.promoted).promoteParents_eq
      apply backfill_ensures
      · rw [hroots]
        exact .logged h
      · rw [hroots, hparents]
        exact .logged h
      · rw [hroots, hparents]
        apply ensures_write
        · intro e herr
          rw [h.insertGenesis_eq] at herr
          cases herr
        · rintro _ s' hok
          rw [h.insertGenesis_eq] at hok
          cases hok
          refine ⟨.logged h, ?_⟩
          apply (h.run hlegacy _).weaken
          · intro result s' hend
            exact .inl ⟨genesis, [], hend⟩
          · intro hn
            exact unused_of_new (new_linkGenesis (hnew hn))
  | settled hcovers h =>
      apply (h.run hlegacy hcovers hnew).weaken
      intro result s' hend
      exact .inl ⟨_, _, hend⟩

end Run

end LegacyDb

end SecureStore.Backfill
