/-
# Running the backfill again

A run that settles every root with a positive gap leaves the same database as any other, up
to the ids and times that it drew, and a run after that finds nothing to do. Where the
database refuses the child of some root, the run ends there: which roots it settled before
that is up to the order of its gap query, and it never comes to the roots that weigh less
than their leaves.
-/

import SecureStore.Backfill.Runs

namespace SecureStore.Backfill

open SecureStore.Foundation SecureStore.Inventory

namespace LegacyDb

variable {base db s s' : LegacyDb} {close : ℚ → ℚ → Bool} {genesis genesis' draws : Draws}
  {done done' : List Settlement} {result : Except BackfillError Unit} {root : LegacyReceipt}

/-! ### What the legacy table decides -/

/-- The leaves under a legacy root: what has no children there and no parent flag. -/
def leavesUnder (db : LegacyDb) (root : LegacyReceipt) : List LegacyReceipt :=
  (db.treeOf root).filter fun t => db.kids t.id = [] ∧ !t.isParent

/-- What a legacy root weighs beyond its leaves. -/
def excess (db : LegacyDb) (root : LegacyReceipt) : ℚ :=
  root.quantity - sumQty (db.leavesUnder root)

/-- The database refuses the child that would settle a root. -/
def Refuses (db : LegacyDb) (root : LegacyReceipt) : Prop :=
  10 ^ 15 ≤ db.excess root ∨ db.availableRequired = true ∨
    root.receiptNumber ++ "-RCN".toList ∈ db.receipts.rows.map LegacyReceipt.receiptNumber

instance (db : LegacyDb) (root : LegacyReceipt) : Decidable (db.Refuses root) :=
  inferInstanceAs (Decidable (_ ∨ _ ∨ _))

/-- The roots that weigh less than their leaves. -/
def outweighed (db : LegacyDb) : List Id :=
  (db.roots.filter fun root => db.excess root < 0).map LegacyReceipt.id

/-- A legacy receipt after step A. -/
def structured (db : LegacyDb) (r : LegacyReceipt) : LegacyReceipt :=
  db.setRoots.promoted (db.rerooted r)

section Structured

variable (hlegacy : db.Legacy)

include hlegacy

theorem structured_rows : db.setRoots.promoteParents.receipts.rows =
    db.receipts.rows.map db.structured := by
  rw [promoteParents_rows, setRoots_rows hlegacy.forest, List.map_map]
  rfl

theorem structured_roots : db.setRoots.promoteParents.roots = db.roots.map db.structured := by
  rw [roots_promoteParents, roots_setRoots hlegacy.forest, List.map_map]
  rfl

/-- Step A leaves the flags of what has no children, and raises the others. -/
theorem isParent_structured {r : LegacyReceipt} (hr : r ∈ db.receipts.rows) :
    (db.structured r).isParent = false ↔ db.kids r.id = [] ∧ r.isParent = false := by
  by_cases hkids : db.kids r.id = []
  · have hnone : db.setRoots.kids (db.rerooted r).id = [] := by
      rw [kids_setRoots hlegacy.forest, List.map_eq_nil_iff]
      exact hkids
    have hflag : (db.structured r).isParent = r.isParent := isParent_promoted _ hnone
    simp [hflag, hkids]
  · have hsome : db.setRoots.promoteParents.kids (db.structured r).id ≠ [] := by
      rw [structured, id_promoted, kids_promoteParents, kids_setRoots hlegacy.forest]
      simpa [rerooted] using hkids
    have hrow : db.structured r ∈ db.setRoots.promoteParents.receipts.rows := by
      rw [structured_rows hlegacy]
      exact List.mem_map_of_mem hr
    simp [(promoted_promoteParents _ hrow hsome).1, hkids]

/-- What names a root after step A is its legacy tree. -/
theorem rootReceiptId_structured (hroot : root ∈ db.roots) {r : LegacyReceipt}
    (hr : r ∈ db.receipts.rows) :
    (db.structured r).rootReceiptId = some root.id ↔ r ∈ db.treeOf root := by
  obtain ⟨top, htop, hmem⟩ := exists_root hlegacy.forest hr
  rw [structured, rootReceiptId_promoted, rerooted]
  simp only [lookup_chain hlegacy.forest htop hmem, Option.some_inj]
  constructor
  · intro hid
    rwa [← eq_of_id (mem_roots.mp htop).1 (mem_roots.mp hroot).1 hid]
  · intro hother
    exact congrArg LegacyReceipt.id (root_unique hlegacy.forest htop hroot hmem hother)

/-- The leaves that step C sums up are those of the legacy tree. -/
theorem leafSum_structured (hroot : root ∈ db.roots) :
    db.setRoots.promoteParents.leafSum root.id = sumQty (db.leavesUnder root) := by
  have hquantity : LegacyReceipt.quantity ∘ db.structured = LegacyReceipt.quantity := by
    funext r
    exact quantity_promoted (db.rerooted r)
  have hleaf : ∀ r ∈ db.receipts.rows,
      (decide ((db.structured r).rootReceiptId = some root.id ∧ !(db.structured r).isParent)) =
        decide (r ∈ db.treeOf root ∧ db.kids r.id = [] ∧ !r.isParent) := by
    intro r hr
    rw [decide_eq_decide, rootReceiptId_structured hlegacy hroot hr, Bool.not_eq_true',
      isParent_structured hlegacy hr, Bool.not_eq_true']
  have hperm : (db.receipts.rows.filter fun r =>
      r ∈ db.treeOf root ∧ db.kids r.id = [] ∧ !r.isParent).Perm (db.leavesUnder root) := by
    apply (List.perm_ext_iff_of_nodup ((List.Nodup.of_map _ db.receipts.nodup).filter _)
      ((treeOf_nodup hlegacy.forest hroot).filter _)).mpr
    intro r
    rw [List.mem_filter, List.mem_filter, decide_eq_true_eq, decide_eq_true_eq]
    constructor
    · exact fun h => h.2
    · exact fun h => ⟨treeOf_subset hlegacy.forest (mem_roots.mp hroot).1 r h.1, h⟩
  calc db.setRoots.promoteParents.leafSum root.id
      = sumQty (db.receipts.rows.filter fun r =>
          (db.structured r).rootReceiptId = some root.id ∧ !(db.structured r).isParent) := by
        rw [leafSum, structured_rows hlegacy, List.filter_map, sumQty, List.map_map, hquantity]
        rfl
    _ = sumQty (db.leavesUnder root) := by
        rw [List.filter_congr hleaf]
        exact sumQty_perm hperm

/-- The gap of a root. -/
theorem gap_structured (hroot : root ∈ db.roots) :
    db.setRoots.promoteParents.gap (db.structured root) = roundSig 20 (db.excess root) := by
  rw [gap, structured, quantity_promoted, id_promoted, excess]
  congr 2
  exact leafSum_structured hlegacy hroot

theorem gap_structured_pos (hroot : root ∈ db.roots) :
    0 < db.setRoots.promoteParents.gap (db.structured root) ↔ 0 < db.excess root := by
  rw [gap_structured hlegacy hroot, roundSig_pos_iff (by norm_num)]

/-- The negative gaps are those of the legacy table. -/
theorem negatives_structured : negatives db.setRoots.promoteParents.gapRows = db.outweighed := by
  have hbase := hlegacy.prepared
  rw [LegacyDb.gapRows_eq hbase.forest hbase.toRooted, structured_roots hlegacy, negatives,
    outweighed, List.map_map, List.filter_map, List.map_map]
  have hfilter : (db.roots.filter ((fun g : GapRow =>
      decide (roundSig 20 (g.rootQty - g.leafSum) < 0)) ∘
        (db.setRoots.promoteParents.gapRow ∘ db.structured))) =
      db.roots.filter fun root => db.excess root < 0 := by
    apply List.filter_congr
    intro root hroot
    have hgap := gap_structured hlegacy hroot
    rw [gap] at hgap
    simp only [Function.comp, gapRow, hgap, roundSig_neg_iff (by norm_num : 0 < 20)]
  rw [hfilter]
  apply List.map_congr_left
  intro root _
  exact id_promoted (db.rerooted root)

theorem hasScale_excess (hroot : root ∈ db.roots) : HasScale 3 (db.excess root) := by
  have hrow := (mem_roots.mp hroot).1
  apply (hlegacy.scale root hrow).sub
  apply hasScale_sumQty
  intro r hr
  exact hlegacy.scale r (treeOf_subset hlegacy.forest hrow r (List.mem_filter.mp hr).1)

/-- A gap does not fit its column where the root weighs too much beyond its leaves. -/
theorem storedGap_structured (hroot : root ∈ db.roots) (hgap : 0 < db.excess root) :
    10 ^ 15 ≤ |db.setRoots.promoteParents.storedGap (db.structured root)| ↔
      10 ^ 15 ≤ db.excess root := by
  have hscale := hasScale_excess hlegacy hroot
  rw [storedGap, gap_structured hlegacy hroot, ← not_lt, ← not_lt, not_iff_not]
  constructor
  · intro hlt
    have hexact : roundScale 3 (roundSig 20 (db.excess root)) = db.excess root := by
      apply roundScale_roundSig_of_lt (by norm_num) hscale
      calc |roundScale 3 (roundSig 20 (db.excess root))| * 10 ^ 3
          < 10 ^ 15 * 10 ^ 3 := mul_lt_mul_of_pos_right hlt (by norm_num)
        _ < 10 ^ 20 := by norm_num
    rw [hexact, abs_of_pos hgap] at hlt
    exact hlt
  · intro hlt
    have hfits : Fits 20 (db.excess root) := by
      apply fits_of_hasScale hscale
      calc |db.excess root| * 10 ^ 3
          = db.excess root * 10 ^ 3 := by rw [abs_of_pos hgap]
        _ < 10 ^ 15 * 10 ^ 3 := mul_lt_mul_of_pos_right hlt (by norm_num)
        _ < 10 ^ 20 := by norm_num
    rw [roundSig_of_fits hfits, roundScale_of_hasScale hscale, abs_of_pos hgap]
    exact hlt

/-- The transaction of a root with a gap fails where the database refuses its child. -/
theorem blocked_structured (hroot : root ∈ db.roots) (hgap : 0 < db.excess root) :
    db.setRoots.promoteParents.blocked (db.structured root) = none ↔ ¬ db.Refuses root := by
  have hnumbers : db.setRoots.promoteParents.receipts.rows.map LegacyReceipt.receiptNumber =
      db.receipts.rows.map LegacyReceipt.receiptNumber := by
    rw [structured_rows hlegacy, List.map_map]
    exact List.map_congr_left fun r _ => receiptNumber_promoted (db.rerooted r)
  have hnumber : (db.structured root).receiptNumber = root.receiptNumber :=
    receiptNumber_promoted (db.rerooted root)
  have hrequired : db.setRoots.promoteParents.availableRequired = db.availableRequired := rfl
  rw [blocked, hnumbers, hnumber, hrequired, Refuses]
  simp only [storedGap_structured hlegacy hroot hgap]
  split_ifs <;> simp_all

end Structured

/-! ### Where runs end -/

/-- No root is left that a run could settle. -/
def Exhausted (base : LegacyDb) (done : List Settlement) : Prop :=
  ∀ root ∈ base.roots, 0 < base.gap root → base.blocked root = none →
    root ∈ done.map Settlement.root

theorem blocked_ne_abort (base : LegacyDb) (root : LegacyReceipt) (ids : List Id) :
    base.blocked root ≠ some (.abort ids) := by
  unfold blocked
  split_ifs <;> simp

/-- Where the ids are new and no gap is blocked, or every one is, a run settles what it can. -/
theorem RunEnd.exhausted (hend : base.RunEnd close True genesis draws done result s)
    (hall : (∀ root ∈ base.roots, 0 < base.gap root → base.blocked root = none) ∨
      ∀ root ∈ base.roots, 0 < base.gap root → base.blocked root ≠ none) :
    ∃ done', base.Covers done' ∧ base.Settled close genesis done' s ∧ base.Exhausted done' := by
  obtain ⟨passed, rest, done', hgoes, hpassed, hcovers, hsettled, hended⟩ := hend
  refine ⟨done', hcovers, hsettled, ?_⟩
  intro root hroot hgap hfree
  rcases hall with hnone | hsome
  · have hthrough : rest = [] := by
      cases hended with
      | completed => rfl
      | aborted => rfl
      | @failed root' _ e hblocked =>
          obtain ⟨hgap', hblocked⟩ := hblocked trivial
          have hroot' : root' ∈ base.roots := hgoes.perm.mem_iff.mp (by simp)
          rw [hnone root' hroot' hgap'] at hblocked
          cases hblocked
    subst hthrough
    apply hpassed.settled root _ hgap
    simpa using hgoes.perm.mem_iff.mpr hroot
  · exact absurd hfree (hsome root hroot hgap)

/-- What two lists of settlements with nothing left over settle is the same. -/
theorem Exhausted.perm (hexhausted : base.Exhausted done) (hexhausted' : base.Exhausted done')
    (hcovers : base.Covers done) (hcovers' : base.Covers done') :
    (done.map Settlement.root).Perm (done'.map Settlement.root) := by
  apply (List.perm_ext_iff_of_nodup hcovers.nodup hcovers'.nodup).mpr
  intro root
  constructor
  · intro h
    obtain ⟨hroot, hgap, hfree⟩ := hcovers.of_settled h
    exact hexhausted' root hroot hgap hfree
  · intro h
    obtain ⟨hroot, hgap, hfree⟩ := hcovers'.of_settled h
    exact hexhausted root hroot hgap hfree

/-! ### What runs draw -/

/-- The key of the event that a receipt points at. -/
def sourceKey (db : LegacyDb) (r : LegacyReceipt) : Option IdempotencyKey :=
  r.sourceEventId.bind fun id =>
    (db.events.rows.find? fun e => e.id = id).map fun e => e.idempotencyKey

/-- Receipts of two databases that agree up to drawn ids, which are not among the given ones,
and up to times. -/
structure SameReceipt (ids : List Id) (db db' : LegacyDb) (r r' : LegacyReceipt) : Prop where
  id : r.id = r'.id ∨ r.id ∉ ids ∧ r'.id ∉ ids
  source : db.sourceKey r = db'.sourceKey r'
  fields : r' = { r with
    id := r'.id, sourceEventId := r'.sourceEventId
    createdAt := r'.createdAt, updatedAt := r'.updatedAt }

/-- Lists that agree in some order. -/
def SameRows {ρ : Type} (R : ρ → ρ → Prop) (rows rows' : List ρ) : Prop :=
  ∃ order, order.Perm rows' ∧ List.Forall₂ R rows order

/-- Databases that agree up to drawn ids and times, and the order of their rows. -/
structure SameUpToDraws (ids : List Id) (db db' : LegacyDb) : Prop where
  receipts : SameRows (SameReceipt ids db db') db.receipts.rows db'.receipts.rows
  events : SameRows (fun e e' : BackfillEvent => e' = { e with id := e'.id })
    db.events.rows db'.events.rows
  withdrawals : db.withdrawals = db'.withdrawals
  availableRequired : db.availableRequired = db'.availableRequired

theorem SameUpToDraws.length_eq {ids : List Id} {db db' : LegacyDb}
    (h : SameUpToDraws ids db db') :
    db.receipts.rows.length = db'.receipts.rows.length := by
  obtain ⟨order, hperm, hforall⟩ := h.receipts
  exact hforall.length_eq.trans hperm.length_eq

theorem Settled.sourceKey_of_mem (h : base.Settled close genesis done s) {e : BackfillEvent}
    (he : e ∈ s.events.rows) {r : LegacyReceipt} (hsource : r.sourceEventId = some e.id) :
    s.sourceKey r = some e.idempotencyKey := by
  have hfind : (s.events.rows.find? fun x => x.id = e.id) = some e := by
    obtain ⟨x, hx⟩ := Option.isSome_iff_exists.mp
      (List.find?_isSome.mpr ⟨e, he, decide_eq_true rfl⟩ :
        (s.events.rows.find? fun x => decide (x.id = e.id)).isSome)
    have hid : x.id = e.id := by simpa using List.find?_some hx
    have hsame : x = e := List.inj_on_of_nodup_map h.eventIds (List.mem_of_find?_eq_some hx) he hid
    rw [hx, hsame]
  rw [sourceKey, hsource, Option.bind_some, hfind]
  rfl

theorem Settled.sourceKey_finished (hbase : base.Prepared)
    (h : base.Settled close genesis done s) {r : LegacyReceipt} (hr : r ∈ base.receipts.rows) :
    s.sourceKey (finished genesis done r) =
      if r.parentReceiptId = none then some (depositKey r.id) else none := by
  split
  · rename_i hparent
    have hmem : genesisEvent genesis r ∈ s.events.rows := by
      rw [h.events]
      exact List.mem_append_left _ (List.mem_map_of_mem (mem_roots.mpr ⟨hr, hparent⟩))
    exact h.sourceKey_of_mem hmem (sourceEventId_finished genesis done r hparent)
  · rename_i hparent
    rw [finished, if_neg hparent, sourceKey, hbase.noSources r hr]
    rfl

theorem Settled.sourceKey_child (h : base.Settled close genesis done s) {x : Settlement}
    (hx : x ∈ done) :
    s.sourceKey (base.settlementChild close x) = some (reconKey x.root.id) := by
  have hmem : base.settlementEvent close x ∈ s.events.rows := by
    rw [h.events]
    exact List.mem_append_right _ (List.mem_map_of_mem hx)
  exact h.sourceKey_of_mem hmem rfl

/-- A receipt after the settlements of two runs: it differs by the event it points at and by
when it was touched. -/
theorem finished_fields (h : (done.map Settlement.root).Perm (done'.map Settlement.root))
    (r : LegacyReceipt) : finished genesis' done' r = { finished genesis done r with
      id := (finished genesis' done' r).id
      sourceEventId := (finished genesis' done' r).sourceEventId
      createdAt := (finished genesis' done' r).createdAt
      updatedAt := (finished genesis' done' r).updatedAt } := by
  have hfind : (done.find? fun x => x.root.id = r.id).isSome ↔
      (done'.find? fun x => x.root.id = r.id).isSome := by
    rw [List.find?_isSome, List.find?_isSome]
    have hmem : ∀ rows : List Settlement, (∃ x ∈ rows, decide (x.root.id = r.id) = true) ↔
        ∃ root ∈ rows.map Settlement.root, root.id = r.id := by
      intro rows
      simp
    rw [hmem, hmem]
    exact exists_congr fun root => and_congr_left fun _ => h.mem_iff
  unfold finished
  split
  · cases hd : done.find? fun x => x.root.id = r.id with
    | none =>
        have hnone : (done'.find? fun x => x.root.id = r.id) = none := by
          rw [hd] at hfind
          simpa using hfind
        rw [hnone]
        rfl
    | some x =>
        rw [hd] at hfind
        obtain ⟨x', hx'⟩ := Option.isSome_iff_exists.mp (hfind.mp rfl)
        rw [hx']
        rfl
  · rfl

/-- Lists that map alike are related wherever elements that map alike are. -/
theorem forall₂_of_map_eq {α β γ : Type*} {f : α → γ} {g : β → γ} {l : List α} {l' : List β}
    (h : l.map f = l'.map g) {R : α → β → Prop} (hR : ∀ x ∈ l, ∀ x' ∈ l', f x = g x' → R x x') :
    List.Forall₂ R l l' := by
  have hrefl : List.Forall₂ (· = ·) (l.map f) (l'.map g) := by
    rw [h]
    exact List.forall₂_refl _
  have heq : List.Forall₂ (fun x x' => f x = g x') l l' :=
    List.forall₂_map_left_iff.mp (List.forall₂_map_right_iff.mp hrefl)
  obtain ⟨hlength, hzip⟩ := List.forall₂_iff_zip.mp heq
  apply List.forall₂_iff_zip.mpr
  refine ⟨hlength, ?_⟩
  intro x x' hmem
  obtain ⟨hx, hx'⟩ := List.of_mem_zip hmem
  exact hR x hx x' hx' (hzip hmem)

/-- Databases with the same roots settled agree up to what was drawn. -/
theorem Settled.same (hbase : base.Prepared)
    (hroots : (done.map Settlement.root).Perm (done'.map Settlement.root))
    (h : base.Settled close genesis done s) (h' : base.Settled close genesis' done' s') :
    SameUpToDraws (base.receipts.rows.map LegacyReceipt.id) s s' := by
  obtain ⟨order, hperm, horder⟩ := exists_perm_map hroots
  refine ⟨?_, ?_, h.withdrawals.trans h'.withdrawals.symm,
    h.availableRequired.trans h'.availableRequired.symm⟩
  · refine ⟨base.receipts.rows.map (finished genesis' done') ++
      order.map (base.settlementChild close), ?_, ?_⟩
    · rw [h'.receipts]
      exact (hperm.map _).append_left _
    · rw [h.receipts]
      apply List.rel_append
      · apply List.forall₂_map_left_iff.mpr
        apply List.forall₂_map_right_iff.mpr
        apply List.forall₂_same.mpr
        intro r hr
        exact ⟨.inl ((id_finished genesis done r).trans (id_finished genesis' done' r).symm),
          (h.sourceKey_finished hbase hr).trans (h'.sourceKey_finished hbase hr).symm,
          finished_fields hroots r⟩
      · apply List.forall₂_map_left_iff.mpr
        apply List.forall₂_map_right_iff.mpr
        apply forall₂_of_map_eq horder
        intro x hx x' hx' hroot
        have hx' : x' ∈ done' := hperm.mem_iff.mp hx'
        refine ⟨.inr ⟨?_, ?_⟩, ?_, ?_⟩
        · rintro hmem
          obtain ⟨r, hr, hid⟩ := List.mem_map.mp hmem
          exact h.child_fresh hx hr hid.symm
        · rintro hmem
          obtain ⟨r, hr, hid⟩ := List.mem_map.mp hmem
          exact h'.child_fresh hx' hr hid.symm
        · rw [h.sourceKey_child hx, h'.sourceKey_child hx', hroot]
        · unfold settlementChild
          rw [hroot]
          rfl
  · refine ⟨base.roots.map (genesisEvent genesis') ++ order.map (base.settlementEvent close),
      ?_, ?_⟩
    · rw [h'.events]
      exact (hperm.map _).append_left _
    · rw [h.events]
      apply List.rel_append
      · apply List.forall₂_map_left_iff.mpr
        apply List.forall₂_map_right_iff.mpr
        apply List.forall₂_same.mpr
        intro r _
        rfl
      · apply List.forall₂_map_left_iff.mpr
        apply List.forall₂_map_right_iff.mpr
        apply forall₂_of_map_eq horder
        intro x _ x' _ hroot
        unfold settlementEvent
        rw [hroot]
        rfl

/-- The settlements determine the database. -/
theorem Settled.unique (h : base.Settled close genesis done s)
    (h' : base.Settled close genesis done s') : s = s' := by
  have hreceipts : s.receipts = s'.receipts := Table.ext (h.receipts.trans h'.receipts.symm)
  have hevents : s.events = s'.events := Table.ext (h.events.trans h'.events.symm)
  have hwithdrawals := h.withdrawals.trans h'.withdrawals.symm
  have hrequired := h.availableRequired.trans h'.availableRequired.symm
  cases s
  cases s'
  congr

/-! ### Stopped runs, and the runs after them -/

/-- What stopped runs leave behind, one after the other. -/
def afterStops (db : LegacyDb) (close : ℚ → ℚ → Bool) (stops : List (Draws × ℕ)) : LegacyDb :=
  stops.foldl (fun s stop => Process.stopAfter stop.2 (backfill stop.1 close) s) db

theorem stage_afterStops (hlegacy : db.Legacy) (hstage : Stage close db s)
    (stops : List (Draws × ℕ)) : Stage close db (s.afterStops close stops) := by
  induction stops generalizing s with
  | nil => exact hstage
  | cons stop stops ih =>
      have hnew : False → stop.1.New s := False.elim
      exact ih ((hstage.run hlegacy hnew).stopAfter hstage stop.2)

/-- Where nothing is left to settle, a further run changes nothing. -/
theorem Settled.further (hlegacy : db.Legacy)
    (hcovers : db.setRoots.promoteParents.Covers done)
    (h : db.setRoots.promoteParents.Settled close genesis done s)
    (hexhausted : db.setRoots.promoteParents.Exhausted done) (further : Draws) :
    ((backfill further close).exec s).2 = s := by
  have hnew : False → further.New s := False.elim
  obtain ⟨passed, rest, done', -, hpassed, hcovers', hsettled, -⟩ :=
    (h.run hlegacy hcovers hnew).exec
  have hsubset : done'.map Settlement.root ⊆ done.map Settlement.root := by
    intro root hmem
    obtain ⟨hroot, hgap, hfree⟩ := hcovers'.of_settled hmem
    exact hexhausted root hroot hgap hfree
  have hlength : done'.length ≤ done.length := by
    simpa using (hcovers'.nodup.subperm hsubset).length_le
  have hsame : done = done' := hpassed.extends_.eq_of_length_le hlength
  subst hsame
  exact hsettled.unique h

/-- The backfill can be run again from wherever runs were stopped: it leaves what an
uninterrupted run leaves, up to what was drawn, a further run changes nothing, and where
roots weigh less than their leaves it ends with the abort that names them. -/
structure Rerunnable (close : ℚ → ℚ → Bool) (db : LegacyDb) : Prop where
  same : ∀ (stops : List (Draws × ℕ)) {again whole : Draws},
    again.New (db.afterStops close stops) → whole.New db →
      SameUpToDraws (db.receipts.rows.map LegacyReceipt.id)
        ((backfill again close).exec (db.afterStops close stops)).2
        ((backfill whole close).exec db).2
  further : ∀ (stops : List (Draws × ℕ)) {again : Draws} (further : Draws),
    again.New (db.afterStops close stops) →
      ((backfill further close).exec
          ((backfill again close).exec (db.afterStops close stops)).2).2 =
        ((backfill again close).exec (db.afterStops close stops)).2
  aborts : ∀ (stops : List (Draws × ℕ)) {again : Draws},
    again.New (db.afterStops close stops) → db.outweighed ≠ [] →
      ∃ ids, ids.Perm db.outweighed ∧
        ((backfill again close).exec (db.afterStops close stops)).1 = .error (.abort ids)

/-! ### The order of the gap query -/

/-- Some ids are new for a legacy table, in whatever order its groups come. -/
theorem Legacy.exists_new (hlegacy : db.Legacy) (groups : Scan GapRow) :
    ∃ draws : Draws, draws.New db ∧ draws.groups = groups := by
  let bound := (db.receipts.rows.map LegacyReceipt.id).sum + 1
  have hbound : ∀ r ∈ db.receipts.rows, r.id < bound := fun r hr =>
    Nat.lt_succ_of_le (List.single_le_sum (by simp) r.id (List.mem_map_of_mem hr))
  have hroots : (db.roots.map LegacyReceipt.id).Nodup :=
    db.receipts.nodup.sublist (List.filter_sublist.map _)
  have hdrawn : ∀ f : Id → Id, Function.Injective f → (db.roots.map fun r => f r.id).Nodup := by
    intro f hf
    have hmapped := hroots.map hf
    rwa [List.map_map] at hmapped
  refine ⟨⟨fun id => 2 * id, fun id => 2 * id + 1, fun id => bound + id, fun _ => 0, groups⟩,
    ⟨?_, ?_⟩, rfl⟩
  · rw [hlegacy.noEvents, List.map_nil, List.append_nil]
    apply List.Nodup.append
    · exact hdrawn _ fun x y h => by simpa using h
    · exact hdrawn _ fun x y h => by simpa using h
    · intro k hk hk'
      obtain ⟨x, -, rfl⟩ := List.mem_map.mp hk
      obtain ⟨y, -, heq⟩ := List.mem_map.mp hk'
      exact Nat.two_mul_ne_two_mul_add_one heq.symm
  · apply List.Nodup.append
    · exact hdrawn _ fun x y h => by simpa using h
    · exact db.receipts.nodup
    · intro k hk hk'
      obtain ⟨x, -, rfl⟩ := List.mem_map.mp hk
      obtain ⟨y, hy, heq⟩ := List.mem_map.mp hk'
      exact absurd (heq ▸ hbound y hy) (Nat.not_lt.mpr (Nat.le_add_right _ _))

/-- A run whose groups start with a root goes over that root first. -/
theorem Goes.first {order : List LegacyReceipt} (hgoes : base.Goes draws order)
    (hroot : root ∈ base.roots) (hgroups : draws.groups = .first fun g => g.rootId = root.id) :
    ∃ rest, order = root :: rest := by
  obtain ⟨gaps, hids, horder⟩ := hgoes.asked
  have hmem : root.id ∈ gaps.map GapRow.rootId := by
    rw [hids]
    exact List.mem_map_of_mem hroot
  obtain ⟨g, hg, hid⟩ := List.mem_map.mp hmem
  have hchosen : g ∈ gaps.filter fun g => g.rootId = root.id :=
    List.mem_filter.mpr ⟨hg, decide_eq_true hid⟩
  rw [hgroups] at horder
  change (gaps.filter _ ++ gaps.filter _).map GapRow.rootId = _ at horder
  cases hfirst : gaps.filter fun g => g.rootId = root.id with
  | nil =>
      rw [hfirst] at hchosen
      cases hchosen
  | cons g' others =>
      have hid' : g'.rootId = root.id := by
        have hmem' : g' ∈ gaps.filter fun g => g.rootId = root.id := by
          rw [hfirst]
          exact List.mem_cons_self
        simpa using (List.mem_filter.mp hmem').2
      rw [hfirst] at horder
      cases horder' : order with
      | nil =>
          rw [horder'] at horder
          cases horder
      | cons top rest =>
          rw [horder'] at horder
          have hhead : g'.rootId = top.id := (List.cons.inj horder).1
          have htop : top ∈ base.roots := hgoes.perm.mem_iff.mp (by simp [horder'])
          have hsame : top = root := eq_of_id (mem_roots.mp htop).1 (mem_roots.mp hroot).1
            (hhead.symm.trans hid')
          exact ⟨rest, by rw [hsame]⟩

/-- A run that comes to a root whose child is refused before it settled any settles none. -/
theorem RunEnd.refused_first (hend : base.RunEnd close True genesis draws [] result s)
    (hroot : root ∈ base.roots) (hgap : 0 < base.gap root) (hblocked : base.blocked root ≠ none)
    (hgroups : draws.groups = .first fun g => g.rootId = root.id) :
    s.receipts.rows.length = base.receipts.rows.length := by
  obtain ⟨passed, rest, done', hgoes, hpassed, hcovers, hsettled, -⟩ := hend
  obtain ⟨tail, horder⟩ := hgoes.first hroot hgroups
  have hnone : passed = [] := by
    cases passed with
    | nil => rfl
    | cons top passed =>
        obtain ⟨rfl, -⟩ := List.cons.inj horder
        have hfree := (hcovers.of_settled (hpassed.settled top List.mem_cons_self hgap)).2.2
        exact absurd hfree hblocked
  have hdone : done' = [] := by
    rw [← List.map_eq_nil_iff (f := Settlement.root), List.eq_nil_iff_forall_not_mem]
    intro x hx
    rcases hpassed.only x hx with hbefore | hbefore
    · cases hbefore
    · rw [hnone] at hbefore
      cases hbefore
  rw [hsettled.receipts, hdone, List.map_nil, List.append_nil, List.length_map]

/-- A run that comes to another root with a gap first settles it. -/
theorem RunEnd.settled_first (hend : base.RunEnd close True genesis draws [] result s)
    (hroot : root ∈ base.roots) (hgap : 0 < base.gap root) (hfree : base.blocked root = none)
    (hgroups : draws.groups = .first fun g => g.rootId = root.id) :
    base.receipts.rows.length < s.receipts.rows.length := by
  obtain ⟨passed, rest, done', hgoes, hpassed, hcovers, hsettled, hended⟩ := hend
  obtain ⟨tail, horder⟩ := hgoes.first hroot hgroups
  have hmem : root ∈ passed := by
    cases passed with
    | nil =>
        rw [List.nil_append] at horder
        subst horder
        cases hended with
        | failed h =>
            rw [hfree] at h
            cases (h trivial).2
    | cons top passed =>
        obtain ⟨rfl, -⟩ := List.cons.inj horder
        exact List.mem_cons_self
  have hdone : 0 < done'.length := by
    have hlength := List.length_pos_of_mem (hpassed.settled root hmem hgap)
    rwa [List.length_map] at hlength
  rw [hsettled.receipts, List.length_append, List.length_map, List.length_map]
  omega

section Rerun

variable (hlegacy : db.Legacy)

include hlegacy

/-- How a run to its end from what stopped runs left ends. -/
theorem Legacy.run_end {stops : List (Draws × ℕ)} {again : Draws}
    (hagain : again.New (db.afterStops close stops)) :
    ∃ genesis done, db.setRoots.promoteParents.RunEnd close True genesis again done
      ((backfill again close).exec (db.afterStops close stops)).1
      ((backfill again close).exec (db.afterStops close stops)).2 := by
  have hnew : True → again.New (db.afterStops close stops) := fun _ => hagain
  rcases ((stage_afterStops hlegacy .legacy stops).run hlegacy hnew).exec with hend | ⟨hnot, -⟩
  · exact hend
  · exact absurd trivial hnot

/-- How an uninterrupted run ends. -/
theorem Legacy.whole_end (close : ℚ → ℚ → Bool) {whole : Draws} (hwhole : whole.New db) :
    ∃ genesis, db.setRoots.promoteParents.RunEnd close True genesis whole []
      ((backfill whole close).exec db).1 ((backfill whole close).exec db).2 := by
  have hnew : True → whole.New db := fun _ => hwhole
  rcases (Legacy.run hlegacy hnew).exec with hend | ⟨hnot, -⟩
  · exact hend
  · exact absurd trivial hnot

/-- Where no gap is refused, or every one is and there is nothing to abort for, the backfill
can be run again. -/
theorem Legacy.rerunnable
    (hall : (∀ root ∈ db.setRoots.promoteParents.roots,
        0 < db.setRoots.promoteParents.gap root →
          db.setRoots.promoteParents.blocked root = none) ∨
      (∀ root ∈ db.setRoots.promoteParents.roots,
        0 < db.setRoots.promoteParents.gap root →
          db.setRoots.promoteParents.blocked root ≠ none) ∧ db.outweighed = []) :
    Rerunnable close db := by
  have hbase := hlegacy.prepared
  have hids : db.setRoots.promoteParents.receipts.rows.map LegacyReceipt.id =
      db.receipts.rows.map LegacyReceipt.id := by
    rw [structured_rows hlegacy, List.map_map]
    exact List.map_congr_left fun r _ => id_promoted (db.rerooted r)
  have hall' := hall.imp_right fun h => h.1
  constructor
  · intro stops again whole hagain hwhole
    obtain ⟨genesis, done, hend⟩ := Legacy.run_end hlegacy hagain
    obtain ⟨done, hcovers, hsettled, hexhausted⟩ := hend.exhausted hall'
    obtain ⟨genesis', hend'⟩ := Legacy.whole_end hlegacy close hwhole
    obtain ⟨done', hcovers', hsettled', hexhausted'⟩ := hend'.exhausted hall'
    rw [← hids]
    exact hsettled.same hbase (hexhausted.perm hexhausted' hcovers hcovers') hsettled'
  · intro stops again further hagain
    obtain ⟨genesis, done, hend⟩ := Legacy.run_end hlegacy hagain
    obtain ⟨done, hcovers, hsettled, hexhausted⟩ := hend.exhausted hall'
    exact hsettled.further hlegacy hcovers hexhausted further
  · intro stops again hagain houtweighed
    have hfree := hall.resolve_right fun h => houtweighed h.2
    obtain ⟨genesis, done, passed, rest, done', hgoes, -, -, -, hended⟩ :=
      Legacy.run_end hlegacy hagain
    rw [← negatives_structured hlegacy] at houtweighed ⊢
    generalize ((backfill again close).exec (db.afterStops close stops)).1 = result at hended ⊢
    cases hended with
    | completed h => exact absurd h houtweighed
    | @aborted ids _ hids => exact ⟨ids, hids, rfl⟩
    | @failed root _ e h =>
        obtain ⟨hgap, hblocked⟩ := h trivial
        have hroot := hgoes.perm.mem_iff.mp
          (List.mem_append_right passed List.mem_cons_self)
        rw [hfree root hroot hgap] at hblocked
        cases hblocked

/-- A gap that is refused must not hide another, nor an abort. -/
theorem Rerunnable.all_refused (h : Rerunnable close db) {refused : LegacyReceipt}
    (hrefused : refused ∈ db.setRoots.promoteParents.roots)
    (hgap : 0 < db.setRoots.promoteParents.gap refused)
    (hblocked : db.setRoots.promoteParents.blocked refused ≠ none) :
    (∀ root ∈ db.setRoots.promoteParents.roots, 0 < db.setRoots.promoteParents.gap root →
      db.setRoots.promoteParents.blocked root ≠ none) ∧ db.outweighed = [] := by
  obtain ⟨draws, hnew, hgroups⟩ :=
    hlegacy.exists_new (.first fun g => g.rootId = refused.id)
  obtain ⟨genesis, hend⟩ := Legacy.whole_end hlegacy close hnew
  constructor
  · intro root hroot hgap' hfree
    obtain ⟨draws', hnew', hgroups'⟩ :=
      hlegacy.exists_new (.first fun g => g.rootId = root.id)
    obtain ⟨genesis', hend'⟩ := Legacy.whole_end hlegacy close hnew'
    have hless := hend.refused_first hrefused hgap hblocked hgroups
    have hmore := hend'.settled_first hroot hgap' hfree hgroups'
    have hsame := (h.same [] hnew hnew').length_eq
    change ((backfill draws close).exec db).2.receipts.rows.length = _ at hsame
    omega
  · by_contra houtweighed
    obtain ⟨ids, -, hresult⟩ := h.aborts [] hnew houtweighed
    obtain ⟨passed, rest, done', hgoes, hpassed, hcovers, -, hended⟩ := hend
    change ((backfill draws close).exec db).1 = _ at hresult
    rw [hresult] at hended
    cases hended with
    | aborted =>
        have hmem : refused ∈ passed := by simpa using hgoes.perm.mem_iff.mpr hrefused
        exact hblocked (hcovers.of_settled (hpassed.settled refused hmem hgap)).2.2
    | failed h => exact blocked_ne_abort _ _ _ (h trivial).2

end Rerun

/-- The backfill can be run again exactly when the database refuses the child of no root that
weighs more than its leaves, or of every such root, and then no root weighs less. -/
theorem backfill_rerunnable_iff (close : ℚ → ℚ → Bool) {db : LegacyDb} (hlegacy : db.Legacy) :
    Rerunnable close db ↔
      (∀ root ∈ db.roots, 0 < db.excess root → ¬ db.Refuses root) ∨
        (∀ root ∈ db.roots, 0 < db.excess root → db.Refuses root) ∧ db.outweighed = [] := by
  have hfree : (∀ root ∈ db.setRoots.promoteParents.roots,
      0 < db.setRoots.promoteParents.gap root →
        db.setRoots.promoteParents.blocked root = none) ↔
      ∀ root ∈ db.roots, 0 < db.excess root → ¬ db.Refuses root := by
    rw [structured_roots hlegacy, List.forall_mem_map]
    apply forall₂_congr
    intro root hroot
    rw [gap_structured_pos hlegacy hroot]
    exact imp_congr_right fun hgap => blocked_structured hlegacy hroot hgap
  have hall : (∀ root ∈ db.setRoots.promoteParents.roots,
      0 < db.setRoots.promoteParents.gap root →
        db.setRoots.promoteParents.blocked root ≠ none) ↔
      ∀ root ∈ db.roots, 0 < db.excess root → db.Refuses root := by
    rw [structured_roots hlegacy, List.forall_mem_map]
    apply forall₂_congr
    intro root hroot
    rw [gap_structured_pos hlegacy hroot]
    apply imp_congr_right
    intro hgap
    rw [Ne, blocked_structured hlegacy hroot hgap, not_not]
  rw [← hfree, ← hall]
  constructor
  · intro h
    by_cases hnone : ∀ root ∈ db.setRoots.promoteParents.roots,
        0 < db.setRoots.promoteParents.gap root → db.setRoots.promoteParents.blocked root = none
    · exact .inl hnone
    · push Not at hnone
      obtain ⟨refused, hrefused, hgap, hblocked⟩ := hnone
      exact .inr (h.all_refused hlegacy hrefused hgap hblocked)
  · exact Legacy.rerunnable hlegacy

/-- A receipt of a legacy table. -/
def legacyReceipt (id : Id) (parentReceiptId : Option Id) (quantity : ℚ) : LegacyReceipt where
  id := id
  receiptNumber := [Char.ofNat (65 + id)]
  status := .active
  tenantId := 0
  commodityId := 0
  quantity := quantity
  grade := none
  warehouseId := 0
  clientId := 0
  approvalStatus := .approved
  parentReceiptId := parentReceiptId
  rootReceiptId := none
  isParent := false
  supersededAt := none
  sourceTxnType := none
  sourceTxnId := none
  sourceEventId := none
  dateOfDeposit := 0
  expiryDate := none
  createdAt := 0
  updatedAt := 0

/-- A root of 10 with a child of 6, and a root of 5 with a child of 7. -/
def sampleLegacy : LegacyDb where
  receipts := ⟨[legacyReceipt 0 none 10, legacyReceipt 1 (some 0) 6,
    legacyReceipt 2 none 5, legacyReceipt 3 (some 2) 7], by decide⟩
  events := Table.empty
  withdrawals := []
  availableRequired := false

/-- Ids from a block that starts at a number. -/
def drawsFrom (start : ℕ) : Draws where
  genesis := fun root => start + root
  event := fun root => start + 10 + root
  child := fun root => start + 20 + root
  now := fun _ => start
  groups := .stored

theorem legacy_sampleLegacy : sampleLegacy.Legacy where
  forest :=
    { closed := by decide
      increases := ⟨fun k => k % 2, by decide⟩ }
  scale := by
    intro r hr
    have hwhole : ∀ x ∈ sampleLegacy.receipts.rows,
        x.quantity * 10 ^ 3 = ((x.quantity.num * 1000 : ℤ) : ℚ) := by decide +kernel
    exact ⟨_, hwhole r hr⟩
  numbers := by decide
  noEvents := rfl
  noSources := by decide

theorem backfill_rerunnable_sample : Rerunnable (fun w gap => w = gap) sampleLegacy :=
  (backfill_rerunnable_iff _ legacy_sampleLegacy).mpr (.inl (by decide +kernel))

/-- The sample before the quantity column has lost its NOT NULL. -/
def sampleRequired : LegacyDb := { sampleLegacy with availableRequired := true }

theorem legacy_sampleRequired : sampleRequired.Legacy :=
  ⟨legacy_sampleLegacy.forest, legacy_sampleLegacy.scale, legacy_sampleLegacy.numbers,
    legacy_sampleLegacy.noEvents, legacy_sampleLegacy.noSources⟩

/-- The root of 5 weighs less than its leaf, but the run ends at the root of 10. -/
theorem refused_gap_hides_abort :
    sampleRequired.Legacy ∧ sampleRequired.outweighed = [2] ∧
      (drawsFrom 100).New sampleRequired ∧
      ((backfill (drawsFrom 100) fun w gap => w = gap).exec sampleRequired).1 =
        .error .notNullViolation ∧
      ¬ Rerunnable (fun w gap => w = gap) sampleRequired := by
  have hnew : (drawsFrom 100).New sampleRequired := ⟨by decide +kernel, by decide +kernel⟩
  have hresult : ((backfill (drawsFrom 100) fun w gap => w = gap).exec sampleRequired).1 =
      .error .notNullViolation := by decide +kernel
  have houtweighed : sampleRequired.outweighed = [2] := by decide +kernel
  refine ⟨legacy_sampleRequired, houtweighed, hnew, hresult, ?_⟩
  intro h
  obtain ⟨ids, -, habort⟩ := h.aborts [] hnew (by simp [houtweighed])
  change ((backfill (drawsFrom 100) fun w gap => w = gap).exec sampleRequired).1 = _ at habort
  rw [hresult] at habort
  cases habort

end LegacyDb

end SecureStore.Backfill
