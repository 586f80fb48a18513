/-
# What the columns keep of a split

A split takes a part off a stored quantity and leaves the difference. The part is compared
as it was asked for, and part and difference are rounded to three decimals on insert, each
on its own. Together they are the source again unless the difference is a tie: both are then
rounded up. A part below half a thousandth is stored as nothing.
-/

import SecureStore.Inventory.Balances

namespace SecureStore.Inventory

open SecureStore.Foundation

/-! ## Two parts of a stored quantity -/

/-- A part of a stored quantity is stored with what it leaves: it is the whole, or both are
half a thousandth at least and what it leaves, in twenty digits, is no tie of three decimals
that it was rounded up to or is. -/
def Storable (quantity part : ℚ) : Prop :=
  part = quantity ∨ (1 / 2000 ≤ part ∧ 1 / 2000 ≤ Numeric.postgres.minus quantity part ∧
    ¬ (IsTie 3 (Numeric.postgres.minus quantity part) ∧
      quantity - part ≤ Numeric.postgres.minus quantity part))

instance (quantity part : ℚ) : Decidable (Storable quantity part) :=
  inferInstanceAs (Decidable (_ ∨ _))

section Parts

variable {q p : ℚ}

/-- Half a thousandth is the least that is not stored as zero. -/
theorem roundScale_pos_iff (hp : 0 ≤ p) : 0 < roundScale 3 p ↔ 1 / 2000 ≤ p := by
  obtain ⟨n, hn⟩ : ∃ n, roundHalfUp (p * 10 ^ 3) = n := ⟨_, rfl⟩
  obtain ⟨hlow, hhigh⟩ := (roundHalfUp_eq_iff (by positivity)).mp hn
  have hthousand : (10 : ℚ) ^ 3 = 1000 := by norm_num
  rw [hthousand] at hlow hhigh
  unfold roundScale
  rw [hn, div_pos_iff_of_pos_right (by norm_num), Int.cast_pos]
  constructor
  · intro hpos
    have hone : (1 : ℚ) ≤ n := by exact_mod_cast hpos
    linarith
  · intro hle
    have hlarge : (0 : ℚ) < n := by linarith
    exact_mod_cast hlarge

/-- The rounded parts are positive and add up exactly when the part is storable. -/
theorem parts_stored_iff (hq : HasScale 3 q) (hcolumn : q < 10 ^ 15) (hp : 0 < p) (hlt : p < q) :
    (0 < roundScale 3 p ∧ 0 < roundScale 3 (roundSig 20 (q - p)) ∧
      roundScale 3 p + roundScale 3 (roundSig 20 (q - p)) = q) ↔ Storable q p := by
  have hd : 0 < q - p := sub_pos.mpr hlt
  have hrest : 0 < roundSig 20 (q - p) := roundSig_pos (by decide) hd
  have hlast : lastExponent 20 (q - p) ≤ -((3 : ℕ) + 1) := by
    have hbound : q - p < (10 : ℚ) ^ (15 : ℤ) := by
      rw [zpow_ofNat]
      linarith
    have hdigits : lastExponent 20 (q - p) ≤ _ := lastExponent_le_of_lt hd hbound
    push_cast at hdigits ⊢
    omega
  obtain ⟨k, hk⟩ := hq
  have hsum : roundScale 3 p + roundScale 3 (roundSig 20 (q - p)) = q ↔
      ¬ (IsTie 3 (roundSig 20 (q - p)) ∧ q - p ≤ roundSig 20 (q - p)) := by
    have hparts := roundHalfUp_add_iff (k := k) (x := p * 10 ^ 3)
      (y := roundSig 20 (q - p) * 10 ^ 3) (by positivity) (by positivity) ?_ ?_
    · have htie : (∃ m : ℤ, roundSig 20 (q - p) * 10 ^ 3 = m + 1 / 2) ↔
          IsTie 3 (roundSig 20 (q - p)) := Iff.rfl
      have hle : (k : ℚ) - p * 10 ^ 3 ≤ roundSig 20 (q - p) * 10 ^ 3 ↔
          q - p ≤ roundSig 20 (q - p) := by
        rw [← hk, ← sub_mul]
        exact mul_le_mul_iff_left₀ (by norm_num)
      rw [← htie, ← hle, ← hparts]
      unfold roundScale
      rw [← add_div, div_eq_iff (by norm_num), hk]
      exact_mod_cast Iff.rfl
    · intro n hn
      have htie : IsTie 3 (((n : ℚ) + 1 / 2) / 10 ^ 3) := ⟨n, by ring⟩
      have hround := roundSig_le_tie hd.le htie hlast
        (by rw [le_div_iff₀ (by norm_num), sub_mul, hk]; exact hn)
      rwa [le_div_iff₀ (by norm_num)] at hround
    · intro n hn
      have htie : IsTie 3 (((n : ℚ) + 1 / 2) / 10 ^ 3) := ⟨n, by ring⟩
      have hround := tie_le_roundSig hd.le htie hlast
        (by rw [div_le_iff₀ (by norm_num), sub_mul, hk]; exact hn)
      rwa [div_le_iff₀ (by norm_num)] at hround
  rw [roundScale_pos_iff hp.le, roundScale_pos_iff hrest.le, hsum]
  unfold Storable
  rw [or_iff_right hlt.ne]
  rfl

end Parts

/-! ## Operations -/

/-- The children of a receipt carry positive quantities that add up to its own. -/
def SplitsExactly (s : Ledger) (source : Receipt) : Prop :=
  (∀ k ∈ receiptTree.children s.receipts.rows source.id, 0 < k.quantity) ∧
    sumQuantity (receiptTree.children s.receipts.rows source.id) = source.quantity

instance (s : Ledger) (source : Receipt) : Decidable (SplitsExactly s source) :=
  inferInstanceAs (Decidable (_ ∧ _))

section Operations

variable {uuids : Uuids} {op : LedgerOp} {s s' : Ledger} {events : List InventoryEvent}
  {change : Change} {result : LedgerResult} {source : Receipt} {part : ℚ}

/-- What the remainder of a partition is stored as, if anything is left. -/
theorem partitionRemainder_of_lt (uuids : Uuids) (number : List Char)
    (hlt : part < source.quantity) :
    ∃ rem, partitionRemainder .postgres uuids source part number = some rem ∧
      rem.quantity = roundScale 3 (roundSig 20 (source.quantity - part)) := by
  have hpos : 0 < Numeric.postgres.minus source.quantity part :=
    roundSig_pos (by decide) (sub_pos.mpr hlt)
  unfold partitionRemainder
  rw [if_pos hpos]
  exact ⟨_, rfl, rfl⟩

theorem partitionRemainder_self {number : List Char} :
    partitionRemainder .postgres uuids source source.quantity number = none := by
  unfold partitionRemainder
  apply if_neg
  change ¬ 0 < roundSig 20 (source.quantity - source.quantity)
  rw [sub_self, roundSig_of_fits (fits_zero 20)]
  exact lt_irrefl 0

/-- The quantities of the two children of a split. -/
theorem pair_stored_iff (hq : HasScale 3 source.quantity) (hcolumn : source.quantity < 10 ^ 15)
    (hp : 0 < part) (hlt : part < source.quantity) {first second : Receipt}
    (hfirst : first.quantity = roundScale 3 part)
    (hsecond : second.quantity = roundScale 3 (roundSig 20 (source.quantity - part))) :
    ((∀ k ∈ [first, second], 0 < k.quantity) ∧
      sumQuantity [first, second] = source.quantity) ↔ Storable source.quantity part := by
  rw [← parts_stored_iff hq hcolumn hp hlt, ← hfirst, ← hsecond]
  simp [sumQuantity, and_assoc]

/-- A part is split off exactly when it is storable. -/
theorem Effect.splitsExactly_iff
    (heffect : Effect .postgres uuids s op events change result)
    (hcommits : Commits s events change s') (hlife : Lifecycle s) (hscaled : Scaled s)
    (hsplit : op.splitOf s = some (source, part)) (hcolumn : source.quantity < 10 ^ 15) :
    SplitsExactly s' source ↔ Storable source.quantity part := by
  -- the children of a leaf are those that its split creates
  have kids : ∀ {id tenantId : Id} {r : Receipt} {created : List Receipt},
      Loaded s id tenantId r → r.status ≠ .split → change = .split r created →
      (∀ k ∈ created, k.parentReceiptId = some r.id) →
      receiptTree.children s'.receipts.rows r.id = created := by
    intro id tenantId r created hloaded hstatus hchange hparents
    have hleaf : ∀ x ∈ s.receipts, x.id = r.id → x.isParent = false := by
      intro x hx hid
      obtain rfl := Table.eq_of_key_eq hx (Table.mem_of_find hloaded.1) hid
      exact Bool.eq_false_iff.mpr fun hflag => hstatus ((hlife.parent_iff x hx).mp hflag)
    rw [hcommits.children heffect, hlife.childless hleaf, hchange]
    apply List.filter_eq_self.mpr
    intro k hk
    exact decide_eq_true (hparents k hk)
  have whole : ∀ {r : Receipt} {number : List Char} {primary : Primary}, 0 < r.quantity →
      HasScale 3 r.quantity →
      (∀ k ∈ [primaryChild .postgres uuids r r.quantity primary number], 0 < k.quantity) ∧
        sumQuantity [primaryChild .postgres uuids r r.quantity primary number] = r.quantity := by
    intro r number primary hpos hscale
    have hstored : (primaryChild .postgres uuids r r.quantity primary number).quantity =
        r.quantity := roundScale_of_hasScale hscale
    unfold sumQuantity
    simp only [List.mem_singleton, forall_eq, List.map_cons, List.map_nil, List.sum_cons,
      List.sum_nil, add_zero, hstored, hpos, and_self]
  cases heffect with
  | hold input src number number' loaded active approved leaf positive available =>
      have hscale := hscaled src (Table.mem_of_find loaded.1)
      obtain ⟨rfl, rfl⟩ : src = source ∧ input.quantity = part := by
        simpa [LedgerOp.splitOf, loaded.1] using hsplit
      have hstatus : src.status ≠ .split := by
        rw [active]
        decide
      unfold SplitsExactly
      rw [kids loaded hstatus rfl ?_]
      · rcases available.lt_or_eq with hlt | heq
        · obtain ⟨rem, hrem, hquantity⟩ :=
            partitionRemainder_of_lt uuids number' hlt
          rw [hrem]
          exact pair_stored_iff hscale hcolumn positive hlt rfl hquantity
        · rw [heq, partitionRemainder_self]
          exact iff_of_true (whole (heq ▸ positive) hscale) (.inl rfl)
      · intro k hk
        rcases List.mem_cons.mp hk with rfl | hk
        · rfl
        · obtain rfl := mem_partitionRemainder hk
          rfl
  | releasePartial input src number number' loaded lien positive available =>
      have hscale := hscaled src (Table.mem_of_find loaded.1)
      obtain ⟨rfl, rfl⟩ : src = source ∧ input.releaseQuantity = part := by
        simpa [LedgerOp.splitOf, loaded.1] using hsplit
      have hstatus : src.status ≠ .split := by
        rw [lien]
        decide
      unfold SplitsExactly
      rw [kids loaded hstatus rfl ?_]
      · exact pair_stored_iff hscale hcolumn positive available rfl rfl
      · intro k hk
        rcases List.mem_pair.mp hk with rfl | rfl <;> rfl
  | seizePart input r pq number number' loaded loan hpart positive available =>
      have hscale := hscaled r (Table.mem_of_find loaded.1)
      obtain ⟨rfl, rfl⟩ : r = source ∧ pq = part := by
        simpa [LedgerOp.splitOf, hpart, loaded.1] using hsplit
      have hstatus : r.status ≠ .split := by
        rw [loan]
        decide
      unfold SplitsExactly
      rw [kids loaded hstatus rfl ?_]
      · obtain ⟨rem, hrem, hquantity⟩ :=
          partitionRemainder_of_lt uuids number' available
        rw [hrem]
        exact pair_stored_iff hscale hcolumn positive available rfl hquantity
      · intro k hk
        rcases List.mem_cons.mp hk with rfl | hk
        · rfl
        · obtain rfl := mem_partitionRemainder hk
          rfl
  | seizeAll input r loaded loan hwhole => simp [LedgerOp.splitOf, hwhole] at hsplit
  | _ => cases hsplit

end Operations

/-- In every reachable ledger, a hold, partial seizure or partial release that commits on a
quantity that its column can hold stores positive children that add up to their source,
exactly when the part it was asked for is storable. -/
theorem split_stored_iff (calls : List LedgerCall) (c : LedgerCall) (source : Receipt) (part : ℚ)
    (result : LedgerResult) (s' : Ledger)
    (hsplit : c.op.splitOf (runCalls .postgres calls Ledger.empty) = some (source, part))
    (hcolumn : source.quantity < 10 ^ 15)
    (hfree : (runCalls .postgres calls Ledger.empty).events.find c.op.idempotencyKey = none)
    (hcall : c.op.call .postgres c.uuids (runCalls .postgres calls Ledger.empty) =
      .ok (result, s')) :
    SplitsExactly s' source ↔ Storable source.quantity part := by
  cases call_outcome hcall with
  | replayed e prior =>
      rw [hfree] at prior
      cases prior
  | committed free events change effect commits =>
      exact effect.splitsExactly_iff commits (lifecycle_run .postgres lifecycle_empty calls)
        (scaled_run calls) hsplit hcolumn

theorem split_stored_iff_sample :
    ∃ result s', sampleHold.op.call .postgres sampleHold.uuids
        (runCalls .postgres sampleDeposit Ledger.empty) = .ok (result, s') ∧
      ∃ source part, sampleHold.op.splitOf (runCalls .postgres sampleDeposit Ledger.empty) =
        some (source, part) ∧ SplitsExactly s' source := by
  have hfree : (runCalls .postgres sampleDeposit Ledger.empty).events.find
      sampleHold.op.idempotencyKey = none := by decide +kernel
  have hstorable : ((sampleHold.op.splitOf (runCalls .postgres sampleDeposit Ledger.empty)).map
      fun sp => decide (sp.1.quantity < 10 ^ 15 ∧ Storable sp.1.quantity sp.2)) = some true := by
    decide +kernel
  cases hsplit : sampleHold.op.splitOf (runCalls .postgres sampleDeposit Ledger.empty) with
  | none =>
      rw [hsplit] at hstorable
      cases hstorable
  | some sp =>
      obtain ⟨source, part⟩ := sp
      rw [hsplit] at hstorable
      obtain ⟨hcolumn, hpart⟩ := of_decide_eq_true (Option.some.inj hstorable)
      cases hcall : sampleHold.op.call .postgres sampleHold.uuids
          (runCalls .postgres sampleDeposit Ledger.empty) with
      | error e =>
          have hok : designated (sampleHold.op.call .postgres sampleHold.uuids
              (runCalls .postgres sampleDeposit Ledger.empty)) ≠ none := by decide +kernel
          rw [hcall] at hok
          exact absurd rfl hok
      | ok p =>
          obtain ⟨result, s'⟩ := p
          exact ⟨result, s', rfl, source, part, rfl,
            (split_stored_iff sampleDeposit sampleHold source part result s' hsplit hcolumn hfree
              hcall).mpr hpart⟩

/-- A hold of less than half a thousandth of a unit. -/
def dustHold : LedgerCall :=
  ⟨⟨103, 0, 2, 3, .stored⟩, .hold
    { tenantId := 7, sourceReceiptId := 1, quantity := 4 / 10000
      heldStatus := .heldWithdrawal, txnType := .withdrawal, txnId := 50, actorUserId := none
      idempotencyKey := [.text "hold"] }⟩

/-- The call splits ten stored units into children of the given quantities. -/
def SplitsTenInto (c : LedgerCall) (quantities : List ℚ) : Prop :=
  let s := runCalls .postgres sampleDeposit Ledger.empty
  let s' := runCalls .postgres (sampleDeposit ++ [c]) Ledger.empty
  (designated (c.op.call .postgres c.uuids s)).isSome ∧
    ∃ sp ∈ c.op.splitOf s, sp.1.quantity = 10 ∧
      (receiptTree.children s'.receipts.rows sp.1.id).map (·.quantity) = quantities ∧
      ¬ SplitsExactly s' sp.1

/-- Of ten stored units a hold of 0.0005 stores 0.001 and 10.000, and one of 0.0004 stores
0.000 and 10.000. -/
theorem split_stored_inexact :
    SplitsTenInto fineHold [1 / 1000, 10] ∧ SplitsTenInto dustHold [0, 10] := by
  unfold SplitsTenInto
  decide +kernel

end SecureStore.Inventory
