/-
# Dispatch and billing

The completion of a withdrawal consumes the held receipt, then computes the fee, then closes the
row. When the fee fails the goods are gone: the row stays APPROVED, and can still be rejected.
-/

import SecureStore.Custody.Contract
import SecureStore.Foundation.Alone
import SecureStore.Inventory.Progress
import SecureStore.Services.StorageFees
import SecureStore.Services.System

namespace SecureStore.Services

open SecureStore.Foundation SecureStore.Inventory

/-- Goods are gone under a withdrawal that was rejected. -/
def GoneUnderRejected (withdrawalId receiptId : Id) (s : Db) : Prop :=
  (∃ r ∈ s.ledger.receipts.find receiptId, r.status = .withdrawn) ∧
    ∃ w ∈ s.withdrawals.find withdrawalId, w.status = .rejected

instance (withdrawalId receiptId : Id) (s : Db) :
    Decidable (GoneUnderRejected withdrawalId receiptId s) := by
  unfold GoneUnderRejected
  infer_instance

/-- A dispatch that ended with a result in a state is all or nothing: a throw changes neither the
receipt nor the row, and whatever rejection comes next does not find the goods gone; a return has
consumed the receipt and closed the row with the fee. -/
structure DispatchAtomic (num : Numeric) (w : Withdrawal) (r : Receipt) (fee : Except ApiError ℚ)
    (result : Except ApiError Unit) (s : Db) : Prop where
  throws : ∀ e, result = .error e →
    s.ledger.receipts.find w.receiptId = some r ∧ s.withdrawals.find w.id = some w
  returns : result = .ok () →
    s.ledger.receipts.find w.receiptId = some { r with status := .withdrawn } ∧
      ∃ billed, fee = .ok billed ∧ s.withdrawals.find w.id = some
        { w with
          status := .completed, storageFee := billed, totalFee := billed + w.handlingFee }
  rejected : ∀ e, result = .error e → ∀ uuids tenantId actorUserId reason,
    ¬ GoneUnderRejected w.id w.receiptId
      ((rejectWithdrawal num uuids tenantId w.id actorUserId reason).exec s).2

/-- The key under which the dispatch of a withdrawal is logged. -/
def dispatchKey (w : Withdrawal) : IdempotencyKey := withdrawalKey w.id "consume"

/-- The ledger consumes the receipt of the withdrawal now. -/
def ConsumesNow (s : Ledger) (tenantId : Id) (w : Withdrawal) (r : Receipt) (uuids : Uuids) :
    Prop :=
  s.events.find (dispatchKey w) = none ∧ r.tenantId = tenantId ∧
    uuids.event ∉ s.events.rows.map InventoryEvent.id

/-- The ledger has logged the dispatch before, and finds its receipt. -/
def ConsumedBefore (s : Ledger) (w : Withdrawal) : Prop :=
  ∃ e r, s.events.find (dispatchKey w) = some e ∧ s.affected e = .ok r

section Completion

variable {num : Numeric} {uuids : Uuids} {tenantId : Id} {actorUserId : Option Id} {db : Db}
  {w : Withdrawal} {r : Receipt} {fee : Except ApiError ℚ}

/-- The ways a completion ends. -/
inductive Completion (db : Db) (tenantId : Id) (w : Withdrawal) (r : Receipt) (uuids : Uuids)
    (fee : Except ApiError ℚ) : Except ApiError Unit → Db → Prop where
  | refused (e : ApiError) (why : w.tenantId ≠ tenantId ∨
      ¬ ConsumesNow db.ledger tenantId w r uuids ∧ ¬ ConsumedBefore db.ledger w) :
      Completion db tenantId w r uuids fee (.error e) db
  | unbilled (e : ApiError) (tenant : w.tenantId = tenantId)
      (before : ConsumedBefore db.ledger w) (unbillable : fee = .error e) :
      Completion db tenantId w r uuids fee (.error e) db
  | gone (e : ApiError) (ledger : Ledger) (tenant : w.tenantId = tenantId)
      (now : ConsumesNow db.ledger tenantId w r uuids) (unbillable : fee = .error e)
      (receipt : ledger.receipts.find w.receiptId = some { r with status := .withdrawn }) :
      Completion db tenantId w r uuids fee (.error e) { db with ledger }
  | rebilled (billed : ℚ) (withdrawals : Table Withdrawal) (tenant : w.tenantId = tenantId)
      (before : ConsumedBefore db.ledger w) (billable : fee = .ok billed) :
      Completion db tenantId w r uuids fee (.ok ()) { db with withdrawals }
  | dispatched (billed : ℚ) (ledger : Ledger) (withdrawals : Table Withdrawal)
      (tenant : w.tenantId = tenantId) (now : ConsumesNow db.ledger tenantId w r uuids)
      (billable : fee = .ok billed)
      (receipt : ledger.receipts.find w.receiptId = some { r with status := .withdrawn })
      (row : withdrawals.find w.id = some
        { w with
          status := .completed, storageFee := billed, totalFee := billed + w.handlingFee }) :
      Completion db tenantId w r uuids fee (.ok ()) { db with ledger, withdrawals }

/-- A held receipt is consumed under a new key and a new event id. -/
theorem consume_succeeds (hr : db.ledger.receipts.find w.receiptId = some r)
    (hheld : r.status.Held) (hnow : ConsumesNow db.ledger tenantId w r uuids) :
    ∃ r' s', consume num uuids ⟨tenantId, actorUserId, dispatchKey w⟩ w.receiptId db.ledger =
      .ok (r', s') := by
  obtain ⟨hkey, htenant, hevent⟩ := hnow
  apply runIdempotent_succeeds hkey
  apply amendReceipt_succeeds ⟨hr, htenant⟩ (assertHeld_ok.mpr hheld)
  · intro x hx heq
    exact hevent (List.mem_map.mpr ⟨x, hx, heq⟩)
  · exact hkey

/-- A consumption that was logged is replayed. -/
theorem consume_replays (hbefore : ConsumedBefore db.ledger w) {id : Id} :
    ∃ r' s', consume num uuids ⟨tenantId, actorUserId, dispatchKey w⟩ id db.ledger =
      .ok (r', s') := by
  obtain ⟨e, r', hprior, haffected⟩ := hbefore
  exact ⟨r', db.ledger, runIdempotent_ok.mpr (.inl ⟨e, hprior, haffected, rfl⟩)⟩

theorem completeWithdrawal_completion (hw : db.withdrawals.find w.id = some w)
    (happroved : w.status = .approved) (hr : db.ledger.receipts.find w.receiptId = some r)
    (hheld : r.status.Held) :
    Process.Ensures (fun _ => True) (Completion db tenantId w r uuids fee)
      (completeWithdrawal num uuids fee tenantId w.id actorUserId) db := by
  unfold completeWithdrawal loadWithdrawal
  apply ensures_find trivial
  · intro hnone
    rw [hw] at hnone
    exact .refused _ (.inl (by simpa using hnone))
  intro loaded hloaded
  obtain ⟨rfl, htenant⟩ : w = loaded ∧ loaded.tenantId = tenantId := by
    rw [hw] at hloaded
    simpa using hloaded
  apply ensures_throwIf
  · intro hstatus
    exact absurd happroved hstatus
  intro _
  apply ensures_ledger_or rfl
  · intro e hfails
    refine ⟨trivial, .refused e (.inr ⟨fun hnow => ?_, fun hbefore => ?_⟩)⟩
    · exact hfails (consume_succeeds hr hheld hnow)
    · exact hfails (consume_replays hbefore)
  intro _ ledger houtcome
  refine ⟨trivial, ?_⟩
  cases houtcome with
  | replayed e prior reconstructs same =>
      subst same
      have hbefore : ConsumedBefore db.ledger w := by
        obtain ⟨r', haffected, -⟩ := reconstructs
        exact ⟨e, r', prior, haffected⟩
      apply ensures_find trivial
      · intro hnone
        rw [hr] at hnone
        cases hnone
      intro _ _
      apply ensures_ofExcept
      · intro e' hfee
        exact .unbilled e' htenant hbefore hfee
      intro billed hfee
      apply ensures_write_last
      · intro e' hrefused
        have hnone := updateRow_refused (map_error.mp hrefused)
        rw [hw] at hnone
        cases hnone
      · intro _ s' hok
        obtain ⟨withdrawals, -, hresult⟩ := map_ok.mp hok
        cases hresult
        exact ⟨trivial, .rebilled billed withdrawals htenant hbefore hfee⟩
  | committed free events change effect commits =>
      cases effect with
      | consume ctx r' loaded held =>
          obtain rfl : r = r' := Option.some_inj.mp (hr.symm.trans loaded.1)
          have hnow : ConsumesNow db.ledger tenantId w r uuids := by
            refine ⟨free, loaded.2, fun hmem => ?_⟩
            obtain ⟨x, hx, hid⟩ := List.mem_map.mp hmem
            exact commits.newIds _ (List.mem_singleton.mpr rfl) x hx hid
          have hreceipt :
              ledger.receipts.find w.receiptId = some { r with status := .withdrawn } := by
            simpa using commits.find_receipt hr
          apply ensures_find trivial
          · intro hnone
            rw [hreceipt] at hnone
            cases hnone
          intro _ _
          apply ensures_ofExcept
          · intro e' hfee
            exact .gone e' ledger htenant hnow hfee hreceipt
          intro billed hfee
          apply ensures_write_last
          · intro e' hrefused
            have hnone := updateRow_refused (map_error.mp hrefused)
            rw [hw] at hnone
            cases hnone
          · intro _ s' hok
            obtain ⟨withdrawals, hupdate, hresult⟩ := map_ok.mp hok
            cases hresult
            obtain ⟨-, -, rfl⟩ := updateRow_ok.mp hupdate
            exact ⟨trivial, .dispatched billed ledger _ htenant hnow hfee hreceipt
              (Table.find_modify_self hw)⟩

/-- A rejection does not consume. -/
theorem rejectWithdrawal_not_withdrawn {s : Db} {withdrawalId id : Id} {reason : Option String}
    (hr : s.ledger.receipts.find id = some r) (hstatus : r.status ≠ .withdrawn) :
    ∀ r', ((rejectWithdrawal num uuids tenantId withdrawalId actorUserId reason).exec
      s).2.ledger.receipts.find id = some r' → r'.status ≠ .withdrawn := by
  let kept : Db → Prop := fun s' =>
    ∀ r', s'.ledger.receipts.find id = some r' → r'.status ≠ .withdrawn
  have hkept : kept s := by
    intro r' hr'
    obtain rfl := Option.some_inj.mp (hr.symm.trans hr')
    exact hstatus
  have hensures : Process.Ensures (fun _ => True) (fun _ s' => kept s')
      (rejectWithdrawal num uuids tenantId withdrawalId actorUserId reason) s := by
    unfold rejectWithdrawal loadWithdrawal
    apply ensures_find trivial
    · intro _
      exact hkept
    intro w _
    apply ensures_throwIf
    · intro _
      exact hkept
    intro _
    have hlast : ∀ s', kept s' → Process.Ensures (fun _ => True) (fun _ s' => kept s')
        (if w.status = .rejected then pure ()
          else updateWithdrawal (.rejectWithdrawal w.id) withdrawalId fun r =>
            { r with status := .rejected, rejectionReason := reason } : Api Unit) s' := by
      intro s' hs'
      split
      · exact hs'
      apply ensures_write_last
      · intro _ _
        exact ⟨trivial, hs'⟩
      · intro _ _ hok
        obtain ⟨_, -, hresult⟩ := map_ok.mp hok
        cases hresult
        exact ⟨trivial, hs'⟩
    apply ensures_bind
    unfold releaseLinked
    apply ensures_read trivial
    cases s.ledger.receipts.find w.receiptId with
    | none => exact hlast s hkept
    | some linked =>
        by_cases hheld : linked.status.Held
        · simp only [if_pos hheld]
          apply ensures_ledger rfl
          · intro _
            exact ⟨trivial, hkept⟩
          · intro _ ledger houtcome
            refine ⟨trivial, hlast _ ?_⟩
            intro r' hr'
            rcases houtcome.of_release with ⟨-, rfl⟩ | ⟨-, before, e, hbefore, -, -, -, -, hcommits⟩
            · exact hkept r' hr'
            · obtain rfl := Option.some_inj.mp ((hcommits.find_receipt hr).symm.trans hr')
              by_cases hid : r.id = before.id
              · obtain rfl : r = before := Table.eq_of_key_eq (Table.mem_of_find hr)
                  (Table.mem_of_find hbefore) hid
                simp
              · rwa [Change.apply_amend_of_ne hid]
        · simp only [if_neg hheld]
          exact hlast s hkept
  exact hensures.exec

end Completion

/-- The dispatch is all or nothing exactly when the ledger refuses it, or consumes the receipt
now and there is a fee, or replays an earlier dispatch and there is none. -/
theorem dispatch_atomic_iff (num : Numeric) (tables : FeeTables) (now : Timestamp) (uuids : Uuids)
    (tenantId : Id) (actorUserId : Option Id) (db : Db) (w : Withdrawal) (r : Receipt)
    (hw : db.withdrawals.find w.id = some w) (happroved : w.status = .approved)
    (hr : db.ledger.receipts.find w.receiptId = some r) (hheld : r.status = .heldWithdrawal) :
    let fee := finalStorageFee tables tenantId w r now
    let run := (completeWithdrawal num uuids fee tenantId w.id actorUserId).exec db
    DispatchAtomic num w r fee run.1 run.2 ↔
      (w.tenantId = tenantId →
        (ConsumesNow db.ledger tenantId w r uuids → Billable tables tenantId r) ∧
          (ConsumedBefore db.ledger w → ¬ Billable tables tenantId r)) := by
  intro fee run
  have hstatus : r.status.Held := by
    rw [hheld]
    decide
  have hlive : r.status ≠ .withdrawn := by
    rw [hheld]
    decide
  have hcompletion : Completion db tenantId w r uuids fee run.1 run.2 :=
    (completeWithdrawal_completion hw happroved hr hstatus).exec
  have hbillable : (∃ billed, fee = .ok billed) ↔ Billable tables tenantId r :=
    finalStorageFee_ok_iff
  have unchanged : ∀ e, DispatchAtomic num w r fee (.error e) db := by
    intro e
    refine ⟨fun _ _ => ⟨hr, hw⟩, nofun, ?_⟩
    rintro _ _ uuids' tenantId' actorUserId' reason ⟨⟨r', hfind, hgone⟩, -⟩
    exact rejectWithdrawal_not_withdrawn hr hlive r' hfind hgone
  have exclusive : ConsumesNow db.ledger tenantId w r uuids → ¬ ConsumedBefore db.ledger w := by
    rintro ⟨hfree, -, -⟩ ⟨e, _, hprior, -⟩
    rw [hfree] at hprior
    cases hprior
  generalize run.1 = result, run.2 = s' at hcompletion
  cases hcompletion with
  | refused e why =>
      refine iff_of_true (unchanged e) fun htenant => ?_
      obtain ⟨hnow, hbefore⟩ := why.resolve_left (not_not.mpr htenant)
      exact ⟨fun h => absurd h hnow, fun h => absurd h hbefore⟩
  | unbilled e tenant before unbillable =>
      refine iff_of_true (unchanged e) fun _ => ⟨fun h => absurd before (exclusive h), ?_⟩
      intro _ hfee
      obtain ⟨billed, hok⟩ := hbillable.mpr hfee
      cases hok.symm.trans unbillable
  | gone e ledger tenant now unbillable receipt =>
      refine iff_of_false (fun h => ?_) fun h => ?_
      · have hsame := (h.throws e rfl).1.symm.trans receipt
        exact hlive (congrArg Receipt.status (Option.some_inj.mp hsame))
      · obtain ⟨billed, hok⟩ := hbillable.mpr ((h tenant).1 now)
        cases hok.symm.trans unbillable
  | rebilled billed withdrawals tenant before billable =>
      refine iff_of_false (fun h => ?_) fun h => ?_
      · have hsame := hr.symm.trans (h.returns rfl).1
        exact hlive (congrArg Receipt.status (Option.some_inj.mp hsame))
      · exact (h tenant).2 before (hbillable.mp ⟨billed, billable⟩)
  | dispatched billed ledger withdrawals tenant now billable receipt row =>
      refine iff_of_true ⟨nofun, fun _ => ⟨receipt, billed, billable, row⟩, nofun⟩ fun _ => ?_
      exact ⟨fun _ => hbillable.mp ⟨billed, billable⟩, fun h => absurd h (exclusive now)⟩

/-- Withdrawal 9 of four units, approved, on receipt 152. -/
def approvedStock : List Request := sampleStock ++ sampleWithdrawal.take 3

/-- One policy for all of tenant 1, by the ton and day, in force or not. -/
def sampleFees (isActive : Bool) : FeeTables where
  policies := ⟨[⟨1, 1, none, none, .perMtPerDay, 250, isActive, 0⟩], List.nodup_singleton _⟩
  commodities := ⟨[⟨60, .kilogram, none⟩], by decide⟩

/-- The completion of withdrawal 9 three days after the deposit. -/
def sampleDispatch (isActive : Bool) (w : Withdrawal) (r : Receipt) : Api Unit :=
  completeWithdrawal .postgres (sampleUuids 170)
    (finalStorageFee (sampleFees isActive) 1 w r (3 * 86400000)) 1 w.id none

/-- While the policy is in force the dispatch is all or nothing. -/
theorem dispatch_atomic_iff_sample :
    let db := runRequests .postgres approvedStock (Db.initial sampleDirectory)
    ∃ w ∈ db.withdrawals.find 9, ∃ r ∈ db.ledger.receipts.find w.receiptId,
      let run := (sampleDispatch true w r).exec db
      DispatchAtomic .postgres w r (finalStorageFee (sampleFees true) 1 w r (3 * 86400000))
        run.1 run.2 := by
  intro db
  have hstate : ∃ w ∈ db.withdrawals.find 9, ∃ r ∈ db.ledger.receipts.find w.receiptId,
      w.id = 9 ∧ w.status = .approved ∧ r.status = .heldWithdrawal ∧ r.commodityId = 60 ∧
        r.warehouseId = 50 ∧ db.ledger.events.find (dispatchKey w) = none := by
    decide +kernel
  obtain ⟨w, hw, r, hr, hid, happroved, hheld, hcommodity, hwarehouse, hfree⟩ := hstate
  have hbillable : Billable (sampleFees true) 1 r := by
    refine ⟨⟨60, .kilogram, none⟩, ⟨1, 1, none, none, .perMtPerDay, 250, true, 0⟩, ?_, ?_, ?_⟩
    · rw [hcommodity]
      decide +kernel
    · rw [hwarehouse, hcommodity]
      decide +kernel
    · exact .inr (.inl rfl)
  refine ⟨w, hw, r, hr, ?_⟩
  apply (dispatch_atomic_iff .postgres (sampleFees true) (3 * 86400000) (sampleUuids 170) 1 none db
    w r (hid ▸ hw) happroved hr hheld).mpr
  intro _
  refine ⟨fun _ => hbillable, ?_⟩
  rintro ⟨e, _, hprior, -⟩
  rw [hfree] at hprior
  cases hprior

/-- Once the policy is out of force the dispatch throws, the goods are gone, and the row can be
rejected. -/
theorem dispatch_unbilled :
    ¬ ∀ (num : Numeric) (tables : FeeTables) (now : Timestamp) (uuids : Uuids) (tenantId : Id)
        (actorUserId : Option Id) (directory : Directory) (requests : List Request)
        (w : Withdrawal) (r : Receipt),
      let db := runRequests num requests (Db.initial directory)
      let fee := finalStorageFee tables tenantId w r now
      let run := (completeWithdrawal num uuids fee tenantId w.id actorUserId).exec db
      db.withdrawals.find w.id = some w → w.status = .approved →
        db.ledger.receipts.find w.receiptId = some r → r.status = .heldWithdrawal →
          DispatchAtomic num w r fee run.1 run.2 := by
  intro hclaim
  let db := runRequests .postgres approvedStock (Db.initial sampleDirectory)
  have hstate : ∃ w ∈ db.withdrawals.find 9, ∃ r ∈ db.ledger.receipts.find w.receiptId,
      w.id = 9 ∧ w.status = .approved ∧ r.status = .heldWithdrawal ∧
        ((sampleDispatch false w r).exec db).1 ≠ .ok () ∧ GoneUnderRejected w.id w.receiptId
          ((rejectWithdrawal .postgres (sampleUuids 180) 1 w.id none none).exec
            ((sampleDispatch false w r).exec db).2).2 := by
    decide +kernel
  obtain ⟨w, hw, r, hr, hid, happroved, hheld, hthrows, hgone⟩ := hstate
  have hatomic := hclaim .postgres (sampleFees false) (3 * 86400000) (sampleUuids 170) 1 none
    sampleDirectory approvedStock w r (hid ▸ hw) happroved hr hheld
  cases hresult : ((sampleDispatch false w r).exec db).1 with
  | ok _ => exact hthrows hresult
  | error e => exact hatomic.rejected e hresult _ _ _ _ hgone

end SecureStore.Services
