/-
# What the events say was moved

Every event carries a volume. The law of the log is that this is the volume that changed
state: a hold's is that of the held child, a release's became ACTIVE, a consumption's was
withdrawn, a seizure's was seized and an expiry's expired. Summed over a tree, the volumes
of the last three are what lies in its seized, withdrawn and expired leaves. A partial
seizure breaks the law: it logs the whole leaf.
-/

import SecureStore.Inventory.Balances

namespace SecureStore.Inventory

open SecureStore.Foundation

/-- The states that an event moves volume into. -/
def InventoryEventType.destination : InventoryEventType → Option (List ReceiptStatus)
  | .holdPlaced => some heldStatuses
  | .holdReleased => some [.active]
  | .consumed => some [.withdrawn]
  | .seized => some [.seized]
  | .expired => some [.expired]
  | _ => none

/-- The events that end a volume, with the state it ends in. -/
def finals : List (InventoryEventType × ReceiptStatus) :=
  [(.consumed, .withdrawn), (.seized, .seized), (.expired, .expired)]

/-- The volume of a leaf in one of the states. -/
def Receipt.volumeIn (statuses : List ReceiptStatus) (r : Receipt) : ℚ :=
  if r.isParent = false ∧ r.status ∈ statuses then r.quantity else 0

/-- The volume of a leaf of a tree. -/
def Receipt.volumeOf (root : Id) (statuses : List ReceiptStatus) (r : Receipt) : ℚ :=
  if r.rootReceiptId = root then r.volumeIn statuses else 0

/-- The volume of an event of a tree. -/
def InventoryEvent.volumeOf (root : Id) (type : InventoryEventType) (e : InventoryEvent) : ℚ :=
  if e.rootReceiptId = root ∧ e.eventType = type then e.quantity else 0

/-- The new events of a step carry the volume that it moved. -/
def VolumesRecorded (s s' : Ledger) : Prop :=
  ∀ e ∈ s'.events, e ∉ s.events → ∀ statuses ∈ e.eventType.destination,
    e.quantity = s'.receipts.sumOf (Receipt.volumeIn statuses) -
      s.receipts.sumOf (Receipt.volumeIn statuses)

/-- The events of a tree that end volumes add up to the leaves in which they ended. -/
def TotalsAgree (s : Ledger) : Prop :=
  ∀ root, ∀ pair ∈ finals, s.events.sumOf (InventoryEvent.volumeOf root pair.1) =
    s.receipts.sumOf (Receipt.volumeOf root [pair.2])

/-- What a partial seizure takes is stored as the whole leaf. -/
def LedgerOp.RecordsExactly (op : LedgerOp) (s : Ledger) : Prop :=
  match op with
  | .seize input => ∀ part ∈ input.partialQuantity,
      ∀ r ∈ s.receipts.find input.heldLoanReceiptId, Numeric.postgres.numeric18_3 part = r.quantity
  | _ => True

section Gains

variable {num : Numeric} {uuids : Uuids} {op : LedgerOp} {s s' : Ledger}
  {events : List InventoryEvent} {change : Change} {result : LedgerResult}
  {statuses : List ReceiptStatus} {root : Id}

/-- What a receipt gains in a state by a change of status. -/
theorem gain_move {r r' : Receipt} (hquantity : r'.quantity = r.quantity)
    (hparent : r'.isParent = r.isParent) (hleaf : r.isParent = false) :
    (Change.amend r r').gain (Receipt.volumeIn statuses) =
      (if r'.status ∈ statuses then r.quantity else 0) -
        if r.status ∈ statuses then r.quantity else 0 := by
  simp [Change.gain, Change.rewritten, Receipt.volumeIn, hparent, hleaf, hquantity]

/-- A split takes the source away and brings its children. -/
theorem gain_kids {src : Receipt} {kids : List Receipt} :
    (Change.split src kids).gain (Receipt.volumeIn statuses) =
      (kids.map (Receipt.volumeIn statuses)).sum - src.volumeIn statuses := by
  have hsuper : (supersede src).volumeIn statuses = 0 := by simp [Receipt.volumeIn]
  simp only [Change.gain, Change.created_split, Change.rewritten, hsuper]
  ring

theorem volumeIn_remainder {src : Receipt} {qty : ℚ} {number : List Char}
    (hactive : .active ∉ statuses) :
    ((partitionRemainder num uuids src qty number).toList.map (Receipt.volumeIn statuses)).sum =
      0 := by
  unfold partitionRemainder
  by_cases h : 0 < num.minus src.quantity qty
  · simp [h, Receipt.volumeIn, hactive]
  · simp [h]

/-- The new events are those of the commit. -/
theorem Commits.volumesRecorded_iff (h : Commits s events change s') :
    VolumesRecorded s s' ↔ ∀ e ∈ events, ∀ statuses ∈ e.eventType.destination,
      e.quantity = change.gain (Receipt.volumeIn statuses) := by
  unfold VolumesRecorded
  simp only [h.sumOf, add_sub_cancel_left]
  constructor
  · intro hrecorded e he
    exact hrecorded e (h.mem_events.mpr (.inr he)) fun hold => h.newIds e he e hold rfl
  · intro hrecorded e he hnew
    rcases h.mem_events.mp he with hold | hnew'
    · exact absurd hold hnew
    · exact hrecorded e hnew'

end Gains

/-- Every operation records the volume it moves, a partial seizure only if its part is
stored as the whole leaf. -/
theorem Effect.volumesRecorded_iff {uuids : Uuids} {op : LedgerOp} {s s' : Ledger}
    {events : List InventoryEvent} {change : Change} {result : LedgerResult}
    (heffect : Effect .postgres uuids s op events change result)
    (hcommits : Commits s events change s') (hlife : Lifecycle s) (hscaled : Scaled s) :
    VolumesRecorded s s' ↔ op.RecordsExactly s := by
  rw [hcommits.volumesRecorded_iff]
  -- what is stored is not rounded again
  have stored : ∀ {id tenantId : Id} {r : Receipt}, Loaded s id tenantId r →
      Numeric.postgres.numeric18_3 r.quantity = r.quantity := fun loaded =>
    roundScale_of_hasScale (hscaled _ (Table.mem_of_find loaded.1))
  have leaf : ∀ {id tenantId : Id} {r : Receipt}, Loaded s id tenantId r → r.status ≠ .split →
      r.isParent = false := by
    intro id tenantId r loaded hstatus
    have hparent := hlife.parent_iff r (Table.mem_of_find loaded.1)
    exact Bool.eq_false_iff.mpr fun hflag => hstatus (hparent.mp hflag)
  have moved : ∀ {id tenantId : Id} {r r' : Receipt} {statuses : List ReceiptStatus},
      Loaded s id tenantId r → r'.quantity = r.quantity → r'.isParent = r.isParent →
      r.status ≠ .split → r'.status ∈ statuses → r.status ∉ statuses →
      Numeric.postgres.numeric18_3 r.quantity =
        (Change.amend r r').gain (Receipt.volumeIn statuses) := by
    intro id tenantId r r' statuses loaded hquantity hparent hsplit hafter hbefore
    rw [gain_move hquantity hparent (leaf loaded hsplit), if_pos hafter, if_neg hbefore, sub_zero]
    exact stored loaded
  have notSplit : ∀ {status : ReceiptStatus}, status.Held → status ≠ .split := by
    intro status
    cases status <;> decide
  have notActive : ∀ {status : ReceiptStatus}, status.Held → status ∉ [ReceiptStatus.active] := by
    intro status
    cases status <;> decide
  cases heffect with
  | hold input src number number' loaded active =>
      simp only [List.forall_mem_singleton]
      apply iff_of_true ?_ trivial
      rintro statuses ⟨⟩
      have hsrc : src.volumeIn heldStatuses = 0 := by
        simp [Receipt.volumeIn, active, heldStatuses]
      have hheld : input.heldStatus.status ∈ heldStatuses := input.heldStatus.held
      rw [gain_kids, List.map_cons, List.sum_cons, volumeIn_remainder (by decide), hsrc]
      simp [Receipt.volumeIn, hheld]
  | release ctx r loaded held =>
      simp only [List.forall_mem_singleton]
      apply iff_of_true ?_ trivial
      rintro statuses ⟨⟩
      exact moved loaded rfl rfl (notSplit held) List.mem_cons_self (notActive held)
  | consume ctx r loaded held =>
      simp only [List.forall_mem_singleton]
      apply iff_of_true ?_ trivial
      rintro statuses ⟨⟩
      have hbefore : r.status ∉ [ReceiptStatus.withdrawn] := by
        intro hwithdrawn
        rw [List.mem_singleton.mp hwithdrawn] at held
        exact absurd held (by decide)
      exact moved loaded rfl rfl (notSplit held) List.mem_cons_self hbefore
  | releasePartial input src number number' loaded lien =>
      simp only [List.forall_mem_singleton]
      apply iff_of_true ?_ trivial
      rintro statuses ⟨⟩
      rw [gain_kids]
      simp [Receipt.volumeIn, lien]
  | seizePart input r pq number number' loaded loan part =>
      simp only [List.forall_mem_singleton]
      have hsrc : r.volumeIn [.seized] = 0 := by simp [Receipt.volumeIn, loan]
      have hgain : (Change.split r
          (primaryChild .postgres uuids r pq (seizedPrimary input r) number ::
          (partitionRemainder .postgres uuids r pq number').toList)).gain
            (Receipt.volumeIn [.seized]) = Numeric.postgres.numeric18_3 pq := by
        rw [gain_kids, List.map_cons, List.sum_cons, volumeIn_remainder (by decide), hsrc]
        simp [Receipt.volumeIn]
      have hquantity := stored loaded
      constructor
      · rintro hrecorded part' hpart r' hr'
        rw [part] at hpart
        cases hpart
        rw [Option.mem_def, loaded.1] at hr'
        cases hr'
        have hevent := hrecorded [.seized] rfl
        rw [hgain] at hevent
        exact hevent.symm.trans hquantity
      · rintro hexact statuses ⟨⟩
        rw [hgain, hexact pq part r loaded.1]
        exact hquantity
  | seizeAll input r loaded loan whole =>
      simp only [List.forall_mem_singleton]
      apply iff_of_true
      · rintro statuses ⟨⟩
        exact moved loaded rfl rfl (by simp [loan]) List.mem_cons_self (by simp [loan])
      · intro part hpart
        rw [whole] at hpart
        cases hpart
  | transferAndRelease ctx newOwnerId txnType txnId withinTx r loaded held =>
      apply iff_of_true ?_ trivial
      intro e he statuses hstatuses
      rcases List.mem_pair.mp he with rfl | rfl
      · cases hstatuses
      · cases hstatuses
        exact moved loaded rfl rfl (notSplit held) List.mem_cons_self (notActive held)
  | expire ctx r loaded active =>
      simp only [List.forall_mem_singleton]
      apply iff_of_true ?_ trivial
      rintro statuses ⟨⟩
      exact moved loaded rfl rfl (by simp [active]) List.mem_cons_self (by simp [active])
  | _ =>
      simp only [List.forall_mem_singleton]
      apply iff_of_true ?_ trivial
      rintro statuses ⟨⟩

/-! ### Totals of a tree -/

section Totals

variable {num : Numeric} {uuids : Uuids} {op : LedgerOp} {s s' : Ledger}
  {events : List InventoryEvent} {change : Change} {result : LedgerResult}
  {pair : InventoryEventType × ReceiptStatus}

/-- What a commit logs, creates and rewrites belongs to one tree. -/
theorem Effect.one_tree (h : Effect num uuids s op events change result) :
    ∃ root, (∀ e ∈ events, e.rootReceiptId = root) ∧
      (∀ k ∈ change.created, k.rootReceiptId = root) ∧
      ∀ before after, change.rewritten = some (before, after) →
        before.rootReceiptId = root ∧ after.rootReceiptId = root := by
  cases h with
  | deposit input positive =>
      refine ⟨uuids.primary, ?_, ?_, ?_⟩
      · simp
      · simp
      · rintro _ _ ⟨⟩
  | hold input src number number' =>
      refine ⟨src.rootReceiptId, by simp, ?_, ?_⟩
      · intro k hk
        rcases List.mem_cons.mp hk with rfl | hk
        · rfl
        · rw [mem_partitionRemainder hk]
          rfl
      · rintro _ _ ⟨⟩
        exact ⟨rfl, rfl⟩
  | releasePartial input src number number' =>
      refine ⟨src.rootReceiptId, by simp, by simp, ?_⟩
      rintro _ _ ⟨⟩
      exact ⟨rfl, rfl⟩
  | seizePart input r pq number number' =>
      refine ⟨r.rootReceiptId, by simp, ?_, ?_⟩
      · intro k hk
        rcases List.mem_cons.mp hk with rfl | hk
        · rfl
        · rw [mem_partitionRemainder hk]
          rfl
      · rintro _ _ ⟨⟩
        exact ⟨rfl, rfl⟩
  | approveReceipt ctx r | rejectReceipt ctx reason r | approveHold ctx r | release ctx r
  | consume ctx r | transitionPledgeToLien ctx pledgeId r | seizeAll input r
  | transferOwnership ctx newOwnerId txnType txnId r
  | transferAndRelease ctx newOwnerId txnType txnId withinTx r | expire ctx r =>
      refine ⟨r.rootReceiptId, by simp, by simp, ?_⟩
      rintro _ _ ⟨⟩
      exact ⟨rfl, rfl⟩

/-- A change in one tree gains what it gains there, and nothing elsewhere. -/
theorem Change.gain_tree {root root' : Id} {statuses : List ReceiptStatus}
    (hcreated : ∀ k ∈ change.created, k.rootReceiptId = root)
    (hrewritten : ∀ before after, change.rewritten = some (before, after) →
      before.rootReceiptId = root ∧ after.rootReceiptId = root) :
    change.gain (Receipt.volumeOf root' statuses) =
      if root = root' then change.gain (Receipt.volumeIn statuses) else 0 := by
  have hkids : change.created.map (Receipt.volumeOf root' statuses) =
      change.created.map fun k => if root = root' then k.volumeIn statuses else 0 := by
    apply List.map_congr_left
    intro k hk
    unfold Receipt.volumeOf
    rw [hcreated k hk]
  unfold Change.gain
  rw [hkids]
  by_cases hroot : root = root'
  · simp only [if_pos hroot]
    split
    · rename_i before after hpair
      obtain ⟨hbefore, hafter⟩ := hrewritten before after hpair
      simp [Receipt.volumeOf, hbefore, hafter, hroot]
    · rfl
  · simp only [if_neg hroot]
    split
    · rename_i before after hpair
      obtain ⟨hbefore, hafter⟩ := hrewritten before after hpair
      simp [Receipt.volumeOf, hbefore, hafter, hroot]
    · simp

/-- An event that ends a volume is the only one of its commit. -/
theorem Effect.final_event (h : Effect num uuids s op events change result)
    (hfinal : pair ∈ finals) :
    (∃ e, events = [e] ∧ e.eventType = pair.1) ∨ ∀ e ∈ events, e.eventType ≠ pair.1 := by
  cases h with
  | transferAndRelease =>
      right
      intro e he
      have hother : ∀ pair ∈ finals, .ownershipTransferred ≠ pair.1 ∧ .holdReleased ≠ pair.1 := by
        decide
      rcases List.mem_pair.mp he with rfl | rfl
      · exact (hother pair hfinal).1
      · exact (hother pair hfinal).2
  | _ =>
      simp only [List.forall_mem_singleton]
      exact or_iff_not_imp_right.mpr fun htype => ⟨_, rfl, not_not.mp htype⟩

/-- A commit that does not log the end of a volume brings none into that state. -/
theorem Effect.no_final (h : Effect num uuids s op events change result) (hfinal : pair ∈ finals)
    (hnone : ∀ e ∈ events, e.eventType ≠ pair.1) :
    change.gain (Receipt.volumeIn [pair.2]) = 0 := by
  have hopen : ∀ pair ∈ finals, .active ∉ [pair.2] ∧ .pendingApproval ∉ [pair.2] ∧
      .cancelled ∉ [pair.2] ∧ ∀ status ∈ heldStatuses, status ∉ [pair.2] := by decide
  have hends : ∀ pair ∈ finals, (.withdrawn ∈ [pair.2] → .consumed = pair.1) ∧
      (.seized ∈ [pair.2] → .seized = pair.1) ∧ (.expired ∈ [pair.2] → .expired = pair.1) := by
    decide
  obtain ⟨hactive, hpending, hcancelled, hheld⟩ := hopen pair hfinal
  obtain ⟨hwithdrawn, hseized, hexpired⟩ := hends pair hfinal
  -- nothing is there before or after
  have empty : ∀ {r : Receipt}, r.status ∉ [pair.2] → r.volumeIn [pair.2] = 0 :=
    fun hstatus => if_neg fun hin => hstatus hin.2
  have still : ∀ {r r' : Receipt}, r.volumeIn [pair.2] = r'.volumeIn [pair.2] →
      (Change.amend r r').gain (Receipt.volumeIn [pair.2]) = 0 := by
    intro r r' hsame
    simp [Change.gain, Change.rewritten, hsame]
  cases h with
  | deposit input positive =>
      have hroot := empty (r := depositRoot num uuids input) hpending
      simp [Change.gain, Change.rewritten, hroot]
  | approveReceipt ctx r loaded pending =>
      exact still ((empty (pending ▸ hpending)).trans (empty hactive).symm)
  | rejectReceipt ctx reason r loaded pending =>
      exact still ((empty (pending ▸ hpending)).trans (empty hcancelled).symm)
  | hold input src number number' loaded active =>
      have hsrc : src.volumeIn [pair.2] = 0 := empty (active ▸ hactive)
      have hprimary := empty (r := primaryChild num uuids src input.quantity (heldPrimary input src)
        number) (hheld _ input.heldStatus.held)
      rw [gain_kids, List.map_cons, List.sum_cons, volumeIn_remainder hactive, hsrc, hprimary]
      simp
  | approveHold => exact still rfl
  | release ctx r loaded held => exact still ((empty (hheld _ held)).trans (empty hactive).symm)
  | consume ctx r loaded held =>
      have hother : ReceiptStatus.withdrawn ∉ [pair.2] := fun hin =>
        hnone _ (List.mem_singleton_self _) (hwithdrawn hin)
      exact still ((empty (hheld _ held)).trans (empty hother).symm)
  | releasePartial input src number number' loaded lien =>
      have hlien : ReceiptStatus.heldLien ∉ [pair.2] := hheld _ (by decide)
      have hsrc : src.volumeIn [pair.2] = 0 := empty (lien ▸ hlien)
      have hreleased := empty
        (r := releasedChild num uuids src input.releaseQuantity number) hactive
      have hremaining := empty (r := remainingChild num uuids src input.releaseQuantity number')
        hlien
      rw [gain_kids]
      simp [hsrc, hreleased, hremaining]
  | transitionPledgeToLien ctx pledgeId r loaded pledged =>
      have hpledged : ReceiptStatus.heldPledgePending ∉ [pair.2] := hheld _ (by decide)
      have hlien : ReceiptStatus.heldLien ∉ [pair.2] := hheld _ (by decide)
      exact still ((empty (pledged ▸ hpledged)).trans (empty hlien).symm)
  | seizePart input r pq number number' loaded loan =>
      have hother : ReceiptStatus.seized ∉ [pair.2] := fun hin =>
        hnone _ (List.mem_singleton_self _) (hseized hin)
      have hloan : ReceiptStatus.heldLoan ∉ [pair.2] := hheld _ (by decide)
      have hsrc : r.volumeIn [pair.2] = 0 := empty (loan ▸ hloan)
      have hprimary := empty
        (r := primaryChild num uuids r pq (seizedPrimary input r) number) hother
      rw [gain_kids, List.map_cons, List.sum_cons, volumeIn_remainder hactive, hsrc, hprimary]
      simp
  | seizeAll input r loaded loan =>
      have hother : ReceiptStatus.seized ∉ [pair.2] := fun hin =>
        hnone _ (List.mem_singleton_self _) (hseized hin)
      have hloan : ReceiptStatus.heldLoan ∉ [pair.2] := hheld _ (by decide)
      exact still ((empty (loan ▸ hloan)).trans (empty hother).symm)
  | transferOwnership => exact still rfl
  | transferAndRelease ctx newOwnerId txnType txnId withinTx r loaded held =>
      exact still ((empty (hheld _ held)).trans (empty hactive).symm)
  | expire ctx r loaded active =>
      have hother : ReceiptStatus.expired ∉ [pair.2] := fun hin =>
        hnone _ (List.mem_singleton_self _) (hexpired hin)
      exact still ((empty (active ▸ hactive)).trans (empty hother).symm)

/-- A step that records its volumes keeps the totals of every tree. -/
theorem TotalsAgree.step (hs : TotalsAgree s)
    (heffect : Effect num uuids s op events change result) (hcommits : Commits s events change s')
    (hrecorded : VolumesRecorded s s') : TotalsAgree s' := by
  obtain ⟨root, hlogged, hcreated, hrewritten⟩ := heffect.one_tree
  intro root' pair hfinal
  have hlog : s'.events.sumOf (InventoryEvent.volumeOf root' pair.1) =
      s.events.sumOf (InventoryEvent.volumeOf root' pair.1) +
        (events.map (InventoryEvent.volumeOf root' pair.1)).sum := by
    unfold Table.sumOf
    rw [hcommits.log, List.map_append, List.sum_append]
  rw [hlog, hcommits.sumOf, hs root' pair hfinal, Change.gain_tree hcreated hrewritten]
  congr 1
  rcases heffect.final_event hfinal with ⟨e, rfl, htype⟩ | hnone
  · have hdestination : ∀ pair ∈ finals, pair.1.destination = some [pair.2] := by decide
    have hquantity : e.quantity = change.gain (Receipt.volumeIn [pair.2]) := by
      apply hcommits.volumesRecorded_iff.mp hrecorded e (List.mem_singleton_self e)
      rw [htype]
      exact hdestination pair hfinal
    simp [InventoryEvent.volumeOf, htype, hlogged e (List.mem_singleton_self e), hquantity]
  · rw [heffect.no_final hfinal hnone, ite_self]
    apply List.sum_eq_zero
    intro x hx
    obtain ⟨e, he, rfl⟩ := List.mem_map.mp hx
    exact if_neg fun hevent => hnone e he hevent.2

end Totals

/-! ### Runs -/

/-- The call is new and returns. -/
def LedgerCall.Lands (c : LedgerCall) (s : Ledger) : Prop :=
  s.events.find c.op.idempotencyKey = none ∧
    ∃ outcome, c.op.call .postgres c.uuids s = .ok outcome

/-- A call that does not land changes nothing. -/
theorem after_lands (c : LedgerCall) (s : Ledger) :
    c.after .postgres s = s ∨ (c.Lands s ∧ ∃ events change result,
      Effect .postgres c.uuids s c.op events change result ∧
        Commits s events change (c.after .postgres s)) := by
  unfold LedgerCall.after
  cases hcall : c.op.call .postgres c.uuids s with
  | error e => exact .inl rfl
  | ok outcome =>
      obtain ⟨result, s'⟩ := outcome
      cases call_outcome hcall with
      | replayed e prior reconstructs same => exact .inl same
      | committed free events change effect commits =>
          exact .inr ⟨⟨free, _, hcall⟩, events, change, result, effect, commits⟩

/-- A call records the volumes it moves exactly if its operation does, should it land. -/
theorem LedgerCall.volumesRecorded_iff (c : LedgerCall) (calls : List LedgerCall) :
    let s := runCalls .postgres calls Ledger.empty
    VolumesRecorded s (c.after .postgres s) ↔ (c.Lands s → c.op.RecordsExactly s) := by
  intro s
  have hlife : Lifecycle s := lifecycle_run .postgres lifecycle_empty calls
  have hscaled : Scaled s := scaled_run calls
  constructor
  · rintro hrecorded ⟨hfree, ⟨result, s'⟩, hcall⟩
    cases call_outcome hcall with
    | replayed e prior =>
        rw [hfree] at prior
        cases prior
    | committed free events change effect commits =>
        have hafter : c.after .postgres s = s' := by simp [LedgerCall.after, hcall]
        rw [hafter] at hrecorded
        exact (effect.volumesRecorded_iff commits hlife hscaled).mp hrecorded
  · intro hexact
    rcases after_lands c s with hsame | ⟨hlands, events, change, result, heffect, hcommits⟩
    · rw [hsame]
      intro e he hnew
      exact absurd he hnew
    · exact (heffect.volumesRecorded_iff hcommits hlife hscaled).mpr (hexact hlands)

/-- In every run, each event records the volume that it moved and the totals of all trees
agree throughout, if and only if every partial seizure that commits stores the whole leaf as
its part. -/
theorem volumes_recorded_iff (calls : List LedgerCall) :
    ((∀ earlier c later, calls = earlier ++ c :: later →
          VolumesRecorded (runCalls .postgres earlier Ledger.empty)
            (runCalls .postgres (earlier ++ [c]) Ledger.empty)) ∧
        ∀ earlier later, calls = earlier ++ later →
          TotalsAgree (runCalls .postgres earlier Ledger.empty)) ↔
      ∀ earlier c later, calls = earlier ++ c :: later →
        c.Lands (runCalls .postgres earlier Ledger.empty) →
          c.op.RecordsExactly (runCalls .postgres earlier Ledger.empty) := by
  have hnext : ∀ earlier (c : LedgerCall), runCalls .postgres (earlier ++ [c]) Ledger.empty =
      c.after .postgres (runCalls .postgres earlier Ledger.empty) :=
    fun earlier c => runCalls_append earlier [c] Ledger.empty
  constructor
  · rintro ⟨hrecorded, -⟩ earlier c later hcalls
    apply (c.volumesRecorded_iff earlier).mp
    rw [← hnext]
    exact hrecorded earlier c later hcalls
  · intro hexact
    have hrecorded : ∀ earlier c later, calls = earlier ++ c :: later →
        VolumesRecorded (runCalls .postgres earlier Ledger.empty)
          (runCalls .postgres (earlier ++ [c]) Ledger.empty) := by
      intro earlier c later hcalls
      rw [hnext]
      exact (c.volumesRecorded_iff earlier).mpr (hexact earlier c later hcalls)
    refine ⟨hrecorded, ?_⟩
    intro earlier
    induction earlier using List.reverseRecOn with
    | nil =>
        intro later _ root pair _
        rfl
    | append_singleton earlier c ih =>
        intro later hcalls
        rw [List.append_assoc, List.singleton_append] at hcalls
        have hbefore := ih (c :: later) hcalls
        have hstep := hrecorded earlier c later hcalls
        rw [hnext] at hstep ⊢
        rcases after_lands c (runCalls .postgres earlier Ledger.empty) with
          hsame | ⟨-, events, change, result, heffect, hcommits⟩
        · rw [hsame]
          exact hbefore
        · exact hbefore.step heffect hcommits hstep

/-- All ten units held for loan 60, and four of them seized. -/
def sampleSeizure : List LedgerCall :=
  [⟨⟨103, 0, 2, 3, .stored⟩, .hold
      { tenantId := 7, sourceReceiptId := 1, quantity := 10, heldStatus := .heldLoan
        txnType := .loan, txnId := 60, actorUserId := none, idempotencyKey := [.text "hold"] }⟩,
    ⟨⟨104, 0, 4, 5, .stored⟩, .seize
      { tenantId := 7, heldLoanReceiptId := 2, financierUserId := 20, actorUserId := none
        idempotencyKey := [.text "seize"], partialQuantity := some 4 }⟩]

/-- The seizure of four units is logged as one of ten. -/
theorem partial_seizure_logs_all :
    ¬ ∀ calls : List LedgerCall,
        (∀ earlier c later, calls = earlier ++ c :: later →
          VolumesRecorded (runCalls .postgres earlier Ledger.empty)
            (runCalls .postgres (earlier ++ [c]) Ledger.empty)) ∧
        TotalsAgree (runCalls .postgres calls Ledger.empty) := by
  intro hclaim
  have hlogged : (runCalls .postgres (sampleDeposit ++ sampleSeizure) Ledger.empty).events.sumOf
      (InventoryEvent.volumeOf 1 .seized) = 10 := by decide +kernel
  have hseized : (runCalls .postgres (sampleDeposit ++ sampleSeizure)
      Ledger.empty).receipts.sumOf (Receipt.volumeOf 1 [.seized]) = 4 := by decide +kernel
  have htotals := (hclaim (sampleDeposit ++ sampleSeizure)).2 1 (.seized, .seized) (by decide)
  rw [hlogged, hseized] at htotals
  exact absurd htotals (by decide)

end SecureStore.Inventory
