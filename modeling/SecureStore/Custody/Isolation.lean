/-
# Isolation of the modules

Whatever takes a receipt out of a hold, approves the hold or puts it under a lien
is the transaction the hold was placed for; what is under a lien is touched by
releases of that lien alone. The one exception in the code is the release by a
pledge's own decision: `release` accepts every held status, so a cancellation,
rejection or expiry that was checked before an acceptance frees the leaf that the
acceptance has just put under the lien.
-/

import SecureStore.Custody.Requests

namespace SecureStore.Services

open SecureStore.Foundation SecureStore.Inventory

namespace Issuer

/-- The releases of a lien, in a release request or by force. -/
def ByLien : Issuer → Prop
  | approveReleaseLine _ _ _ => True
  | forceReleaseLien _ => True
  | _ => False

/-- The decisions against a pledge. -/
def Refuses : Issuer → Prop
  | cancelPledge _ => True
  | rejectPledge _ => True
  | expirePledge _ => True
  | _ => False

instance : DecidablePred Refuses := fun by_ => by
  cases by_ <;> unfold Refuses <;> infer_instance

end Issuer

/-- A step changed the status of a receipt, or logged an approval of it. -/
def Touches (t : Transition Label Db) (r : Receipt) : Prop :=
  (∃ r' ∈ t.after.ledger.receipts, r'.id = r.id ∧ r'.status ≠ r.status) ∨
    ∃ e ∈ t.after.ledger.events, e ∉ t.before.ledger.events ∧ e.eventType = .approved ∧
      e.fromReceiptId = r.id

/-- The held receipts that a step touches are held for the transaction that its issuer
acts for; what is under a lien is touched by a release of the lien. -/
def Isolated (t : Transition Label Db) : Prop :=
  ∀ r ∈ t.before.ledger.receipts, r.status.Held → Touches t r →
    ∃ by_ op txnType txnId, t.label = .ledger by_ op ∧
      by_.txn t.before = some (txnType, txnId) ∧ MintedFor r txnType txnId ∧
        (r.status = .heldLien → by_.ByLien)

/-- A decision against a pledge comes to its release with the leaf already under the
lien, under a key not used so far. -/
def Overrules (label : Label) (s : Db) : Prop :=
  match label with
  | .ledger by_ (.release ctx heldReceiptId) => by_.Refuses ∧
      s.ledger.events.find ctx.idempotencyKey = none ∧
        (s.ledger.receipts.find heldReceiptId).map Receipt.status = some .heldLien
  | _ => False

instance (label : Label) (s : Db) : Decidable (Overrules label s) := by
  unfold Overrules
  split <;> infer_instance

section Steps

variable {num : Numeric} {uuids : Uuids} {by_ : Issuer} {op : LedgerOp} {s s' : Ledger}
  {events : List InventoryEvent} {change : Change} {result : LedgerResult}

/-- A call rewrites no held receipt but its target. -/
theorem Calls.rewrites_held (hcalls : Calls by_ op)
    (heffect : Effect num uuids s op events change result) {r after : Receipt}
    (hrewritten : change.rewritten = some (r, after)) (hheld : r.status.Held) :
    heldTarget op = some r.id := by
  cases heffect with
  | deposit => cases hrewritten
  | approveReceipt ctx r₀ loaded pending =>
      cases hrewritten
      rw [pending] at hheld
      exact absurd hheld (by decide)
  | rejectReceipt ctx reason r₀ loaded pending =>
      cases hrewritten
      rw [pending] at hheld
      exact absurd hheld (by decide)
  | hold input src number number' loaded active =>
      cases hrewritten
      rw [active] at hheld
      exact absurd hheld (by decide)
  | expire => cases hcalls
  | seizePart => cases hcalls
  | seizeAll => cases hcalls
  | transferOwnership => cases hcalls
  | _ =>
      have loaded := ‹Loaded s _ _ _›
      cases hrewritten
      exact congrArg some (Table.key_of_find loaded.1).symm

/-- A call logs no approval of a held receipt but its target. -/
theorem Calls.approves_held (hcalls : Calls by_ op)
    (heffect : Effect num uuids s op events change result) {r : Receipt} {e : InventoryEvent}
    (hr : r ∈ s.receipts) (hheld : r.status.Held) (he : e ∈ events)
    (htype : e.eventType = .approved) (hfrom : e.fromReceiptId = r.id) :
    heldTarget op = some r.id := by
  cases heffect with
  | approveReceipt ctx r₀ loaded pending =>
      obtain rfl := List.mem_singleton.mp he
      obtain rfl := Table.eq_of_key_eq (Table.mem_of_find loaded.1) hr hfrom
      rw [pending] at hheld
      exact absurd hheld (by decide)
  | approveHold ctx r₀ loaded =>
      obtain rfl := List.mem_singleton.mp he
      exact congrArg some ((Table.key_of_find loaded.1).symm.trans hfrom)
  | transferAndRelease =>
      rcases List.mem_pair.mp he with rfl | rfl <;> simp at htype
  | _ =>
      obtain rfl := List.mem_singleton.mp he
      simp at htype

/-- Of the calls made for a pledge, only releases take a leaf that is under a lien: those
of the lien, and those of a decision against the pledge. -/
theorem Calls.takes_lien (hcalls : Calls by_ op)
    (heffect : Effect num uuids s op events change result) {r : Receipt}
    (hfind : s.receipts.find r.id = some r) (hlien : r.status = .heldLien) {db : Db} {txnId : Id}
    (htarget : heldTarget op = some r.id) (htxn : by_.txn db = some (.pledge, txnId)) :
    by_.ByLien ∨ (by_.Refuses ∧ ∃ ctx, op = .release ctx r.id) := by
  cases hcalls with
  | cancelPledge =>
      cases htarget
      exact .inr ⟨trivial, _, rfl⟩
  | rejectPledge =>
      cases htarget
      exact .inr ⟨trivial, _, rfl⟩
  | expirePledge =>
      cases htarget
      exact .inr ⟨trivial, _, rfl⟩
  | acceptPledge =>
      cases htarget
      cases heffect with
      | transitionPledgeToLien ctx pledgeId r₀ loaded pledged =>
          obtain rfl := Option.some_inj.mp (hfind.symm.trans loaded.1)
          rw [hlien] at pledged
          cases pledged
  | releaseFully => exact .inl trivial
  | releasePartly => exact .inl trivial
  | forceReleaseLien => exact .inl trivial
  | createDeposit => cases htarget
  | approveReceipt => cases htarget
  | rejectReceipt => cases htarget
  | createPledge => cases htarget
  | _ => cases htxn

end Steps

/-- A step that leaves the ledger as it was touches no receipt. -/
theorem isolated_of_same {t : Transition Label Db} (h : t.after.ledger = t.before.ledger) :
    Isolated t := by
  rintro r hr - (⟨r', hr', hid, hstatus⟩ | ⟨e, he, hnew, -⟩)
  · rw [h] at hr'
    exact absurd (congrArg Receipt.status (Table.eq_of_key_eq hr' hr hid)) hstatus
  · rw [h] at he
    exact absurd he hnew

/-- A ledger call isolates, unless it is a decision's release of a lien's leaf. -/
theorem LedgerStep.isolated {num : Numeric} {by_ : Issuer} {op : LedgerOp} {s s' : Db}
    (h : LedgerStep num by_ op s s') (hs : Custody s)
    (hadmits : ¬ Overrules (.ledger by_ op) s) : Isolated ⟨s, .ledger by_ op, s'⟩ := by
  obtain ⟨uuids, events, change, result, heffect, hcommits⟩ := h.effect
  intro r hr hheld htouches
  have hcalls := h.rightful.calls
  have htarget : heldTarget op = some r.id := by
    rcases htouches with ⟨r', hr', hid, hstatus⟩ | ⟨e, he, hnew, htype, hfrom⟩
    · rcases hcommits.receipt_cases hr' with hcreated | ⟨before, hrewritten, hbefore⟩ | ⟨hold, -⟩
      · exact absurd hid.symm (hcommits.created_ne hcreated hr)
      · obtain rfl : before = r := Table.eq_of_key_eq hbefore hr
          ((heffect.sameNode hrewritten).id.symm.trans hid)
        exact hcalls.rewrites_held heffect hrewritten hheld
      · exact absurd (congrArg Receipt.status (Table.eq_of_key_eq hold hr hid)) hstatus
    · have hevent := (hcommits.mem_events.mp he).resolve_left hnew
      exact hcalls.approves_held heffect hr hheld hevent htype hfrom
  have hfind : s.ledger.receipts.find r.id = some r := Table.find_of_mem hr
  obtain ⟨txnType, txnId, htxn, r', hfind', hminted⟩ := h.rightful.entitled r.id htarget
  obtain rfl := Option.some_inj.mp (hfind.symm.trans hfind')
  refine ⟨by_, op, txnType, txnId, rfl, htxn, hminted hheld, fun hlien => ?_⟩
  -- a leaf under a lien is held for a pledge
  obtain ⟨txnType', htype, hheldAs⟩ := hs.heldAs r hr hheld
  obtain rfl := Option.some_inj.mp ((hminted hheld).1.symm.trans htype)
  rw [hlien] at hheldAs
  cases hheldAs
  rcases hcalls.takes_lien heffect hfind hlien htarget htxn with hby | ⟨hrefuses, ctx, rfl⟩
  · exact hby
  · exact absurd ⟨hrefuses, h.free, by simp [hfind, hlien]⟩ hadmits

/-- In every run of any requests on an empty store, interleaved and crashing anywhere,
every step is isolated as long as no decision overrules an acceptance. -/
theorem modules_isolated (num : Numeric) (directory : Directory) (requests : List Request)
    {trace : List (Transition Label Db)} {s : Db} {pool : List (Api Unit)}
    (hrun : Run (Db.initial directory) (requests.map (Request.run num)) trace s pool)
    (hadmits : ∀ t ∈ trace, ¬ Overrules t.label t.before) : ∀ t ∈ trace, Isolated t := by
  intro t ht
  obtain ⟨hs, htakes, -⟩ := (runs_custody num directory requests hrun).each t ht
  obtain ⟨before, label, after⟩ := t
  cases label with
  | read => exact isolated_of_same (congrArg Db.ledger htakes)
  | write by_ =>
      rcases htakes with hsame | ⟨-, hwrite⟩
      · exact isolated_of_same (congrArg Db.ledger hsame)
      · exact isolated_of_same hwrite.ledger
  | ledger by_ op =>
      rcases htakes with hsame | ⟨-, hstep⟩
      · exact isolated_of_same (congrArg Db.ledger hsame)
      · exact hstep.isolated hs (hadmits _ ht)

/-- The acceptance of a pledge reads it while a cancellation is under way: both find it
pending, the leaf goes under the lien, and the cancellation releases it. -/
def overruledRun : List (Transition Label Db) × Db × List (Api Unit) :=
  interleave ([0, 1] ++ List.replicate 7 2 ++ [3, 3, 4, 3, 4]) (Db.initial sampleDirectory)
    ((sampleStock ++ [samplePledge, sampleAcceptance, sampleCancellation]).map
      (Request.run .postgres))

/-- A cancellation that overrules an acceptance is not isolated. -/
theorem Overrules.not_isolated {t : Transition Label Db} (h : Overrules t.label t.before)
    {r : Receipt} (hr : r ∈ t.before.ledger.receipts) (hlien : r.status = .heldLien)
    (htouches : Touches t r) :
    ¬ Isolated t := by
  intro hisolated
  have hheld : r.status.Held := by rw [hlien]; decide
  obtain ⟨by_, op, -, -, hlabel, -, -, hby⟩ := hisolated r hr hheld htouches
  unfold Overrules at h
  rw [hlabel] at h
  have hrefuses : by_.Refuses := by
    cases op with
    | release => exact h.1
    | _ => exact h.elim
  have := hby hlien
  cases by_ <;> first | exact hrefuses.elim | exact this.elim

/-- In the overruled run a leaf under a lien is released by the cancellation of its
pledge. -/
theorem overruled_not_isolated :
    ¬ ∀ (num : Numeric) (directory : Directory) (requests : List Request)
      (trace : List (Transition Label Db)) (s : Db) (pool : List (Api Unit)),
        Run (Db.initial directory) (requests.map (Request.run num)) trace s pool →
          ∀ t ∈ trace, Isolated t := by
  intro h
  have hrun : Run (Db.initial sampleDirectory) _ overruledRun.1 overruledRun.2.1
      overruledRun.2.2 := run_interleave _ _ _
  have htouched : ∃ t ∈ overruledRun.1, Overrules t.label t.before ∧
      ∃ r ∈ t.before.ledger.receipts.rows, r.status = .heldLien ∧
        ∃ r' ∈ t.after.ledger.receipts.rows, r'.id = r.id ∧
        r'.status ≠ r.status := by
    decide +kernel
  obtain ⟨t, ht, hoverrules, r, hr, hlien, htouches⟩ := htouched
  exact hoverrules.not_isolated hr hlien (.inl htouches) (h _ _ _ _ _ _ hrun t ht)

/-- Isolation of a run in which the cancellation comes too late. -/
theorem modules_isolated_sample :
    List.Forall Isolated (interleave
      ([0, 1] ++ List.replicate 7 2 ++ List.replicate 6 3 ++ [4, 4, 4])
      (Db.initial sampleDirectory)
      ((sampleStock ++ [samplePledge, sampleAcceptance, sampleCancellation]).map
        (Request.run .postgres))).1 := by
  apply List.forall_iff_forall_mem.mpr
  exact modules_isolated .postgres sampleDirectory _ (run_interleave _ _ _) (by decide +kernel)

end SecureStore.Services
