/-
# Accepted collateral still awaits a decision

A hold starts out PENDING. Accepting a pledge turns its leaf into a lien without deciding
the approval, and a partial release copies the approval of the leaf it splits into what
stays behind; the one operation that approves a hold is called for withdrawals and loans
only. So every leaf under a lien is listed as awaiting the decision of a tenant admin.
-/

import SecureStore.Custody.Requests

namespace SecureStore.Services

open SecureStore.Foundation SecureStore.Inventory

/-- The receipts that await a decision, with the group each is shown in. -/
def getPendingApprovals (db : Db) (tenantId : Id) : List (Receipt × ReceiptGroup) :=
  (db.ledger.receipts.rows.filter fun r =>
    r.tenantId = tenantId ∧ r.approvalStatus = .pending).map fun r => (r, deriveGroup r)

/-- Every leaf under a lien is approved, and none is listed as awaiting a decision. -/
structure CollateralApproved (db : Db) : Prop where
  approved : ∀ r ∈ db.ledger.receipts, r.status = .heldLien → r.approvalStatus = .approved
  unlisted : ∀ tenantId, ∀ entry ∈ getPendingApprovals db tenantId, entry.1.status ≠ .heldLien

/-- The approval of pledged and liened leaves is open, and a lien comes from an acceptance. -/
structure ApprovalOpen (s : Ledger) : Prop where
  pending : ∀ r ∈ s.receipts, r.status = .heldPledgePending ∨ r.status = .heldLien →
    r.approvalStatus = .pending
  accepted : ∀ r ∈ s.receipts, r.status = .heldLien →
    ∃ e ∈ s.events, e.eventType = .pledgeAccepted

theorem mem_getPendingApprovals {db : Db} {tenantId : Id} {entry : Receipt × ReceiptGroup} :
    entry ∈ getPendingApprovals db tenantId ↔ entry.1 ∈ db.ledger.receipts ∧
      entry.1.tenantId = tenantId ∧ entry.1.approvalStatus = .pending ∧
        entry.2 = deriveGroup entry.1 := by
  obtain ⟨r, group⟩ := entry
  simp only [getPendingApprovals, List.mem_map, List.mem_filter, decide_eq_true_eq,
    Prod.mk.injEq]
  constructor
  · rintro ⟨r', ⟨hr, htenant, hpending⟩, rfl, rfl⟩
    exact ⟨hr, htenant, hpending, rfl⟩
  · rintro ⟨hr, htenant, hpending, rfl⟩
    exact ⟨r, ⟨hr, htenant, hpending⟩, rfl, rfl⟩

/-- What is held for something else is not pledged. -/
theorem HeldAs.not_pledged {txnType : TxnType} {status : ReceiptStatus}
    (h : HeldAs txnType status) (hother : txnType ≠ .pledge) :
    status ≠ .heldPledgePending ∧ status ≠ .heldLien := by
  cases h with
  | withdrawal => decide
  | loan => decide
  | trade => decide
  | pledge => exact absurd rfl hother
  | lien => exact absurd rfl hother

section Steps

variable {num : Numeric} {by_ : Issuer} {op : LedgerOp} {s s' : Db} {uuids : Uuids}
  {events : List InventoryEvent} {change : Change} {result : LedgerResult}

/-- The approval of a hold is decided for withdrawals and loans only. -/
theorem LedgerStep.approves_no_pledge {ctx : ActorCtx} {id : Id}
    (h : LedgerStep num by_ (.approveHold ctx id) s s') (hs : Custody s) {r : Receipt}
    (hfind : s.ledger.receipts.find id = some r) (hheld : r.status.Held) :
    r.status ≠ .heldPledgePending ∧ r.status ≠ .heldLien := by
  obtain ⟨txnType, txnId, htxn, r', hfind', hminted⟩ := h.rightful.entitled _ rfl
  obtain rfl := Option.some_inj.mp (hfind.symm.trans hfind')
  obtain ⟨txnType', hsource, hheldAs⟩ := hs.heldAs r (Table.mem_of_find hfind) hheld
  rw [(hminted hheld).1] at hsource
  obtain rfl := Option.some_inj.mp hsource
  apply hheldAs.not_pledged
  have hcalls := h.rightful.calls
  cases hcalls with
  | approveWithdrawal =>
      cases htxn
      decide
  | approveLoan =>
      cases htxn
      decide

/-- A receipt that a commit creates is pending if it is pledged; it is under a lien only
next to what a lien gives back. -/
theorem LedgerStep.created_pledged (h : LedgerStep num by_ op s s') (hu : ApprovalOpen s.ledger)
    (heffect : Effect num uuids s.ledger op events change result) {k : Receipt}
    (hk : k ∈ change.created) (hstatus : k.status = .heldPledgePending ∨ k.status = .heldLien) :
    k.approvalStatus = .pending ∧
      (k.status = .heldLien → ∃ r ∈ s.ledger.receipts, r.status = .heldLien) := by
  cases heffect with
  | deposit input positive =>
      obtain rfl := List.mem_singleton.mp hk
      rcases hstatus with hstatus | hstatus <;> cases hstatus
  | hold input src number number' =>
      rcases List.mem_cons.mp hk with rfl | hk
      · refine ⟨rfl, fun hlien => ?_⟩
        -- no request holds volume under a lien directly
        have hplaced : input.heldStatus.status = .heldLien := hlien
        have hcalls := h.rightful.calls
        cases hcalls <;> simp_all [HeldStatus.status]
      · obtain rfl := mem_partitionRemainder hk
        rcases hstatus with hstatus | hstatus <;> cases hstatus
  | releasePartial input src number number' loaded lien =>
      have hsrc : src ∈ s.ledger.receipts := Table.mem_of_find loaded.1
      rcases List.mem_pair.mp hk with rfl | rfl
      · rcases hstatus with hstatus | hstatus <;> cases hstatus
      · exact ⟨hu.pending src hsrc (.inr lien), fun _ => ⟨src, hsrc, lien⟩⟩
  | seizePart =>
      have hcalls := h.rightful.calls
      cases hcalls
  | _ => cases hk

/-- A receipt that a commit rewrites is pending if it is pledged afterwards; it comes under
a lien by an acceptance. -/
theorem LedgerStep.rewritten_pledged (h : LedgerStep num by_ op s s') (hs : Custody s)
    (hu : ApprovalOpen s.ledger) (heffect : Effect num uuids s.ledger op events change result)
    {before after : Receipt} (hrewritten : change.rewritten = some (before, after))
    (hstatus : after.status = .heldPledgePending ∨ after.status = .heldLien) :
    after.approvalStatus = .pending ∧
      (after.status = .heldLien → ∃ e ∈ events, e.eventType = .pledgeAccepted) := by
  have hcalls := h.rightful.calls
  cases heffect with
  | deposit => cases hrewritten
  | approveHold ctx r loaded held =>
      obtain ⟨rfl, rfl⟩ := Prod.mk.inj (Option.some_inj.mp hrewritten)
      obtain ⟨hpledge, hlien⟩ := h.approves_no_pledge hs loaded.1 held
      rcases hstatus with hstatus | hstatus
      · exact absurd hstatus hpledge
      · exact absurd hstatus hlien
  | transitionPledgeToLien ctx pledgeId r loaded pledged =>
      obtain ⟨rfl, rfl⟩ := Prod.mk.inj (Option.some_inj.mp hrewritten)
      have hpending : r.approvalStatus = .pending :=
        hu.pending r (Table.mem_of_find loaded.1) (.inl pledged)
      exact ⟨hpending, fun _ => ⟨_, List.mem_singleton_self _, rfl⟩⟩
  | transferOwnership => cases hcalls
  | _ =>
      obtain ⟨rfl, rfl⟩ := Prod.mk.inj (Option.some_inj.mp hrewritten)
      rcases hstatus with hstatus | hstatus <;> cases hstatus

/-- A ledger step leaves the approval of pledged leaves open. -/
theorem LedgerStep.approvalOpen (h : LedgerStep num by_ op s s') (hs : Custody s)
    (hu : ApprovalOpen s.ledger) : ApprovalOpen s'.ledger := by
  obtain ⟨uuids, events, change, result, heffect, hcommits⟩ := h.effect
  have hkept : (∃ e ∈ s.ledger.events, e.eventType = .pledgeAccepted) →
      ∃ e ∈ s'.ledger.events, e.eventType = .pledgeAccepted := by
    rintro ⟨e, he, htype⟩
    exact ⟨e, hcommits.mem_events.mpr (.inl he), htype⟩
  constructor
  · intro r hr hstatus
    rcases hcommits.receipt_cases hr with hcreated | ⟨before, hrewritten, -⟩ | ⟨hold, -⟩
    · exact (h.created_pledged hu heffect hcreated hstatus).1
    · exact (h.rewritten_pledged hs hu heffect hrewritten hstatus).1
    · exact hu.pending r hold hstatus
  · intro r hr hlien
    rcases hcommits.receipt_cases hr with hcreated | ⟨before, hrewritten, -⟩ | ⟨hold, -⟩
    · obtain ⟨r', hr', hlien'⟩ := (h.created_pledged hu heffect hcreated (.inr hlien)).2 hlien
      exact hkept (hu.accepted r' hr' hlien')
    · obtain ⟨e, he, htype⟩ :=
        (h.rewritten_pledged hs hu heffect hrewritten (.inr hlien)).2 hlien
      exact ⟨e, hcommits.mem_events.mpr (.inr he), htype⟩
    · exact hkept (hu.accepted r hold hlien)

end Steps

theorem approvalOpen_initial (directory : Directory) :
    ApprovalOpen (Db.initial directory).ledger := by
  constructor <;> simp [Db.initial]

/-- Requests leave the approval of pledged leaves open. -/
theorem runRequests_approvalOpen (num : Numeric) (directory : Directory) (requests : List Request) :
    Custody (runRequests num requests (Db.initial directory)) ∧
      ApprovalOpen (runRequests num requests (Db.initial directory)).ledger := by
  apply runRequests_keeps (P := fun db => ApprovalOpen db.ledger) ?_ requests
    (custody_initial directory) (approvalOpen_initial directory)
  intro label s s' hs hu htakes
  cases label with
  | read => exact htakes ▸ hu
  | ledger by_ op =>
      rcases htakes with rfl | ⟨-, hstep⟩
      · exact hu
      · exact hstep.approvalOpen hs hu
  | write by_ =>
      rcases htakes with rfl | ⟨-, hstep⟩
      · exact hu
      · exact hstep.ledger ▸ hu

/-- Where no leaf is under a lien, there is nothing to approve. -/
theorem CollateralApproved.of_none {db : Db}
    (h : ∀ r ∈ db.ledger.receipts, r.status ≠ .heldLien) : CollateralApproved db where
  approved r hr hlien := absurd hlien (h r hr)
  unlisted _ entry hentry := h entry.1 (mem_getPendingApprovals.mp hentry).1

/-- After any requests on an empty store: every leaf under a lien awaits a decision and is
listed so, the promise holds exactly where there is none, and it holds throughout a run in
which no pledge is accepted. -/
theorem collateral_approved_iff (num : Numeric) (directory : Directory)
    (requests : List Request) :
    let db := runRequests num requests (Db.initial directory)
    (∀ r ∈ db.ledger.receipts, r.status = .heldLien → r.approvalStatus = .pending ∧
        (r, deriveGroup r) ∈ getPendingApprovals db r.tenantId) ∧
      (CollateralApproved db ↔ ∀ r ∈ db.ledger.receipts, r.status ≠ .heldLien) ∧
      ((∀ e ∈ db.ledger.events, e.eventType ≠ .pledgeAccepted) →
        ∀ n, CollateralApproved (runRequests num (requests.take n) (Db.initial directory))) := by
  intro db
  have hopen : ApprovalOpen db.ledger := (runRequests_approvalOpen num directory requests).2
  refine ⟨?_, ?_, ?_⟩
  · intro r hr hlien
    have hpending := hopen.pending r hr (.inr hlien)
    exact ⟨hpending, mem_getPendingApprovals.mpr ⟨hr, rfl, hpending, rfl⟩⟩
  · constructor
    · intro happroved r hr hlien
      have hpending := hopen.pending r hr (.inr hlien)
      rw [happroved.approved r hr hlien] at hpending
      cases hpending
    · exact .of_none
  · intro hnone n
    obtain ⟨hcustody, hearlier⟩ := runRequests_approvalOpen num directory (requests.take n)
    apply CollateralApproved.of_none
    intro r hr hlien
    obtain ⟨e, he, htype⟩ := hearlier.accepted r hr hlien
    -- the log only grows, so the acceptance is still in it at the end
    let early := runRequests num (requests.take n) (Db.initial directory)
    have hlater : early.Later (runRequests num (requests.drop n) early) := by
      refine (runRequests_keeps (P := fun db => early.Later db) ?_ (requests.drop n) hcustody
        (.refl early)).2
      intro label s s' _ hs htakes
      exact hs.trans htakes.later
    have hend : runRequests num (requests.drop n) early = db := by
      unfold early runRequests
      rw [← List.foldl_append, List.take_append_drop]
      rfl
    rw [hend] at hlater
    exact hnone e (hlater.ledger.events e he) htype

/-- Pledge 7 is accepted: its leaf 122 is under a lien and still awaits a decision. -/
theorem accepted_collateral_awaits :
    ¬ ∀ (num : Numeric) (directory : Directory) (requests : List Request),
        CollateralApproved (runRequests num requests (Db.initial directory)) := by
  intro hclaim
  have happroved := (hclaim .decimalJs sampleDirectory
    (sampleStock ++ [samplePledge, sampleAcceptance])).approved
  have hpending : ∃ r ∈ (runRequests .decimalJs (sampleStock ++ [samplePledge, sampleAcceptance])
      (Db.initial sampleDirectory)).ledger.receipts.rows,
      r.status = .heldLien ∧ r.approvalStatus = .pending := by decide +kernel
  obtain ⟨r, hr, hlien, hstatus⟩ := hpending
  rw [happroved r hr hlien] at hstatus
  cases hstatus

end SecureStore.Services
