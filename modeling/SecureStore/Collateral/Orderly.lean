/-
# Orderly runs

Requests executed one at a time, each to its end, whose new ids are new and whose
quantities are of a size that leaves carry: after each of them leaves, pledges and liens
agree. With exact arithmetic every quantity is of such a size; with the columns of the
database a pledge of four decimals is not, because the leaf keeps three.
-/

import SecureStore.Collateral.Approval
import SecureStore.Collateral.Commitments

namespace SecureStore.Services

open SecureStore.Foundation SecureStore.Inventory

/-- What a request is asked for; other requests are not asked for anything. -/
def Request.Orderly (Admitted Sized : ℚ → Prop) : Request → Db → Prop
  | .createPledge dto, _ => Admitted dto.quantity
  | .acceptPledge dto, db => dto.Orderly Sized db
  | .createReleaseRequest dto, _ => dto.Orderly Admitted
  | .approveReleaseRequest dto, db => dto.Orderly Sized db
  | .forceReleaseLien dto, db => dto.Orderly db
  | _, _ => True

/-- The requests of a run, each orderly in the state it finds. -/
def OrderlyRun (num : Numeric) (Admitted Sized : ℚ → Prop) : List Request → Db → Prop
  | [], _ => True
  | request :: rest, db =>
      request.Orderly Admitted Sized db ∧
        OrderlyRun num Admitted Sized rest ((request.run num).exec db).2

section Runs

variable {num : Numeric} {Admitted Sized : ℚ → Prop} {s : Db}

theorem backed_initial (directory : Directory) :
    Backed num Admitted Sized (fun _ _ => False) (Db.initial directory) where
  volumes := by constructor <;> simp [Db.initial]
  rows := by constructor <;> simp [Db.initial]
  logged := by constructor <;> simp [Db.initial, Ledger.Used]

/-- One request, run to its end. -/
theorem Request.backed (hcolumns : Columns num Admitted Sized) (request : Request)
    (hc : Custody s) (h : Backed num Admitted Sized (fun _ _ => False) s)
    (horderly : request.Orderly Admitted Sized s) :
    Ends (fun _ => Backed num Admitted Sized (fun _ _ => False)) (request.run num) s := by
  by_cases hcollateral : request.Collateral
  · cases request with
    | createPledge dto => exact createPledge_keeps h hcolumns dto horderly
    | cancelPledge uuids callerUserId pledgeId =>
        exact cancelPledge_keeps h uuids callerUserId pledgeId
    | acceptPledge dto => exact acceptPledge_keeps h hcolumns dto horderly
    | rejectPledge uuids callerUserId pledgeId reason =>
        exact rejectPledge_keeps h uuids callerUserId pledgeId reason
    | expireStalePledges uuids now => exact expireStalePledges_keeps h uuids now
    | createReleaseRequest dto => exact createReleaseRequest_keeps h hcolumns dto horderly
    | cancelReleaseRequest callerUserId requestId =>
        exact cancelReleaseRequest_keeps h callerUserId requestId
    | approveReleaseRequest dto => exact approveReleaseRequest_keeps h hcolumns dto horderly
    | rejectReleaseRequest callerUserId requestId reason =>
        exact rejectReleaseRequest_keeps h callerUserId requestId reason
    | forceReleaseLien dto => exact forceReleaseLien_keeps h dto horderly
    | _ => exact hcollateral.elim
  · have hframe : (custody num fun by_ => ¬ by_.Collateral).Safe (request.run num) s :=
      request.safe_frame (fun _ hother => hother) hcollateral s
    apply (Process.Ensures.of_keeps hframe hc fun _ _ => trivial).mono (fun _ _ => trivial)
    rintro _ s' ⟨-, hrely, -⟩
    exact frame_backed hrely h

/-- Custody and agreement after a whole run. -/
theorem orderlyRun_backed (hcolumns : Columns num Admitted Sized) (requests : List Request)
    (hc : Custody s) (h : Backed num Admitted Sized (fun _ _ => False) s)
    (horderly : OrderlyRun num Admitted Sized requests s) :
    Backed num Admitted Sized (fun _ _ => False) (runRequests num requests s) := by
  induction requests generalizing s with
  | nil => exact h
  | cons request rest ih =>
      obtain ⟨hrequest, hrest⟩ := horderly
      have hsafe : (custody num fun _ => True).Safe (request.run num) s :=
        request.safe (fun _ => trivial) s
      have hcustody := (Process.Ensures.of_keeps hsafe hc fun _ _ => trivial).exec
      exact ih hcustody.1 (request.backed hcolumns hc h hrequest).exec hrest

end Runs

/-- A live lien and its leaf. -/
def Lien.Covered (l : Lien) (db : Db) : Prop :=
  ∃ r ∈ db.ledger.receipts, r.id = l.receiptId ∧ r.status = .heldLien ∧ r.isParent = false ∧
    r.quantity = l.remainingQuantity ∧ 0 < l.remainingQuantity

/-- Leaves, pledges and liens, as the design has them. -/
structure CollateralAgrees (db : Db) : Prop where
  liens : ∀ l ∈ db.liens, l.status.Live → l.Covered db
  apart : ∀ l ∈ db.liens, ∀ l' ∈ db.liens, l.status.Live → l'.status.Live → l ≠ l' →
    l.receiptId ≠ l'.receiptId
  owned : ∀ r ∈ db.ledger.receipts, r.status = .heldLien →
    ∃! l, l ∈ db.liens ∧ l.status.Live ∧ l.receiptId = r.id
  pledges : ∀ p ∈ db.pledges, p.status = .pending ↔ ∃ r ∈ db.ledger.receipts,
    p.heldReceiptId = some r.id ∧ r.status = .heldPledgePending ∧ r.isParent = false ∧
      r.quantity = p.quantity

theorem columns_exact : Columns .exact (fun _ => True) fun _ => True where
  row _ := rfl
  lien _ := rfl
  leaf _ := rfl
  minus _ _ _ _ := ⟨rfl, trivial⟩

/-- With exact decimals, requests executed one at a time in any order keep leaves, pledges
and liens in agreement. -/
theorem collateral_agrees (directory : Directory) (requests : List Request)
    (horderly : OrderlyRun .exact (fun _ => True) (fun _ => True) requests
      (Db.initial directory)) :
    CollateralAgrees (runRequests .exact requests (Db.initial directory)) := by
  have h := orderlyRun_backed columns_exact requests (custody_initial directory)
    (backed_initial directory) horderly
  constructor
  · intro l hl hlive
    obtain ⟨r, hr, hid, hstatus, hleaf, hquantity, -, hpositive, -⟩ := h.volumes.liens l hl hlive
    exact ⟨r, hr, hid, hstatus, hleaf, hquantity, hpositive⟩
  · intro l hl l' hl' hlive hlive' hne hsame
    exact hne (h.volumes.apart l hl l' hl' hlive hlive' hsame)
  · intro r hr hlien
    obtain ⟨l, hl, hlive, hreceipt⟩ := h.volumes.owned r hr hlien
    refine ⟨l, ⟨hl, hlive, hreceipt⟩, ?_⟩
    rintro l' ⟨hl', hlive', hreceipt'⟩
    exact h.volumes.apart l' hl' l hl hlive' hlive (hreceipt'.trans hreceipt.symm)
  · intro p hp
    constructor
    · intro hpending
      obtain ⟨r, hr, hheld, hquantity, -, hstatus, hleaf⟩ := h.volumes.pledges p hp
      exact ⟨r, hr, hheld, hstatus.mpr hpending, hleaf hpending, hquantity⟩
    · rintro ⟨r, hr, hheld, hstatus, -⟩
      exact ((h.volumes.pledges p hp).leaf hr hheld).2.2.1.mp hstatus

/-- A run is orderly as far as its last request when that request is orderly too. -/
theorem OrderlyRun.snoc {num : Numeric} {Admitted Sized : ℚ → Prop} {requests : List Request}
    {s : Db} (h : OrderlyRun num Admitted Sized requests s) {request : Request}
    (hlast : request.Orderly Admitted Sized (runRequests num requests s)) :
    OrderlyRun num Admitted Sized (requests ++ [request]) s := by
  induction requests generalizing s with
  | nil => exact ⟨hlast, trivial⟩
  | cons first rest ih => exact ⟨h.1, ih h.2 hlast⟩

/-- Six of ten units are pledged. -/
def samplePledged : List Request := sampleStock ++ [samplePledge]

/-- The pledge is accepted, and the release of four units is asked for. -/
def sampleRequested : List Request :=
  samplePledged ++ [sampleAcceptance] ++ [sampleRelease 40 41 4]

/-- The sample run is orderly when its quantities are of a good size. -/
theorem sampleRun_orderly {num : Numeric} {Admitted Sized : ℚ → Prop} (hsix : Admitted 6)
    (hfour : Admitted 4)
    (hfresh : (runRequests num samplePledged (Db.initial sampleDirectory)).liens.find 8 = none)
    (haccept : ∀ p ∈ (runRequests num samplePledged (Db.initial sampleDirectory)).pledges.rows,
      Sized p.quantity)
    (hlines : ∀ x ∈ (runRequests num sampleRequested
      (Db.initial sampleDirectory)).releaseRequestLines.rows, x.id = 41 ∧ Sized x.quantity)
    (huuids : (sampleUuids 180).Fresh (runRequests num sampleRequested
      (Db.initial sampleDirectory)).ledger) :
    OrderlyRun num Admitted Sized (sampleRequested ++ [sampleApproval])
      (Db.initial sampleDirectory) := by
  have hstock : OrderlyRun num Admitted Sized sampleStock (Db.initial sampleDirectory) :=
    ⟨trivial, trivial, trivial⟩
  have hpledge : samplePledge.Orderly Admitted Sized
      (runRequests num sampleStock (Db.initial sampleDirectory)) := hsix
  have hacceptance : sampleAcceptance.Orderly Admitted Sized
      (runRequests num samplePledged (Db.initial sampleDirectory)) := by
    generalize runRequests num samplePledged (Db.initial sampleDirectory) = db at hfresh haccept ⊢
    exact ⟨hfresh, fun p hp => haccept p (Table.mem_of_find hp.1)⟩
  have hrelease : (sampleRelease 40 41 4).Orderly Admitted Sized
      (runRequests num (samplePledged ++ [sampleAcceptance]) (Db.initial sampleDirectory)) := by
    constructor
    · intro line hline
      obtain rfl := List.mem_singleton.mp hline
      exact hfour
    · exact List.nodup_singleton _
  have happroval : sampleApproval.Orderly Admitted Sized
      (runRequests num sampleRequested (Db.initial sampleDirectory)) := by
    constructor
    · exact fun _ _ x hx _ => (hlines x hx).2
    · exact fun _ _ _ => huuids
    · intro x hx y hy _ _ hne
      exact absurd (Table.eq_of_key_eq hx hy ((hlines x hx).1.trans (hlines y hy).1.symm)) hne
  exact (((hstock.snoc hpledge).snoc hacceptance).snoc hrelease).snoc happroval

/-- The four kinds of agreement after six units were pledged and four of them released. -/
theorem collateral_agrees_sample :
    CollateralAgrees (runRequests .exact (sampleRequested ++ [sampleApproval])
      (Db.initial sampleDirectory)) := by
  apply collateral_agrees sampleDirectory (sampleRequested ++ [sampleApproval])
  apply sampleRun_orderly trivial trivial
  · decide +kernel
  · exact fun _ _ => trivial
  · have hlines : ∀ x ∈ (runRequests .exact sampleRequested
        (Db.initial sampleDirectory)).releaseRequestLines.rows, x.id = 41 := by
      decide +kernel
    exact fun x hx => ⟨hlines x hx, trivial⟩
  · decide +kernel

/-! ## The columns of the database -/

/-- The values of the column `numeric(18,3)`. -/
def ReceiptSized (q : ℚ) : Prop := HasScale 3 q ∧ |q| < 10 ^ 15

instance (q : ℚ) : Decidable (ReceiptSized q) := instDecidableAnd

theorem columns_postgres : Columns .postgres (HasScale 4) ReceiptSized where
  row := roundScale_of_hasScale
  lien h := roundScale_of_hasScale h.1.succ
  leaf h := roundScale_of_hasScale h.1
  minus := by
    rintro x y ⟨hx, hxlt⟩ ⟨hy, -⟩ hpos hlt
    have hscale : HasScale 3 (x - y) := hx.sub hy
    have hsmall : |x - y| < 10 ^ 15 := by
      rw [abs_of_pos (sub_pos.mpr hlt)]
      have hle : x ≤ |x| := le_abs_self x
      linarith
    have hfits : Foundation.Fits 20 (x - y) := by
      apply fits_of_hasScale hscale
      linarith
    exact ⟨roundSig_of_fits hfits, hscale, hsmall⟩

/-- Liens and leaves carry the same volume, and what was released in full is what its line
named. -/
structure VolumesAgree (db : Db) : Prop where
  liens : ∀ l ∈ db.liens, l.status.Live → ∃ r ∈ db.ledger.receipts,
    r.id = l.receiptId ∧ r.status = .heldLien ∧ r.quantity = l.remainingQuantity
  full : ∀ e ∈ db.ledger.events, ∀ requestId lineId,
    e.idempotencyKey = fullKey requestId lineId →
      ∃ x ∈ db.releaseRequestLines, x.id = lineId ∧ x.releaseRequestId = requestId ∧
        ∃ r ∈ db.ledger.receipts, r.id = e.fromReceiptId ∧ r.quantity = x.quantity

/-- Stored volumes agree along every run in which what is accepted and what is approved has
three decimals at most. -/
theorem stored_volumes_agree (directory : Directory) (requests : List Request)
    (horderly : OrderlyRun .postgres (HasScale 4) ReceiptSized requests (Db.initial directory)) :
    VolumesAgree (runRequests .postgres requests (Db.initial directory)) := by
  have h := orderlyRun_backed columns_postgres requests (custody_initial directory)
    (backed_initial directory) horderly
  refine ⟨?_, h.volumes.full⟩
  intro l hl hlive
  obtain ⟨r, hr, hid, hstatus, -, hquantity, -⟩ := h.volumes.liens l hl hlive
  exact ⟨r, hr, hid, hstatus, hquantity⟩

/-- The sample run, with six units pledged and four of them released. -/
theorem stored_volumes_agree_sample :
    VolumesAgree (runRequests .postgres (sampleRequested ++ [sampleApproval])
      (Db.initial sampleDirectory)) := by
  apply stored_volumes_agree sampleDirectory (sampleRequested ++ [sampleApproval])
  apply sampleRun_orderly
  · decide +kernel
  · decide +kernel
  · decide +kernel
  · decide +kernel
  · decide +kernel
  · decide +kernel

/-- A pledge of 6.0004 units. -/
def finePledged : List Request :=
  sampleStock ++
    [.createPledge
      { uuids := sampleUuids 120, pledgeId := 7, now := 0, callerUserId := 10, receiptId := 102
        quantity := 60004 / 10000, financierId := 30, note := none }]

/-- Its lien carries 6.0004 units, and its leaf carries 6.000. -/
theorem lien_exceeds_leaf :
    ¬ ∀ (directory : Directory) (requests : List Request),
      OrderlyRun .postgres (HasScale 4) (HasScale 4) requests (Db.initial directory) →
        VolumesAgree (runRequests .postgres requests (Db.initial directory)) := by
  intro hclaim
  have hstock : OrderlyRun .postgres (HasScale 4) (HasScale 4) sampleStock
      (Db.initial sampleDirectory) := ⟨trivial, trivial, trivial⟩
  have hfour : HasScale 4 (60004 / 10000) := by decide +kernel
  have hpledged : OrderlyRun .postgres (HasScale 4) (HasScale 4) finePledged
      (Db.initial sampleDirectory) := hstock.snoc hfour
  have hfresh : (runRequests .postgres finePledged (Db.initial sampleDirectory)).liens.find 8 =
      none := by
    decide +kernel
  have hsized : ∀ p ∈ (runRequests .postgres finePledged
      (Db.initial sampleDirectory)).pledges.rows, HasScale 4 p.quantity := by
    decide +kernel
  have hagree := hclaim sampleDirectory (finePledged ++ [sampleAcceptance])
    (hpledged.snoc ⟨hfresh, fun p hp => hsized p (Table.mem_of_find hp.1)⟩)
  have hdiffer : ∃ l ∈ (runRequests .postgres (finePledged ++ [sampleAcceptance])
      (Db.initial sampleDirectory)).liens.rows, l.status.Live ∧
        ∀ r ∈ (runRequests .postgres (finePledged ++ [sampleAcceptance])
          (Db.initial sampleDirectory)).ledger.receipts.rows,
            r.id = l.receiptId → r.quantity ≠ l.remainingQuantity := by
    decide +kernel
  obtain ⟨l, hl, hlive, hnone⟩ := hdiffer
  obtain ⟨r, hr, hid, -, hquantity⟩ := hagree.liens l hl hlive
  exact hnone r hr hid hquantity

end SecureStore.Services
