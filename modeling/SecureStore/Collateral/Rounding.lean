/-
# Approvals over the columns

The columns of the database keep three decimals of a receipt and four of a line. An approval
whose lines have three does over them what it does over exact numbers, step for step, so what
is known of stopped approvals holds of it too. A line with a fourth decimal leaves a leaf that
does not carry what remains of its lien.
-/

import SecureStore.Collateral.Orderly
import SecureStore.Collateral.Retry

namespace SecureStore.Services

open SecureStore.Foundation SecureStore.Inventory

/-! ## Calls that compute alike -/

theorem amendReceipt_congr {num num' : Numeric} {tenantId id : Id}
    {check : Receipt → Except ApiError Unit} {entry : Receipt → InventoryEvent}
    {update : Receipt → Receipt} {hf : ∀ r, Keyed.key (update r) = Keyed.key r} {s : Ledger}
    (h : ∀ r ∈ s.receipts, event num (entry r) = event num' (entry r)) :
    amendReceipt num tenantId id check entry update hf s =
      amendReceipt num' tenantId id check entry update hf s := by
  unfold amendReceipt
  apply Tx.bind_query_congr
  intro r hr
  rw [h r (Table.mem_of_find (Ledger.loadOrThrow_ok.mp hr).1)]

theorem minus_sized {x y : ℚ} (hx : ReceiptSized x) (hy : ReceiptSized y) :
    Numeric.postgres.minus x y = x - y := by
  apply roundSig_of_fits
  apply fits_of_hasScale (hx.1.sub hy.1)
  have habs : |x - y| ≤ |x| + |y| := abs_sub x y
  linarith [hx.2, hy.2]

theorem event_stored {e : InventoryEvent} (h : ReceiptSized e.quantity) :
    event .postgres e = event .exact e := by
  have hstored : Numeric.postgres.storeEvent e = Numeric.exact.storeEvent e := by
    have hquantity : roundScale 3 e.quantity = e.quantity := roundScale_of_hasScale h.1
    unfold Numeric.storeEvent Numeric.postgres Numeric.exact
    simp only [hquantity]
  unfold event
  rw [hstored]

theorem createReceipt_stored {r : Receipt} (h : ReceiptSized r.quantity) :
    createReceipt .postgres r = createReceipt .exact r := by
  have hstored : Numeric.postgres.storeReceipt r = Numeric.exact.storeReceipt r := by
    have hquantity : roundScale 3 r.quantity = r.quantity := roundScale_of_hasScale h.1
    unfold Numeric.storeReceipt Numeric.postgres Numeric.exact
    simp only [hquantity]
  unfold createReceipt
  rw [hstored]

/-- Every receipt carries a value of its column. -/
def ReceiptsSized (s : Ledger) : Prop := ∀ r ∈ s.receipts, ReceiptSized r.quantity

section Calls

variable {uuids : Uuids} {s s' : Ledger}

theorem release_stored {ctx : ActorCtx} {id : Id} (h : ReceiptsSized s) :
    Inventory.release .postgres uuids ctx id s = Inventory.release .exact uuids ctx id s := by
  apply runIdempotent_congr
  apply amendReceipt_congr
  intro r hr
  exact event_stored (h r hr)

theorem releasePartial_stored {input : ReleasePartialInput} (h : ReceiptsSized s)
    (hquantity : ReceiptSized input.releaseQuantity) :
    Inventory.releasePartial .postgres uuids input s =
      Inventory.releasePartial .exact uuids input s := by
  apply runIdempotent_congr
  apply Tx.bind_query_congr
  intro src hsrc
  have hmem := Table.mem_of_find (Ledger.loadOrThrow_ok.mp hsrc).1
  have hsrc := h src hmem
  have hminus := minus_sized hsrc hquantity
  apply Tx.bind_throwIf_congr
  intro _
  apply Tx.bind_throwIf_congr
  intro hpositive
  apply Tx.bind_throwIf_congr
  intro havailable
  have hrest : ReceiptSized (src.quantity - input.releaseQuantity) := by
    refine ⟨hsrc.1.sub hquantity.1, ?_⟩
    rw [abs_of_pos (sub_pos.mpr (not_le.mp havailable))]
    linarith [hsrc.2, le_abs_self src.quantity, not_le.mp hpositive]
  have hevent := event_stored (e := eventFrom uuids.event input.tenantId src .holdReleased
    (some .pledge) (some input.releaseRequestId) input.releaseQuantity input.actorUserId
    input.idempotencyKey) hquantity
  have hexact : Numeric.exact.minus src.quantity input.releaseQuantity =
      src.quantity - input.releaseQuantity := rfl
  have hchild : ∀ id number status clientId approval txnType txnId eventId q, ReceiptSized q →
      createReceipt .postgres
          (childOf src id number status q clientId approval txnType txnId eventId) =
        createReceipt .exact
          (childOf src id number status q clientId approval txnType txnId eventId) :=
    fun _ _ _ _ _ _ _ _ _ hq => createReceipt_stored hq
  simp only [hevent, hminus, hexact, hchild _ _ _ _ _ _ _ _ _ hquantity,
    hchild _ _ _ _ _ _ _ _ _ hrest]

/-- A release, in full or in part, leaves values of the column. -/
theorem ReceiptsSized.outcome {op : LedgerOp} {result : LedgerResult} (h : ReceiptsSized s)
    (hop : (∃ ctx id, op = .release ctx id) ∨
      ∃ input, op = .releasePartial input ∧ ReceiptSized input.releaseQuantity)
    (houtcome : Outcome .exact uuids op s result s') : ReceiptsSized s' := by
  cases houtcome with
  | replayed e prior reconstructs same => exact same ▸ h
  | committed free events change effect commits =>
      intro r hr
      rcases commits.mem_receipts.mp hr with ⟨r₀, hr₀, rfl⟩ | hcreated
      · rw [(commits.advance effect hr₀).1.quantity]
        exact h r₀ hr₀
      rcases hop with ⟨ctx, id, rfl⟩ | ⟨input, rfl, hquantity⟩
      · cases effect with
        | release ctx r₀ loaded held => cases hcreated
      · cases effect with
        | releasePartial input src number number' loaded lien positive available =>
            have hsrc := h src (Table.mem_of_find loaded.1)
            rcases List.mem_pair.mp hcreated with rfl | rfl
            · exact hquantity
            · refine ⟨hsrc.1.sub hquantity.1, ?_⟩
              change |src.quantity - input.releaseQuantity| < 10 ^ 15
              rw [abs_of_pos (sub_pos.mpr available)]
              linarith [hsrc.2, le_abs_self src.quantity]

end Calls

/-! ## Sized lines -/

/-- The quantities of a line and of its lien are values of the receipts' column. -/
structure LoadedLine.Sized (l : LoadedLine) : Prop where
  line : ReceiptSized l.line.quantity
  lien : ReceiptSized l.lien.remainingQuantity

/-- The receipts, and the lines of a request with their liens, carry values of the receipts'
column. -/
structure Sized (requestId : Id) (db : Db) : Prop where
  receipts : ReceiptsSized db.ledger
  lines : ∀ l ∈ loadedLines db requestId, l.Sized

section Lines

variable {dto : ApproveReleaseRequest} {req : ReleaseRequest} {l : LoadedLine} {s : Db}

/-- What is left of a lien when a line is taken from it. -/
theorem LoadedLine.Sized.rest (h : l.Sized) (hpositive : 0 < l.line.quantity)
    (hvalid : l.line.quantity ≤ l.lien.remainingQuantity) :
    ReceiptSized (l.lien.remainingQuantity - l.line.quantity) := by
  refine ⟨h.lien.1.sub h.line.1, ?_⟩
  rw [abs_of_nonneg (sub_nonneg.mpr hvalid)]
  linarith [h.lien.2, le_abs_self l.lien.remainingQuantity]

/-- A line of three decimals is released over the columns as over exact numbers. -/
theorem releaseLine_alike (hsized : ReceiptsSized s.ledger) (hline : l.Sized) :
    Process.Alike (releaseLine .exact dto req l) (releaseLine .postgres dto req l) s := by
  unfold releaseLine
  split
  · unfold releaseFully
    apply alike_bind
    · apply alike_write
      simp only [Api.within, release_stored hsized]
    · exact fun _ _ _ => .refl _ _
  · have hminus : Numeric.postgres.numeric20_4
        (Numeric.postgres.minus l.lien.remainingQuantity l.line.quantity) =
          Numeric.exact.numeric20_4
            (Numeric.exact.minus l.lien.remainingQuantity l.line.quantity) := by
      rw [minus_sized hline.lien hline.line]
      exact roundScale_of_hasScale (hline.lien.1.sub hline.line.1).succ
    unfold releasePartly
    rw [hminus]
    apply alike_bind
    · apply alike_write
      have hcall : ∀ input : ReleasePartialInput, input.releaseQuantity = l.line.quantity →
          Inventory.releasePartial .postgres (dto.uuids l.line.id) input s.ledger =
            Inventory.releasePartial .exact (dto.uuids l.line.id) input s.ledger :=
        fun input hinput => releasePartial_stored hsized (hinput ▸ hline.line)
      simp only [Api.within, hcall]
    · exact fun _ _ _ => .refl _ _

/-- The line leaves values of the column. -/
theorem releaseLine_receiptsSized (hsized : ReceiptsSized s.ledger)
    (hline : ReceiptSized l.line.quantity) :
    Process.Ensures (fun s' => ReceiptsSized s'.ledger) (fun _ s' => ReceiptsSized s'.ledger)
      (releaseLine .exact dto req l) s := by
  have hupdate : ∀ {by_ : Issuer} {id : Id} {f : Lien → Lien}
      {hf : ∀ r, Keyed.key (f r) = Keyed.key r} {s : Db}, ReceiptsSized s.ledger →
        Process.Ensures (fun s' => ReceiptsSized s'.ledger)
          (fun _ s' => ReceiptsSized s'.ledger) (updateLien by_ id f hf) s := by
    intro by_ id f hf s hs
    apply ensures_write_last
    · exact fun _ _ => ⟨hs, hs⟩
    intro _ s' hok
    obtain ⟨liens, -, hresult⟩ := map_ok.mp hok
    cases hresult
    exact ⟨hs, hs⟩
  unfold releaseLine
  split
  · apply ensures_ledger rfl
    · exact fun _ => ⟨hsized, hsized⟩
    intro _ ledger houtcome
    have hs := hsized.outcome (.inl ⟨_, _, rfl⟩) houtcome
    exact ⟨hs, hupdate hs⟩
  · apply ensures_ledger rfl
    · exact fun _ => ⟨hsized, hsized⟩
    intro result ledger houtcome
    have hs := hsized.outcome (.inr ⟨_, rfl, hline⟩) houtcome
    refine ⟨hs, ?_⟩
    apply ensures_orThrow
    · exact fun _ => hs
    · exact fun _ _ => hupdate hs

theorem requireFinancierOrg_reads {callerUserId : Id} :
    Process.Ensures (fun _ => True) (fun _ s' => s' = s) (requireFinancierOrg callerUserId) s := by
  apply ensures_read trivial
  apply ensures_orThrow
  · exact fun _ => rfl
  intro org _
  apply ensures_throwIf
  · exact fun _ => rfl
  · exact fun _ => rfl

theorem revalidateLines_reads {lines : List LoadedLine} :
    Process.Ensures (fun _ => True) (fun _ s' => s' = s)
      (Attempt.forEach lines revalidateLine : Api Unit) s := by
  apply ensures_forEach fun _ s' => s' = s
  · rintro l rest s' rfl
    apply ensures_throwIf
    · exact fun _ => rfl
    intro _
    apply ensures_throwIf_last
    · exact fun _ => rfl
    · exact fun _ => rfl
  · exact fun _ h => h
  · rfl

/-- The approval of sized lines, over the columns as over exact numbers. -/
theorem approveReleaseRequest_alike (hsized : Sized dto.requestId s) :
    Process.Alike (approveReleaseRequest .exact dto) (approveReleaseRequest .postgres dto) s := by
  unfold approveReleaseRequest
  apply alike_continue requireFinancierOrg_reads
  rintro org s₁ rfl
  apply alike_read
  apply alike_orThrow
  intro found hloaded
  obtain ⟨req, hrequest, rfl⟩ := Option.map_eq_some_iff.mp hloaded
  have hid : req.id = dto.requestId :=
    Table.key_of_find (Option.filter_eq_some_iff.mp hrequest).1
  apply alike_throwIf
  intro _
  apply alike_continue revalidateLines_reads
  rintro _ s₂ rfl
  have hauthorised : Process.Ensures (fun _ => True) (fun _ s' => s' = s₂)
      (Api.authorise dto.otp) s₂ := by
    cases dto.otp with
    | error e => rfl
    | ok u => rfl
  apply alike_continue hauthorised
  rintro _ s₃ rfl
  have hloop : Process.Alike (Attempt.forEach (loadedLines s₃ req.id) (releaseLine .exact dto req))
      (Attempt.forEach (loadedLines s₃ req.id) (releaseLine .postgres dto req)) s₃ := by
    apply alike_forEach fun s => ReceiptsSized s.ledger
    · intro l hl s hs
      have hline := hsized.lines l (hid ▸ hl)
      exact ⟨releaseLine_alike hs hline, releaseLine_receiptsSized hs hline.line⟩
    · exact hsized.receipts
  exact alike_bind hloop fun _ _ _ => .refl _ _

end Lines

/-! ## Where the first call stops -/

section Stops

variable {dto dto' : ApproveReleaseRequest} {req : ReleaseRequest} {db s s' final : Db}
  {l : LoadedLine}

/-- The update of a lien leaves the lines sized. -/
theorem LineWrite.lines_sized {e : InventoryEvent} (h : LineWrite l e s s')
    (hrest : ReceiptSized (l.lien.remainingQuantity - l.line.quantity))
    (hlines : ∀ l ∈ loadedLines s req.id, l.Sized) : ∀ l ∈ loadedLines s' req.id, l.Sized := by
  intro l' hl'
  obtain ⟨hline, hrequest, hlien, hid⟩ := mem_loadedLines hl'
  obtain ⟨f, hf, hliens, -, hleaves⟩ := h.row
  have hline' : l'.line ∈ s.releaseRequestLines := h.lines ▸ hline
  rw [hliens] at hlien
  rcases Table.mem_modify.mp hlien with ⟨row, hrow, hnew⟩ | ⟨hold, -⟩
  · have hrowid : row.id = l'.line.lienId := by
      rw [← hid, hnew]
      exact (hf row).symm
    have hread := hlines _ (loadedLines_of_mem hline' hrequest (Table.mem_of_find hrow) hrowid)
    refine ⟨hread.line, ?_⟩
    rw [hnew, (hleaves row).remaining]
    exact hrest
  · exact hlines l' (loadedLines_of_mem hline' hrequest hold hid)

/-- Where an approval of sized lines stops, they are sized. -/
theorem ApproveReleaseRequest.Accepted.stops_sized (h : dto.Accepted db req) (hs : OnFile db)
    (hdrawn : dto.Drawn db) (hsized : Sized req.id db) (n : ℕ) :
    Sized req.id (Process.stopAfter n (approveReleaseRequest .exact dto) db) := by
  obtain hreads | ⟨m, rfl⟩ : n ≤ 2 ∨ ∃ m, n = m + 2 := by
    rcases Nat.le_total n 2 with hle | hge
    · exact .inl hle
    · exact .inr ⟨n - 2, (Nat.sub_add_cancel hge).symm⟩
  · rw [h.stops_reading hreads]
    exact hsized
  rw [h.stopAfter m]
  have hreceipts : Process.Ensures (fun s => ReceiptsSized s.ledger)
      (fun _ s => ReceiptsSized s.ledger)
      (Attempt.forEach (loadedLines db req.id) (releaseLine .exact dto req) : Api Unit) db := by
    apply ensures_forEach fun rest s =>
      (∀ l ∈ rest, l ∈ loadedLines db req.id) ∧ ReceiptsSized s.ledger
    · rintro l rest s ⟨hsub, hs⟩
      have hline := (hsized.lines l (hsub l List.mem_cons_self)).line
      apply (releaseLine_receiptsSized hs hline).weaken
      rintro (e | ⟨⟩) s' hs'
      · exact hs'
      · exact ⟨fun l' hl' => hsub l' (List.mem_cons_of_mem l hl'), hs'⟩
    · exact fun s hs => hs.2
    · exact ⟨fun _ hl => hl, hsized.receipts⟩
  have hmidway : Midway dto req db [] (loadedLines db req.id) db :=
    .start hs.custody hdrawn h.found
  have hlines : Process.Ensures (fun s => ∀ l ∈ loadedLines s req.id, l.Sized)
      (fun _ s => ∀ l ∈ loadedLines s req.id, l.Sized)
      (Attempt.forEach (loadedLines db req.id) (releaseLine .exact dto req) : Api Unit) db := by
    apply hmidway.always hs.custody hdrawn h.found
    · exact fun _ _ hP => hP
    · intro l hl s s' e hP hwrite
      apply hwrite.lines_sized _ hP
      have hpositive := hs.filed.positive l.line (mem_loadedLines hl).1
      exact (hsized.lines l hl).rest hpositive (h.valid l hl).2
    · exact hsized.lines
  have hall : Process.Ensures (Sized req.id) (fun _ => Sized req.id)
      (processLines dto req (loadedLines db req.id)) db := by
    apply ensures_bind
    apply (hreceipts.and hlines).mono
    · exact fun s hs => ⟨hs.1, hs.2⟩
    rintro (e | ⟨⟩) s hs
    · exact ⟨hs.1, hs.2⟩
    · apply markApproved_apart.mono
      · rintro s' ⟨requests, rfl⟩
        exact ⟨hs.1, hs.2⟩
      · rintro _ s' ⟨requests, rfl⟩
        exact ⟨hs.1, hs.2⟩
  exact hall.stopAfter hsized m

/-- Two approvals of sized lines come over the columns to where they come over exact numbers. -/
theorem ApproveReleaseRequest.Accepted.retried_alike (h : dto.Accepted db req)
    (h' : dto'.Accepted db req) (hs : OnFile db) (hdrawn : dto.Drawn db)
    (hsized : Sized req.id db) (n : ℕ) :
    Process.stopAfter n (approveReleaseRequest .postgres dto) db =
        Process.stopAfter n (approveReleaseRequest .exact dto) db ∧
      (approveReleaseRequest .postgres dto').exec
          (Process.stopAfter n (approveReleaseRequest .exact dto) db) =
        (approveReleaseRequest .exact dto').exec
          (Process.stopAfter n (approveReleaseRequest .exact dto) db) := by
  have hid : req.id = dto.requestId := Table.key_of_find h.found
  have hid' : req.id = dto'.requestId := Table.key_of_find h'.found
  constructor
  · exact ((approveReleaseRequest_alike (hid ▸ hsized)).stopAfter n).symm
  · exact (approveReleaseRequest_alike (hid' ▸ h.stops_sized hs hdrawn hsized n)).exec.symm

/-- The ledger of an approval that stopped, and of the call that followed, is scaled. -/
theorem retried_scaled (hc : Custody db) (hscaled : Scaled db.ledger) (n : ℕ) :
    Scaled (Process.exec (approveReleaseRequest .postgres dto')
      (Process.stopAfter n (approveReleaseRequest .postgres dto) db)).2.ledger := by
  have hkept : ∀ {s s' : Db}, (custody .postgres fun _ => True).rely s s' → Scaled s.ledger →
      Scaled s'.ledger := by
    intro s s' hrely hs
    induction hrely with
    | refl => exact hs
    | tail _ hnext ih =>
        obtain ⟨-, label, htakes⟩ := hnext
        exact Takes.keeps_ledger Scaled.step htakes ih
  have hsafe : ∀ (dto : ApproveReleaseRequest) (s : Db),
      (custody .postgres fun _ => True).Safe (approveReleaseRequest .postgres dto) s :=
    fun dto _ => approveReleaseRequest_safe (fun _ => trivial) dto
  obtain ⟨hstopped, hrely⟩ :=
    (Process.Ensures.of_keeps (hsafe dto db) hc fun _ _ => trivial).stopAfter
      ⟨hc, Contract.rely_refl _ _⟩ n
  obtain ⟨-, hrely', -⟩ :=
    (Process.Ensures.of_keeps (hsafe dto' _) hstopped fun _ _ => trivial).exec
  exact hkept hrely' (hkept hrely hscaled)

/-- Only lines of three decimals are settled in full. -/
theorem Fulfilled.sized (h : Fulfilled req db final) (hown : OwnLeaves req db)
    (hsized : ReceiptsSized db.ledger) (hscaled : Scaled final.ledger)
    (hl : l ∈ loadedLines db req.id) : HasScale 3 l.line.quantity := by
  obtain ⟨r, hr, -, -, hquantity⟩ := hown.leaves l hl
  have hlien : HasScale 3 l.lien.remainingQuantity := hquantity ▸ (hsized r hr).1
  obtain ⟨row, -, -, hremaining, -, hleaf⟩ := h.lines l hl
  have hrest : HasScale 3 row.remainingQuantity := by
    by_cases hzero : row.remainingQuantity = 0
    · rw [hzero]
      exact ⟨0, by simp⟩
    · obtain ⟨k, hk, -, -, hcarried⟩ := hleaf hzero
      exact hcarried ▸ hscaled k hk
  have hline : l.line.quantity = l.lien.remainingQuantity - row.remainingQuantity := by
    rw [hremaining]
    ring
  exact hline ▸ hlien.sub hrest

/-- Lines of three decimals on liens that leaves carry are sized. -/
theorem OwnLeaves.lines_sized (h : OwnLeaves req db) (hs : OnFile db)
    (hsized : ReceiptsSized db.ledger) (haccepted : dto.Accepted db req)
    (hlines : ∀ l ∈ loadedLines db req.id, HasScale 3 l.line.quantity) : Sized req.id db := by
  refine ⟨hsized, fun l hl => ?_⟩
  obtain ⟨r, hr, -, -, hquantity⟩ := h.leaves l hl
  have hlien : ReceiptSized l.lien.remainingQuantity := hquantity ▸ hsized r hr
  have hpositive := hs.filed.positive l.line (mem_loadedLines hl).1
  refine ⟨⟨hlines l hl, ?_⟩, hlien⟩
  rw [abs_of_pos hpositive]
  linarith [hlien.2, le_abs_self l.lien.remainingQuantity, (haccepted.valid l hl).2]

end Stops

/-! ## Every reachable state -/

/-- The lines that are asked for have four decimals, as their field admits. -/
def Request.FourPlaces : Request → Prop
  | .createReleaseRequest dto => ∀ line ∈ dto.lines, HasScale 4 line.quantity
  | _ => True

theorem Request.FourPlaces.linesStay {request : Request} (h : request.FourPlaces) :
    request.LinesStay .postgres := by
  cases request with
  | createReleaseRequest dto =>
      intro line hline hpositive
      have hstored : Numeric.postgres.numeric20_4 line.quantity = line.quantity :=
        roundScale_of_hasScale (h line hline)
      rw [hstored]
      exact hpositive
  | _ => trivial

/-- In every reachable state, an approval that stops is made up for by the next call exactly when
no line was released before or has a fourth decimal, and it stopped before its first update of a
lien or behind the update of its request. -/
theorem approval_retried_iff (directory : Directory) (requests : List Request)
    (hplaces : ∀ request ∈ requests, request.FourPlaces)
    {trace : List (Transition Label Db)} {db : Db} {pool : List (Api Unit)}
    (hrun : Run (Db.initial directory) (requests.map (Request.run .postgres)) trace db pool)
    (hcolumn : ∀ r ∈ db.ledger.receipts, |r.quantity| < 10 ^ 15)
    (dto dto' : ApproveReleaseRequest) (req : ReleaseRequest) (n : ℕ)
    (haccepted : dto.Accepted db req) (haccepted' : dto'.Accepted db req)
    (hdrawn : dto.Drawn db)
    (hdrawn' : dto'.Drawn (Process.stopAfter n (approveReleaseRequest .postgres dto) db))
    (hown : OwnLeaves req db) :
    Fulfilled req db ((approveReleaseRequest .postgres dto').exec
        (Process.stopAfter n (approveReleaseRequest .postgres dto) db)).2 ↔
      (∀ l ∈ loadedLines db req.id, l.Untouched req db.ledger ∧ HasScale 3 l.line.quantity) ∧
        (n ≤ 3 ∨ 2 * (loadedLines db req.id).length + 3 ≤ n) := by
  have hs : OnFile db := runs_onFile (fun request hmem => (hplaces request hmem).linesStay) hrun
  have hscaled : Scaled db.ledger := runs_ledger (by simp [Scaled, Ledger.empty]) Scaled.step hrun
  have hsized : ReceiptsSized db.ledger := fun r hr => ⟨hscaled r hr, hcolumn r hr⟩
  have hexact : (∀ l ∈ loadedLines db req.id, HasScale 3 l.line.quantity) →
      (Fulfilled req db ((approveReleaseRequest .postgres dto').exec
          (Process.stopAfter n (approveReleaseRequest .postgres dto) db)).2 ↔
        (∀ l ∈ loadedLines db req.id, l.Untouched req db.ledger) ∧
          (n ≤ 3 ∨ 2 * (loadedLines db req.id).length + 3 ≤ n)) := by
    intro hlines
    obtain ⟨hstop, hexec⟩ := haccepted.retried_alike haccepted' hs hdrawn
      (hown.lines_sized hs hsized haccepted hlines) n
    rw [hstop] at hdrawn' ⊢
    have hretried := hs.retried_iff haccepted haccepted' hdrawn hdrawn' hown
    rw [← hexec] at hretried
    exact hretried
  constructor
  · intro hfulfilled
    have hfinal : Scaled (Process.exec (approveReleaseRequest .postgres dto')
        (Process.stopAfter n (approveReleaseRequest .postgres dto) db)).2.ledger :=
      retried_scaled hs.custody hscaled n
    have hlines : ∀ l ∈ loadedLines db req.id, HasScale 3 l.line.quantity := fun l hl =>
      hfulfilled.sized hown hsized hfinal hl
    obtain ⟨huntouched, hn⟩ := (hexact hlines).mp hfulfilled
    exact ⟨fun l hl => ⟨huntouched l hl, hlines l hl⟩, hn⟩
  · rintro ⟨huntouched, hn⟩
    exact (hexact fun l hl => (huntouched l hl).2).mpr ⟨fun l hl => (huntouched l hl).1, hn⟩

/-- A line of two units is asked for under lien 8, which carries six. -/
def onceRequests : List Request :=
  sampleStock ++ [samplePledge, sampleAcceptance, sampleRelease 40 41 2]

/-- The line waits for its approval. -/
def onceRequested : List (Transition Label Db) × Db × List (Api Unit) :=
  interleave ([0, 1, 2, 3, 4].flatMap (List.replicate 12)) (Db.initial sampleDirectory)
    (onceRequests.map (Request.run .postgres))

theorem onceRequests_fourPlaces : ∀ request ∈ onceRequests, request.FourPlaces := by
  have htwo : HasScale 4 2 := by decide +kernel
  simpa [onceRequests, sampleStock, samplePledge, sampleAcceptance, sampleRelease,
    Request.FourPlaces, CreateReleaseRequest.lines] using htwo

/-- The row of that request. -/
def onceRow : ReleaseRequest where
  id := 40
  tenantId := 1
  clientId := 10
  financierOrgId := 30
  requestedDate := 0
  note := none
  status := .pending

/-- The approval of the line, under the uuids from k on. -/
def onceApproval (k : ℕ) : ApproveReleaseRequest :=
  { sampleTwiceApproval with uuids := fun lineId => sampleUuids (k * lineId) }

/-- The store when the first call stopped after n steps. -/
def onceStopped (n : ℕ) : Db :=
  Process.stopAfter n (approveReleaseRequest .postgres (onceApproval 10)) onceRequested.2.1

/-- What an approval finds in the tables: one line, its lien and its leaf. -/
theorem onceRequested_tables :
    onceRequested.2.1.releaseRequests.find 40 = some onceRow ∧
      callerOrg onceRequested.2.1 20 = some ⟨30, .active, none⟩ ∧
        (∀ r ∈ onceRequested.2.1.ledger.receipts.rows, |r.quantity| < 10 ^ 15) ∧
          (loadedLines onceRequested.2.1 40).length = 1 ∧
            (∀ l ∈ loadedLines onceRequested.2.1 40,
              (l.lien.id = 8 ∧ l.lien.status.Live) ∧
                (l.line.quantity = 2 ∧ l.lien.remainingQuantity = 6) ∧
                  onceRequested.2.1.ledger.events.find (lineKey onceRow l) = none ∧
                    ∃ r ∈ onceRequested.2.1.ledger.receipts.rows, r.id = l.lien.receiptId ∧
                      r.tenantId = 1 ∧ r.status = .heldLien ∧
                        r.quantity = l.lien.remainingQuantity) ∧
              ∀ x ∈ onceRequested.2.1.releaseRequestLines.rows,
                ((onceApproval 10).uuids x.id).Fresh onceRequested.2.1.ledger ∧
                  ∀ y ∈ onceRequested.2.1.releaseRequestLines.rows, x = y := by
  decide +kernel

theorem onceRequested_column :
    ∀ r ∈ onceRequested.2.1.ledger.receipts, |r.quantity| < 10 ^ 15 := by
  obtain ⟨-, -, hcolumn, -⟩ := onceRequested_tables
  exact hcolumn

/-- Two of six units. -/
theorem onceRequested_line {l : LoadedLine} (hl : l ∈ loadedLines onceRequested.2.1 40) :
    l.line.quantity = 2 ∧ l.lien.remainingQuantity = 6 := by
  obtain ⟨-, -, -, -, hlines, -⟩ := onceRequested_tables
  exact (hlines l hl).2.1

theorem onceApproval_accepted (k : ℕ) : (onceApproval k).Accepted onceRequested.2.1 onceRow where
  found := by
    obtain ⟨hfound, -⟩ := onceRequested_tables
    exact hfound
  financier := by
    obtain ⟨-, horg, -⟩ := onceRequested_tables
    exact ⟨_, horg, by decide, rfl⟩
  pending := rfl
  valid := by
    intro l hl
    obtain ⟨-, -, -, -, hlines, -⟩ := onceRequested_tables
    obtain ⟨htwo, hsix⟩ := onceRequested_line hl
    refine ⟨(hlines l hl).1.2, ?_⟩
    rw [htwo, hsix]
    norm_num
  otp := rfl

theorem onceRequested_ownLeaves : OwnLeaves onceRow onceRequested.2.1 where
  apart := by
    obtain ⟨-, -, -, hlength, -⟩ := onceRequested_tables
    obtain ⟨l, hl⟩ := List.length_eq_one_iff.mp hlength
    change (loadedLines onceRequested.2.1 40).Pairwise _
    rw [hl]
    exact List.pairwise_singleton _ _
  leaves := by
    intro l hl
    obtain ⟨-, -, -, -, hlines, -⟩ := onceRequested_tables
    obtain ⟨r, hr, hid, -, hheld⟩ := (hlines l hl).2.2.2
    exact ⟨r, hr, hid, hheld⟩

theorem onceApproval_drawn : (onceApproval 10).Drawn onceRequested.2.1 := by
  obtain ⟨-, -, -, -, -, hdrawn⟩ := onceRequested_tables
  constructor
  · exact fun x hx _ => (hdrawn x hx).1
  · exact fun x hx y hy _ _ hne => absurd ((hdrawn x hx).2 y hy) hne

/-- The line behind its release, and behind the update of its lien. -/
theorem onceApproval_drawn_again (n : ℕ) (hn : n = 3 ∨ n = 4) :
    (onceApproval 20).Drawn (onceStopped n) := by
  have hdrawn : ∀ n ∈ [3, 4], ∀ x ∈ (onceStopped n).releaseRequestLines.rows,
      ((onceApproval 20).uuids x.id).Fresh (onceStopped n).ledger ∧
        ∀ y ∈ (onceStopped n).releaseRequestLines.rows, x = y := by
    decide +kernel
  have hmem : n ∈ [3, 4] := List.mem_pair.mpr hn
  constructor
  · exact fun x hx _ => (hdrawn n hmem x hx).1
  · exact fun x hx y hy _ _ hne => absurd ((hdrawn n hmem x hx).2 y hy) hne

/-- The approval stops behind the update of the lien. The next call replays the release and
subtracts the line again: two units are ACTIVE, and two of six remain under the lien. -/
theorem line_subtracted_twice :
    ¬ ∀ (directory : Directory) (requests : List Request) (trace : List (Transition Label Db))
        (db : Db) (pool : List (Api Unit)) (dto dto' : ApproveReleaseRequest)
        (req : ReleaseRequest) (n : ℕ),
      (∀ request ∈ requests, request.FourPlaces) →
        Run (Db.initial directory) (requests.map (Request.run .postgres)) trace db pool →
          (∀ r ∈ db.ledger.receipts, |r.quantity| < 10 ^ 15) →
            dto.Accepted db req → dto'.Accepted db req → dto.Drawn db →
              dto'.Drawn (Process.stopAfter n (approveReleaseRequest .postgres dto) db) →
                OwnLeaves req db → n < 2 * (loadedLines db req.id).length + 3 →
                  Fulfilled req db ((approveReleaseRequest .postgres dto').exec
                    (Process.stopAfter n (approveReleaseRequest .postgres dto) db)).2 := by
  intro hclaim
  obtain ⟨-, -, -, hlength, hlines, -⟩ := onceRequested_tables
  have hearly : 4 < 2 * (loadedLines onceRequested.2.1 onceRow.id).length + 3 := by
    change 4 < 2 * (loadedLines onceRequested.2.1 40).length + 3
    rw [hlength]
    norm_num
  have hfulfilled := hclaim _ _ _ _ _ _ _ _ _ onceRequests_fourPlaces (run_interleave _ _ _)
    onceRequested_column (onceApproval_accepted 10) (onceApproval_accepted 20) onceApproval_drawn
    (onceApproval_drawn_again 4 (.inr rfl)) onceRequested_ownLeaves hearly
  have hrows : ∀ row ∈ ((approveReleaseRequest .postgres (onceApproval 20)).exec
      (onceStopped 4)).2.liens.rows, row.id = 8 → row.remainingQuantity = 2 := by
    decide +kernel
  obtain ⟨l, hsole⟩ := List.length_eq_one_iff.mp hlength
  have hl : l ∈ loadedLines onceRequested.2.1 40 := hsole ▸ List.mem_singleton_self l
  obtain ⟨htwo, hsix⟩ := onceRequested_line hl
  obtain ⟨row, hrow, hid, hremaining, -⟩ := hfulfilled.lines l hl
  rw [htwo, hsix, hrows row hrow (hid.trans (hlines l hl).1.1)] at hremaining
  exact absurd hremaining (by norm_num)

/-- The approval that stopped behind its release is made up for, the one that stopped a step later
is not. -/
theorem approval_retried_iff_sample :
    Fulfilled onceRow onceRequested.2.1
        ((approveReleaseRequest .postgres (onceApproval 20)).exec (onceStopped 3)).2 ∧
      ¬ Fulfilled onceRow onceRequested.2.1
        ((approveReleaseRequest .postgres (onceApproval 20)).exec (onceStopped 4)).2 := by
  obtain ⟨-, -, -, hlength, hlines, -⟩ := onceRequested_tables
  have hsized : ∀ l ∈ loadedLines onceRequested.2.1 40,
      l.Untouched onceRow onceRequested.2.1.ledger ∧ HasScale 3 l.line.quantity := by
    intro l hl
    obtain ⟨-, -, hunlogged, r, hr, hid, htenant, -⟩ := hlines l hl
    have htwo : HasScale 3 2 := by decide +kernel
    exact ⟨⟨hunlogged, r, hr, hid, htenant⟩, (onceRequested_line hl).1.symm ▸ htwo⟩
  constructor
  · apply (approval_retried_iff sampleDirectory _ onceRequests_fourPlaces (run_interleave _ _ _)
      onceRequested_column (onceApproval 10) (onceApproval 20) onceRow 3
      (onceApproval_accepted 10) (onceApproval_accepted 20) onceApproval_drawn
      (onceApproval_drawn_again 3 (.inl rfl)) onceRequested_ownLeaves).mpr
    exact ⟨hsized, .inl le_rfl⟩
  · intro hfulfilled
    obtain ⟨-, hearly | hlate⟩ := (approval_retried_iff sampleDirectory _ onceRequests_fourPlaces
      (run_interleave _ _ _) onceRequested_column (onceApproval 10) (onceApproval 20) onceRow 4
      (onceApproval_accepted 10) (onceApproval_accepted 20) onceApproval_drawn
      (onceApproval_drawn_again 4 (.inr rfl)) onceRequested_ownLeaves).mp hfulfilled
    · exact absurd hearly (by decide)
    · have hsteps : 2 * (loadedLines onceRequested.2.1 40).length + 3 ≤ 4 := hlate
      rw [hlength] at hsteps
      exact absurd hsteps (by decide)

end SecureStore.Services
