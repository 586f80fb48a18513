/-
# An approval that stops and is called again

An approval may stop behind any of its steps. The next call reads request and liens anew and
replays the releases that were logged. It makes up for the first call when that call had
updated no lien yet: then it finds the liens as they were and finishes all lines. A lien that
was updated is read as it has become, and its line is subtracted again or refused.
-/

import SecureStore.Collateral.Tally
import SecureStore.Collateral.Commitments

namespace SecureStore.Services

open SecureStore.Foundation SecureStore.Inventory

/-! ## The promise -/

/-- The lien of a line carries its quantity less, on a leaf of that size, or is released. -/
def LoadedLine.Settled (l : LoadedLine) (db : Db) : Prop :=
  ∃ row ∈ db.liens, row.id = l.lien.id ∧
    row.remainingQuantity = l.lien.remainingQuantity - l.line.quantity ∧
      (row.remainingQuantity = 0 → row.status = .released) ∧
        (row.remainingQuantity ≠ 0 → ∃ k ∈ db.ledger.receipts, k.id = row.receiptId ∧
          k.status = .heldLien ∧ k.quantity = row.remainingQuantity)

/-- The request is approved, its lines are settled, and what they ask for is ACTIVE again. -/
structure Fulfilled (req : ReleaseRequest) (db final : Db) : Prop where
  approved : ApprovedIn final.releaseRequests req.id
  lines : ∀ l ∈ loadedLines db req.id, l.Settled final
  volume : ∀ root, activeVolume root final.ledger = activeVolume root db.ledger +
    ((loadedLines db req.id).map fun l => l.asks root db.ledger).sum

/-- The lines are on liens of their own, and every lien points at a leaf that carries what
remains of it. -/
structure OwnLeaves (req : ReleaseRequest) (db : Db) : Prop where
  apart : (loadedLines db req.id).Pairwise fun l l' => l.lien.id ≠ l'.lien.id
  leaves : ∀ l ∈ loadedLines db req.id, ∃ r ∈ db.ledger.receipts, r.id = l.lien.receiptId ∧
    r.status = .heldLien ∧ r.quantity = l.lien.remainingQuantity

/-- No release of the line was logged, and its leaf is of the tenant of the request. -/
structure LoadedLine.Untouched (l : LoadedLine) (req : ReleaseRequest) (s : Ledger) : Prop where
  unlogged : s.events.find (lineKey req l) = none
  tenant : OfTenant s l.lien.receiptId req.tenantId

section Lines

variable {dto : ApproveReleaseRequest} {req : ReleaseRequest} {db s : Db} {s₀ : Ledger}
  {l : LoadedLine}

/-- A line that was applied has left its lien settled. -/
theorem Applied.settled {lines : List LoadedLine} (h : Applied req l s)
    (htally : Tally req lines s₀ s.ledger) (hl : l ∈ lines)
    (hfree : s₀.events.find (lineKey req l) = none) : l.Settled s := by
  obtain ⟨e, hfind, -, -, row, hrow, hid, hleaves⟩ := h
  have hremaining := hleaves.remaining
  refine ⟨row, hrow, hid, hremaining, fun hzero => ?_, fun hrest => ?_⟩
  · have hfull : l.Full := by
      unfold LoadedLine.Full
      linarith
    exact hleaves.full hfull
  · have hpart : ¬ l.Full := by
      intro hfull
      unfold LoadedLine.Full at hfull
      exact hrest (by linarith)
    obtain ⟨-, k, hk, hkid, hsource, hstatus⟩ := hleaves.part hpart
    have hquantity := (htally.released l hl hfree e hfind).2 hpart k hk hsource hstatus
    exact ⟨k, hk, hkid, hstatus, hquantity.trans hremaining.symm⟩

/-- Lines that can all be served have settled their liens and made ACTIVE what they ask for. -/
theorem lines_settle (hc : Custody db) (hf : Filed db) (hdrawn : dto.Drawn db)
    (hfound : db.releaseRequests.find dto.requestId = some req)
    (hserves : ∀ l ∈ loadedLines db req.id, Serves db.ledger req l)
    (hliens : (loadedLines db req.id).Pairwise fun l l' => l.lien.id ≠ l'.lien.id)
    (hs₀ : Provenance s₀) (hsized : LeavesSized (loadedLines db req.id) s₀)
    (hfree : ∀ l ∈ loadedLines db req.id, s₀.events.find (lineKey req l) = none)
    (hstart : Tally req (loadedLines db req.id) s₀ db.ledger) :
    Ends (fun r s => r = .ok () ∧ s.directory = db.directory ∧
        s.releaseRequests = db.releaseRequests ∧ (∀ l ∈ loadedLines db req.id, l.Settled s) ∧
          ∀ root, activeVolume root s.ledger = activeVolume root s₀ +
            ((loadedLines db req.id).map fun l => l.asks root s₀).sum)
      (Attempt.forEach (loadedLines db req.id) (releaseLine .exact dto req)) db := by
  have hserving := serving_ends hc hf hdrawn hfound hserves hliens
  apply (hserving.and (tally_ends hc hdrawn hfound hs₀ hsized hstart)).mono
  · exact fun _ _ => trivial
  rintro r s ⟨⟨rfl, hdone⟩, -, -, hclosed⟩
  obtain ⟨htally, hlogged⟩ := hclosed rfl
  refine ⟨rfl, hdone.later.directory, hdone.requests, ?_, ?_⟩
  · exact fun l hl => (hdone.applied l hl).settled htally hl (hfree l hl)
  · intro root
    have hdue : ((loadedLines db req.id).map fun l => l.due req root s₀ s₀) =
        (loadedLines db req.id).map fun l => l.asks root s₀ :=
      List.map_congr_left fun l hl => if_pos (hfree l hl)
    rw [htally.closed hlogged root, hdue]

end Lines

/-! ## Where an approval stops -/

/-- What an approval does behind its checks. -/
def processLines (dto : ApproveReleaseRequest) (req : ReleaseRequest) (lines : List LoadedLine) :
    Api Unit := do
  Attempt.forEach lines (releaseLine .exact dto req)
  markApproved dto req

section Stops

variable {dto : ApproveReleaseRequest} {req : ReleaseRequest} {db s s' : Db} {l : LoadedLine}

theorem LoadedLine.Valid.revalidated (h : l.Valid) : revalidateLine l = pure () := by
  unfold revalidateLine Api.throwIf
  rw [Attempt.throwIf_bind (not_not.mpr h.1)]
  exact if_neg (not_lt.mpr h.2)

/-- An active organisation is found in one step. -/
theorem requireFinancierOrg_passes {callerUserId : Id} {org : FinancierOrg}
    (horg : callerOrg db callerUserId = some org) (hactive : org.status ≠ .suspended) :
    (requireFinancierOrg callerUserId).exec db = (.ok org, db) ∧
      Process.steps (requireFinancierOrg callerUserId) db = 1 := by
  have hread : (Api.query fun db => callerOrg db callerUserId : Api _).exec db =
      (.ok (some org), db) := by
    rw [← horg]
    rfl
  have hrest : (do
      let org ← Api.orThrow (some org)
        (.forbidden "This account is not associated with a FinancierOrg")
      Api.throwIf (org.status = .suspended) (.forbidden "FINANCIER_ORG_SUSPENDED")
      pure org : Api FinancierOrg) = pure org :=
    Attempt.throwIf_bind hactive _ _
  constructor
  · refine (Attempt.exec_bind_ok hread).trans ?_
    rw [hrest]
    rfl
  · refine (Attempt.steps_bind_ok hread).trans ?_
    rw [hrest]
    rfl

/-- The two reads of an approval come before everything else. -/
theorem ApproveReleaseRequest.Accepted.stopAfter (h : dto.Accepted db req) (m : ℕ) :
    Process.stopAfter (m + 2) (approveReleaseRequest .exact dto) db =
      Process.stopAfter m (processLines dto req (loadedLines db req.id)) db := by
  obtain ⟨org, horg, hactive, hfinancier⟩ := h.financier
  obtain ⟨hrequire, hsteps⟩ := requireFinancierOrg_passes horg hactive
  have hloaded : ((getFinancierRequest org.id dto.requestId db).map fun req =>
      (req, loadedLines db req.id)) = some (req, loadedLines db req.id) := by
    simp [getFinancierRequest, h.found, hfinancier]
  have hchecked : Attempt.forEach (loadedLines db req.id) revalidateLine = pure () := by
    have hnone : Attempt.forEach (loadedLines db req.id ++ []) revalidateLine =
        Attempt.forEach [] revalidateLine :=
      Attempt.forEach_append_of_pure fun l hl => (h.valid l hl).revalidated
    rw [List.append_nil] at hnone
    exact hnone
  have hauthorised : Api.authorise dto.otp = pure () := by
    rw [h.otp]
    rfl
  unfold approveReleaseRequest
  rw [Attempt.stopAfter_bind_ok hrequire (by omega), hsteps]
  refine (Attempt.stopAfter_read _ _ _ m db).trans ?_
  rw [hloaded]
  refine congrArg (fun p => Process.stopAfter m p db) ?_
  refine (Attempt.throwIf_bind (not_not.mpr h.pending) _ _).trans ?_
  rw [hchecked, hauthorised]
  rfl

/-- One step or two, two if it returns, and the first changes no lien. -/
structure InTwoSteps (p : Api Unit) (s : Db) : Prop where
  pos : 0 < Process.steps p s
  le : Process.steps p s ≤ 2
  full : ∀ s', p.exec s = (.ok (), s') → Process.steps p s = 2
  liens : (Process.stopAfter 1 p s).liens = s.liens

/-- A ledger call with one step behind it. -/
theorem inTwoSteps_ledger {α : Type} {by_ : Issuer} {op : LedgerOp} {tx : Tx α} {g : α → Api Unit}
    (hle : ∀ a s, Process.steps (g a) s ≤ 1)
    (hfull : ∀ a s s', (g a).exec s = (.ok (), s') → Process.steps (g a) s = 1) :
    InTwoSteps (Api.ledger by_ op tx >>= g) s := by
  cases htx : tx s.ledger with
  | error e =>
      obtain ⟨hexec, hsteps, hstop⟩ :
          (Api.ledger by_ op tx >>= g : Api Unit).exec s = (.error e, s) ∧
            Process.steps (Api.ledger by_ op tx >>= g : Api Unit) s = 1 ∧
              ∀ n, Process.stopAfter n (Api.ledger by_ op tx >>= g : Api Unit) s = s :=
        Attempt.write_refused (by simp only [Api.within, htx])
      refine ⟨hsteps.ge, hsteps.le.trans one_le_two, fun s' hok => ?_, congrArg Db.liens (hstop 1)⟩
      cases hexec.symm.trans hok
  | ok result =>
      obtain ⟨a, ledger⟩ := result
      obtain ⟨hexec, hsteps, hstop⟩ :
          (Api.ledger by_ op tx >>= g : Api Unit).exec s = (g a).exec { s with ledger } ∧
            Process.steps (Api.ledger by_ op tx >>= g : Api Unit) s =
              1 + Process.steps (g a) { s with ledger } ∧
            ∀ n, Process.stopAfter (n + 1) (Api.ledger by_ op tx >>= g : Api Unit) s =
              Process.stopAfter n (g a) { s with ledger } :=
        Attempt.write_passed (by simp only [Api.within, htx])
      have hrest := hle a { s with ledger }
      refine ⟨?_, ?_, fun s' hok => ?_, ?_⟩
      · exact (Nat.le_add_right 1 _).trans hsteps.ge
      · exact hsteps.le.trans (Nat.add_le_add_left hrest 1)
      · exact hsteps.trans (congrArg (1 + ·) (hfull a _ s' (hexec.symm.trans hok)))
      · rw [(hstop 0).trans (Process.stopAfter_zero (g a) { s with ledger })]

theorem releaseLine_inTwoSteps : InTwoSteps (releaseLine .exact dto req l) s := by
  have hwrite : ∀ {by_ : Issuer} {id : Id} {f : Lien → Lien}
      {hf : ∀ r, Keyed.key (f r) = Keyed.key r} (s : Db),
      Process.steps (updateLien by_ id f hf) s = 1 := fun s => rfl
  unfold releaseLine
  split
  · apply inTwoSteps_ledger
    · exact fun _ s => (hwrite s).le
    · exact fun _ s _ _ => hwrite s
  · apply inTwoSteps_ledger
    · intro result s
      cases result.remainingHeld with
      | none => exact Nat.zero_le 1
      | some held => exact (hwrite s).le
    · intro result s s' hok
      cases hheld : result.remainingHeld with
      | none =>
          rw [hheld] at hok
          cases hok
      | some held => exact hwrite s

theorem Midway.line_stops {before rest : List LoadedLine}
    (h : Midway dto req db before (l :: rest) s) :
    Process.Ensures (LineStops dto req l s) (LineEnds dto req l s)
      (releaseLine .exact dto req l) s := by
  obtain ⟨lien, hlien, hid⟩ := h.there List.mem_cons_self
  have hfind : s.liens.find l.lien.id = some lien := hid ▸ Table.find_of_mem hlien
  exact releaseLine_lineEnds h.custody.provenance (h.fresh l List.mem_cons_self) (by simp [hfind])

/-- What a change of the ledger and the writes of the lines leave alone holds wherever the
lines stop. -/
theorem Midway.always {P : Db → Prop} {before rest : List LoadedLine}
    (h : Midway dto req db before rest s) (hc : Custody db) (hdrawn : dto.Drawn db)
    (hfound : db.releaseRequests.find dto.requestId = some req)
    (hledger : ∀ s ledger, P s → P { s with ledger })
    (hwrites : ∀ l ∈ rest, ∀ s s' e, P s → LineWrite l e s s' → P s') (hP : P s) :
    Process.Ensures P (fun _ => P)
      (Attempt.forEach rest (releaseLine .exact dto req) : Api Unit) s := by
  apply ensures_forEach (fun rest s => (∃ before, Midway dto req db before rest s) ∧
    (∀ l ∈ rest, ∀ s s' e, P s → LineWrite l e s s' → P s') ∧ P s)
  · rintro l rest s ⟨⟨before, h⟩, hwrites, hP⟩
    have hline := hwrites l List.mem_cons_self
    apply (h.line_stops.and (h.line_ends hc)).mono
    · rintro s' ⟨hstop, -⟩
      cases hstop with
      | before same => exact same ▸ hP
      | released e release same =>
          rw [same]
          exact hledger s _ hP
      | written e release write => exact hline s s' e hP write
    · rintro (e | _) s' ⟨hends, hc', hlater, -⟩
      · obtain ⟨rfl, -⟩ := hends
        exact hP
      · obtain ⟨-, e, hrelease, hwrite⟩ := hends
        refine ⟨⟨_, h.next hdrawn hfound hc' hlater hrelease hwrite⟩, ?_, hline s s' e hP hwrite⟩
        exact fun l' hl' => hwrites l' (List.mem_cons_of_mem _ hl')
  · exact fun s h => h.2.2
  · exact ⟨⟨before, h⟩, hwrites, hP⟩

/-- The decision of the request leaves everything else alone. -/
theorem markApproved_apart : Process.Ensures
    (fun s' : Db => ∃ releaseRequests, s' = { s with releaseRequests })
    (fun _ s' => ∃ releaseRequests, s' = { s with releaseRequests }) (markApproved dto req) s := by
  have hsame : ∃ releaseRequests, s = { s with releaseRequests } := ⟨s.releaseRequests, rfl⟩
  apply ensures_write
  · exact fun _ _ => ⟨hsame, hsame⟩
  intro _ s' hok
  obtain ⟨requests, -, hresult⟩ := map_ok.mp hok
  cases hresult
  have hmoved : ∃ releaseRequests, ({ s with releaseRequests := requests } : Db) =
      { s with releaseRequests } := ⟨requests, rfl⟩
  refine ⟨hmoved, ?_⟩
  apply requireFinancierOrg_exact hmoved
  · exact fun _ _ => hmoved
  intro org _ _
  refine ensures_read ?_ ?_
  · exact hmoved
  apply ensures_orThrow
  · exact fun _ => hmoved
  · exact fun _ _ => hmoved

/-- What the approval has done to its request when it stops. -/
inductive Stopped (dto : ApproveReleaseRequest) (req : ReleaseRequest) (db : Db) (n : ℕ) (s : Db) :
    Prop where
  | decided (s₁ : Db)
      (lines : Process.exec
        (Attempt.forEach (loadedLines db req.id) (releaseLine .exact dto req)) db = (.ok (), s₁))
      (late : 2 * (loadedLines db req.id).length + 3 ≤ n) (ledger : s.ledger = s₁.ledger)
      (liens : s.liens = s₁.liens) (approved : ApprovedIn s.releaseRequests req.id)
  | undecided (requests : s.releaseRequests = db.releaseRequests)
      (rows : s.releaseRequestLines = db.releaseRequestLines)
      (soon : (Process.exec
        (Attempt.forEach (loadedLines db req.id) (releaseLine .exact dto req)) db).1 = .ok () →
          n < 2 * (loadedLines db req.id).length + 3)

/-- Before its first update of a lien, the approval has done nothing or released one line. -/
structure Early (dto : ApproveReleaseRequest) (req : ReleaseRequest) (db s : Db) : Prop where
  same : s = { db with ledger := s.ledger }
  ledger : s.ledger = db.ledger ∨ ∃ l rest e, loadedLines db req.id = l :: rest ∧
    LineRelease (dto.uuids l.line.id) req l db.ledger e s.ledger

/-- The reads of an approval change nothing. -/
theorem ApproveReleaseRequest.Accepted.stops_reading (h : dto.Accepted db req) {n : ℕ}
    (hn : n ≤ 2) : Process.stopAfter n (approveReleaseRequest .exact dto) db = db := by
  rcases n with _ | _ | m
  · exact Process.stopAfter_zero _ _
  · obtain ⟨org, horg, hactive, -⟩ := h.financier
    have hread : Process.stopAfter 1 (requireFinancierOrg dto.callerUserId) db = db :=
      (Attempt.stopAfter_read _ _ _ 0 db).trans (Process.stopAfter_zero _ _)
    have hsteps := (requireFinancierOrg_passes horg hactive).2
    exact (Attempt.stopAfter_bind_of_le hsteps.ge).trans hread
  · obtain rfl : m = 0 := by omega
    exact (h.stopAfter 0).trans (Process.stopAfter_zero _ _)

/-- The approval stops before its first update of a lien. -/
theorem ApproveReleaseRequest.Accepted.stops_early (h : dto.Accepted db req) (hs : OnFile db)
    (hdrawn : dto.Drawn db) {n : ℕ} (hn : n ≤ 3)
    (hn' : n < 2 * (loadedLines db req.id).length + 3) :
    Early dto req db (Process.stopAfter n (approveReleaseRequest .exact dto) db) := by
  have hnothing : ∀ s, s = db → Early dto req db s := by
    rintro s rfl
    exact ⟨rfl, .inl rfl⟩
  rcases Nat.lt_or_ge 2 n with hlt | hreads
  · obtain rfl : n = 1 + 2 := by omega
    rw [h.stopAfter 1]
    cases hlines : loadedLines db req.id with
    | nil => simp [hlines] at hn'
    | cons l rest =>
        have hmidway : Midway dto req db [] (l :: rest) db :=
          hlines ▸ .start hs.custody hdrawn h.found
        have hl : l ∈ loadedLines db req.id := hlines ▸ List.mem_cons_self
        obtain ⟨hline, -, hlien, -⟩ := mem_loadedLines hl
        obtain ⟨hpos, -, -, hliens⟩ : InTwoSteps (releaseLine .exact dto req l) db :=
          releaseLine_inTwoSteps
        have hround : 1 ≤ Process.steps
            (Attempt.forEach (l :: rest) (releaseLine .exact dto req) : Api Unit) db :=
          hpos.trans_le
            (Attempt.steps_le_bind
              (f := fun _ => Attempt.forEach rest (releaseLine .exact dto req)))
        have hstop : Process.stopAfter 1 (processLines dto req (l :: rest)) db =
            Process.stopAfter 1 (releaseLine .exact dto req l) db :=
          (Attempt.stopAfter_bind_of_le hround).trans (Attempt.stopAfter_bind_of_le hpos)
        rw [hstop]
        cases hmidway.line_stops.stopAfter (.before rfl) 1 with
        | before same => exact hnothing _ same
        | released e release same => exact ⟨same, .inr ⟨l, rest, e, hlines, release⟩⟩
        | written e release write =>
            have hsubtracted := write.subtracted (hmidway.there List.mem_cons_self)
            have hmoved := hsubtracted.moved (hs.filed.positive l.line hline)
            rw [hliens] at hmoved
            exact absurd hlien hmoved
  · exact hnothing _ (h.stops_reading hreads)

/-- Behind its first update of a lien, the approval has subtracted its first line, unless that
line was refused. -/
theorem ApproveReleaseRequest.Accepted.stops_late (h : dto.Accepted db req) (hs : OnFile db)
    (hdrawn : dto.Drawn db) {rest : List LoadedLine} (hlines : loadedLines db req.id = l :: rest)
    (hliens : (loadedLines db req.id).Pairwise fun l l' => l.lien.id ≠ l'.lien.id) {n : ℕ}
    (hn : 4 ≤ n) :
    (¬ Passes db.ledger req l ∧ Process.stopAfter n (approveReleaseRequest .exact dto) db = db) ∨
      l.Subtracted (Process.stopAfter n (approveReleaseRequest .exact dto) db) := by
  obtain ⟨m, rfl⟩ : ∃ m, n = m + 2 := ⟨n - 2, by omega⟩
  have hmidway : Midway dto req db [] (l :: rest) db :=
    hlines ▸ .start hs.custody hdrawn h.found
  have htwo : InTwoSteps (releaseLine .exact dto req l) db := releaseLine_inTwoSteps
  have hsteps : Process.steps (releaseLine .exact dto req l) db ≤ m := htwo.le.trans (by omega)
  rw [h.stopAfter m, hlines]
  have hassoc : processLines dto req (l :: rest) =
      (releaseLine .exact dto req l >>= fun _ => processLines dto req rest : Api Unit) :=
    Attempt.bind_assoc _ _ _
  rw [hassoc]
  have hends := (hmidway.line_ends hs.custody).exec
  rcases hexec : (releaseLine .exact dto req l).exec db with ⟨e | ⟨⟩, s₁⟩
  · rw [show Process.exec (releaseLine .exact dto req l) db = (.error e, s₁) from hexec] at hends
    obtain ⟨-, -, rfl, hrefused⟩ := hends
    exact .inl ⟨hrefused, Attempt.stopAfter_bind_error hexec hsteps⟩
  · rw [show Process.exec (releaseLine .exact dto req l) db = (.ok (), s₁) from hexec] at hends
    obtain ⟨hc₁, hlater, -, e, hrelease, hwrite⟩ := hends
    right
    rw [Attempt.stopAfter_bind_ok hexec hsteps]
    have hsubtracted := hwrite.subtracted (hmidway.there List.mem_cons_self)
    have hnext := hmidway.next hdrawn h.found hc₁ hlater hrelease hwrite
    rw [hlines] at hliens
    have hothers := (List.pairwise_cons.mp hliens).1
    have halways : Process.Ensures l.Subtracted (fun _ => l.Subtracted)
        (processLines dto req rest) s₁ := by
      apply ensures_bind
      apply (hnext.always hs.custody hdrawn h.found (P := l.Subtracted) (fun _ _ h => h) ?_
        hsubtracted).weaken
      · rintro (e | _) s₂ hs₂
        · exact hs₂
        · apply markApproved_apart.mono
          · rintro s₃ ⟨requests, rfl⟩
            exact hs₂
          · rintro _ s₃ ⟨requests, rfl⟩
            exact hs₂
      · intro l' hl' s s' e hP hwrite'
        exact hP.other hwrite' (hothers l' hl')
    exact halways.stopAfter hsubtracted _

/-- Either the approval has gone through its lines and has decided the request, or it has not
touched the request. -/
theorem ApproveReleaseRequest.Accepted.stops (h : dto.Accepted db req) (hs : OnFile db)
    (hdrawn : dto.Drawn db) (n : ℕ) :
    Stopped dto req db n (Process.stopAfter n (approveReleaseRequest .exact dto) db) := by
  obtain hreads | ⟨m, rfl⟩ : n ≤ 2 ∨ ∃ m, n = m + 2 := by
    rcases Nat.le_total n 2 with hle | hge
    · exact .inl hle
    · exact .inr ⟨n - 2, (Nat.sub_add_cancel hge).symm⟩
  · rw [h.stops_reading hreads]
    exact .undecided rfl rfl fun _ => by omega
  rw [h.stopAfter m]
  have hmidway : Midway dto req db [] (loadedLines db req.id) db :=
    .start hs.custody hdrawn h.found
  have halways : Process.Ensures
      (fun s => s.releaseRequests = db.releaseRequests ∧ s.directory = db.directory ∧
        s.releaseRequestLines = db.releaseRequestLines)
      (fun _ s => s.releaseRequests = db.releaseRequests ∧ s.directory = db.directory ∧
        s.releaseRequestLines = db.releaseRequestLines)
      (Attempt.forEach (loadedLines db req.id) (releaseLine .exact dto req) : Api Unit) db :=
    hmidway.always hs.custody hdrawn h.found (fun _ _ hP => hP)
      (fun _ _ _ _ _ hP hwrite => ⟨hwrite.requests.trans hP.1, hwrite.directory.trans hP.2.1,
        hwrite.lines.trans hP.2.2⟩) ⟨rfl, rfl, rfl⟩
  have hlength : ∀ s', Process.exec
      (Attempt.forEach (loadedLines db req.id) (releaseLine .exact dto req)) db = (.ok (), s') →
        Process.steps (Attempt.forEach (loadedLines db req.id) (releaseLine .exact dto req)) db =
          2 * (loadedLines db req.id).length := fun s' hok =>
    Attempt.steps_forEach (fun _ _ s' hround => releaseLine_inTwoSteps.full s' hround) _ hok
  rcases hexec : Process.exec
      (Attempt.forEach (loadedLines db req.id) (releaseLine .exact dto req)) db with ⟨r, s₁⟩
  by_cases hwithin : m ≤
      Process.steps (Attempt.forEach (loadedLines db req.id) (releaseLine .exact dto req)) db
  · have hstop : Process.stopAfter m (processLines dto req (loadedLines db req.id)) db =
        Process.stopAfter m
          (Attempt.forEach (loadedLines db req.id) (releaseLine .exact dto req)) db :=
      Attempt.stopAfter_bind_of_le hwithin
    rw [hstop]
    obtain ⟨hrequests, -, hrows⟩ := halways.stopAfter ⟨rfl, rfl, rfl⟩ m
    refine .undecided hrequests hrows fun hok => ?_
    rw [hexec] at hok
    cases hok
    rw [hlength s₁ hexec] at hwithin
    omega
  have hbehind := (Nat.lt_of_not_le hwithin).le
  obtain ⟨hrequests, hdirectory, hrows⟩ : s₁.releaseRequests = db.releaseRequests ∧
      s₁.directory = db.directory ∧ s₁.releaseRequestLines = db.releaseRequestLines := by
    have hkept := halways.exec
    rw [hexec] at hkept
    exact hkept
  rcases r with e | ⟨⟩
  · have hstop : Process.stopAfter m (processLines dto req (loadedLines db req.id)) db = s₁ :=
      Attempt.stopAfter_bind_error hexec hbehind
    rw [hstop]
    refine .undecided hrequests hrows fun hok => ?_
    rw [hexec] at hok
    cases hok
  · have hstop : Process.stopAfter m (processLines dto req (loadedLines db req.id)) db =
        Process.stopAfter (m - Process.steps
          (Attempt.forEach (loadedLines db req.id) (releaseLine .exact dto req)) db)
            (markApproved dto req) s₁ :=
      Attempt.stopAfter_bind_ok hexec hbehind
    obtain ⟨org, horg, hactive, hfinancier⟩ := h.financier
    have horg₁ : callerOrg s₁ dto.callerUserId = some org := by
      simpa [callerOrg, hdirectory] using horg
    have hfind₁ : s₁.releaseRequests.find req.id = some req := by
      rw [hrequests, show req.id = dto.requestId from Table.key_of_find h.found]
      exact h.found
    have hmark := (decided_ends horg₁ hactive hfind₁ hfinancier).and markApproved_apart
    have hpos : 0 < Process.steps (markApproved dto req) s₁ :=
      Nat.zero_lt_one.trans_le
        (Attempt.steps_le_bind (p := updateReleaseRequest (.approveReleaseRequest req.id) req.id _)
          (f := fun _ => getFinancierReleaseRequestDetail dto.callerUserId req.id))
    rw [hstop]
    obtain ⟨happroved, requests, hmarked⟩ :=
      hmark.stopAfter_pos hpos (Nat.sub_pos_of_lt (Nat.lt_of_not_le hwithin))
    rw [hlength s₁ hexec] at hwithin
    rw [hmarked] at happroved ⊢
    exact .decided s₁ hexec (by omega) rfl rfl happroved

end Stops

/-! ## The next call -/

section Retry

variable {dto dto' : ApproveReleaseRequest} {req : ReleaseRequest} {db s : Db} {l : LoadedLine}
  {n : ℕ}

theorem OwnLeaves.sized (h : OwnLeaves req db) : LeavesSized (loadedLines db req.id) db.ledger := by
  intro l hl
  obtain ⟨r, hr, hid, -, hquantity⟩ := h.leaves l hl
  exact ⟨r, hr, hid, hquantity⟩

/-- An untouched line on a leaf of its own can be served. -/
theorem LoadedLine.Untouched.serves (h : l.Untouched req db.ledger) (hown : OwnLeaves req db)
    (hl : l ∈ loadedLines db req.id) (hvalid : l.Valid) (hpositive : 0 < l.line.quantity) :
    Serves db.ledger req l := by
  obtain ⟨r, hr, hid, hstatus, hquantity⟩ := hown.leaves l hl
  obtain ⟨r', hr', hid', htenant⟩ := h.tenant
  obtain rfl : r' = r := Table.eq_of_key_eq hr' hr (hid'.trans hid.symm)
  have hheld : r'.status.Held := by
    rw [hstatus]
    decide
  refine .released r' h.unlogged ⟨hid ▸ Table.find_of_mem hr, htenant⟩ hheld ?_ ?_
  · exact fun hfull => hquantity.trans hfull.symm
  · intro hpart
    refine ⟨hstatus, hpositive, ?_⟩
    rw [hquantity]
    exact lt_of_le_of_ne hvalid.2 hpart

/-- A line that was released is served again. -/
theorem LineRelease.serves_again {uuids : Uuids} {s s' : Ledger} {e : InventoryEvent}
    (h : LineRelease uuids req l s e s') (hserves : Serves s req l) : Serves s' req l := by
  have hfound := h.found
  cases h with
  | logged prior same => exact same ▸ hserves
  | @released op change result r r' free effect commits call key loaded held rewritten freed leaf
      quantity part kept =>
      cases hserves with
      | logged e' prior => cases free.symm.trans prior
      | released r₀ free₀ loaded₀ held₀ full =>
          obtain rfl := Option.some_inj.mp (loaded.1.symm.trans loaded₀.1)
          refine .logged e hfound (leaf.trans (Table.key_of_find loaded.1)) ?_ kept
          rw [quantity]
          split
          · exact full ‹_›
          · rfl

/-- What stopped early can still be served. -/
theorem Early.serves (h : Early dto req db s) (hs : OnFile db)
    (hapart : (loadedLines db req.id).Pairwise fun l l' => l.lien.id ≠ l'.lien.id)
    (hserves : ∀ l ∈ loadedLines db req.id, Serves db.ledger req l)
    (hl : l ∈ loadedLines db req.id) : Serves s.ledger req l := by
  rcases h.ledger with hsame | ⟨first, rest, e, hlines, hrelease⟩
  · rw [hsame]
    exact hserves l hl
  have hpairs := loadedLines_pairwise db req.id
  have hfirst : first ∈ loadedLines db req.id := hlines ▸ List.mem_cons_self
  obtain ⟨-, -, hlien, -⟩ := mem_loadedLines hfirst
  obtain ⟨hline', -, hlien', hid'⟩ := mem_loadedLines hl
  rw [hlines] at hapart hpairs hl
  rcases List.mem_cons.mp hl with rfl | hrest
  · exact hrelease.serves_again (hserves l hfirst)
  · have hne := (List.pairwise_cons.mp hapart).1 l hrest
    have hlines' := (List.pairwise_cons.mp hpairs).1 l hrest
    exact (hserves l (hlines ▸ hl)).after hs.custody hs.filed hlien hlien' hline' hid' hne.symm
      hlines'.symm hrelease

theorem Early.tally (h : Early dto req db s) (hs : OnFile db) (hs' : Custody s)
    (hown : OwnLeaves req db) : Tally req (loadedLines db req.id) db.ledger s.ledger := by
  rcases h.ledger with hsame | ⟨first, rest, e, hlines, hrelease⟩
  · rw [hsame]
    exact .start _ _ _
  · apply (Tally.start req (loadedLines db req.id) db.ledger).step hs.custody.provenance
      hs.custody.provenance hs'.provenance hown.sized (loadedLines_pairwise db req.id) _ hrelease
    exact hlines ▸ List.mem_cons_self

/-- What stopped early is read as before. -/
theorem Early.lines (h : Early dto req db s) : loadedLines s req.id = loadedLines db req.id := by
  rw [h.same]
  rfl

theorem Early.accepted (h : Early dto req db s) (haccepted : dto'.Accepted db req) :
    dto'.Accepted s req := by
  rw [h.same]
  exact ⟨haccepted.found, haccepted.financier, haccepted.pending, haccepted.valid, haccepted.otp⟩

/-- Wherever an approval stops, custody and files are kept. -/
theorem stopped_kept (hs : OnFile db) (n : ℕ) :
    Custody (Process.stopAfter n (approveReleaseRequest .exact dto) db) ∧
      Filed (Process.stopAfter n (approveReleaseRequest .exact dto) db) := by
  have hcustody : (custody .exact fun _ => True).Safe (approveReleaseRequest .exact dto) db :=
    approveReleaseRequest_safe (fun _ => trivial) dto
  have hfiled : filing.Safe (approveReleaseRequest .exact dto) db :=
    approveReleaseRequest_filing dto
  constructor
  · exact ((Process.Ensures.of_keeps hcustody hs.custody fun _ _ => trivial).stopAfter
      ⟨hs.custody, Contract.rely_refl _ _⟩ n).1
  · exact ((Process.Ensures.of_keeps hfiled hs.filed fun _ _ => trivial).stopAfter
      ⟨hs.filed, trivial⟩ n).1

/-- A request that is approved is not approved again. -/
theorem approved_again (happroved : ApprovedIn s.releaseRequests dto.requestId) :
    ((approveReleaseRequest .exact dto).exec s).2 = s := by
  have hends : Ends (fun _ s' => s' = s) (approveReleaseRequest .exact dto) s := by
    apply approveReleaseRequest_splits
    · exact fun _ _ => rfl
    · intro req haccepted
      unfold ApprovedIn at happroved
      rw [haccepted.found, Option.map_some, haccepted.pending] at happroved
      cases happroved
  exact hends.exec

/-- The next call makes up for an early stop. -/
theorem Early.retried (h : Early dto req db s) (hs : OnFile db) (hc : Custody s) (hf : Filed s)
    (haccepted : dto'.Accepted db req) (hdrawn : dto'.Drawn s) (hown : OwnLeaves req db)
    (huntouched : ∀ l ∈ loadedLines db req.id, l.Untouched req db.ledger) :
    Fulfilled req db ((approveReleaseRequest .exact dto').exec s).2 := by
  have hserves : ∀ l ∈ loadedLines db req.id, Serves db.ledger req l := by
    intro l hl
    obtain ⟨hline, -⟩ := mem_loadedLines hl
    exact (huntouched l hl).serves hown hl (haccepted.valid l hl) (hs.filed.positive l.line hline)
  have hends : Ends (fun _ s' => Fulfilled req db s') (approveReleaseRequest .exact dto') s := by
    apply approveReleaseRequest_splits
    · exact fun hrefused => absurd (h.accepted haccepted) (hrefused req)
    intro req' haccepted'
    obtain rfl : req' = req :=
      Option.some_inj.mp (haccepted'.found.symm.trans (h.accepted haccepted).found)
    have hsettle := lines_settle hc hf hdrawn haccepted'.found
      (fun l hl => h.serves hs hown.apart hserves (h.lines ▸ hl)) (h.lines ▸ hown.apart)
      hs.custody.provenance (h.lines ▸ hown.sized)
      (fun l hl => (huntouched l (h.lines ▸ hl)).unlogged) (h.lines ▸ h.tally hs hc hown)
    rw [h.lines] at hsettle ⊢
    apply hsettle.weaken
    rintro r s' ⟨rfl, hdirectory, hrequests, hsettled, hvolume⟩
    exact ⟨hdirectory, hrequests, fun _ happroved => ⟨happroved, hsettled, hvolume⟩⟩
  exact hends.exec

/-- Lines of which something was due are untouched, when all they ask for has become ACTIVE. -/
theorem Tally.untouched {lines : List LoadedLine} {s₀ s : Ledger} (h : Tally req lines s₀ s)
    (hlogged : ∀ l ∈ lines, s.events.find (lineKey req l) ≠ none)
    (hvolume : ∀ root, activeVolume root s = activeVolume root s₀ +
      (lines.map fun l => l.asks root s₀).sum)
    (hsized : LeavesSized lines s₀) (hpositive : ∀ l ∈ lines, 0 < l.line.quantity)
    (hl : l ∈ lines) : l.Untouched req s₀ := by
  have hfree : s₀.events.find (lineKey req l) = none := by
    by_contra hprior
    obtain ⟨r, hr, hid, -⟩ := hsized l hl
    have hfind : s₀.receipts.find l.lien.receiptId = some r := hid ▸ Table.find_of_mem hr
    -- in the tree of its leaf, less is due than is asked for
    have hless : (lines.map fun l => l.due req r.rootReceiptId s₀ s₀).sum <
        (lines.map fun l => l.asks r.rootReceiptId s₀).sum := by
      apply List.sum_lt_sum
      · intro l' hl'
        unfold LoadedLine.due
        split
        · exact le_rfl
        · unfold LoadedLine.asks
          split
          · exact (hpositive l' hl').le
          · exact le_rfl
      · refine ⟨l, hl, ?_⟩
        rw [LoadedLine.due, if_neg hprior, LoadedLine.asks, hfind, Option.map_some, if_pos rfl]
        exact hpositive l hl
    have hclosed := h.closed hlogged r.rootReceiptId
    rw [hvolume] at hclosed
    linarith
  obtain ⟨e, he⟩ := Option.ne_none_iff_exists'.mp (hlogged l hl)
  exact ⟨hfree, (h.released l hl hfree e he).1⟩

theorem loadedLines_of_mem {x : ReleaseRequestLine} {lien : Lien} {requestId : Id}
    (hx : x ∈ s.releaseRequestLines) (hrequest : x.releaseRequestId = requestId)
    (hlien : lien ∈ s.liens) (hid : lien.id = x.lienId) :
    (⟨x, lien⟩ : LoadedLine) ∈ loadedLines s requestId := by
  apply List.mem_filterMap.mpr
  refine ⟨x, List.mem_filter.mpr ⟨hx, decide_eq_true hrequest⟩, ?_⟩
  have hfind : s.liens.find x.lienId = some lien := hid ▸ Table.find_of_mem hlien
  rw [hfind, Option.map_some]

/-- A request that an approval accepts is not approved yet. -/
theorem ApproveReleaseRequest.Accepted.not_approved (h : dto.Accepted db req)
    {releaseRequests : Table ReleaseRequest} (hsame : releaseRequests = db.releaseRequests) :
    ¬ ApprovedIn releaseRequests req.id := by
  unfold ApprovedIn
  have hid : req.id = dto.requestId := Table.key_of_find h.found
  rw [hsame, hid, h.found, Option.map_some, h.pending]
  nofun

/-- What all lines of a call bring holds of a call that makes up for the first one. -/
theorem Fulfilled.lines_done {post : Db → Prop} (haccepted : dto'.Accepted db req)
    (hrequests : s.releaseRequests = db.releaseRequests)
    (hframe : ∀ s' releaseRequests, post s' → post { s' with releaseRequests })
    (hloop : Ends (fun r s' => s'.directory = s.directory ∧
        s'.releaseRequests = s.releaseRequests ∧ (r = .ok () → post s'))
      (Attempt.forEach (loadedLines s req.id) (releaseLine .exact dto' req)) s)
    (hfulfilled : Fulfilled req db ((approveReleaseRequest .exact dto').exec s).2) :
    post ((approveReleaseRequest .exact dto').exec s).2 := by
  have hends : Ends (fun r s' => (r = .ok () → post s') ∧
      (r ≠ .ok () → s'.releaseRequests = s.releaseRequests))
      (approveReleaseRequest .exact dto') s := by
    apply approveReleaseRequest_splits
    · exact fun _ _ => ⟨nofun, fun _ => rfl⟩
    intro req' haccepted'
    obtain rfl : req' = req := by
      have hfound := haccepted'.found
      rw [hrequests, haccepted.found] at hfound
      exact (Option.some_inj.mp hfound).symm
    apply hloop.weaken
    rintro (e | ⟨⟩) s' ⟨hdirectory, hrequests', hdone⟩
    · exact ⟨nofun, fun _ => hrequests'⟩
    · exact ⟨hdirectory, hrequests', fun _ _ =>
        ⟨fun _ => hframe _ _ (hdone rfl), fun h => absurd rfl h⟩⟩
  obtain ⟨hdone, hthrown⟩ := hends.exec
  apply hdone
  by_contra hfailed
  exact haccepted.not_approved ((hthrown hfailed).trans hrequests) hfulfilled.approved

/-- A line that was subtracted before the call is subtracted twice, or the call throws. -/
theorem subtracted_twice (hc : Custody s) (hdrawn : dto'.Drawn s) (haccepted : dto'.Accepted db req)
    (hrequests : s.releaseRequests = db.releaseRequests)
    (hrows : s.releaseRequestLines = db.releaseRequestLines)
    (hapart : (loadedLines db req.id).Pairwise fun l l' => l.lien.id ≠ l'.lien.id)
    (hl : l ∈ loadedLines db req.id) (hpositive : 0 < l.line.quantity)
    (hsubtracted : l.Subtracted s) :
    ¬ Fulfilled req db ((approveReleaseRequest .exact dto').exec s).2 := by
  obtain ⟨row, hrow, hrowid, hremaining⟩ := hsubtracted
  obtain ⟨hline, hrequest, hlien, hlid⟩ := mem_loadedLines hl
  -- the line as it is read now
  have hread : (⟨l.line, row⟩ : LoadedLine) ∈ loadedLines s req.id :=
    loadedLines_of_mem (hrows ▸ hline) hrequest hrow (hrowid.trans hlid)
  have halone : ∀ l' ∈ loadedLines s req.id, l'.lien.id = row.id → l' = ⟨l.line, row⟩ := by
    intro l' hl' hsame
    obtain ⟨hline', hrequest', hlien', hlid'⟩ := mem_loadedLines hl'
    have hbefore : (⟨l'.line, l.lien⟩ : LoadedLine) ∈ loadedLines db req.id :=
      loadedLines_of_mem (hrows ▸ hline') hrequest' hlien
        (hrowid.symm.trans (hsame.symm.trans hlid'))
    have hone : (⟨l'.line, l.lien⟩ : LoadedLine) = l :=
      List.inj_on_of_nodup_map (List.pairwise_map.mpr hapart) hbefore hl rfl
    have hliens : l'.lien = row := Table.eq_of_key_eq hlien' hrow hsame
    rw [← hone, ← hliens]
  intro hfulfilled
  obtain ⟨row', hrow', hrowid', hremaining'⟩ := hfulfilled.lines_done haccepted hrequests
    (fun _ _ h => h) (subtracted_ends hc hdrawn
      (hrequests ▸ haccepted.found) hread halone)
  obtain ⟨row'', hrow'', hrowid'', hremaining'', -⟩ := hfulfilled.lines l hl
  obtain rfl : row' = row'' := Table.eq_of_key_eq hrow' hrow''
    (hrowid'.trans (hrowid.trans hrowid''.symm))
  simp only [] at hremaining'
  linarith

/-- The next call after an early stop has not made up for it unless the lines were untouched. -/
theorem Early.untouched (h : Early dto req db s) (hs : OnFile db) (hc : Custody s)
    (haccepted : dto'.Accepted db req) (hdrawn : dto'.Drawn s) (hown : OwnLeaves req db)
    (hfulfilled : Fulfilled req db ((approveReleaseRequest .exact dto').exec s).2)
    (hl : l ∈ loadedLines db req.id) : l.Untouched req db.ledger := by
  have hrequests : s.releaseRequests = db.releaseRequests := by
    rw [h.same]
  have hloop := tally_ends hc hdrawn (h.accepted haccepted).found hs.custody.provenance
    (h.lines ▸ hown.sized) (h.lines ▸ h.tally hs hc hown)
  obtain ⟨htally, hlogged⟩ := hfulfilled.lines_done haccepted hrequests (fun _ _ h => h) hloop
  rw [h.lines] at htally hlogged
  apply htally.untouched hlogged hfulfilled.volume hown.sized _ hl
  intro l' hl'
  exact hs.filed.positive l'.line (mem_loadedLines hl').1

/-- A first line that is refused is refused again. -/
theorem refused_again (hs : OnFile db) (hdrawn : dto'.Drawn db) (haccepted : dto'.Accepted db req)
    {rest : List LoadedLine} (hlines : loadedLines db req.id = l :: rest)
    (hrefused : ¬ Passes db.ledger req l) :
    ((approveReleaseRequest .exact dto').exec db).2 = db := by
  have hends : Ends (fun _ s' => s' = db) (approveReleaseRequest .exact dto') db := by
    apply approveReleaseRequest_splits
    · exact fun _ _ => rfl
    intro req' haccepted'
    obtain rfl : req' = req := Option.some_inj.mp (haccepted'.found.symm.trans haccepted.found)
    have hmidway : Midway dto' req' db [] (l :: rest) db :=
      hlines ▸ .start hs.custody hdrawn haccepted'.found
    rw [hlines]
    apply ensures_bind
    apply Process.Ensures.weaken (hmidway.line_ends hs.custody)
    rintro (e | _) s ⟨-, -, hends⟩
    · exact hends.1
    · exact absurd hends.1 hrefused
  exact hends.exec

/-- An approval that stopped is made up for by the next call exactly when no line was touched
before, and it stopped before its first update of a lien or behind that of its request. -/
theorem OnFile.retried_iff (hs : OnFile db) (haccepted : dto.Accepted db req)
    (haccepted' : dto'.Accepted db req) (hdrawn : dto.Drawn db)
    (hdrawn' : dto'.Drawn (Process.stopAfter n (approveReleaseRequest .exact dto) db))
    (hown : OwnLeaves req db) :
    Fulfilled req db ((approveReleaseRequest .exact dto').exec
        (Process.stopAfter n (approveReleaseRequest .exact dto) db)).2 ↔
      (∀ l ∈ loadedLines db req.id, l.Untouched req db.ledger) ∧
        (n ≤ 3 ∨ 2 * (loadedLines db req.id).length + 3 ≤ n) := by
  obtain ⟨hc, hf⟩ : Custody (Process.stopAfter n (approveReleaseRequest .exact dto) db) ∧
      Filed (Process.stopAfter n (approveReleaseRequest .exact dto) db) := stopped_kept hs n
  have hid : req.id = dto'.requestId := Table.key_of_find haccepted'.found
  have hpositive : ∀ l ∈ loadedLines db req.id, 0 < l.line.quantity := fun l hl =>
    hs.filed.positive l.line (mem_loadedLines hl).1
  constructor
  · intro hfulfilled
    cases haccepted.stops hs hdrawn n with
    | decided s₁ lines late ledger liens approved =>
        rw [approved_again (hid ▸ approved)] at hfulfilled
        have hloop := (tally_ends hs.custody hdrawn haccepted.found hs.custody.provenance
          hown.sized (.start _ _ _)).exec
        rw [lines] at hloop
        obtain ⟨htally, hlogged⟩ := hloop.2.2 rfl
        refine ⟨fun l hl => ?_, .inr late⟩
        apply htally.untouched hlogged _ hown.sized hpositive hl
        rw [← ledger]
        exact hfulfilled.volume
    | undecided requests rows soon =>
        have hearly : n ≤ 3 ∧ n < 2 * (loadedLines db req.id).length + 3 := by
          cases hlines : loadedLines db req.id with
          | nil =>
              have hfew := soon (by rw [hlines]; rfl)
              rw [hlines, List.length_nil] at hfew
              exact ⟨by omega, by simpa using hfew⟩
          | cons first rest =>
              have hfirst : first ∈ loadedLines db req.id := hlines ▸ List.mem_cons_self
              have hle : n ≤ 3 := by
                by_contra hlate
                have hbehind := Nat.lt_of_not_le hlate
                rcases haccepted.stops_late hs hdrawn hlines hown.apart hbehind with
                  ⟨hrefused, hsame⟩ | hsubtracted
                · rw [hsame] at hfulfilled hdrawn'
                  rw [refused_again hs hdrawn' haccepted' hlines hrefused] at hfulfilled
                  exact haccepted'.not_approved rfl hfulfilled.approved
                · exact subtracted_twice hc hdrawn' haccepted' requests rows hown.apart hfirst
                    (hpositive first hfirst) hsubtracted hfulfilled
              refine ⟨hle, ?_⟩
              rw [List.length_cons]
              omega
        refine ⟨fun l hl => ?_, .inl hearly.1⟩
        exact (haccepted.stops_early hs hdrawn hearly.1 hearly.2).untouched hs hc haccepted' hdrawn'
          hown hfulfilled hl
  · rintro ⟨huntouched, hn⟩
    have hserves : ∀ l ∈ loadedLines db req.id, Serves db.ledger req l := fun l hl =>
      (huntouched l hl).serves hown hl (haccepted.valid l hl) (hpositive l hl)
    have hloop := (lines_settle hs.custody hs.filed hdrawn haccepted.found hserves hown.apart
      hs.custody.provenance hown.sized (fun l hl => (huntouched l hl).unlogged)
      (.start _ _ _)).exec
    cases haccepted.stops hs hdrawn n with
    | decided s₁ lines late ledger liens approved =>
        rw [lines] at hloop
        obtain ⟨-, -, -, hsettled, hvolume⟩ := hloop
        rw [approved_again (hid ▸ approved)]
        refine ⟨approved, fun l hl => ?_, ?_⟩
        · unfold LoadedLine.Settled
          rw [liens, ledger]
          exact hsettled l hl
        · rw [ledger]
          exact hvolume
    | undecided requests rows soon =>
        have hfew := soon hloop.1
        have hearly : n ≤ 3 := hn.resolve_right (Nat.not_le_of_lt hfew)
        exact (haccepted.stops_early hs hdrawn hearly hfew).retried hs hc hf haccepted' hdrawn' hown
          huntouched

end Retry

end SecureStore.Services
