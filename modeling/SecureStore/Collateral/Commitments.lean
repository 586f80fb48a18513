/-
# Commitments under a lien

A lien must be able to serve every line that still waits for its release. The code
subtracts a line when the approval of its request reaches it, and the request stays
PENDING until all of its lines are done, so a line that has been subtracted no longer
waits. What keeps the sum within the lien is that each creation finds room for all of its
lines when it inserts them, and that each release of a part finds the line still waiting
on a live lien. The creation itself looks at each line alone, before the transaction.
-/

import SecureStore.Collateral.Books

namespace SecureStore.Services

open SecureStore.Foundation SecureStore.Inventory

/-- The line that a step of an approval takes from its lien. -/
def Label.line : Label → Option Id
  | .write (.approveReleaseLine _ lineId _) => some lineId
  | _ => none

/-- The lines that approvals have taken from their liens. -/
def takenLines (trace : List (Transition Label Db)) : List Id :=
  trace.filterMap fun t => t.label.line

/-- The request of a line is PENDING. -/
def PendingLine (db : Db) (x : ReleaseRequestLine) : Prop :=
  (db.releaseRequests.find x.releaseRequestId).map ReleaseRequest.status = some .pending

instance (db : Db) (x : ReleaseRequestLine) : Decidable (PendingLine db x) :=
  inferInstanceAs (Decidable (_ = _))

/-- What a line asks of a lien, where some lines count as taken. -/
def demand (taken : List Id) (db : Db) (lienId : Id) (x : ReleaseRequestLine) : ℚ :=
  if x.lienId = lienId ∧ PendingLine db x ∧ x.id ∉ taken then x.quantity else 0

/-- What the PENDING lines of a lien that do not count as taken ask of it. -/
def outstanding (taken : List Id) (db : Db) (lienId : Id) : ℚ :=
  db.releaseRequestLines.sumOf (demand taken db lienId)

/-- Every live lien covers what is asked of it. -/
def Covers (taken : List Id) (db : Db) : Prop :=
  ∀ l ∈ db.liens, l.status.Live → outstanding taken db l.id ≤ l.remainingQuantity

/-- The lines that a step inserts. -/
def Inserted (t : Transition Label Db) : List ReleaseRequestLine :=
  t.after.releaseRequestLines.rows.drop t.before.releaseRequestLines.rows.length

/-- What new lines ask of a lien together. -/
def asked (added : List ReleaseRequestLine) (lienId : Id) : ℚ :=
  ((added.filter fun x => x.lienId = lienId).map ReleaseRequestLine.quantity).sum

/-- The liens that new lines name have room for all of them, at the moment of insertion. -/
def Fit (db : Db) (added : List ReleaseRequestLine) : Prop :=
  ∀ x ∈ added, ∀ l ∈ db.liens.rows, l.id = x.lienId → l.status.Live →
    pendingPerLien db l.id + asked added l.id ≤ l.remainingQuantity

instance (db : Db) (added : List ReleaseRequestLine) : Decidable (Fit db added) :=
  inferInstanceAs (Decidable (∀ x ∈ added, ∀ l ∈ db.liens.rows, _ → _ → _))

/-- A release that leaves its lien live takes a waiting line from a live lien, once. -/
def TakesLine (earlier : List (Transition Label Db)) (t : Transition Label Db)
    (lineId lienId : Id) : Prop :=
  ∀ l' ∈ t.after.liens.rows, l'.id = lienId → l'.status.Live →
    lineId ∉ takenLines earlier ∧
      ∃ l ∈ t.before.liens.rows, l.id = lienId ∧ l.status.Live ∧
        ∃ x ∈ t.before.releaseRequestLines.rows, x.id = lineId ∧ PendingLine t.before x ∧
          l'.remainingQuantity = l.remainingQuantity - x.quantity

instance (earlier : List (Transition Label Db)) (t : Transition Label Db) (lineId lienId : Id) :
    Decidable (TakesLine earlier t lineId lienId) :=
  List.decidableBAll _ _

/-- A creation inserts lines that fit together, and a release finds the lien and the line as
its approval read them. -/
def Timely (earlier : List (Transition Label Db)) (t : Transition Label Db) : Prop :=
  match t.label with
  | .write (.createReleaseRequest _) => Fit t.before (Inserted t)
  | .write (.approveReleaseLine _ lineId lienId) => TakesLine earlier t lineId lienId
  | _ => True

instance (earlier : List (Transition Label Db)) (t : Transition Label Db) :
    Decidable (Timely earlier t) := by
  unfold Timely
  split <;> infer_instance

/-- Every step is timely after the steps before it. -/
def TimelyRun (trace : List (Transition Label Db)) : Prop :=
  ∀ i, ∀ h : i < trace.length, Timely (trace.take i) (trace.get ⟨i, h⟩)

instance (trace : List (Transition Label Db)) : Decidable (TimelyRun trace) :=
  Nat.decidableBallLT _ _

/-- A release that leaves its lien live finds as much again as it takes beyond what all
PENDING lines ask, its own included: the request is PENDING until its last line is done. -/
def Roomy (t : Transition Label Db) : Prop :=
  match t.label with
  | .write (.approveReleaseLine _ lineId lienId) =>
      (∃ l' ∈ t.after.liens.rows, l'.id = lienId ∧ l'.status.Live) →
        ∀ l ∈ t.before.liens.rows, l.id = lienId →
          ∀ x ∈ t.before.releaseRequestLines.rows, x.id = lineId →
            pendingPerLien t.before lienId + x.quantity ≤ l.remainingQuantity
  | _ => True

instance (t : Transition Label Db) : Decidable (Roomy t) := by
  unfold Roomy
  split <;> infer_instance

/-- No approval has reached a PENDING line of a lien. -/
def Unreached (trace : List (Transition Label Db)) (db : Db) (lienId : Id) : Prop :=
  ∀ x ∈ db.releaseRequestLines, x.lienId = lienId → PendingLine db x → x.id ∉ takenLines trace

theorem TimelyRun.timely {trace earlier later : List (Transition Label Db)}
    {t : Transition Label Db} (h : TimelyRun trace) (htrace : trace = earlier ++ t :: later) :
    Timely earlier t := by
  subst htrace
  simpa using h earlier.length (by simp)

theorem takenLines_append (earlier : List (Transition Label Db)) (t : Transition Label Db) :
    takenLines (earlier ++ [t]) = takenLines earlier ++ t.label.line.toList := by
  unfold takenLines
  rw [List.filterMap_append]
  cases h : t.label.line <;> simp [h]

section Demand

variable {taken taken' : List Id} {db db' : Db} {lienId : Id} {x : ReleaseRequestLine}

theorem demand_nonneg (hx : 0 ≤ x.quantity) : 0 ≤ demand taken db lienId x := by
  unfold demand
  split
  · exact hx
  · exact le_rfl

/-- A line asks no more when more lines are taken and no request became PENDING. -/
theorem demand_le (htaken : taken ⊆ taken') (hx : 0 ≤ x.quantity)
    (hpending : PendingLine db' x → PendingLine db x) :
    demand taken' db' lienId x ≤ demand taken db lienId x := by
  by_cases h : x.lienId = lienId ∧ PendingLine db' x ∧ x.id ∉ taken'
  · have hbefore : x.lienId = lienId ∧ PendingLine db x ∧ x.id ∉ taken :=
      ⟨h.1, hpending h.2.1, fun hmem => h.2.2 (htaken hmem)⟩
    unfold demand
    rw [if_pos h, if_pos hbefore]
  · unfold demand
    rw [if_neg h]
    exact demand_nonneg hx

/-- The PENDING volume that the code sums up is what is outstanding where no line counts as
taken. -/
theorem pendingPerLien_eq (db : Db) (lienId : Id) :
    pendingPerLien db lienId = outstanding [] db lienId := by
  unfold pendingPerLien outstanding Table.sumOf demand
  rw [List.sum_map_ite]
  simp [PendingLine]

/-- Where no approval has reached a PENDING line, all of them are outstanding. -/
theorem Unreached.outstanding_eq {trace : List (Transition Label Db)}
    (h : Unreached trace db lienId) :
    outstanding (takenLines trace) db lienId = pendingPerLien db lienId := by
  rw [pendingPerLien_eq]
  unfold outstanding Table.sumOf
  congr 1
  apply List.map_congr_left
  intro x hx
  have hiff : (x.lienId = lienId ∧ PendingLine db x ∧ x.id ∉ takenLines trace) ↔
      (x.lienId = lienId ∧ PendingLine db x ∧ x.id ∉ []) :=
    ⟨fun hall => ⟨hall.1, hall.2.1, List.not_mem_nil⟩,
      fun hall => ⟨hall.1, hall.2.1, h x hx hall.1 hall.2.1⟩⟩
  unfold demand
  simp only [hiff]

theorem outstanding_le (htaken : taken ⊆ taken') (hdb : Booked db)
    (hlines : db'.releaseRequestLines = db.releaseRequestLines)
    (hpending : ∀ x ∈ db.releaseRequestLines, PendingLine db' x → PendingLine db x) :
    outstanding taken' db' lienId ≤ outstanding taken db lienId := by
  unfold outstanding
  rw [hlines]
  apply Table.sumOf_le_sumOf
  intro x hx
  exact demand_le htaken (hdb.lines x hx) (hpending x hx)

/-- New lines ask no more of a lien than their quantities. -/
theorem demand_inserted {added : List ReleaseRequestLine}
    (hquantity : ∀ x ∈ added, 0 ≤ x.quantity) :
    (added.map (demand taken db lienId)).sum ≤ asked added lienId := by
  have hasked : asked added lienId =
      (added.map fun x => if x.lienId = lienId then x.quantity else 0).sum := by
    unfold asked
    rw [List.sum_map_ite]
    simp
  rw [hasked]
  apply List.sum_le_sum
  intro x hx
  by_cases hlien : x.lienId = lienId
  · rw [if_pos hlien]
    unfold demand
    split
    · exact le_rfl
    · exact hquantity x hx
  · rw [if_neg hlien]
    unfold demand
    rw [if_neg fun hall => hlien hall.1]

/-- Lines that do not name a lien ask nothing of it. -/
theorem asked_eq_zero {added : List ReleaseRequestLine}
    (hnone : ∀ x ∈ added, x.lienId ≠ lienId) : asked added lienId = 0 := by
  have hfilter : (added.filter fun x => x.lienId = lienId) = [] := by
    rw [List.filter_eq_nil_iff]
    intro x hx
    simpa using hnone x hx
  rw [asked, hfilter]
  rfl

end Demand

section Step

variable {taken taken' : List Id} {s s' : Db} {label : Label} {by_ : Issuer}

/-- A step that changes no lien and makes no request PENDING. -/
theorem Covers.same (h : Covers taken s) (htaken : taken ⊆ taken') (hs : Booked s)
    (hliens : s'.liens = s.liens) (hlines : s'.releaseRequestLines = s.releaseRequestLines)
    (hpending : ∀ x ∈ s.releaseRequestLines, PendingLine s' x → PendingLine s x) :
    Covers taken' s' := by
  intro l hl hlive
  rw [hliens] at hl
  exact (outstanding_le htaken hs hlines hpending).trans (h l hl hlive)

theorem Covers.releases (h : Covers taken s) (htaken : taken ⊆ taken') (hs : Booked s)
    (hsame : SameReleases s s') : Covers taken' s' := by
  apply h.same htaken hs hsame.liens hsame.lines
  intro x _ hpending
  unfold PendingLine at hpending ⊢
  rwa [← hsame.requests]

/-- A decision takes its request out of PENDING. -/
theorem Covers.decided (h : Covers taken s) (htaken : taken ⊆ taken') (hs : Booked s) {id : Id}
    {f : ReleaseRequest → ReleaseRequest} {hf : ∀ r, Keyed.key (f r) = Keyed.key r}
    (hdecision : ∀ r, (f r).status ≠ .pending)
    (hrequest : s'.releaseRequests = s.releaseRequests.modify id f hf)
    (hliens : s'.liens = s.liens) (hlines : s'.releaseRequestLines = s.releaseRequestLines) :
    Covers taken' s' := by
  apply h.same htaken hs hliens hlines
  intro x _ hpending
  unfold PendingLine at hpending ⊢
  rw [hrequest, Table.find_modify] at hpending
  split at hpending
  · rw [Option.map_map] at hpending
    obtain ⟨r, -, hr⟩ := Option.map_eq_some_iff.mp hpending
    exact absurd hr (hdecision r)
  · exact hpending

/-- A new lien has no lines yet. -/
theorem Covers.opened (h : Covers taken s) (htaken : taken ⊆ taken') (hs : Booked s) {l : Lien}
    (hlien : s.liens.insert l = some s'.liens) (hremains : 0 ≤ l.remainingQuantity)
    (hrequests : s'.releaseRequests = s.releaseRequests)
    (hlines : s'.releaseRequestLines = s.releaseRequestLines) : Covers taken' s' := by
  have hpending : ∀ x ∈ s.releaseRequestLines, PendingLine s' x → PendingLine s x := by
    intro x _ hpending
    unfold PendingLine at hpending ⊢
    rwa [← hrequests]
  intro l' hl' hlive
  rcases (Table.mem_insert hlien).mp hl' with hold | rfl
  · exact (outstanding_le htaken hs hlines hpending).trans (h l' hold hlive)
  · have hnone : outstanding taken' s' l'.id = 0 := by
      apply Table.sumOf_eq_zero
      intro x hx
      unfold demand
      rw [if_neg]
      intro hall
      rw [hlines] at hx
      obtain ⟨k, hk, hid⟩ := hs.liens x hx
      have hfree := Table.find_eq_none_iff.mp (Table.insert_eq_some_iff.mp hlien).1
      exact hfree k hk (hid.trans hall.1)
    rw [hnone]
    exact hremains

/-- A lien that is closed is not live. -/
theorem Covers.closed (h : Covers taken s) (htaken : taken ⊆ taken') (hs : Booked s) {id : Id}
    {f : Lien → Lien} {hf : ∀ r, Keyed.key (f r) = Keyed.key r}
    (hdead : ∀ l, ¬ (f l).status.Live) (hlien : s'.liens = s.liens.modify id f hf)
    (hrequests : s'.releaseRequests = s.releaseRequests)
    (hlines : s'.releaseRequestLines = s.releaseRequestLines) : Covers taken' s' := by
  intro l hl hlive
  rw [hlien] at hl
  rcases Table.mem_modify.mp hl with ⟨r, -, rfl⟩ | ⟨hl, -⟩
  · exact absurd hlive (hdead r)
  · apply (outstanding_le htaken hs hlines _).trans (h l hl hlive)
    intro x _ hpending
    unfold PendingLine at hpending ⊢
    rwa [← hrequests]

/-- New lines that fit are covered. -/
theorem Covers.requested (h : Covers taken s) (htaken : taken ⊆ taken') (hs : Booked s)
    (hs' : Booked s') {r : ReleaseRequest} {added : List ReleaseRequestLine}
    (hrequest : s.releaseRequests.insert r = some s'.releaseRequests)
    (hlines : s'.releaseRequestLines.rows = s.releaseRequestLines.rows ++ added)
    (hliens : s'.liens = s.liens) (hfit : Fit s added) : Covers taken' s' := by
  -- the lines that were there ask no more than before
  have hold : ∀ lienId, (s.releaseRequestLines.rows.map (demand taken' s' lienId)).sum ≤
      outstanding taken s lienId := by
    intro lienId
    apply List.sum_le_sum
    intro x hx
    apply demand_le htaken (hs.lines x hx)
    intro hpending
    unfold PendingLine at hpending ⊢
    rw [Table.find_insert hrequest] at hpending
    split at hpending
    · rename_i hkey
      exact absurd (hkey ▸ (Table.insert_eq_some_iff.mp hrequest).1) (hs.requests x hx)
    · exact hpending
  have hnew : ∀ x ∈ added, 0 ≤ x.quantity := by
    intro x hx
    apply hs'.lines x
    rw [Table.mem_def, hlines]
    exact List.mem_append_right _ hx
  intro l hl hlive
  rw [hliens] at hl
  have hsum : outstanding taken' s' l.id ≤ outstanding taken s l.id + asked added l.id := by
    have hadded : (added.map (demand taken' s' l.id)).sum ≤ asked added l.id :=
      demand_inserted hnew
    unfold outstanding Table.sumOf
    rw [hlines, List.map_append, List.sum_append]
    exact add_le_add (hold l.id) hadded
  by_cases hnames : ∃ x ∈ added, x.lienId = l.id
  · obtain ⟨x, hx, hlien⟩ := hnames
    have hpending : outstanding taken s l.id ≤ pendingPerLien s l.id := by
      rw [pendingPerLien_eq]
      exact outstanding_le (List.nil_subset _) hs rfl fun _ _ => id
    calc outstanding taken' s' l.id
        ≤ outstanding taken s l.id + asked added l.id := hsum
      _ ≤ pendingPerLien s l.id + asked added l.id := by gcongr
      _ ≤ l.remainingQuantity := hfit x hx l hl hlien.symm hlive
  · push Not at hnames
    rw [asked_eq_zero hnames, add_zero] at hsum
    exact hsum.trans (h l hl hlive)

/-- A lien that a release leaves live has room for its line and what else is outstanding. -/
def Room (taken : List Id) (t : Transition Label Db) (lineId lienId : Id) : Prop :=
  (∃ l' ∈ t.after.liens.rows, l'.id = lienId ∧ l'.status.Live) →
    ∀ l ∈ t.before.liens.rows, l.id = lienId → l.status.Live →
      ∀ x ∈ t.before.releaseRequestLines.rows, x.id = lineId → x.lienId = lienId →
        outstanding taken t.before lienId + x.quantity ≤ l.remainingQuantity

/-- A release takes its line from the lien. -/
theorem Covers.subtracted (h : Covers taken s) (htaken : taken ⊆ taken') (hs : Booked s)
    {x : ReleaseRequestLine} {f : Lien → Lien} {hf : ∀ r, Keyed.key (f r) = Keyed.key r}
    (hlien : s'.liens = s.liens.modify x.lienId f hf)
    (hrequests : s'.releaseRequests = s.releaseRequests)
    (hlines : s'.releaseRequestLines = s.releaseRequestLines) (hx : x ∈ s.releaseRequestLines)
    {earlier : List (Transition Label Db)}
    (htakes : TakesLine earlier ⟨s, label, s'⟩ x.id x.lienId)
    (hroom : Room taken' ⟨s, label, s'⟩ x.id x.lienId) : Covers taken' s' := by
  have hpending : ∀ y ∈ s.releaseRequestLines, PendingLine s' y → PendingLine s y := by
    intro y _ hpending
    unfold PendingLine at hpending ⊢
    rwa [← hrequests]
  intro l' hl' hlive
  by_cases hid : l'.id = x.lienId
  · obtain ⟨-, l, hl, hkey, hbefore, y, hy, hline, -, hremaining⟩ := htakes l' hl' hid hlive
    obtain rfl : y = x := Table.eq_of_key_eq hy hx hline
    have hleft := hroom ⟨l', hl', hid, hlive⟩ l hl hkey hbefore y hy rfl rfl
    rw [hid, hremaining]
    calc outstanding taken' s' y.lienId
        ≤ outstanding taken' s y.lienId :=
          outstanding_le (List.Subset.refl _) hs hlines hpending
      _ ≤ l.remainingQuantity - y.quantity := le_sub_iff_add_le.mpr hleft
  · rw [hlien] at hl'
    rcases Table.mem_modify.mp hl' with ⟨r, hr, rfl⟩ | ⟨hl, -⟩
    · exact absurd ((hf r).trans (Table.key_of_find hr)) hid
    · exact (outstanding_le htaken hs hlines hpending).trans (h l' hl hlive)

/-- Every timely step of the books that finds room keeps live liens covered. -/
theorem Covers.step {earlier : List (Transition Label Db)} {t : Transition Label Db}
    (h : Covers taken t.before) (htaken : taken ⊆ taken') (hs : Booked t.before)
    (hs' : Booked t.after) (hstep : BookStep t.label t.before t.after)
    (htimely : Timely earlier t)
    (hroom : ∀ requestId lineId lienId,
      t.label = .write (.approveReleaseLine requestId lineId lienId) →
        Room taken' t lineId lienId) : Covers taken' t.after := by
  obtain ⟨s, label, s'⟩ := t
  cases label with
  | read => exact h.releases htaken hs hstep
  | ledger by_ op => exact h.releases htaken hs hstep
  | write by_ =>
      cases hstep with
      | same releases => exact h.releases htaken hs releases
      | @requested id r added request row lines theirs liens =>
          have hinserted : Inserted ⟨s, .write (.createReleaseRequest id), s'⟩ = added := by
            unfold Inserted
            rw [lines, List.drop_left]
          have hfit : Fit s (Inserted ⟨s, .write (.createReleaseRequest id), s'⟩) := htimely
          rw [hinserted] at hfit
          exact h.requested htaken hs hs' request lines liens hfit
      | decided hf decision request liens lines =>
          exact h.decided htaken hs decision request liens lines
      | opened lien remains requests lines =>
          exact h.opened htaken hs lien remains requests lines
      | closed f hf dead lien requests lines =>
          exact h.closed htaken hs dead lien requests lines
      | subtracted hf line lien requests lines =>
          exact h.subtracted htaken hs lien requests lines line htimely (hroom _ _ _ rfl)

/-- A line that is taken leaves room for the others. -/
theorem Covers.room {earlier : List (Transition Label Db)} {t : Transition Label Db}
    {requestId lineId lienId : Id} (h : Covers (takenLines earlier) t.before)
    (hs : Booked t.before)
    (hlabel : t.label = .write (.approveReleaseLine requestId lineId lienId))
    (htimely : Timely earlier t) : Room (takenLines (earlier ++ [t])) t lineId lienId := by
  have htakes : TakesLine earlier t lineId lienId := by
    unfold Timely at htimely
    rw [hlabel] at htimely
    exact htimely
  have htaken : takenLines (earlier ++ [t]) = takenLines earlier ++ [lineId] := by
    rw [takenLines_append, hlabel]
    rfl
  rintro ⟨l', hl', hid, hlive⟩ l hl rfl hbefore x hx rfl hlien
  obtain ⟨hfirst, -, -, -, -, y, hy, hline, hwaits, -⟩ := htakes l' hl' hid hlive
  obtain rfl : y = x := Table.eq_of_key_eq hy hx hline
  have hdemand : demand (takenLines earlier) t.before l.id y = y.quantity := by
    unfold demand
    rw [if_pos ⟨hlien, hwaits, hfirst⟩]
  have hnone : demand (takenLines earlier ++ [y.id]) t.before l.id y = 0 := by
    unfold demand
    rw [if_neg]
    intro hall
    exact hall.2.2 (by simp)
  calc outstanding (takenLines (earlier ++ [t])) t.before l.id + y.quantity
      = outstanding (takenLines earlier ++ [y.id]) t.before l.id +
          demand (takenLines earlier) t.before l.id y := by rw [htaken, hdemand]
    _ ≤ outstanding (takenLines earlier) t.before l.id := by
        apply Table.sumOf_add_le (M := ℚ) hx hnone
        intro z hz
        exact demand_le (List.subset_append_left _ _) (hs.lines z hz) id
    _ ≤ l.remainingQuantity := h l hl hbefore

/-- A roomy step leaves room for all PENDING lines. -/
theorem Roomy.room {t : Transition Label Db} {requestId lineId lienId : Id} (h : Roomy t)
    (hlabel : t.label = .write (.approveReleaseLine requestId lineId lienId)) :
    Room [] t lineId lienId := by
  unfold Roomy at h
  rw [hlabel] at h
  intro hlive l hl hkey _ x hx hline _
  rw [← pendingPerLien_eq]
  exact h hlive l hl hkey x hx hline

end Step

section Runs

variable {num : Numeric} {directory : Directory} {requests : List Request}
  {trace : List (Transition Label Db)} {s : Db} {pool : List (Api Unit)}
  (hstore : ∀ q, 0 ≤ q → 0 ≤ num.numeric20_4 q)
  (hrun : Run (Db.initial directory) (requests.map (Request.run num)) trace s pool)
  (htimely : TimelyRun trace)

include hstore hrun htimely

/-- In a timely run live liens cover the lines that no approval has taken yet. -/
theorem runs_covers : Covers (takenLines trace) s := by
  have hbooks := runs_books hstore hrun
  apply hrun.history (P := fun trace s => Covers (takenLines trace) s)
  · intro l hl _
    exact absurd hl (Table.not_mem_empty l)
  · intro earlier t later htrace h
    obtain ⟨hbefore, hstep, hafter, -, -⟩ := hbooks.each t (by simp [htrace])
    have htimely' := htimely.timely htrace
    have htaken : takenLines earlier ⊆ takenLines (earlier ++ [t]) := by
      rw [takenLines_append]
      exact List.subset_append_left _ _
    exact h.step htaken hbefore hafter hstep htimely'
      fun _ _ _ hlabel => h.room hbefore hlabel htimely'

/-- In a timely run whose releases find room live liens cover all PENDING lines. -/
theorem runs_covers_pending (hroomy : ∀ t ∈ trace, Roomy t) : Covers [] s := by
  have hbooks := runs_books hstore hrun
  apply hrun.history (P := fun _ s => Covers [] s)
  · intro l hl _
    exact absurd hl (Table.not_mem_empty l)
  · intro earlier t later htrace h
    have hmem : t ∈ trace := by simp [htrace]
    obtain ⟨hbefore, hstep, hafter, -, -⟩ := hbooks.each t hmem
    exact h.step (List.Subset.refl _) hbefore hafter hstep (htimely.timely htrace)
      fun _ _ _ hlabel => (hroomy t hmem).room hlabel

end Runs

/-- Along every timely run of any requests, interleaved and crashing anywhere, every live
lien covers the PENDING lines that no approval has taken from it. It covers all of its
PENDING lines where none of them was taken, and throughout where releases find room. -/
theorem liens_cover_lines (num : Numeric) (hstore : ∀ q, 0 ≤ q → 0 ≤ num.numeric20_4 q)
    (directory : Directory) (requests : List Request) (trace : List (Transition Label Db))
    (s : Db) (pool : List (Api Unit))
    (hrun : Run (Db.initial directory) (requests.map (Request.run num)) trace s pool)
    (htimely : TimelyRun trace) :
    ∀ l ∈ s.liens, l.status.Live →
      outstanding (takenLines trace) s l.id ≤ l.remainingQuantity ∧
        (Unreached trace s l.id ∨ (∀ t ∈ trace, Roomy t) →
          pendingPerLien s l.id ≤ l.remainingQuantity) := by
  intro l hl hlive
  have hcovers := runs_covers hstore hrun htimely l hl hlive
  refine ⟨hcovers, ?_⟩
  rintro (hunreached | hroomy)
  · rw [← hunreached.outstanding_eq]
    exact hcovers
  · rw [pendingPerLien_eq]
    exact runs_covers_pending hstore hrun htimely hroomy l hl hlive

/-- A release request of one line under lien 8. -/
def sampleRelease (requestId lineId : Id) (quantity : ℚ) : Request :=
  .createReleaseRequest
    { requestId, callerUserId := 10, financierId := 30, requestedDate := 0, note := none
      firstLine := { id := lineId, lienId := 8, quantity }, moreLines := [] }

/-- The approval of release request 40. -/
def sampleApproval : Request :=
  .approveReleaseRequest
    { uuids := fun _ => sampleUuids 180, now := 0, otp := .ok (), callerUserId := 20
      requestId := 40 }

/-- Some requests about the six units under lien 8, each run to its end, and the first steps
of the approval of request 40. -/
def underLien8 (requests : List Request) (steps : ℕ) :
    List (Transition Label Db) × Db × List (Api Unit) :=
  interleave
    ((List.range (4 + requests.length)).flatMap (List.replicate 12) ++
      List.replicate steps (4 + requests.length))
    (Db.initial sampleDirectory)
    ((sampleStock ++ [samplePledge, sampleAcceptance] ++ requests ++ [sampleApproval]).map
      (Request.run .postgres))

/-- One request with two lines of four under lien 8 of six. -/
def sampleDoubled : Request :=
  .createReleaseRequest
    { requestId := 40, callerUserId := 10, financierId := 30, requestedDate := 0, note := none
      firstLine := { id := 41, lienId := 8, quantity := 4 }
      moreLines := [{ id := 42, lienId := 8, quantity := 4 }] }

/-- Each line of a request is checked alone, so lines of one request on one lien exceed it,
with every request run to its end before the next. -/
theorem one_request_overcommitted :
    ¬ ∀ (directory : Directory) (requests : List Request) (trace : List (Transition Label Db))
        (s : Db) (pool : List (Api Unit)),
      Run (Db.initial directory) (requests.map (Request.run .postgres)) trace s pool →
        ∀ l ∈ s.liens, l.status.Live → pendingPerLien s l.id ≤ l.remainingQuantity := by
  intro hclaim
  have hover : ∃ l ∈ (underLien8 [sampleDoubled] 0).2.1.liens.rows, l.status.Live ∧
      l.remainingQuantity = 6 ∧ pendingPerLien (underLien8 [sampleDoubled] 0).2.1 l.id = 8 := by
    decide +kernel
  obtain ⟨l, hl, hlive, hsix, height⟩ := hover
  have hwithin : pendingPerLien (underLien8 [sampleDoubled] 0).2.1 l.id ≤ l.remainingQuantity :=
    hclaim _ _ _ _ _ (run_interleave _ _ _) l hl hlive
  rw [hsix, height] at hwithin
  norm_num at hwithin

/-- Four and then two of the six units are asked for, and the approval of the four stops after
its update of the lien: every step is timely, and the PENDING lines exceed what remains. -/
theorem mid_approval_overcommitted :
    TimelyRun (underLien8 [sampleRelease 40 41 4, sampleRelease 42 43 2] 4).1 ∧
      ∃ l ∈ (underLien8 [sampleRelease 40 41 4, sampleRelease 42 43 2] 4).2.1.liens.rows,
        l.status.Live ∧ l.remainingQuantity <
          pendingPerLien (underLien8 [sampleRelease 40 41 4, sampleRelease 42 43 2] 4).2.1
            l.id := by
  decide +kernel

/-- Two and then one of the six units are asked for, and the approval of the two stops after
its update of the lien. -/
theorem liens_cover_lines_sample :
    ∃ l ∈ (underLien8 [sampleRelease 40 41 2, sampleRelease 42 43 1] 4).2.1.liens.rows,
      l.status.Live ∧
        outstanding
            (takenLines (underLien8 [sampleRelease 40 41 2, sampleRelease 42 43 1] 4).1)
            (underLien8 [sampleRelease 40 41 2, sampleRelease 42 43 1] 4).2.1 l.id ≤
          l.remainingQuantity ∧
        pendingPerLien (underLien8 [sampleRelease 40 41 2, sampleRelease 42 43 1] 4).2.1 l.id ≤
          l.remainingQuantity := by
  have hlive : ∃ l ∈
      (underLien8 [sampleRelease 40 41 2, sampleRelease 42 43 1] 4).2.1.liens.rows,
        l.status.Live := by
    decide +kernel
  obtain ⟨l, hl, hlive⟩ := hlive
  have hcovers := liens_cover_lines .postgres (fun _ => roundScale_nonneg) sampleDirectory _ _ _ _
    (run_interleave _ _ _) (by decide +kernel) l hl hlive
  exact ⟨l, hl, hlive, hcovers.1, hcovers.2 (.inr (by decide +kernel))⟩

end SecureStore.Services
