/-
# Racing decisions on a pledge

Acceptance, cancellation, rejection and expiry each check the status they read,
move the ledger, and write the status. The ledger keys and the status of the held
leaf arbitrate between them: the first ledger operation that commits decides the
pledge, and every other decision finds its own operation refused. The one gap is
`release`, which accepts a leaf that is already under the lien.
-/

import SecureStore.Custody.Isolation

namespace SecureStore.Services

open SecureStore.Foundation SecureStore.Inventory

/-- What can be decided about a pending pledge. -/
inductive Decision where
  | accept
  | cancel
  | reject
  | expire
  deriving DecidableEq

namespace Decision

def word : Decision → String
  | accept => "accept"
  | cancel => "cancel"
  | reject => "reject"
  | expire => "expire"

/-- The key under which a decision moves the ledger. -/
def key (d : Decision) (pledgeId : Id) : IdempotencyKey :=
  [.text "pledge", .text d.word, .uuid pledgeId]

/-- The status a decision writes. -/
def status : Decision → PledgeStatus
  | accept => .accepted
  | cancel => .cancelled
  | reject => .rejected
  | expire => .expired

/-- Where the held leaf is, when the ledger has seen the decision or none so far. -/
def leafStatus : Option Decision → ReceiptStatus
  | none => .heldPledgePending
  | some accept => .heldLien
  | some _ => .active

/-- How often the held leaf has been released by then. -/
def releases : Option Decision → ℕ
  | none => 0
  | some accept => 0
  | some _ => 1

theorem key_inj {d d' : Decision} {p p' : Id} (h : d.key p = d'.key p') : d = d' ∧ p = p' := by
  cases d <;> cases d' <;> simp_all [key, word]

end Decision

/-- The releases of a receipt in the log. -/
def releasesOf (s : Ledger) (receiptId : Id) : List InventoryEvent :=
  s.events.rows.filter fun e => e.eventType = .holdReleased ∧ e.fromReceiptId = receiptId

/-- Pledge p of volume q, held as leaf h, when the ledger has seen the decision or none:
the row is pending or records the decision, there is a lien if the row says so, and
the leaf has the volume that the lien records. -/
structure Standing (num : Numeric) (p h : Id) (q : ℚ) (decided : Option Decision) (s : Db) :
    Prop where
  row : ∃ x, s.pledges.find p = some x ∧ x.heldReceiptId = some h ∧ x.quantity = q ∧
    (x.status = .pending ∨ ∃ d, decided = some d ∧ x.status = d.status) ∧
      (x.status = .accepted ↔ ∃ l ∈ s.liens, l.pledgeId = p)
  leaf : ∃ r, s.ledger.receipts.find h = some r ∧ r.status = Decision.leafStatus decided ∧
    r.quantity = num.numeric20_4 q
  keys : ∀ d : Decision, (∃ e ∈ s.ledger.events, e.idempotencyKey = d.key p) ↔ decided = some d
  released : (releasesOf s.ledger h).length = Decision.releases decided
  liens : ∀ l ∈ s.liens, l.pledgeId = p → l.receiptId = h ∧ l.quantity = num.numeric20_4 q
  sole : ∀ x ∈ s.pledges, x.heldReceiptId = some h → x.id = p

/-- A decided status of the pledge is not overwritten. -/
def StatusKept (p : Id) (s s' : Db) : Prop :=
  ∀ x, s.pledges.find p = some x → x.status ≠ .pending →
    ∃ x', s'.pledges.find p = some x' ∧ x'.status = x.status

/-- What the decisions on a pledge agree on. -/
structure DecisionsAgree (p h : Id) (s : Db) : Prop where
  accepted : ∀ x, s.pledges.find p = some x →
    (x.status = .accepted ↔ ∃ l ∈ s.liens, l.pledgeId = p)
  lien : ∀ l ∈ s.liens, l.pledgeId = p → l.status = .active →
    ∃ r, s.ledger.receipts.find l.receiptId = some r ∧ r.status = .heldLien ∧
      r.quantity = l.quantity
  refused : ∀ x, s.pledges.find p = some x →
    x.status = .cancelled ∨ x.status = .rejected ∨ x.status = .expired →
      (∀ l ∈ s.liens, l.pledgeId ≠ p) ∧ (releasesOf s.ledger h).length = 1

section Standing

variable {num : Numeric} {p h : Id} {q : ℚ} {decided : Option Decision} {s s' : Db}

theorem StatusKept.of_same (hpledges : s'.pledges = s.pledges) : StatusKept p s s' := by
  intro x hx _
  exact ⟨x, hpledges ▸ hx, rfl⟩

theorem Standing.agree (hs : Standing num p h q decided s) : DecisionsAgree p h s := by
  obtain ⟨x, hfind, -, -, hstatus, hlien⟩ := hs.row
  obtain ⟨r, hr, hleaf, hquantity⟩ := hs.leaf
  have hrow : ∀ x', s.pledges.find p = some x' → x' = x := by
    intro x' hx'
    exact Option.some_inj.mp (hx'.symm.trans hfind)
  constructor
  · intro x' hx'
    rw [hrow x' hx']
    exact hlien
  · intro l hl hpledge _
    -- a lien is there, so the pledge was accepted
    have haccepted := hlien.mpr ⟨l, hl, hpledge⟩
    obtain ⟨hreceipt, hvolume⟩ := hs.liens l hl hpledge
    have hdecided : decided = some .accept := by
      rcases hstatus with hpending | ⟨d, hd, hstatus⟩
      · rw [hpending] at haccepted
        cases haccepted
      · rw [hstatus] at haccepted
        cases d <;> simp_all [Decision.status]
    rw [hdecided] at hleaf
    exact ⟨r, hreceipt ▸ hr, hleaf, hquantity.trans hvolume.symm⟩
  · intro x' hx' hrefused
    rw [hrow x' hx'] at hrefused
    constructor
    · intro l hl hpledge
      rw [hlien.mpr ⟨l, hl, hpledge⟩] at hrefused
      simp at hrefused
    · rw [hs.released]
      rcases hstatus with hpending | ⟨d, rfl, hstatus⟩
      · rw [hpending] at hrefused
        simp at hrefused
      · rw [hstatus] at hrefused
        cases d with
        | accept => simp [Decision.status] at hrefused
        | _ => rfl

/-- A decision that the ledger has seen stays the one it has seen. -/
theorem Standing.later {d : Decision} (hs : Standing num p h q (some d) s)
    (hevents : ∀ e ∈ s.ledger.events, e ∈ s'.ledger.events)
    (hs' : ∃ decided', Standing num p h q decided' s') : Standing num p h q (some d) s' := by
  obtain ⟨decided', hs'⟩ := hs'
  obtain ⟨e, he, hkey⟩ := (hs.keys d).mpr rfl
  exact (hs'.keys d).mp ⟨e, hevents e he, hkey⟩ ▸ hs'

/-- One more event in the log. -/
theorem releasesOf_commits {s s' : Ledger} {e : InventoryEvent} {change : Change}
    (hcommits : Commits s [e] change s') : (releasesOf s' h).length =
      (releasesOf s h).length +
        if e.eventType = .holdReleased ∧ e.fromReceiptId = h then 1 else 0 := by
  unfold releasesOf
  rw [hcommits.log, List.filter_append, List.length_append]
  split
  · rename_i hrelease
    simp [hrelease]
  · rename_i hother
    simp [hother]

/-- The first ledger operation about an undecided pledge decides it. -/
theorem Standing.decide {ledger : Ledger} {e : InventoryEvent} {r after : Receipt} (d : Decision)
    (hs : Standing num p h q none s) (hr : s.ledger.receipts.find h = some r)
    (hcommits : Commits s.ledger [e] (.amend r after) ledger) (hkey : e.idempotencyKey = d.key p)
    (hstatus : after.status = Decision.leafStatus (some d))
    (hquantity : after.quantity = r.quantity)
    (hevent : (e.eventType = .holdReleased ∧ e.fromReceiptId = h) ↔ d ≠ .accept) :
    Standing num p h q (some d) { s with ledger } := by
  obtain ⟨x, hfind, hheld, hvolume, hrow, hlien⟩ := hs.row
  have hpending : x.status = .pending := by simpa using hrow
  constructor
  · exact ⟨x, hfind, hheld, hvolume, .inl hpending, hlien⟩
  · obtain ⟨r', hr', -, hleaf⟩ := hs.leaf
    obtain rfl : r' = r := Option.some_inj.mp (hr'.symm.trans hr)
    refine ⟨after, ?_, hstatus, hquantity.trans hleaf⟩
    have hfind' := hcommits.find_receipt hr
    rwa [Change.apply_amend_self] at hfind'
  · intro d'
    constructor
    · rintro ⟨e', he', hkey'⟩
      rcases hcommits.mem_events.mp he' with hold | hnew
      · cases (hs.keys d').mp ⟨e', hold, hkey'⟩
      · obtain rfl := List.mem_singleton.mp hnew
        rw [(Decision.key_inj (hkey.symm.trans hkey')).1]
    · rintro ⟨⟩
      exact ⟨e, hcommits.mem_events.mpr (.inr (List.mem_singleton.mpr rfl)), hkey⟩
  · have hcount := releasesOf_commits (h := h) hcommits
    rw [hs.released] at hcount
    rw [hcount]
    by_cases haccept : d = .accept
    · rw [if_neg fun hrelease => hevent.mp hrelease haccept, haccept]
      rfl
    · rw [if_pos (hevent.mpr haccept)]
      cases d with
      | accept => exact absurd rfl haccept
      | _ => rfl
  · exact hs.liens
  · exact hs.sole

/-- The ledger operations about other pledges leave this one as it stands. -/
theorem Standing.frame {ledger : Ledger} {e : InventoryEvent} {r after : Receipt}
    (hs : Standing num p h q decided s)
    (hcommits : Commits s.ledger [e] (.amend r after) ledger) (hother : r.id ≠ h)
    (hfrom : e.fromReceiptId = r.id) (hkey : ∀ d : Decision, e.idempotencyKey ≠ d.key p) :
    Standing num p h q decided { s with ledger } := by
  constructor
  · exact hs.row
  · obtain ⟨r', hr', hstatus, hquantity⟩ := hs.leaf
    refine ⟨r', ?_, hstatus, hquantity⟩
    have hid : r'.id ≠ r.id := by
      rw [show r'.id = h from Table.key_of_find hr']
      exact hother.symm
    have hfind' := hcommits.find_receipt hr'
    rwa [Change.apply_amend_of_ne hid] at hfind'
  · intro d
    rw [← hs.keys d]
    constructor
    · rintro ⟨e', he', hkey'⟩
      rcases hcommits.mem_events.mp he' with hold | hnew
      · exact ⟨e', hold, hkey'⟩
      · obtain rfl := List.mem_singleton.mp hnew
        exact absurd hkey' (hkey d)
    · rintro ⟨e', he', hkey'⟩
      exact ⟨e', hcommits.mem_events.mpr (.inl he'), hkey'⟩
  · have hcount := releasesOf_commits (h := h) hcommits
    rw [if_neg fun hrelease => hother (hfrom.symm.trans hrelease.2)] at hcount
    exact hcount.trans hs.released
  · exact hs.liens
  · exact hs.sole

/-- A key that is in the log tells the decision that the ledger has seen. -/
theorem Standing.of_find {d : Decision} (hs : Standing num p h q decided s) {e : InventoryEvent}
    (hfind : s.ledger.events.find (d.key p) = some e) : Standing num p h q (some d) s := by
  obtain ⟨hmem, hkey⟩ := Table.find_eq_some_iff.mp hfind
  exact (hs.keys d).mp ⟨e, hmem, hkey⟩ ▸ hs

/-- A release of the held leaf by a decision against the pledge. -/
theorem Standing.release {d : Decision} {ctx : ActorCtx} {uuids : Uuids} {result : LedgerResult}
    {ledger : Ledger} (hs : Standing num p h q decided s) (hd : d ≠ .accept)
    (hkey : ctx.idempotencyKey = d.key p)
    (hadmits : s.ledger.events.find ctx.idempotencyKey = none →
      (s.ledger.receipts.find h).map Receipt.status ≠ some .heldLien)
    (houtcome : Outcome num uuids (.release ctx h) s.ledger result ledger) :
    Standing num p h q (some d) { s with ledger } := by
  cases houtcome with
  | replayed e prior reconstructs same =>
      subst same
      have hprior : s.ledger.events.find ctx.idempotencyKey = some e := prior
      rw [hkey] at hprior
      exact hs.of_find hprior
  | committed free events change effect commits =>
      cases effect with
      | release ctx r loaded held =>
          obtain ⟨r', hr', hstatus, -⟩ := hs.leaf
          obtain rfl := Option.some_inj.mp (loaded.1.symm.trans hr')
          -- the leaf is held, and it is not under a lien: nothing was decided so far
          obtain rfl : decided = none := by
            cases decided with
            | none => rfl
            | some d' =>
                cases d' with
                | accept => exact absurd (by rw [hr', Option.map_some, hstatus]; rfl) (hadmits free)
                | _ =>
                    rw [hstatus] at held
                    exact absurd held (by decide)
          refine hs.decide d loaded.1 commits hkey ?_ rfl ?_
          · cases d with
            | accept => exact absurd rfl hd
            | _ => rfl
          · have hid : r.id = h := Table.key_of_find loaded.1
            simp [hid, hd]

/-- The acceptance puts the leaf under the lien. -/
theorem Standing.accept {ctx : ActorCtx} {uuids : Uuids} {result : LedgerResult}
    {ledger : Ledger} {pledgeId : Id} (hs : Standing num p h q decided s)
    (hkey : ctx.idempotencyKey = Decision.accept.key p)
    (houtcome : Outcome num uuids (.transitionPledgeToLien ctx h pledgeId) s.ledger result ledger) :
    Standing num p h q (some .accept) { s with ledger } := by
  cases houtcome with
  | replayed e prior reconstructs same =>
      subst same
      have hprior : s.ledger.events.find ctx.idempotencyKey = some e := prior
      rw [hkey] at hprior
      exact hs.of_find hprior
  | committed free events change effect commits =>
      cases effect with
      | transitionPledgeToLien ctx pledgeId r loaded pledged =>
          obtain ⟨r', hr', hstatus, -⟩ := hs.leaf
          obtain rfl := Option.some_inj.mp (loaded.1.symm.trans hr')
          obtain rfl : decided = none := by
            cases decided with
            | none => rfl
            | some d' =>
                rw [hstatus] at pledged
                cases d' <;> cases pledged
          exact hs.decide .accept loaded.1 commits hkey rfl rfl (by simp)

/-- A release for another pledge. -/
theorem Standing.release_other {ctx : ActorCtx} {uuids : Uuids} {result : LedgerResult}
    {ledger : Ledger} {heldReceiptId : Id} (hs : Standing num p h q decided s)
    (hother : heldReceiptId ≠ h) (hkey : ∀ d : Decision, ctx.idempotencyKey ≠ d.key p)
    (houtcome : Outcome num uuids (.release ctx heldReceiptId) s.ledger result ledger) :
    Standing num p h q decided { s with ledger } := by
  cases houtcome with
  | replayed e prior reconstructs same =>
      subst same
      exact hs
  | committed free events change effect commits =>
      cases effect with
      | release ctx r loaded held =>
          have hid : r.id = heldReceiptId := Table.key_of_find loaded.1
          exact hs.frame commits (hid ▸ hother) rfl hkey

/-- A decision against the pledge is recorded, once the ledger has seen it. -/
theorem Standing.record {d : Decision} {t : Table Pledge} {f : Pledge → Pledge}
    {hf : ∀ r, Keyed.key (f r) = Keyed.key r} (hs : Standing num p h q (some d) s)
    (hd : d ≠ .accept) (hupdate : updateRow s.pledges p f hf = .ok t)
    (hheld : ∀ r, (f r).heldReceiptId = r.heldReceiptId)
    (hquantity : ∀ r, (f r).quantity = r.quantity)
    (hstatus : ∀ r, (f r).status = d.status) :
    Standing num p h q (some d) { s with pledges := t } ∧
      StatusKept p s { s with pledges := t } := by
  obtain ⟨x, hfind, rfl⟩ := updateRow_ok.mp hupdate
  obtain ⟨x', hfind', hheld', hvolume, hrow, hlien⟩ := hs.row
  obtain rfl : x' = x := Option.some_inj.mp (hfind'.symm.trans hfind)
  have hself : (s.pledges.modify p f hf).find p = some (f x') := Table.find_modify_self hfind
  have hrefused : d.status ≠ .accepted := by
    cases d with
    | accept => exact absurd rfl hd
    | _ => simp [Decision.status]
  have hunlined : ¬ ∃ l ∈ s.liens, l.pledgeId = p := by
    rw [← hlien]
    intro haccepted
    rcases hrow with hpending | ⟨d', hd', hstatus'⟩
    · rw [hpending] at haccepted
      cases haccepted
    · obtain rfl := Option.some_inj.mp hd'
      exact hrefused (hstatus'.symm.trans haccepted)
  constructor
  · refine { hs with row := ?_, sole := ?_ }
    · refine ⟨f x', hself, (hheld x').trans hheld', (hquantity x').trans hvolume,
        .inr ⟨d, rfl, hstatus x'⟩, ?_⟩
      rw [hstatus]
      exact ⟨fun haccepted => absurd haccepted hrefused, fun hlined => absurd hlined hunlined⟩
    · intro y (hy : y ∈ s.pledges.modify p f hf) hyheld
      rcases Table.mem_modify.mp hy with ⟨y₀, hy₀, rfl⟩ | ⟨hy, -⟩
      · exact (hf y₀).trans (Table.key_of_find hy₀)
      · exact hs.sole y hy hyheld
  · intro y hy hdecided
    obtain rfl : y = x' := Option.some_inj.mp (hy.symm.trans hfind)
    refine ⟨f y, hself, ?_⟩
    rcases hrow with hpending | ⟨d', hd', hstatus'⟩
    · exact absurd hpending hdecided
    · obtain rfl := Option.some_inj.mp hd'
      exact (hstatus y).trans hstatus'.symm

/-- What is recorded of other pledges. -/
theorem Standing.record_other {id : Id} {t : Table Pledge} {f : Pledge → Pledge}
    {hf : ∀ r, Keyed.key (f r) = Keyed.key r} (hs : Standing num p h q decided s) (hid : id ≠ p)
    (hupdate : updateRow s.pledges id f hf = .ok t)
    (hheld : ∀ r, (f r).heldReceiptId = r.heldReceiptId) :
    Standing num p h q decided { s with pledges := t } ∧
      StatusKept p s { s with pledges := t } := by
  obtain ⟨x, hfind, rfl⟩ := updateRow_ok.mp hupdate
  have hsame : (s.pledges.modify id f hf).find p = s.pledges.find p :=
    Table.find_modify_of_ne hid.symm
  constructor
  · refine { hs with row := ?_, sole := ?_ }
    · obtain ⟨x', hfind', hrow⟩ := hs.row
      exact ⟨x', hsame.trans hfind', hrow⟩
    · intro y (hy : y ∈ s.pledges.modify id f hf) hyheld
      rcases Table.mem_modify.mp hy with ⟨y₀, hy₀, rfl⟩ | ⟨hy, -⟩
      · rw [show (f y₀).id = y₀.id from hf y₀]
        exact hs.sole y₀ (Table.mem_of_find hy₀) (hheld y₀ ▸ hyheld)
      · exact hs.sole y hy hyheld
  · intro y hy _
    exact ⟨y, hsame.trans hy, rfl⟩

/-- The lien of an accepted pledge is recorded together with the acceptance. -/
theorem Standing.lien {l : Lien} {liens : Table Lien} {t : Table Pledge} {f : Pledge → Pledge}
    {hf : ∀ r, Keyed.key (f r) = Keyed.key r} (hs : Standing num p h q (some .accept) s)
    (hcreate : createRow s.liens l (fun y => y.pledgeId = p) = .ok liens)
    (hpledge : l.pledgeId = p) (hreceipt : l.receiptId = h)
    (hvolume : l.quantity = num.numeric20_4 q) (hupdate : updateRow s.pledges p f hf = .ok t)
    (hheld : ∀ r, (f r).heldReceiptId = r.heldReceiptId)
    (hquantity : ∀ r, (f r).quantity = r.quantity)
    (hstatus : ∀ r, (f r).status = .accepted) :
    Standing num p h q (some .accept) { s with liens, pledges := t } ∧
      StatusKept p s { s with liens, pledges := t } := by
  obtain ⟨x, hfind, rfl⟩ := updateRow_ok.mp hupdate
  obtain ⟨x', hfind', hheld', hvolume', hrow, hlien⟩ := hs.row
  obtain rfl : x' = x := Option.some_inj.mp (hfind'.symm.trans hfind)
  obtain ⟨hfree, hinsert⟩ := createRow_ok.mp hcreate
  have hself : (s.pledges.modify p f hf).find p = some (f x') := Table.find_modify_self hfind
  constructor
  · refine { hs with row := ?_, liens := ?_, sole := ?_ }
    · refine ⟨f x', hself, (hheld x').trans hheld', (hquantity x').trans hvolume',
        .inr ⟨.accept, rfl, hstatus x'⟩, ?_⟩
      have hmem : l ∈ liens := (Table.mem_insert hinsert).mpr (.inr rfl)
      exact ⟨fun _ => ⟨l, hmem, hpledge⟩, fun _ => hstatus x'⟩
    · intro y (hy : y ∈ liens) hyp
      rcases (Table.mem_insert hinsert).mp hy with hold | rfl
      · exact hs.liens y hold hyp
      · exact ⟨hreceipt, hvolume⟩
    · intro y (hy : y ∈ s.pledges.modify p f hf) hyheld
      rcases Table.mem_modify.mp hy with ⟨y₀, hy₀, rfl⟩ | ⟨hy, -⟩
      · exact (hf y₀).trans (Table.key_of_find hy₀)
      · exact hs.sole y hy hyheld
  · intro y hy hdecided
    obtain rfl : y = x' := Option.some_inj.mp (hy.symm.trans hfind)
    refine ⟨f y, hself, ?_⟩
    rcases hrow with hpending | ⟨d', hd', hstatus'⟩
    · exact absurd hpending hdecided
    · obtain rfl := Option.some_inj.mp hd'
      exact (hstatus y).trans hstatus'.symm

end Standing

/-- The receipt a step's ledger call acts on. -/
def Label.target : Label → Option Id
  | .ledger _ op => heldTarget op
  | _ => none

/-- Requests that decide pledge p: the pledge stands somewhere at every moment, and what
the ledger has seen and what is recorded of a decision stays. -/
def decisions (num : Numeric) (p h : Id) (q : ℚ) : Contract Label Db where
  inv s := ∃ decided, Standing num p h q decided s
  rely s s' := ∀ e ∈ s.ledger.events, e ∈ s'.ledger.events
  admits label s := ¬ (Overrules label s ∧ label.target = some h)
  guar _ s s' := (∀ e ∈ s.ledger.events, e ∈ s'.ledger.events) ∧ StatusKept p s s'
  debt _ := False
  rely_refl _ := fun _ he => he
  rely_trans h h' := fun e he => h' e (h e he)
  guar_refl _ _ := ⟨fun _ he => he, .of_same rfl⟩
  guar_rely _ hguar := hguar.1

section Requests

variable {num : Numeric} {p h : Id} {q : ℚ} {s : Db} {by_ : Issuer} {α β : Type}

/-- A ledger call in a decision. -/
theorem safe_decision {op : LedgerOp} {tx : Tx α} {uuids : Uuids} {wrap : α → LedgerResult}
    {g : α → Api β} (hcall : op.call num uuids = wrap <$> tx)
    (hstep : ∀ s' a ledger, (decisions num p h q).rely s s' →
      (∃ decided, Standing num p h q decided s') →
      (decisions num p h q).admits (.ledger by_ op) s' →
      Outcome num uuids op s'.ledger (wrap a) ledger →
        (∃ decided, Standing num p h q decided { s' with ledger }) ∧
          (decisions num p h q).Safe (g a) { s' with ledger }) :
    (decisions num p h q).Safe (Api.ledger by_ op tx >>= g : Api β) s := by
  apply keeps_ledger (fun _ _ => trivial) hcall
  intro s' a ledger hrely hinv hadmits houtcome
  obtain ⟨hinv', hnext⟩ := hstep s' a ledger hrely hinv hadmits houtcome
  refine ⟨hinv', ⟨?_, .of_same rfl⟩, False.elim, hnext⟩
  cases houtcome with
  | replayed e prior reconstructs same =>
      subst same
      exact fun _ he => he
  | committed free events change effect commits =>
      exact fun e he => commits.mem_events.mpr (.inl he)

/-- The release of the held leaf; what follows runs with the decision made. -/
theorem safe_refuse {d : Decision} (hd : d ≠ .accept) (hby : by_.Refuses) {x : Pledge}
    (hid : x.id = p) (hheld : x.heldReceiptId = some h) {uuids : Uuids}
    {actorUserId : Option Id} {g : Unit → Api β}
    (hnext : ∀ s', Standing num p h q (some d) s' → (decisions num p h q).Safe (g ()) s') :
    (decisions num p h q).Safe
      (releaseHeld num by_ uuids x actorUserId d.word >>= g : Api β) s := by
  unfold releaseHeld
  rw [hheld]
  dsimp only
  rw [Attempt.bind_assoc]
  refine safe_decision rfl fun s' a ledger _ hinv hadmits houtcome => ?_
  obtain ⟨decided, hs⟩ := hinv
  have hstanding := hs.release hd (congrArg d.key hid) (fun hfree hlien =>
    hadmits ⟨⟨hby, hfree, hlien⟩, rfl⟩) houtcome
  exact ⟨⟨_, hstanding⟩, hnext _ hstanding⟩

/-- The status write of a decision against the pledge. -/
theorem safe_record {d : Decision} (hd : d ≠ .accept) {f : Pledge → Pledge}
    {hf : ∀ r, Keyed.key (f r) = Keyed.key r} (hs : Standing num p h q (some d) s)
    (hheld : ∀ r, (f r).heldReceiptId = r.heldReceiptId)
    (hquantity : ∀ r, (f r).quantity = r.quantity)
    (hstatus : ∀ r, (f r).status = d.status) :
    (decisions num p h q).Safe (updatePledge by_ p f hf) s := by
  apply Contract.safe_write_last
  intro s' a s'' hrely hinv _ hok
  obtain ⟨t, hupdate, hresult⟩ := map_ok.mp hok
  cases hresult
  obtain ⟨hstanding, hkept⟩ := (hs.later hrely hinv).record hd hupdate hheld hquantity hstatus
  exact ⟨⟨_, hstanding⟩, ⟨fun _ he => he, hkept⟩, False.elim⟩

theorem cancelPledge_decides (uuids : Uuids) (callerUserId : Id) :
    (decisions num p h q).Safe (cancelPledge num uuids callerUserId p) s := by
  refine Contract.safe_read fun s₁ _ hinv => Contract.safe_orThrow fun x hx => ?_
  obtain ⟨hfind, -⟩ := Option.filter_eq_some_iff.mp hx
  obtain ⟨decided, hs⟩ := hinv
  obtain ⟨x', hfind', hheld, -⟩ := hs.row
  obtain rfl : x' = x := Option.some_inj.mp (hfind'.symm.trans hfind)
  obtain rfl : x'.id = p := Table.key_of_find hfind
  apply Contract.safe_throwIf
  intro _
  refine safe_refuse (d := .cancel) (by decide) ?_ rfl hheld fun s' hs' => ?_
  · trivial
  · exact safe_record (by decide) hs' (fun _ => rfl) (fun _ => rfl) fun _ => rfl

theorem rejectPledge_decides (uuids : Uuids) (callerUserId : Id) (reason : String) :
    (decisions num p h q).Safe (rejectPledge num uuids callerUserId p reason) s := by
  refine Contract.safe_bind safe_requireFinancierOrg fun org s₁ _ => ?_
  refine Contract.safe_find fun s₂ x _ hinv hx => ?_
  obtain ⟨hfind, -⟩ := Option.filter_eq_some_iff.mp hx
  obtain ⟨decided, hs⟩ := hinv
  obtain ⟨x', hfind', hheld, -⟩ := hs.row
  obtain rfl : x' = x := Option.some_inj.mp (hfind'.symm.trans hfind)
  obtain rfl : x'.id = p := Table.key_of_find hfind
  apply Contract.safe_throwIf
  intro _
  refine safe_refuse (d := .reject) (by decide) ?_ rfl hheld fun s' hs' => ?_
  · trivial
  · exact Contract.safe_bind (safe_record (by decide) hs' (fun _ => rfl) (fun _ => rfl)
      fun _ => rfl)
      fun _ _ _ => getFinancierPledgeDetail_safe _ _

theorem acceptPledge_decides (dto : AcceptPledge) (hdto : dto.pledgeId = p) :
    (decisions num p h q).Safe (acceptPledge num dto) s := by
  refine Contract.safe_bind safe_requireFinancierOrg fun org s₁ _ => ?_
  refine Contract.safe_find fun s₂ x _ hinv hx => ?_
  obtain ⟨hfind, -⟩ := Option.filter_eq_some_iff.mp hx
  rw [hdto] at hfind
  obtain ⟨decided, hs⟩ := hinv
  obtain ⟨x', hfind', hheld, hvolume, -⟩ := hs.row
  obtain rfl : x' = x := Option.some_inj.mp (hfind'.symm.trans hfind)
  obtain rfl : x'.id = p := Table.key_of_find hfind
  refine Contract.safe_throwIf fun _ => Contract.safe_throwIf fun _ => ?_
  refine Contract.safe_orThrow fun heldReceiptId hsome => Contract.safe_ofExcept fun _ _ => ?_
  obtain rfl : h = heldReceiptId := Option.some_inj.mp (hheld.symm.trans hsome)
  refine safe_decision rfl fun s₃ r ledger _ hinv₃ _ houtcome => ?_
  obtain ⟨decided₃, hs₃⟩ := hinv₃
  have hstanding := hs₃.accept rfl houtcome
  refine ⟨⟨_, hstanding⟩, ?_⟩
  apply Contract.safe_write
  intro s₄ a s₅ hrely hinv₄ _ hok
  obtain ⟨liens, hcreate, hok⟩ := bind_ok.mp hok
  obtain ⟨pledges, hupdate, hok⟩ := bind_ok.mp hok
  cases hok
  obtain ⟨hrecorded, hkept⟩ := (hstanding.later hrely hinv₄).lien hcreate rfl rfl
    (congrArg num.numeric20_4 hvolume) hupdate (fun _ => rfl) (fun _ => rfl) fun _ => rfl
  exact ⟨⟨_, hrecorded⟩, ⟨fun _ he => he, hkept⟩, False.elim, getFinancierPledgeDetail_safe _ _⟩

/-- The cron's work on another pledge. -/
theorem expirePledge_other {x : Pledge} {uuids : Uuids} (hid : x.id ≠ p)
    (hheld : x.heldReceiptId ≠ some h) :
    (decisions num p h q).Safe (expirePledge num uuids x) s := by
  have hupdate : ∀ s, (decisions num p h q).Safe
      (updatePledge (.expirePledge x.id) x.id fun r => { r with status := .expired }) s := by
    intro s
    apply Contract.safe_write_last
    intro s' a s'' _ hinv _ hok
    obtain ⟨t, hupdate, hresult⟩ := map_ok.mp hok
    cases hresult
    obtain ⟨decided, hs⟩ := hinv
    obtain ⟨hstanding, hkept⟩ := hs.record_other hid hupdate fun _ => rfl
    exact ⟨⟨_, hstanding⟩, ⟨fun _ he => he, hkept⟩, False.elim⟩
  unfold expirePledge releaseHeld
  cases hsome : x.heldReceiptId with
  | none => exact hupdate s
  | some heldReceiptId =>
      have hother : heldReceiptId ≠ h := fun heq => hheld (hsome.trans (congrArg some heq))
      dsimp only
      rw [Attempt.bind_assoc]
      refine safe_decision rfl fun s' a ledger _ hinv _ houtcome => ?_
      obtain ⟨decided, hs⟩ := hinv
      have hkey : ∀ d : Decision, Decision.expire.key x.id ≠ d.key p :=
        fun d heq => hid (Decision.key_inj heq).2
      exact ⟨⟨_, hs.release_other hother hkey houtcome⟩, hupdate _⟩

theorem expireStalePledges_decides (uuids : Id → Uuids) (now : Timestamp) :
    (decisions num p h q).Safe (expireStalePledges num uuids now) s := by
  refine Contract.safe_read fun s₁ _ hinv => ?_
  obtain ⟨decided, hs⟩ := hinv
  refine Contract.safe_forEach (fun _ => True) (fun _ _ => trivial) (fun x hx s' _ => ?_) trivial
  refine Contract.safe_recover ?_ fun _ _ => trivial
  have hmem : x ∈ s₁.pledges := List.mem_of_mem_filter hx
  by_cases hid : x.id = p
  · obtain ⟨x', hfind, hheld, -⟩ := hs.row
    obtain rfl : x' = x :=
      Table.eq_of_key_eq (Table.mem_of_find hfind) hmem ((Table.key_of_find hfind).trans hid.symm)
    subst hid
    refine safe_refuse (d := .expire) (by decide) ?_ rfl hheld fun s'' hs'' => ?_
    · trivial
    · exact safe_record (by decide) hs'' (fun _ => rfl) (fun _ => rfl) fun _ => rfl
  · exact expirePledge_other hid fun hheld => hid (hs.sole x hmem hheld)

/-- The requests that decide a pledge. -/
def Request.Decides (p : Id) : Request → Prop
  | .acceptPledge dto => dto.pledgeId = p
  | .cancelPledge _ _ pledgeId => pledgeId = p
  | .rejectPledge _ _ pledgeId _ => pledgeId = p
  | .expireStalePledges _ _ => True
  | _ => False

theorem Request.decides_safe {request : Request} (hdecides : request.Decides p) :
    (decisions num p h q).Safe (request.run num) s := by
  cases request with
  | acceptPledge dto => exact acceptPledge_decides dto hdecides
  | cancelPledge uuids callerUserId pledgeId =>
      obtain rfl : pledgeId = p := hdecides
      exact cancelPledge_decides uuids callerUserId
  | rejectPledge uuids callerUserId pledgeId reason =>
      obtain rfl : pledgeId = p := hdecides
      exact rejectPledge_decides uuids callerUserId reason
  | expireStalePledges uuids now => exact expireStalePledges_decides uuids now
  | _ => exact hdecides.elim

end Requests

/-- Any number of decisions on a pledge, interleaved in any way, agree at every moment, and
no decided status is overwritten, as long as no decision against the pledge comes to
the release of its leaf with the leaf already under the lien. -/
theorem pledge_decisions_agree (num : Numeric) {p h : Id} {q : ℚ} {decided : Option Decision}
    {s s' : Db} (hstart : Standing num p h q decided s) (requests : List Request)
    (hdecides : ∀ request ∈ requests, request.Decides p) {trace : List (Transition Label Db)}
    {pool : List (Api Unit)} (hrun : Run s (requests.map (Request.run num)) trace s' pool)
    (hadmits : ∀ t ∈ trace, ¬ (Overrules t.label t.before ∧ t.label.target = some h)) :
    DecisionsAgree p h s' ∧ ∀ t ∈ trace, StatusKept p t.before t.after := by
  have hholds : (decisions num p h q).Holds s (requests.map (Request.run num)) := by
    refine ⟨⟨decided, hstart⟩, fun process hprocess => ?_, False.elim⟩
    obtain ⟨request, hrequest, rfl⟩ := List.mem_map.mp hprocess
    exact request.decides_safe (hdecides request hrequest)
  have hrunHolds := hholds.run hrun hadmits
  obtain ⟨decided', hfinal⟩ := hrunHolds.final.inv
  refine ⟨hfinal.agree, fun t ht => ?_⟩
  obtain ⟨-, hguar, -⟩ := hrunHolds.each t ht
  exact hguar.2

/-- The store once pledge 7 is placed on receipt 122. -/
def pledgedStore : Db :=
  runRequests .postgres (sampleStock ++ [samplePledge]) (Db.initial sampleDirectory)

theorem pledgedStore_standing : Standing .postgres 7 122 6 none pledgedStore := by
  have hliens : pledgedStore.liens.rows = [] := by decide +kernel
  have hunlined : ¬ ∃ l ∈ pledgedStore.liens, l.pledgeId = 7 := by
    rintro ⟨l, hl, -⟩
    rw [Table.mem_def, hliens] at hl
    cases hl
  constructor
  · have hrow : (pledgedStore.pledges.find 7).map (fun x =>
        (x.heldReceiptId, x.quantity, x.status)) = some (some 122, 6, .pending) := by
      decide +kernel
    obtain ⟨x, hfind, hx⟩ := Option.map_eq_some_iff.mp hrow
    simp only [Prod.mk.injEq] at hx
    obtain ⟨hheld, hvolume, hpending⟩ := hx
    refine ⟨x, hfind, hheld, hvolume, .inl hpending, ?_⟩
    rw [hpending]
    exact ⟨nofun, fun hlined => absurd hlined hunlined⟩
  · have hleaf : (pledgedStore.ledger.receipts.find 122).map (fun r => (r.status, r.quantity)) =
        some (.heldPledgePending, Numeric.postgres.numeric20_4 6) := by
      decide +kernel
    obtain ⟨r, hfind, hr⟩ := Option.map_eq_some_iff.mp hleaf
    exact ⟨r, hfind, congrArg Prod.fst hr, congrArg Prod.snd hr⟩
  · intro d
    have hunused : ¬ ∃ e ∈ pledgedStore.ledger.events.rows, e.idempotencyKey = d.key 7 := by
      cases d <;> decide +kernel
    exact ⟨fun hused => absurd hused hunused, nofun⟩
  · decide +kernel
  · intro l hl hpledge
    exact absurd ⟨l, hl, hpledge⟩ hunlined
  · have hsole : ∀ x ∈ pledgedStore.pledges.rows, x.heldReceiptId = some 122 → x.id = 7 := by
      decide +kernel
    exact hsole

/-- The acceptance and the cancellation of pledge 7 under a schedule. -/
def pledgeRace (choices : List ℕ) :
    List (Transition Label Db) × Db × List (Process Label Db (Except ApiError Unit)) :=
  interleave choices pledgedStore
    ([sampleAcceptance, sampleCancellation].map (Request.run .postgres))

/-- Both read the pledge, the acceptance puts the leaf under the lien, the cancellation
releases it, the acceptance records the lien, and the cancellation overwrites the
status: a cancelled pledge with an active lien on a free leaf. -/
theorem pledge_cancelled_under_lien :
    ¬ ∀ (num : Numeric) (p h : Id) (q : ℚ) (s s' : Db), Standing num p h q none s →
      ∀ requests : List Request, (∀ request ∈ requests, request.Decides p) →
        ∀ (trace : List (Transition Label Db)) (pool : List (Api Unit)),
          Run s (requests.map (Request.run num)) trace s' pool → Quiescent pool →
            DecisionsAgree p h s' ∧ ∀ t ∈ trace, StatusKept p t.before t.after := by
  intro hclaim
  have hquiet : Quiescent (pledgeRace [0, 0, 1, 0, 1, 0, 1, 0, 0]).2.2 := by decide +kernel
  have hdecides : ∀ request ∈ [sampleAcceptance, sampleCancellation], request.Decides 7 := by
    simp [sampleAcceptance, sampleCancellation, Request.Decides]
  obtain ⟨hagree, -⟩ := hclaim .postgres 7 122 6 _ _ pledgedStore_standing _ hdecides _ _
    (run_interleave _ _ _) hquiet
  have hrow : ((pledgeRace [0, 0, 1, 0, 1, 0, 1, 0, 0]).2.1.pledges.find 7).map Pledge.status =
      some .cancelled := by
    decide +kernel
  have hlien : ∃ l ∈ (pledgeRace [0, 0, 1, 0, 1, 0, 1, 0, 0]).2.1.liens.rows, l.pledgeId = 7 := by
    decide +kernel
  obtain ⟨x, hfind, hcancelled⟩ := Option.map_eq_some_iff.mp hrow
  have haccepted := (hagree.accepted x hfind).mpr hlien
  rw [hcancelled] at haccepted
  cases haccepted

/-- The decisions agree when the cancellation releases the leaf first. -/
theorem pledge_decisions_agree_sample :
    DecisionsAgree 7 122 (pledgeRace [0, 0, 1, 1, 0, 1]).2.1 ∧
      ∀ t ∈ (pledgeRace [0, 0, 1, 1, 0, 1]).1, StatusKept 7 t.before t.after :=
  pledge_decisions_agree .postgres pledgedStore_standing _
    (by simp [sampleAcceptance, sampleCancellation, Request.Decides]) (run_interleave _ _ _)
    (by decide +kernel)

end SecureStore.Services
