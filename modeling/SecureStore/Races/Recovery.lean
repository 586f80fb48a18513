/-
# Decisions that crash

A decision on a pledge moves the ledger and then writes the row, and may stop in between.
The cron comes back to pledges that are still pending: it releases the leaf under a key of
its own, so it repeats the release of an earlier cron, also takes a leaf from under the lien
of an acceptance that went no further, and finds nothing to release when a cancellation or
a rejection has released the leaf already. That pledge stays pending.
-/

import SecureStore.Collateral.Orderly
import SecureStore.Races.Decisions

namespace SecureStore.Services

open SecureStore.Foundation SecureStore.Inventory

/-- What a pledge has at stake: its leaf, and how often that was released before. -/
structure Stake where
  pledgeId : Id
  leafId : Id
  tenantId : Id
  volume : ℚ
  expiresAt : Timestamp
  releases : ℕ

/-- The row of the pledge. -/
structure Stake.Of (k : Stake) (x : Pledge) : Prop where
  held : x.heldReceiptId = some k.leafId
  tenantId : x.tenantId = k.tenantId
  expiresAt : x.expiresAt = k.expiresAt

/-- The leaf of the pledge. -/
structure Stake.Holds (k : Stake) (r : Receipt) : Prop where
  tenantId : r.tenantId = k.tenantId
  quantity : r.quantity = k.volume

/-- The pledge is pending and no decision on it has moved the ledger. -/
structure Undecided (k : Stake) (s : Db) : Prop where
  row : ∃ x, s.pledges.find k.pledgeId = some x ∧ k.Of x ∧ x.status = .pending
  leaf : ∃ r, s.ledger.receipts.find k.leafId = some r ∧ k.Holds r ∧ r.status = .heldPledgePending
  keys : ∀ d : Decision, ¬ s.ledger.Used (d.key k.pledgeId)
  releases : (releasesOf s.ledger k.leafId).length = k.releases
  liens : ∀ l ∈ s.liens, l.pledgeId ≠ k.pledgeId
  sole : ∀ x ∈ s.pledges, x.heldReceiptId = some k.leafId → x.id = k.pledgeId

/-- Where the leaf is, when the ledger has seen its release by a decision or none so far. -/
def Stake.LeafIn : Option Decision → ReceiptStatus → Prop
  | none, status => status = .heldPledgePending ∨ status = .heldLien
  | some _, status => status = .active

/-- Decisions on the pledge were made, to their end or not: `returned` is the one that
released the leaf. -/
structure Underway (k : Stake) (returned : Option Decision) (s : Db) : Prop where
  row : ∃ x, s.pledges.find k.pledgeId = some x ∧ k.Of x ∧
    (x.status = .pending ∨ x.status = .accepted ∨ ∃ d, returned = some d ∧ x.status = d.status) ∧
      (x.status = .accepted ↔ ∃ l ∈ s.liens, l.pledgeId = k.pledgeId)
  leaf : ∃ r, s.ledger.receipts.find k.leafId = some r ∧ k.Holds r ∧ Stake.LeafIn returned r.status
  keys : ∀ d : Decision, d ≠ .accept → (s.ledger.Used (d.key k.pledgeId) ↔ returned = some d)
  logged : ∀ e ∈ s.ledger.events, ∀ d : Decision, d ≠ .accept →
    e.idempotencyKey = d.key k.pledgeId → e.fromReceiptId = k.leafId ∧ e.tenantId = k.tenantId
  refuses : returned ≠ some .accept
  releases : (releasesOf s.ledger k.leafId).length = k.releases + returned.toList.length
  sole : ∀ x ∈ s.pledges, x.heldReceiptId = some k.leafId → x.id = k.pledgeId

/-- Nothing of the pledge is touched, and the cron logs under the ids drawn for others. -/
structure Beside (k : Stake) (uuids : Id → Uuids) (s s' : Db) : Prop where
  pledge : s'.pledges.find k.pledgeId = s.pledges.find k.pledgeId
  held : ∀ y ∈ s'.pledges, ∃ x ∈ s.pledges, x.id = y.id ∧ x.heldReceiptId = y.heldReceiptId
  liens : s'.liens = s.liens
  leaf : ∀ r, s.ledger.receipts.find k.leafId = some r →
    s'.ledger.receipts.find k.leafId = some r
  events : ∀ e ∈ s.ledger.events, e ∈ s'.ledger.events
  logged : ∀ e ∈ s'.ledger.events, e ∈ s.ledger.events ∨
    (∀ d : Decision, e.idempotencyKey ≠ d.key k.pledgeId) ∧
      ∃ id, id ≠ k.pledgeId ∧ e.id = (uuids id).event
  releases : (releasesOf s'.ledger k.leafId).length = (releasesOf s.ledger k.leafId).length

section Beside

variable {num : Numeric} {k : Stake} {uuids : Id → Uuids} {s s' s'' : Db}

theorem Beside.refl (s : Db) : Beside k uuids s s where
  pledge := rfl
  held y hy := ⟨y, hy, rfl, rfl⟩
  liens := rfl
  leaf _ hr := hr
  events _ he := he
  logged _ he := .inl he
  releases := rfl

theorem Beside.trans (h : Beside k uuids s s') (h' : Beside k uuids s' s'') :
    Beside k uuids s s'' where
  pledge := h'.pledge.trans h.pledge
  held := by
    intro z hz
    obtain ⟨y, hy, hid, hheld⟩ := h'.held z hz
    obtain ⟨x, hx, hid', hheld'⟩ := h.held y hy
    exact ⟨x, hx, hid'.trans hid, hheld'.trans hheld⟩
  liens := h'.liens.trans h.liens
  leaf r hr := h'.leaf r (h.leaf r hr)
  events e he := h'.events e (h.events e he)
  logged := by
    intro e he
    rcases h'.logged e he with hold | hnew
    · exact h.logged e hold
    · exact .inr hnew
  releases := h'.releases.trans h.releases

theorem Beside.sole (h : Beside k uuids s s')
    (hsole : ∀ x ∈ s.pledges, x.heldReceiptId = some k.leafId → x.id = k.pledgeId) :
    ∀ x ∈ s'.pledges, x.heldReceiptId = some k.leafId → x.id = k.pledgeId := by
  intro y hy hheld
  obtain ⟨x, hx, hid, hsame⟩ := h.held y hy
  exact hid.symm.trans (hsole x hx (hsame.trans hheld))

theorem Beside.used (h : Beside k uuids s s') (d : Decision) :
    s'.ledger.Used (d.key k.pledgeId) ↔ s.ledger.Used (d.key k.pledgeId) := by
  constructor
  · rintro ⟨e, he, hkey⟩
    rcases h.logged e he with hold | ⟨hother, -⟩
    · exact ⟨e, hold, hkey⟩
    · exact absurd hkey (hother d)
  · rintro ⟨e, he, hkey⟩
    exact ⟨e, h.events e he, hkey⟩

/-- An event id that is drawn for the pledge stays new. -/
theorem Beside.event_fresh (h : Beside k uuids s s')
    (hdistinct : ∀ id, id ≠ k.pledgeId → (uuids id).event ≠ (uuids k.pledgeId).event)
    (hfresh : (uuids k.pledgeId).event ∉ s.ledger.events.rows.map InventoryEvent.id) :
    (uuids k.pledgeId).event ∉ s'.ledger.events.rows.map InventoryEvent.id := by
  intro hmem
  obtain ⟨e, he, hid⟩ := List.mem_map.mp hmem
  rcases h.logged e he with hold | ⟨-, id, hother, hdrawn⟩
  · exact hfresh (List.mem_map.mpr ⟨e, hold, hid⟩)
  · exact hdistinct id hother (hdrawn.symm.trans hid)

/-- The release of another leaf for another pledge. -/
theorem Beside.release {id : Id} {ctx : ActorCtx} {heldReceiptId : Id} {result : LedgerResult}
    {ledger : Ledger} (hid : id ≠ k.pledgeId) (hother : heldReceiptId ≠ k.leafId)
    (hkey : ∀ d : Decision, ctx.idempotencyKey ≠ d.key k.pledgeId)
    (houtcome : Outcome num (uuids id) (.release ctx heldReceiptId) s.ledger result ledger) :
    Beside k uuids s { s with ledger } := by
  cases houtcome with
  | replayed e prior reconstructs same =>
      subst same
      exact .refl s
  | committed free events change effect commits =>
      cases effect with
      | release ctx r loaded held =>
          have hr : r.id = heldReceiptId := Table.key_of_find loaded.1
          have hsame : Beside k uuids s s := .refl s
          refine { hsame with leaf := ?_, events := ?_, logged := ?_, releases := ?_ }
          · intro r' hr'
            have hid' : r'.id ≠ r.id := by
              rw [show r'.id = k.leafId from Table.key_of_find hr', hr]
              exact hother.symm
            have hfind := commits.find_receipt hr'
            rwa [Change.apply_amend_of_ne hid'] at hfind
          · exact fun e he => commits.mem_events.mpr (.inl he)
          · intro e he
            rcases commits.mem_events.mp he with hold | hnew
            · exact .inl hold
            · obtain rfl := List.mem_singleton.mp hnew
              exact .inr ⟨hkey, id, hid, rfl⟩
          · rw [releasesOf_commits commits, if_neg]
            · rfl
            · rintro ⟨-, hfrom⟩
              exact hother (hr.symm.trans hfrom)

/-- What is recorded of another pledge. -/
theorem Beside.record {id : Id} {t : Table Pledge} {f : Pledge → Pledge}
    {hf : ∀ r, Keyed.key (f r) = Keyed.key r} (hid : id ≠ k.pledgeId)
    (hupdate : updateRow s.pledges id f hf = .ok t)
    (hheld : ∀ r, (f r).heldReceiptId = r.heldReceiptId) :
    Beside k uuids s { s with pledges := t } := by
  obtain ⟨x, hfind, rfl⟩ := updateRow_ok.mp hupdate
  have hpledge : (s.pledges.modify id f hf).find k.pledgeId = s.pledges.find k.pledgeId :=
    Table.find_modify_of_ne hid.symm
  have hsame : Beside k uuids s s := .refl s
  refine { hsame with pledge := hpledge, held := ?_ }
  intro y hy
  obtain ⟨x, hx, -, ⟨-, rfl⟩ | ⟨-, rfl⟩⟩ := Table.exists_of_mem_modify f hf hy
  · exact ⟨x, hx, (hf x).symm, (hheld x).symm⟩
  · exact ⟨y, hx, rfl, rfl⟩

/-- The cron's work on another pledge, to its end or not. -/
theorem expirePledge_beside {y : Pledge} (hid : y.id ≠ k.pledgeId)
    (hheld : y.heldReceiptId ≠ some k.leafId) :
    Process.Ensures (Beside k uuids s) (fun _ => Beside k uuids s)
      (expirePledge num (uuids y.id) y) s := by
  have hupdate : ∀ s', Beside k uuids s s' →
      Process.Ensures (Beside k uuids s) (fun _ => Beside k uuids s)
        (updatePledge (.expirePledge y.id) y.id fun r => { r with status := .expired }) s' := by
    intro s' hs'
    apply ensures_write_last
    · exact fun _ _ => ⟨hs', hs'⟩
    · intro _ s'' hok
      obtain ⟨t, hupdate, hresult⟩ := map_ok.mp hok
      cases hresult
      have hnext := hs'.trans (.record hid hupdate fun _ => rfl)
      exact ⟨hnext, hnext⟩
  unfold expirePledge releaseHeld
  cases hsome : y.heldReceiptId with
  | none => exact hupdate s (.refl s)
  | some heldReceiptId =>
      have hother : heldReceiptId ≠ k.leafId := fun heq => hheld (hsome.trans (congrArg some heq))
      dsimp only
      rw [Attempt.bind_assoc]
      apply ensures_ledger rfl
      · exact fun _ => ⟨.refl s, .refl s⟩
      · intro r ledger houtcome
        have hnext : Beside k uuids s { s with ledger } :=
          .release hid hother (fun d heq => hid (Decision.key_inj (d := .expire) heq).2) houtcome
        exact ⟨hnext, hupdate _ hnext⟩

end Beside

section Underway

variable {num : Numeric} {k : Stake} {returned : Option Decision} {uuids : Id → Uuids} {s s' : Db}

theorem Undecided.underway (h : Undecided k s) : Underway k none s where
  row := by
    obtain ⟨x, hfind, hx, hpending⟩ := h.row
    refine ⟨x, hfind, hx, .inl hpending, ?_⟩
    rw [hpending]
    constructor
    · intro haccepted
      cases haccepted
    · rintro ⟨l, hl, hpledge⟩
      exact absurd hpledge (h.liens l hl)
  leaf := by
    obtain ⟨r, hfind, hr, hstatus⟩ := h.leaf
    exact ⟨r, hfind, hr, .inl hstatus⟩
  keys := by
    intro d _
    constructor
    · intro hused
      exact absurd hused (h.keys d)
    · intro hreturned
      cases hreturned
  logged e he d _ hkey := absurd ⟨e, he, hkey⟩ (h.keys d)
  refuses := by simp
  releases := h.releases
  sole := h.sole

theorem Underway.beside (h : Underway k returned s) (hbeside : Beside k uuids s s') :
    Underway k returned s' where
  row := by
    rw [hbeside.pledge, hbeside.liens]
    exact h.row
  leaf := by
    obtain ⟨r, hfind, hr⟩ := h.leaf
    exact ⟨r, hbeside.leaf r hfind, hr⟩
  keys := by
    intro d hd
    rw [hbeside.used d]
    exact h.keys d hd
  logged := by
    intro e he d hd hkey
    rcases hbeside.logged e he with hold | ⟨hother, -⟩
    · exact h.logged e hold d hd hkey
    · exact absurd hkey (hother d)
  refuses := h.refuses
  releases := hbeside.releases.trans h.releases
  sole := hbeside.sole h.sole

/-- A release of the leaf by a decision against the pledge: it was made before, or it frees
the leaf now. -/
theorem Underway.release {d : Decision} {ctx : ActorCtx} {uuids : Uuids} {result : LedgerResult}
    {ledger : Ledger} (h : Underway k returned s) (hd : d ≠ .accept)
    (hkey : ctx.idempotencyKey = d.key k.pledgeId) (htenant : ctx.tenantId = k.tenantId)
    (houtcome : Outcome num uuids (.release ctx k.leafId) s.ledger result ledger) :
    Underway k (some d) { s with ledger } ∧ (returned = none ∨ returned = some d) := by
  cases houtcome with
  | replayed e prior reconstructs same =>
      subst same
      have hused : s.ledger.Used ctx.idempotencyKey := used_of_find prior
      obtain rfl := (h.keys d hd).mp (hkey ▸ hused)
      exact ⟨h, .inr rfl⟩
  | committed free events change effect commits =>
      cases effect with
      | release ctx r loaded held =>
          obtain ⟨x, hfind, hx, hstatus, hlien⟩ := h.row
          obtain ⟨r', hr', hholds, hleaf⟩ := h.leaf
          obtain rfl : r' = r := Option.some_inj.mp (hr'.symm.trans loaded.1)
          have hid : r'.id = k.leafId := Table.key_of_find hr'
          -- a leaf that is held was not released by a decision so far
          obtain rfl : returned = none := by
            cases returned with
            | none => rfl
            | some d' =>
                rw [show r'.status = .active from hleaf] at held
                exact absurd held (by decide)
          have hpending : x.status = .pending ∨ x.status = .accepted := by simpa using hstatus
          refine ⟨⟨?_, ?_, ?_, ?_, ?_, ?_, h.sole⟩, .inl rfl⟩
          · exact ⟨x, hfind, hx, by tauto, hlien⟩
          · have hfree := commits.find_receipt hr'
            rw [Change.apply_amend_self] at hfree
            exact ⟨_, hfree, ⟨hholds.tenantId, hholds.quantity⟩, rfl⟩
          · intro d' hd'
            rw [commits.used_single, h.keys d' hd']
            constructor
            · rintro (hnone | hnew)
              · cases hnone
              · rw [(Decision.key_inj (hnew.trans hkey)).1]
            · rintro ⟨⟩
              exact .inr hkey.symm
          · intro e he d' hd' hkey'
            rcases commits.mem_events.mp he with hold | hnew
            · exact h.logged e hold d' hd' hkey'
            · obtain rfl := List.mem_singleton.mp hnew
              exact ⟨hid, htenant⟩
          · simpa using hd
          · rw [releasesOf_commits commits, h.releases, if_pos ⟨rfl, hid⟩]
            rfl

/-- The acceptance moves the leaf under the lien, or did so before. -/
theorem Underway.accept {ctx : ActorCtx} {uuids : Uuids} {result : LedgerResult}
    {ledger : Ledger} {pledgeId : Id} (h : Underway k returned s)
    (hkey : ctx.idempotencyKey = Decision.accept.key k.pledgeId)
    (houtcome : Outcome num uuids (.transitionPledgeToLien ctx k.leafId pledgeId) s.ledger result
      ledger) : Underway k returned { s with ledger } := by
  cases houtcome with
  | replayed e prior reconstructs same =>
      subst same
      exact h
  | committed free events change effect commits =>
      cases effect with
      | transitionPledgeToLien ctx pledgeId r loaded pledged =>
          obtain ⟨r', hr', hholds, hleaf⟩ := h.leaf
          obtain rfl : r' = r := Option.some_inj.mp (hr'.symm.trans loaded.1)
          obtain rfl : returned = none := by
            cases returned with
            | none => rfl
            | some d' =>
                rw [show r'.status = .active from hleaf] at pledged
                cases pledged
          have hother : ∀ d : Decision, d ≠ .accept → ctx.idempotencyKey ≠ d.key k.pledgeId := by
            intro d hd heq
            exact hd (Decision.key_inj (heq.symm.trans hkey)).1
          refine { h with leaf := ?_, keys := ?_, logged := ?_, releases := ?_ }
          · have hlined := commits.find_receipt hr'
            rw [Change.apply_amend_self] at hlined
            exact ⟨_, hlined, ⟨hholds.tenantId, hholds.quantity⟩, .inr rfl⟩
          · intro d hd
            rw [commits.used_single, ← h.keys d hd]
            constructor
            · rintro (hold | hnew)
              · exact hold
              · exact absurd hnew.symm (hother d hd)
            · exact .inl
          · intro e he d hd hkey'
            rcases commits.mem_events.mp he with hold | hnew
            · exact h.logged e hold d hd hkey'
            · obtain rfl := List.mem_singleton.mp hnew
              exact absurd hkey' (hother d hd)
          · rw [releasesOf_commits commits, h.releases, if_neg]
            · rfl
            · rintro ⟨hrelease, -⟩
              cases hrelease

/-- An update of the row leaves the leaf to the pledge. -/
theorem Underway.sole_modify (h : Underway k returned s) (f : Pledge → Pledge)
    (hf : ∀ r, Keyed.key (f r) = Keyed.key r) :
    ∀ y ∈ s.pledges.modify k.pledgeId f hf, y.heldReceiptId = some k.leafId →
      y.id = k.pledgeId := by
  intro y hy hheld
  obtain ⟨y₀, hy₀, hsame, ⟨hid, rfl⟩ | ⟨-, rfl⟩⟩ := Table.exists_of_mem_modify f hf hy
  · exact hsame.trans hid
  · exact h.sole y hy₀ hheld

/-- A decision against a pending pledge is recorded, after it released the leaf. -/
theorem Underway.record {d : Decision} {t : Table Pledge} {f : Pledge → Pledge}
    {hf : ∀ r, Keyed.key (f r) = Keyed.key r} (h : Underway k (some d) s)
    (hupdate : updateRow s.pledges k.pledgeId f hf = .ok t)
    (hpending : ∀ x, s.pledges.find k.pledgeId = some x → x.status = .pending)
    (hof : ∀ x, k.Of x → k.Of (f x)) (hstatus : ∀ x, (f x).status = d.status) :
    Underway k (some d) { s with pledges := t } := by
  obtain ⟨x, hfind, rfl⟩ := updateRow_ok.mp hupdate
  obtain ⟨x', hfind', hx, -, hlien⟩ := h.row
  obtain rfl : x' = x := Option.some_inj.mp (hfind'.symm.trans hfind)
  have hself : (s.pledges.modify k.pledgeId f hf).find k.pledgeId = some (f x') :=
    Table.find_modify_self hfind
  rw [hpending x' hfind] at hlien
  refine { h with row := ⟨f x', hself, hof x' hx,
    .inr (.inr ⟨d, rfl, hstatus x'⟩), ?_⟩, sole := ?_ }
  · have hrefused : d.status ≠ .accepted := by
      cases d with
      | accept => exact absurd rfl h.refuses
      | _ => simp [Decision.status]
    rw [hstatus]
    refine iff_of_false hrefused fun hlined => ?_
    cases hlien.mpr hlined
  · exact h.sole_modify f hf

/-- The lien of a pending pledge is recorded together with its acceptance. -/
theorem Underway.lien {l : Lien} {liens : Table Lien} {t : Table Pledge} {f : Pledge → Pledge}
    {hf : ∀ r, Keyed.key (f r) = Keyed.key r} {taken : Lien → Prop} [DecidablePred taken]
    (h : Underway k returned s) (hcreate : createRow s.liens l taken = .ok liens)
    (hpledge : l.pledgeId = k.pledgeId) (hupdate : updateRow s.pledges k.pledgeId f hf = .ok t)
    (hof : ∀ x, k.Of x → k.Of (f x)) (hstatus : ∀ x, (f x).status = .accepted) :
    Underway k returned { s with liens, pledges := t } := by
  obtain ⟨x, hfind, rfl⟩ := updateRow_ok.mp hupdate
  obtain ⟨x', hfind', hx, -⟩ := h.row
  obtain rfl : x' = x := Option.some_inj.mp (hfind'.symm.trans hfind)
  have hself : (s.pledges.modify k.pledgeId f hf).find k.pledgeId = some (f x') :=
    Table.find_modify_self hfind
  have hmem : l ∈ liens := (Table.mem_insert (createRow_ok.mp hcreate).2).mpr (.inr rfl)
  refine { h with row := ⟨f x', hself, hof x' hx, .inr (.inl (hstatus x')), ?_⟩, sole := ?_ }
  · exact iff_of_true (hstatus x') ⟨l, hmem, hpledge⟩
  · exact h.sole_modify f hf

/-- The row says so. -/
theorem Underway.of_row (h : Underway k returned s) {x : Pledge}
    (hfind : s.pledges.find k.pledgeId = some x) : k.Of x := by
  obtain ⟨x', hfind', hx, -⟩ := h.row
  exact Option.some_inj.mp (hfind'.symm.trans hfind) ▸ hx

end Underway

/-! ## The decisions, stopped anywhere -/

/-- The pledge is underway; if its leaf was released, then by a decision that is allowed. -/
def Within (k : Stake) (allowed : Decision → Prop) (s : Db) : Prop :=
  ∃ returned, Underway k returned s ∧ ∀ d, returned = some d → allowed d

section Requests

variable {num : Numeric} {k : Stake} {allowed : Decision → Prop} {returned : Option Decision}
  {s : Db} {by_ : Issuer}

theorem Within.beside {uuids : Id → Uuids} {s' : Db} (h : Within k allowed s)
    (hbeside : Beside k uuids s s') : Within k allowed s' := by
  obtain ⟨returned, hs, hallowed⟩ := h
  exact ⟨returned, hs.beside hbeside, hallowed⟩

/-- The release by a decision against the pledge. -/
theorem releaseHeld_underway {d : Decision} {x : Pledge} {uuids : Uuids} {actorUserId : Option Id}
    (h : Underway k returned s) (hd : d ≠ .accept) (hfind : s.pledges.find k.pledgeId = some x) :
    Process.Ensures (fun s' => s' = s ∨ Underway k (some d) s')
      (fun r s' => match r with
        | .ok _ => Underway k (some d) s' ∧ s'.pledges = s.pledges ∧
            (returned = none ∨ returned = some d)
        | .error _ => s' = s)
      (releaseHeld num by_ uuids x actorUserId d.word) s := by
  have hid : x.id = k.pledgeId := Table.key_of_find hfind
  have hx := h.of_row hfind
  unfold releaseHeld
  rw [hx.held]
  apply ensures_ledger rfl
  · exact fun _ => ⟨.inl rfl, rfl⟩
  · intro r ledger houtcome
    obtain ⟨hfreed, hbefore⟩ := h.release hd (congrArg d.key hid) hx.tenantId houtcome
    exact ⟨.inr hfreed, hfreed, rfl, hbefore⟩

/-- The status write of a decision against the pledge, after the release. -/
theorem updatePledge_underway {d : Decision} {f : Pledge → Pledge}
    {hf : ∀ r, Keyed.key (f r) = Keyed.key r} (h : Underway k (some d) s)
    (hpending : ∀ x, s.pledges.find k.pledgeId = some x → x.status = .pending)
    (hof : ∀ x, k.Of x → k.Of (f x)) (hstatus : ∀ x, (f x).status = d.status) :
    Process.Ensures (Underway k (some d))
      (fun _ s' => Underway k (some d) s' ∧
        ∃ x, s'.pledges.find k.pledgeId = some x ∧ x.status = d.status)
      (updatePledge by_ k.pledgeId f hf) s := by
  obtain ⟨x, hfind, -⟩ := h.row
  apply ensures_write_last
  · intro e hrefused
    cases hfind.symm.trans (updateRow_refused (map_error.mp hrefused))
  · intro _ s' hok
    obtain ⟨t, hupdate, hresult⟩ := map_ok.mp hok
    cases hresult
    have hrecorded := h.record hupdate hpending hof hstatus
    obtain ⟨x', hfind', rfl⟩ := updateRow_ok.mp hupdate
    have hself : (s.pledges.modify k.pledgeId f hf).find k.pledgeId = some (f x') :=
      Table.find_modify_self hfind'
    exact ⟨hrecorded, hrecorded, f x', hself, hstatus x'⟩

/-- A decision against the pledge, up to its status write. -/
theorem refuse_within {d : Decision} {x : Pledge} {uuids : Uuids} {actorUserId : Option Id}
    {f : Pledge → Pledge} {hf : ∀ r, Keyed.key (f r) = Keyed.key r}
    {post : Except ApiError Unit → Db → Prop} (h : Within k allowed s) (hd : d ≠ .accept)
    (hallowed : allowed d) (hfind : s.pledges.find k.pledgeId = some x)
    (hpending : x.status = .pending) (hof : ∀ x, k.Of x → k.Of (f x))
    (hstatus : ∀ x, (f x).status = d.status) (hpost : ∀ r s', Within k allowed s' → post r s') :
    Process.Ensures (Within k allowed) post (do
      releaseHeld num by_ uuids x actorUserId d.word
      updatePledge by_ k.pledgeId f hf : Api Unit) s := by
  obtain ⟨returned, hs, -⟩ := id h
  have hwithin : ∀ s', Underway k (some d) s' → Within k allowed s' := by
    intro s' hs'
    refine ⟨some d, hs', ?_⟩
    rintro _ ⟨⟩
    exact hallowed
  apply ensures_bind
  apply (releaseHeld_underway hs hd hfind).mono
  · rintro s₁ (rfl | hs₁)
    · exact h
    · exact hwithin s₁ hs₁
  rintro (e | _) s₁ hs₁
  · exact hpost _ _ (hs₁ ▸ h)
  · obtain ⟨hfreed, hsame, -⟩ := hs₁
    have hpending₁ : ∀ y, s₁.pledges.find k.pledgeId = some y → y.status = .pending := by
      intro y hy
      rw [hsame] at hy
      exact Option.some_inj.mp (hfind.symm.trans hy) ▸ hpending
    have hupdate : Process.Ensures _ _ (updatePledge by_ k.pledgeId f hf) s₁ :=
      updatePledge_underway hfreed hpending₁ hof hstatus
    apply hupdate.mono hwithin
    exact fun r s₂ hs₂ => hpost r s₂ (hwithin s₂ hs₂.1)

/-- A pledge that a decision finds. -/
theorem find_of_found {pledges : Table Pledge} {id : Id} {x : Pledge} {seen : Pledge → Prop}
    [DecidablePred seen] (hfound : (pledges.find id).filter seen = some x) :
    pledges.find id = some x ∧ x.id = id := by
  obtain ⟨hfind, -⟩ := Option.filter_eq_some_iff.mp hfound
  exact ⟨hfind, Table.key_of_find hfind⟩

theorem cancelPledge_within (h : Within k allowed s) (hallowed : allowed .cancel) (uuids : Uuids)
    (callerUserId : Id) :
    Process.Ensures (Within k allowed) (fun _ => Within k allowed)
      (cancelPledge num uuids callerUserId k.pledgeId) s := by
  apply ensures_read h
  apply ensures_orThrow (fun _ => h)
  intro x hfound
  obtain ⟨hfind, hid⟩ := find_of_found hfound
  apply ensures_throwIf (fun _ => h)
  intro hpending
  rw [hid]
  apply refuse_within (d := .cancel) h (by decide) hallowed hfind (not_not.mp hpending)
  · exact fun _ hx => ⟨hx.held, hx.tenantId, hx.expiresAt⟩
  · exact fun _ => rfl
  · exact fun _ _ hs' => hs'

theorem rejectPledge_within (h : Within k allowed s) (hallowed : allowed .reject) (uuids : Uuids)
    (callerUserId : Id) (reason : String) :
    Process.Ensures (Within k allowed) (fun _ => Within k allowed)
      (rejectPledge num uuids callerUserId k.pledgeId reason) s := by
  apply ensures_requireFinancierOrg h (fun _ => h)
  intro org _
  apply ensures_find h (fun _ => h)
  intro x hfound
  obtain ⟨hfind, hid⟩ := find_of_found hfound
  apply ensures_throwIf (fun _ => h)
  intro hpending
  rw [hid, ← Attempt.bind_assoc]
  apply ensures_bind
  apply refuse_within (d := .reject) h (by decide) hallowed hfind (not_not.mp hpending)
  · exact fun _ hx => ⟨hx.held, hx.tenantId, hx.expiresAt⟩
  · exact fun _ => rfl
  · rintro (e | _) s₁ hs₁
    · exact hs₁
    · apply continues_ok.mpr
      exact ensures_getFinancierPledgeDetail hs₁ fun _ => hs₁

theorem acceptPledge_within (h : Within k allowed s) (dto : AcceptPledge)
    (hdto : dto.pledgeId = k.pledgeId) :
    Process.Ensures (Within k allowed) (fun _ => Within k allowed) (acceptPledge num dto) s := by
  apply ensures_requireFinancierOrg h (fun _ => h)
  intro org _
  apply ensures_find h (fun _ => h)
  intro x hfound
  rw [hdto] at hfound
  obtain ⟨hfind, hid⟩ := find_of_found hfound
  obtain ⟨returned, hs, hallowed⟩ := id h
  apply ensures_throwIf (fun _ => h)
  intro hpending
  apply ensures_throwIf (fun _ => h)
  intro _
  apply ensures_orThrow (fun _ => h)
  intro heldReceiptId hheld
  obtain rfl : k.leafId = heldReceiptId :=
    Option.some_inj.mp ((hs.of_row hfind).held.symm.trans hheld)
  apply ensures_ofExcept (fun _ _ => h)
  intro _ _
  rw [hid]
  apply ensures_ledger rfl
  · exact fun _ => ⟨h, h⟩
  intro r ledger houtcome
  have hmoved : Underway k returned { s with ledger } := hs.accept rfl houtcome
  have hmoved' : Within k allowed { s with ledger } := ⟨returned, hmoved, hallowed⟩
  refine ⟨hmoved', ?_⟩
  apply ensures_write
  · exact fun _ _ => ⟨hmoved', hmoved'⟩
  · intro _ s₂ hok
    obtain ⟨liens, hcreate, hok⟩ := bind_ok.mp hok
    obtain ⟨pledges, hupdate, hok⟩ := bind_ok.mp hok
    cases hok
    rw [hid] at hupdate
    have hlined := hmoved.lien hcreate hid hupdate
      (fun _ hx => ⟨hx.held, hx.tenantId, hx.expiresAt⟩) fun _ => rfl
    have hlined' : Within k allowed { s with ledger, liens, pledges } :=
      ⟨returned, hlined, hallowed⟩
    exact ⟨hlined', ensures_getFinancierPledgeDetail hlined' fun _ => hlined'⟩

/-- The batch of the cron, by what its turn at the pledge does: what comes before and after
that is beside the pledge. -/
theorem ensures_expireStalePledges {uuids : Id → Uuids} {now : Timestamp} {crash done : Db → Prop}
    {x : Pledge} (h : Underway k returned s) (hfind : s.pledges.find k.pledgeId = some x)
    (hbefore : ∀ s', Beside k uuids s s' → crash s') (hcrash : ∀ s', done s' → crash s')
    (hdone : ∀ s' s'', done s' → Beside k uuids s' s'' → done s'')
    (hskip : ¬ (x.status = .pending ∧ x.expiresAt ≤ now) → done s)
    (hturn : x.status = .pending → ∀ s', Beside k uuids s s' →
      Process.Ensures crash (fun _ => done)
        ((expirePledge num (uuids x.id) x).recover fun _ => pure ()) s') :
    Process.Ensures crash (fun _ => done) (expireStalePledges num uuids now) s := by
  have hx : x ∈ s.pledges := Table.mem_of_find hfind
  apply ensures_read (hbefore s (.refl s))
  -- the pledge's turn is still to come, or what it does is done
  apply ensures_forEach (fun rest s' => (∀ y ∈ rest, y ∈ s.pledges) ∧
    (x ∈ rest → x.status = .pending) ∧ (rest.map Pledge.id).Nodup ∧
      ((x ∈ rest ∧ Beside k uuids s s') ∨ (x ∉ rest ∧ done s')))
  · rintro y rest s₁ ⟨hmem, hpending, hnodup, hstate⟩
    obtain ⟨hne, hnodup'⟩ := List.nodup_cons.mp hnodup
    have hmem' : ∀ z ∈ rest, z ∈ s.pledges := fun z hz => hmem z (List.mem_cons_of_mem y hz)
    by_cases hid : y.id = k.pledgeId
    · obtain rfl : y = x := Table.eq_of_key_eq (hmem y List.mem_cons_self) hx
        (hid.trans (Table.key_of_find hfind).symm)
      have hgone : y ∉ rest := fun hy => hne (List.mem_map_of_mem hy)
      rcases hstate with ⟨-, hs₁⟩ | ⟨hnot, -⟩
      · apply (hturn (hpending List.mem_cons_self) s₁ hs₁).weaken
        rintro (e | _) s₂ hs₂
        · exact hs₂
        · exact ⟨hmem', fun hy => absurd hy hgone, hnodup', .inr ⟨hgone, hs₂⟩⟩
      · exact absurd List.mem_cons_self hnot
    · have hyx : x ≠ y := by
        rintro rfl
        exact hid (Table.key_of_find hfind)
      have hrest : x ∈ y :: rest ↔ x ∈ rest := by simp [hyx]
      have hheld : y.heldReceiptId ≠ some k.leafId := fun hheld =>
        hid (h.sole y (hmem y List.mem_cons_self) hheld)
      rw [hrest] at hpending hstate
      apply ensures_recover
      apply Process.Ensures.mono (expirePledge_beside hid hheld)
      · intro s₂ hs₂
        rcases hstate with ⟨-, hs₁⟩ | ⟨-, hs₁⟩
        · exact hbefore s₂ (hs₁.trans hs₂)
        · exact hcrash s₂ (hdone s₁ s₂ hs₁ hs₂)
      · have hnext : ∀ s₂, Beside k uuids s₁ s₂ → (x ∈ rest ∧ Beside k uuids s s₂) ∨
            (x ∉ rest ∧ done s₂) := by
          intro s₂ hs₂
          rcases hstate with ⟨hin, hs₁⟩ | ⟨hout, hs₁⟩
          · exact .inl ⟨hin, hs₁.trans hs₂⟩
          · exact .inr ⟨hout, hdone s₁ s₂ hs₁ hs₂⟩
        rintro (e | _) s₂ hs₂
        · exact ⟨hmem', hpending, hnodup', hnext s₂ hs₂⟩
        · exact ⟨hmem', hpending, hnodup', hnext s₂ hs₂⟩
  · rintro s₁ ⟨-, -, -, hstate⟩
    rcases hstate with ⟨hin, -⟩ | ⟨-, hs₁⟩
    · cases hin
    · exact hs₁
  · have hiff : x ∈ s.pledges.rows.filter (fun p => p.status = .pending ∧ p.expiresAt ≤ now) ↔
        x.status = .pending ∧ x.expiresAt ≤ now := by
      simp [Table.mem_def.mp hx]
    refine ⟨fun y hy => List.mem_of_mem_filter hy, fun hin => (hiff.mp hin).1, ?_, ?_⟩
    · exact s.pledges.nodup.sublist (List.filter_sublist.map _)
    · by_cases hstale : x.status = .pending ∧ x.expiresAt ≤ now
      · exact .inl ⟨hiff.mpr hstale, .refl s⟩
      · exact .inr ⟨fun hin => hstale (hiff.mp hin), hskip hstale⟩

theorem expireStalePledges_within (h : Within k allowed s) (hallowed : allowed .expire)
    (uuids : Id → Uuids) (now : Timestamp) :
    Process.Ensures (Within k allowed) (fun _ => Within k allowed)
      (expireStalePledges num uuids now) s := by
  obtain ⟨returned, hs, -⟩ := id h
  obtain ⟨x, hfind, -⟩ := hs.row
  have hid : x.id = k.pledgeId := Table.key_of_find hfind
  apply ensures_expireStalePledges hs hfind
  · exact fun _ hs' => h.beside hs'
  · exact fun _ hs' => hs'
  · exact fun _ _ hs' hs'' => hs'.beside hs''
  · exact fun _ => h
  · intro hpending s' hs'
    apply ensures_recover
    unfold expirePledge
    rw [hid]
    apply refuse_within (d := .expire) (h.beside hs') (by decide) hallowed
      (hs'.pledge.trans hfind) hpending
    · exact fun _ hx => ⟨hx.held, hx.tenantId, hx.expiresAt⟩
    · exact fun _ => rfl
    · rintro (e | _) s₂ hs₂
      · exact hs₂
      · exact hs₂

/-- The decision by which a request releases the leaf of a pledge. -/
def Request.refusal : Request → Option Decision
  | .cancelPledge _ _ _ => some .cancel
  | .rejectPledge _ _ _ _ => some .reject
  | .expireStalePledges _ _ => some .expire
  | _ => none

/-- A decision on the pledge, to its end or not. -/
theorem Request.within {request : Request} (hdecides : request.Decides k.pledgeId)
    (hallowed : ∀ d, request.refusal = some d → allowed d) (h : Within k allowed s) :
    Process.Ensures (Within k allowed) (fun _ => Within k allowed) (request.run num) s := by
  cases request with
  | acceptPledge dto => exact acceptPledge_within h dto hdecides
  | cancelPledge uuids callerUserId pledgeId =>
      obtain rfl : pledgeId = k.pledgeId := hdecides
      exact cancelPledge_within h (hallowed .cancel rfl) uuids callerUserId
  | rejectPledge uuids callerUserId pledgeId reason =>
      obtain rfl : pledgeId = k.pledgeId := hdecides
      exact rejectPledge_within h (hallowed .reject rfl) uuids callerUserId reason
  | expireStalePledges uuids now =>
      exact expireStalePledges_within h (hallowed .expire rfl) uuids now
  | _ => exact hdecides.elim

/-- Decisions one after the other, each stopped after some of its steps. -/
def stopped (num : Numeric) (decisions : List (Request × ℕ)) (s : Db) : Db :=
  decisions.foldl (fun s decision => Process.stopAfter decision.2 (decision.1.run num) s) s

/-- However the decisions stop, the pledge is underway. -/
theorem stopped_within {decisions : List (Request × ℕ)}
    (hdecides : ∀ decision ∈ decisions, decision.1.Decides k.pledgeId)
    (hallowed : ∀ decision ∈ decisions, ∀ d, decision.1.refusal = some d → allowed d)
    (h : Within k allowed s) : Within k allowed (stopped num decisions s) := by
  induction decisions generalizing s with
  | nil => exact h
  | cons decision rest ih =>
      obtain ⟨hdecision, hrest⟩ := List.forall_mem_cons.mp hdecides
      obtain ⟨hallows, hallowsRest⟩ := List.forall_mem_cons.mp hallowed
      exact ih hrest hallowsRest
        ((Request.within hdecision hallows h).stopAfter h decision.2)

theorem Undecided.within (h : Undecided k s) : Within k allowed s := by
  refine ⟨none, h.underway, ?_⟩
  intro d hd
  cases hd

end Requests

/-! ## The next run of the cron -/

/-- The pledge is closed and its volume is free again, released once. -/
structure Closed (k : Stake) (s : Db) : Prop where
  row : ∃ x, s.pledges.find k.pledgeId = some x ∧
    (x.status = .cancelled ∨ x.status = .rejected ∨ x.status = .expired)
  leaf : ∃ r, s.ledger.receipts.find k.leafId = some r ∧ k.Holds r ∧ r.status = .active
  releases : (releasesOf s.ledger k.leafId).length = k.releases + 1

/-- The accepted pledge, its lien and the leaf are as they were. -/
structure Untouched (k : Stake) (l : Lien) (s s' : Db) : Prop where
  row : ∃ x, s.pledges.find k.pledgeId = some x ∧ x.status = .accepted ∧
    s'.pledges.find k.pledgeId = some x
  lien : l ∈ s'.liens
  leaf : s'.ledger.receipts.find k.leafId = s.ledger.receipts.find k.leafId

/-- Without a lien the pledge is closed; with one it is left alone. -/
structure Recovered (k : Stake) (s s' : Db) : Prop where
  closed : (∀ l ∈ s.liens, l.pledgeId ≠ k.pledgeId) → Closed k s'
  untouched : ∀ l ∈ s.liens, l.pledgeId = k.pledgeId → Untouched k l s s'

/-- The pledge is pending although a cancellation or a rejection has released its leaf. -/
def Stranded (pledgeId : Id) (s : Db) : Prop :=
  (∃ x, s.pledges.find pledgeId = some x ∧ x.status = .pending) ∧
    (s.ledger.Used (Decision.cancel.key pledgeId) ∨ s.ledger.Used (Decision.reject.key pledgeId))

section Cron

variable {num : Numeric} {k : Stake} {returned : Option Decision} {s s' : Db}

theorem Closed.beside {uuids : Id → Uuids} (h : Closed k s) (hbeside : Beside k uuids s s') :
    Closed k s' where
  row := by
    rw [hbeside.pledge]
    exact h.row
  leaf := by
    obtain ⟨r, hfind, hr⟩ := h.leaf
    exact ⟨r, hbeside.leaf r hfind, hr⟩
  releases := hbeside.releases.trans h.releases

/-- A decision that was recorded has closed the pledge. -/
theorem Underway.closed {d : Decision} (h : Underway k (some d) s)
    (hrow : ∃ x, s.pledges.find k.pledgeId = some x ∧ x.status = d.status) : Closed k s where
  row := by
    obtain ⟨x, hfind, hstatus⟩ := hrow
    refine ⟨x, hfind, ?_⟩
    rw [hstatus]
    cases d with
    | accept => exact absurd rfl h.refuses
    | _ => simp [Decision.status]
  leaf := h.leaf
  releases := h.releases

/-- The release by the cron goes through: it was made by an earlier cron, or the leaf is
still held. -/
theorem Underway.expiry_succeeds {uuids : Uuids} {ctx : ActorCtx} (h : Underway k returned s)
    (hreturned : returned = none ∨ returned = some .expire)
    (hkey : ctx.idempotencyKey = Decision.expire.key k.pledgeId)
    (htenant : ctx.tenantId = k.tenantId)
    (hevent : uuids.event ∉ s.ledger.events.rows.map InventoryEvent.id) :
    ∃ r ledger, Inventory.release num uuids ctx k.leafId s.ledger = .ok (r, ledger) := by
  obtain ⟨r, hr, hholds, hleaf⟩ := h.leaf
  rcases hreturned with rfl | rfl
  · apply release_succeeds hevent
    · rw [← not_used_iff, hkey, h.keys .expire (by decide)]
      simp
    · exact ⟨hr, hholds.tenantId.trans htenant.symm⟩
    · rcases hleaf with hpledged | hlined
      · rw [hpledged]
        decide
      · rw [hlined]
        decide
  · obtain ⟨e, he, hused⟩ := (h.keys .expire (by decide)).mpr rfl
    obtain ⟨hfrom, htenant'⟩ := h.logged e he .expire (by decide) hused
    have hprior : s.ledger.events.find ctx.idempotencyKey = some e :=
      Table.find_eq_some_iff.mpr ⟨he, hused.trans hkey.symm⟩
    have haffected : s.ledger.affected e = .ok r := by
      apply Ledger.loadOrThrow_ok.mpr
      rw [hfrom, htenant']
      exact ⟨hr, hholds.tenantId⟩
    exact ⟨r, s.ledger, runIdempotent_ok.mpr (.inl ⟨e, hprior, haffected, rfl⟩)⟩

/-- The cron closes a pending pledge whose leaf no other decision has released. -/
theorem expirePledge_closes {x : Pledge} {uuids : Uuids} (h : Underway k returned s)
    (hreturned : returned = none ∨ returned = some .expire)
    (hfind : s.pledges.find k.pledgeId = some x) (hpending : x.status = .pending)
    (hevent : uuids.event ∉ s.ledger.events.rows.map InventoryEvent.id) :
    Process.Ensures (fun _ => True) (fun _ => Closed k)
      ((expirePledge num uuids x).recover fun _ => pure ()) s := by
  have hid : x.id = k.pledgeId := Table.key_of_find hfind
  have hx := h.of_row hfind
  apply ensures_recover
  unfold expirePledge releaseHeld
  rw [hx.held, hid]
  dsimp only
  rw [Attempt.bind_assoc]
  apply ensures_ledger_succeeds rfl
  · exact h.expiry_succeeds hreturned rfl hx.tenantId hevent
  · intro r ledger houtcome
    obtain ⟨hfreed, -⟩ := h.release (d := .expire) (by decide) rfl hx.tenantId houtcome
    refine ⟨trivial, ?_⟩
    apply Process.Ensures.mono
    · apply updatePledge_underway hfreed
      · intro y hy
        exact Option.some_inj.mp (hfind.symm.trans hy) ▸ hpending
      · exact fun _ hx => ⟨hx.held, hx.tenantId, hx.expiresAt⟩
      · exact fun _ => rfl
    · exact fun _ _ => trivial
    · rintro (e | _) s₂ ⟨hs₂, hrow⟩
      · exact hs₂.closed hrow
      · exact hs₂.closed hrow

/-- The cron finds nothing to release of a pledge whose leaf another decision has released,
and passes over it. -/
theorem expirePledge_fails {d : Decision} {x : Pledge} {uuids : Uuids}
    (h : Underway k (some d) s) (hd : d ≠ .expire) (hfind : s.pledges.find k.pledgeId = some x)
    (hpending : x.status = .pending) :
    Process.Ensures (fun _ => True)
      (fun _ s' => ∃ x, s'.pledges.find k.pledgeId = some x ∧ x.status = .pending)
      ((expirePledge num uuids x).recover fun _ => pure ()) s := by
  apply ensures_recover
  apply ensures_bind
  apply Process.Ensures.mono
  · exact releaseHeld_underway (d := .expire) h (by decide) hfind
  · exact fun _ _ => trivial
  · rintro (e | _) s₁ hs₁
    · exact ⟨x, hs₁ ▸ hfind, hpending⟩
    · obtain ⟨-, -, hbefore⟩ := hs₁
      simp only [reduceCtorEq, Option.some.injEq, false_or] at hbefore
      exact absurd hbefore hd

/-- A run of the cron after the deadline closes a pending pledge that can be closed. -/
theorem expireStalePledges_closes {x : Pledge} {uuids : Id → Uuids} {now : Timestamp}
    (h : Underway k returned s) (hreturned : returned = none ∨ returned = some .expire)
    (hfind : s.pledges.find k.pledgeId = some x) (hpending : x.status = .pending)
    (hexpired : k.expiresAt ≤ now)
    (hdistinct : ∀ id, id ≠ k.pledgeId → (uuids id).event ≠ (uuids k.pledgeId).event)
    (hevent : (uuids k.pledgeId).event ∉ s.ledger.events.rows.map InventoryEvent.id) :
    Closed k ((expireStalePledges num uuids now).exec s).2 := by
  have hid : x.id = k.pledgeId := Table.key_of_find hfind
  have hstale : x.status = .pending ∧ x.expiresAt ≤ now :=
    ⟨hpending, (h.of_row hfind).expiresAt ▸ hexpired⟩
  have hends : Process.Ensures (fun _ => True) (fun _ => Closed k)
      (expireStalePledges num uuids now) s := by
    apply ensures_expireStalePledges h hfind
    · exact fun _ _ => trivial
    · exact fun _ _ => trivial
    · exact fun _ _ hclosed hbeside => hclosed.beside hbeside
    · exact fun hnot => absurd hstale hnot
    · intro _ s' hs'
      rw [hid]
      exact expirePledge_closes (h.beside hs') hreturned (hs'.pledge.trans hfind) hpending
        (hs'.event_fresh hdistinct hevent)
  exact hends.exec

/-- A run of the cron leaves a pledge pending whose leaf a cancellation or a rejection has
released. -/
theorem expireStalePledges_fails {d : Decision} {x : Pledge} {uuids : Id → Uuids}
    {now : Timestamp} (h : Underway k (some d) s) (hd : d ≠ .expire)
    (hfind : s.pledges.find k.pledgeId = some x) (hpending : x.status = .pending) :
    ∃ x, ((expireStalePledges num uuids now).exec s).2.pledges.find k.pledgeId = some x ∧
      x.status = .pending := by
  have hends : Process.Ensures (fun _ => True)
      (fun _ s' => ∃ x, s'.pledges.find k.pledgeId = some x ∧ x.status = .pending)
      (expireStalePledges num uuids now) s := by
    apply ensures_expireStalePledges h hfind
    · exact fun _ _ => trivial
    · exact fun _ _ => trivial
    · intro s' s'' hs' hbeside
      rw [hbeside.pledge]
      exact hs'
    · exact fun _ => ⟨x, hfind, hpending⟩
    · intro _ s' hs'
      exact expirePledge_fails (h.beside hs') hd (hs'.pledge.trans hfind) hpending
  exact hends.exec

/-- A run of the cron passes by a pledge that is not pending. -/
theorem expireStalePledges_beside {x : Pledge} {uuids : Id → Uuids} {now : Timestamp}
    (h : Underway k returned s) (hfind : s.pledges.find k.pledgeId = some x)
    (hdecided : x.status ≠ .pending) :
    Beside k uuids s ((expireStalePledges num uuids now).exec s).2 := by
  have hends : Process.Ensures (fun _ => True) (fun _ => Beside k uuids s)
      (expireStalePledges num uuids now) s := by
    apply ensures_expireStalePledges h hfind
    · exact fun _ _ => trivial
    · exact fun _ _ => trivial
    · exact fun _ _ hs' hbeside => hs'.trans hbeside
    · exact fun _ => .refl s
    · exact fun hpending => absurd hpending hdecided
  exact hends.exec

/-- A pending pledge is stranded when another decision than the cron's released its leaf. -/
theorem Underway.stranded_iff (h : Underway k returned s) {x : Pledge}
    (hfind : s.pledges.find k.pledgeId = some x) (hpending : x.status = .pending) :
    Stranded k.pledgeId s ↔ ¬ (returned = none ∨ returned = some .expire) := by
  unfold Stranded
  rw [h.keys .cancel (by decide), h.keys .reject (by decide)]
  have hrefuses := h.refuses
  cases returned with
  | none => simp
  | some d =>
      have hrow : ∃ x, s.pledges.find k.pledgeId = some x ∧ x.status = .pending :=
        ⟨x, hfind, hpending⟩
      cases d with
      | accept => exact absurd rfl hrefuses
      | _ => simp [hrow]

/-- The next run of the cron after the deadline recovers the pledge unless it is stranded. -/
theorem Underway.recovers_iff {uuids : Id → Uuids} {now : Timestamp} (h : Underway k returned s)
    (hexpired : k.expiresAt ≤ now)
    (hdistinct : ∀ id, id ≠ k.pledgeId → (uuids id).event ≠ (uuids k.pledgeId).event)
    (hevent : (uuids k.pledgeId).event ∉ s.ledger.events.rows.map InventoryEvent.id) :
    Recovered k s ((expireStalePledges num uuids now).exec s).2 ↔ ¬ Stranded k.pledgeId s := by
  obtain ⟨x, hfind, hx, hstatus, hlien⟩ := h.row
  by_cases hpending : x.status = .pending
  · have hunlined : ∀ l ∈ s.liens, l.pledgeId ≠ k.pledgeId := by
      intro l hl hpledge
      cases hpending.symm.trans (hlien.mpr ⟨l, hl, hpledge⟩)
    rw [h.stranded_iff hfind hpending, not_not]
    constructor
    · intro hrecovered
      by_contra hreturned
      obtain ⟨d, rfl⟩ : ∃ d, returned = some d := by
        cases returned with
        | none => exact absurd (.inl rfl) hreturned
        | some d => exact ⟨d, rfl⟩
      have hd : d ≠ .expire := fun hd => hreturned (.inr (congrArg some hd))
      obtain ⟨y, hfindy, hstatusy⟩ := (hrecovered.closed hunlined).row
      obtain ⟨z, hfindz, hpendingz⟩ := expireStalePledges_fails h hd hfind hpending
      obtain rfl := Option.some_inj.mp (hfindy.symm.trans hfindz)
      rw [hpendingz] at hstatusy
      simp at hstatusy
    · intro hreturned
      constructor
      · intro _
        exact expireStalePledges_closes h hreturned hfind hpending hexpired hdistinct hevent
      · intro l hl hpledge
        exact absurd hpledge (hunlined l hl)
  · -- a pledge that is not pending is neither stranded nor in the batch
    have hbeside : Beside k uuids s ((expireStalePledges num uuids now).exec s).2 :=
      expireStalePledges_beside h hfind hpending
    have hsafe : ¬ Stranded k.pledgeId s := by
      rintro ⟨⟨y, hfindy, hpendingy⟩, -⟩
      obtain rfl := Option.some_inj.mp (hfindy.symm.trans hfind)
      exact hpending hpendingy
    apply iff_of_true _ hsafe
    constructor
    · intro hunlined
      apply Closed.beside _ hbeside
      rcases hstatus with hpending' | haccepted | ⟨d, rfl, hdecided⟩
      · exact absurd hpending' hpending
      · obtain ⟨l, hl, hpledge⟩ := hlien.mp haccepted
        exact absurd hpledge (hunlined l hl)
      · exact h.closed ⟨x, hfind, hdecided⟩
    · intro l hl hpledge
      obtain ⟨r, hr, -⟩ := h.leaf
      constructor
      · exact ⟨x, hfind, hlien.mpr ⟨l, hl, hpledge⟩, hbeside.pledge.trans hfind⟩
      · rw [hbeside.liens]
        exact hl
      · exact (hbeside.leaf r hr).trans hr.symm

end Cron

/-- Decisions on a pending pledge may stop anywhere, any number of times: the next run of the
cron after the deadline closes the pledge with its volume free, or leaves it accepted under
its lien, unless a cancellation or a rejection stopped between the release and the status. -/
theorem stopped_decisions_recover (num : Numeric) {k : Stake} {s : Db} (hstart : Undecided k s)
    (decisions : List (Request × ℕ))
    (hdecides : ∀ decision ∈ decisions, decision.1.Decides k.pledgeId) (uuids : Id → Uuids)
    (now : Timestamp) (hexpired : k.expiresAt ≤ now)
    (hdistinct : ∀ id, id ≠ k.pledgeId → (uuids id).event ≠ (uuids k.pledgeId).event)
    (hevent : (uuids k.pledgeId).event ∉
      (stopped num decisions s).ledger.events.rows.map InventoryEvent.id) :
    Recovered k (stopped num decisions s)
        ((expireStalePledges num uuids now).exec (stopped num decisions s)).2 ↔
      ¬ Stranded k.pledgeId (stopped num decisions s) := by
  obtain ⟨returned, hs, -⟩ : Within k (fun _ => True) (stopped num decisions s) :=
    stopped_within hdecides (fun _ _ _ _ => trivial) hstart.within
  exact hs.recovers_iff hexpired hdistinct hevent

/-- The stake of pledge 7. -/
def sampleStake : Stake where
  pledgeId := 7
  leafId := 122
  tenantId := 1
  volume := 6
  expiresAt := 7 * 24 * 60 * 60 * 1000
  releases := 0

theorem pledgedStore_undecided : Undecided sampleStake pledgedStore := by
  constructor
  · have hrow : (pledgedStore.pledges.find 7).map (fun x =>
        (x.heldReceiptId, x.tenantId, x.expiresAt, x.status)) =
          some (some 122, 1, 7 * 24 * 60 * 60 * 1000, .pending) := by
      decide +kernel
    obtain ⟨x, hfind, hx⟩ := Option.map_eq_some_iff.mp hrow
    simp only [Prod.mk.injEq] at hx
    obtain ⟨hheld, htenant, hexpires, hpending⟩ := hx
    exact ⟨x, hfind, ⟨hheld, htenant, hexpires⟩, hpending⟩
  · have hleaf : (pledgedStore.ledger.receipts.find 122).map (fun r =>
        (r.tenantId, r.quantity, r.status)) = some (1, 6, .heldPledgePending) := by
      decide +kernel
    obtain ⟨r, hfind, hr⟩ := Option.map_eq_some_iff.mp hleaf
    simp only [Prod.mk.injEq] at hr
    obtain ⟨htenant, hquantity, hstatus⟩ := hr
    exact ⟨r, hfind, ⟨htenant, hquantity⟩, hstatus⟩
  · intro d
    cases d <;> decide +kernel
  · decide +kernel
  · have hliens : pledgedStore.liens.rows = [] := by decide +kernel
    intro l hl
    rw [Table.mem_def, hliens] at hl
    cases hl
  · have hsole : ∀ x ∈ pledgedStore.pledges.rows, x.heldReceiptId = some 122 → x.id = 7 := by
      decide +kernel
    exact hsole

/-- Ids that a run of the cron draws, one after the other. -/
def cronUuids (pledgeId : Id) : Uuids := sampleUuids (1000 + pledgeId)

theorem cronUuids_distinct (id id' : Id) (h : id ≠ id') :
    (cronUuids id).event ≠ (cronUuids id').event := by
  intro heq
  exact h (Nat.add_left_cancel heq)

/-- The cancellation of pledge 7 stops after its release: the cron finds the leaf free, swallows
the error, and the pledge stays pending. -/
theorem cancelled_pledge_stays_pending :
    ¬ ∀ (num : Numeric) (k : Stake) (s : Db), Undecided k s → ∀ (request : Request) (steps : ℕ),
      request.Decides k.pledgeId → ∀ (uuids : Id → Uuids) (now : Timestamp), k.expiresAt ≤ now →
        (∀ id, id ≠ k.pledgeId → (uuids id).event ≠ (uuids k.pledgeId).event) →
          (uuids k.pledgeId).event ∉
            (stopped num [(request, steps)] s).ledger.events.rows.map InventoryEvent.id →
            Recovered k (stopped num [(request, steps)] s)
              ((expireStalePledges num uuids now).exec (stopped num [(request, steps)] s)).2 := by
  intro hclaim
  have hrecovered := hclaim .postgres sampleStake _ pledgedStore_undecided sampleCancellation 2 rfl
    cronUuids _ le_rfl (fun id hid => cronUuids_distinct id 7 hid) (by decide +kernel)
  have hliens : (stopped .postgres [(sampleCancellation, 2)] pledgedStore).liens.rows = [] := by
    decide +kernel
  have hstill : (((expireStalePledges .postgres cronUuids sampleStake.expiresAt).exec
      (stopped .postgres [(sampleCancellation, 2)] pledgedStore)).2.pledges.find 7).map
        Pledge.status = some .pending := by
    decide +kernel
  have hclosed := hrecovered.closed
  rw [show (stopped .postgres [(sampleCancellation, 2)] pledgedStore).liens = Table.empty from
    Table.ext hliens] at hclosed
  obtain ⟨x, hfind, hstatus⟩ := (hclosed fun l hl => absurd hl (Table.not_mem_empty l)).row
  obtain ⟨y, hfindy, hpending⟩ := Option.map_eq_some_iff.mp hstill
  obtain rfl := Option.some_inj.mp (hfind.symm.trans hfindy)
  rw [hpending] at hstatus
  simp at hstatus

/-- The acceptance of pledge 7 stops with the leaf under the lien and no lien recorded. -/
theorem stopped_decisions_recover_sample :
    Recovered sampleStake (stopped .postgres [(sampleAcceptance, 3)] pledgedStore)
        ((expireStalePledges .postgres cronUuids sampleStake.expiresAt).exec
          (stopped .postgres [(sampleAcceptance, 3)] pledgedStore)).2 ↔
      ¬ Stranded sampleStake.pledgeId (stopped .postgres [(sampleAcceptance, 3)] pledgedStore) :=
  stopped_decisions_recover .postgres pledgedStore_undecided [(sampleAcceptance, 3)]
    (by simp [sampleAcceptance, Request.Decides, sampleStake]) cronUuids _ le_rfl
    (fun id hid => cronUuids_distinct id 7 hid) (by decide +kernel)

/-- Acceptances and earlier runs of the cron may stop anywhere. -/
theorem stopped_acceptances_recover (num : Numeric) {k : Stake} {s : Db} (hstart : Undecided k s)
    (decisions : List (Request × ℕ))
    (hdecides : ∀ decision ∈ decisions, decision.1.Decides k.pledgeId)
    (hrefusal : ∀ decision ∈ decisions, ∀ d, decision.1.refusal = some d → d = .expire)
    (uuids : Id → Uuids) (now : Timestamp) (hexpired : k.expiresAt ≤ now)
    (hdistinct : ∀ id, id ≠ k.pledgeId → (uuids id).event ≠ (uuids k.pledgeId).event)
    (hevent : (uuids k.pledgeId).event ∉
      (stopped num decisions s).ledger.events.rows.map InventoryEvent.id) :
    Recovered k (stopped num decisions s)
      ((expireStalePledges num uuids now).exec (stopped num decisions s)).2 := by
  obtain ⟨returned, hs, hreturned⟩ : Within k (· = .expire) (stopped num decisions s) :=
    stopped_within hdecides hrefusal hstart.within
  apply (hs.recovers_iff hexpired hdistinct hevent).mpr
  rintro ⟨⟨x, hfind, hpending⟩, hused⟩
  rw [hs.keys .cancel (by decide), hs.keys .reject (by decide)] at hused
  rcases hused with hcancel | hreject
  · cases hreturned .cancel hcancel
  · cases hreturned .reject hreject

section Reached

variable {num : Numeric} {Admitted Sized : ℚ → Prop}

theorem Backed.undecided {s : Db} (h : Backed num Admitted Sized (fun _ _ => False) s) {x : Pledge}
    (hx : x ∈ s.pledges) (hpending : x.status = .pending) :
    ∃ k : Stake, k.pledgeId = x.id ∧ k.expiresAt = x.expiresAt ∧ Undecided k s := by
  obtain ⟨r, hr, hheld, -, htenant, hstatus, -⟩ := h.volumes.pledges x hx
  let k : Stake :=
    { pledgeId := x.id, leafId := r.id, tenantId := x.tenantId, volume := r.quantity
      expiresAt := x.expiresAt, releases := (releasesOf s.ledger r.id).length }
  refine ⟨k, rfl, rfl, ?_⟩
  constructor
  · exact ⟨x, Table.find_of_mem hx, ⟨hheld, rfl, rfl⟩, hpending⟩
  · exact ⟨r, Table.find_of_mem hr, ⟨htenant, rfl⟩, hstatus.mpr hpending⟩
  · intro d hused
    -- a decision that was made has its pledge decided
    have hword : d.word ≠ "create" := by cases d <;> decide
    obtain ⟨y, hy, hid, hdecided⟩ := (h.logged.shown _ hused).decision d.word x.id hword rfl
    obtain rfl : y = x := Table.eq_of_key_eq hy hx hid
    exact hdecided hpending
  · rfl
  · intro l hl hpledge
    obtain ⟨⟨y, hy, hid, hdecided⟩, -⟩ := h.rows.liens l hl
    obtain rfl : y = x := Table.eq_of_key_eq hy hx (hid.trans hpledge)
    exact hdecided hpending
  · intro y hy hyheld
    exact congrArg Pledge.id (h.rows.single y hy x hx (hyheld.trans hheld.symm))

/-- Every pledge that is pending after requests run to their end is undecided. -/
theorem orderlyRun_undecided (hcolumns : Columns num Admitted Sized) (directory : Directory)
    (requests : List Request)
    (horderly : OrderlyRun num Admitted Sized requests (Db.initial directory)) {x : Pledge}
    (hx : x ∈ (runRequests num requests (Db.initial directory)).pledges)
    (hpending : x.status = .pending) :
    ∃ k : Stake, k.pledgeId = x.id ∧ k.expiresAt = x.expiresAt ∧
      Undecided k (runRequests num requests (Db.initial directory)) :=
  (orderlyRun_backed hcolumns requests (custody_initial directory) (backed_initial directory)
    horderly).undecided hx hpending

end Reached

end SecureStore.Services
