/-
# Reservations

Whether the withdrawals that await their payment can all be served. A request counts the
live rows on the receipt, that is those of the last thirty minutes, and creates its own;
no lock is held in between, and rows leave the count by time, rejection, confirmation and
cron. The live volume on a receipt stays within its quantity, and a client has one live
row on it, in every run in which each row is still affordable when it is created.
-/

import SecureStore.Custody.Contract

namespace SecureStore.Services

open SecureStore.Foundation SecureStore.Inventory

/-- A PENDING_PAYMENT row on a receipt within its window. -/
def Withdrawal.LiveOn (w : Withdrawal) (receiptId : Id) (now : Timestamp) : Prop :=
  w.receiptId = receiptId ∧ w.status = .pendingPayment ∧ pendingPaymentCutoff now < w.createdAt

instance (w : Withdrawal) (receiptId : Id) (now : Timestamp) : Decidable (w.LiveOn receiptId now) :=
  inferInstanceAs (Decidable (_ ∧ _ ∧ _))

/-- The volume that a row reserves on a receipt. -/
def Withdrawal.claimOn (receiptId : Id) (now : Timestamp) (w : Withdrawal) : ℚ :=
  if w.LiveOn receiptId now then w.quantity else 0

/-- The volume of the live rows on a receipt. -/
def reservedOn (s : Db) (receiptId : Id) (now : Timestamp) : ℚ :=
  s.withdrawals.sumOf (Withdrawal.claimOn receiptId now)

/-- A moment after which no row has been created yet. -/
def Db.Present (s : Db) (now : Timestamp) : Prop := ∀ w ∈ s.withdrawals, w.createdAt ≤ now

/-- The live rows on a receipt take no more than it has, and those of one client are one.
A row that awaits its payment asks for a volume, on a receipt of its tenant. -/
structure Reservations (s : Db) : Prop where
  stocked : ∀ r ∈ s.ledger.receipts, 0 ≤ r.quantity
  owned : ∀ w ∈ s.withdrawals, w.status = .pendingPayment → 0 ≤ w.quantity ∧
    ∃ r, s.ledger.receipts.find w.receiptId = some r ∧ r.tenantId = w.tenantId
  bounded : ∀ now, s.Present now → ∀ r ∈ s.ledger.receipts, reservedOn s r.id now ≤ r.quantity
  single : ∀ now, s.Present now → ∀ receiptId, ∀ w ∈ s.withdrawals, ∀ w' ∈ s.withdrawals,
    w.LiveOn receiptId now → w'.LiveOn receiptId now → w.clientId = w'.clientId → w.id = w'.id

/-- The requests about withdrawals. -/
inductive Request.Withdraws : Request → Prop where
  | create (dto : CreateWithdrawal) : Withdraws (.createWithdrawalRequest dto)
  | confirm (uuids : Uuids) (tenantId withdrawalId actorUserId : Id) (actorRoles : List Role) :
      Withdraws (.confirmPayment uuids tenantId withdrawalId actorUserId actorRoles)
  | approve (uuids : Uuids) (tenantId withdrawalId : Id) (actorUserId : Option Id) :
      Withdraws (.approveWithdrawal uuids tenantId withdrawalId actorUserId)
  | reject (uuids : Uuids) (tenantId withdrawalId : Id) (actorUserId : Option Id)
      (reason : Option String) :
      Withdraws (.rejectWithdrawal uuids tenantId withdrawalId actorUserId reason)
  | complete (uuids : Uuids) (storageFee : Except ApiError ℚ) (tenantId withdrawalId : Id)
      (actorUserId : Option Id) :
      Withdraws (.completeWithdrawal uuids storageFee tenantId withdrawalId actorUserId)
  | edit (dto : EditWithdrawal) : Withdraws (.editWithdrawal dto)
  | expire (now : Timestamp) : Withdraws (.expirePendingPayment now)

/-- The row that a request is to create. -/
def Request.creation : Request → Option CreateWithdrawal
  | .createWithdrawalRequest dto => some dto
  | _ => none

/-- What a creation checked still holds when it writes its row: the rest of the receipt
covers it, and its client has no live row there. -/
def StillAffordable (step : Request × Label) (s : Db) : Prop :=
  match step.2 with
  | .write _ => ∀ dto ∈ step.1.creation, ∀ r ∈ s.ledger.receipts.find dto.receiptId,
      dto.quantity ≤ availableForWithdrawal s dto.tenantId dto.receiptId r.quantity
          (pendingPaymentCutoff dto.now) ∧
        ∀ w ∈ s.withdrawals.rows, w.clientId = dto.clientId →
          ¬ w.Reserves dto.tenantId dto.receiptId (pendingPaymentCutoff dto.now)
  | _ => True

instance (step : Request × Label) (s : Db) : Decidable (StillAffordable step s) :=
  match step with
  | (request, .write _) =>
      inferInstanceAs (Decidable (∀ dto ∈ request.creation,
        ∀ r ∈ s.ledger.receipts.find dto.receiptId,
          dto.quantity ≤ availableForWithdrawal s dto.tenantId dto.receiptId r.quantity
              (pendingPaymentCutoff dto.now) ∧
            ∀ w ∈ s.withdrawals.rows, w.clientId = dto.clientId →
              ¬ w.Reserves dto.tenantId dto.receiptId (pendingPaymentCutoff dto.now)))
  | (_, .read _) | (_, .ledger ..) => inferInstanceAs (Decidable True)

/-- Withdrawal requests; receipts stay where they are. -/
def reservations : Contract (Request × Label) Db where
  inv := Reservations
  rely s s' := Later s.ledger s'.ledger
  admits := StillAffordable
  guar _ s s' := Later s.ledger s'.ledger
  debt _ := False
  rely_refl s := .refl s.ledger
  rely_trans := .trans
  guar_refl _ s := .refl s.ledger
  guar_rely _ h := h

/-- A rewrite of a row that keeps its claim or ends it. -/
structure Lessens (w w' : Withdrawal) : Prop where
  id : w'.id = w.id
  createdAt : w'.createdAt = w.createdAt
  claim : w'.status = .pendingPayment → w.status = .pendingPayment ∧ w'.tenantId = w.tenantId ∧
    w'.receiptId = w.receiptId ∧ w'.clientId = w.clientId ∧ w'.quantity = w.quantity

theorem Lessens.refl (w : Withdrawal) : Lessens w w :=
  ⟨rfl, rfl, fun hstatus => ⟨hstatus, rfl, rfl, rfl, rfl⟩⟩

section Claims

variable {s : Db} {w w' : Withdrawal} {receiptId tenantId : Id} {now : Timestamp}

theorem pendingPaymentCutoff_mono {earlier now : Timestamp} (h : earlier ≤ now) :
    pendingPaymentCutoff earlier ≤ pendingPaymentCutoff now := by
  unfold pendingPaymentCutoff
  exact sub_le_sub_right h _

theorem Lessens.live (h : Lessens w w') (hlive : w'.LiveOn receiptId now) :
    w.LiveOn receiptId now ∧ w'.clientId = w.clientId ∧ w'.quantity = w.quantity := by
  obtain ⟨hreceipt, hstatus, hwindow⟩ := hlive
  obtain ⟨hstatus', -, hreceipt', hclient, hquantity⟩ := h.claim hstatus
  exact ⟨⟨hreceipt' ▸ hreceipt, hstatus', h.createdAt ▸ hwindow⟩, hclient, hquantity⟩

theorem Reservations.claim_nonneg (hs : Reservations s) (hw : w ∈ s.withdrawals) :
    0 ≤ w.claimOn receiptId now := by
  unfold Withdrawal.claimOn
  split
  · rename_i hlive
    exact (hs.owned w hw hlive.2.1).1
  · exact le_refl 0

/-- What a creation finds available leaves room for every row that is live later. -/
theorem Reservations.reservedOn_le (hs : Reservations s) {r : Receipt} {earlier : Timestamp}
    (hfind : s.ledger.receipts.find receiptId = some r) (hnow : earlier ≤ now) :
    reservedOn s receiptId now + availableForWithdrawal s r.tenantId receiptId r.quantity
      (pendingPaymentCutoff earlier) ≤ r.quantity := by
  have hsum : reservedOn s receiptId now ≤ s.withdrawals.sumOf fun w =>
      if w.Reserves r.tenantId receiptId (pendingPaymentCutoff earlier) then w.quantity else 0 := by
    apply Table.sumOf_le_sumOf
    intro w hw
    unfold Withdrawal.claimOn
    by_cases hlive : w.LiveOn receiptId now
    · -- the row is in the count, as its receipt is of its tenant
      obtain ⟨hreceipt, hstatus, hwindow⟩ := hlive
      obtain ⟨-, r', hfind', htenant⟩ := hs.owned w hw hstatus
      rw [hreceipt, hfind] at hfind'
      obtain rfl := Option.some_inj.mp hfind'
      have hreserves : w.Reserves r.tenantId receiptId (pendingPaymentCutoff earlier) := by
        exact ⟨htenant.symm, hreceipt, hstatus,
          lt_of_le_of_lt (pendingPaymentCutoff_mono hnow) hwindow⟩
      rw [if_pos ⟨hreceipt, hstatus, hwindow⟩, if_pos hreserves]
    · rw [if_neg hlive]
      split
      · rename_i hreserves
        exact (hs.owned w hw hreserves.2.2.1).1
      · exact le_refl 0
  unfold availableForWithdrawal
  rw [sum_filter]
  simp only [decide_eq_true_eq]
  unfold Table.sumOf at hsum
  linarith

/-- Rewriting rows that keep their claims or end them. -/
theorem Reservations.rewrite (hs : Reservations s) {p : Withdrawal → Prop} [DecidablePred p]
    {f : Withdrawal → Withdrawal} {hf : ∀ w, Keyed.key (f w) = Keyed.key w}
    (hlessens : ∀ w, Lessens w (f w)) :
    Reservations { s with withdrawals := s.withdrawals.modifyWhere p f hf } := by
  have hrow : ∀ w' ∈ s.withdrawals.modifyWhere p f hf, ∃ w ∈ s.withdrawals, Lessens w w' := by
    intro w' hw'
    obtain ⟨w, hw, rfl⟩ := List.mem_map.mp hw'
    refine ⟨w, hw, ?_⟩
    split
    · exact hlessens w
    · exact .refl w
  have hpresent : ∀ now, Db.Present { s with withdrawals := s.withdrawals.modifyWhere p f hf } now →
      s.Present now := by
    intro now hnow w hw
    have hafter : (if p w then f w else w) ∈ s.withdrawals.modifyWhere p f hf :=
      List.mem_map.mpr ⟨w, hw, rfl⟩
    have hcreated := hnow _ hafter
    split at hcreated
    · exact (hlessens w).createdAt ▸ hcreated
    · exact hcreated
  constructor
  · exact hs.stocked
  · intro w' hw' hstatus
    obtain ⟨w, hw, hless⟩ := hrow w' hw'
    obtain ⟨hstatus', htenant, hreceipt, -, hquantity⟩ := hless.claim hstatus
    rw [htenant, hreceipt, hquantity]
    exact hs.owned w hw hstatus'
  · intro now hnow r hr
    have hsum : (s.withdrawals.modifyWhere p f hf).sumOf (Withdrawal.claimOn r.id now) ≤
        s.withdrawals.sumOf (Withdrawal.claimOn r.id now) := by
      apply Table.sumOf_modifyWhere_le
      intro w hw
      by_cases hlive : (f w).LiveOn r.id now
      · obtain ⟨hlive', -, hquantity⟩ := (hlessens w).live hlive
        unfold Withdrawal.claimOn
        rw [if_pos hlive, if_pos hlive', hquantity]
      · unfold Withdrawal.claimOn
        rw [if_neg hlive]
        exact hs.claim_nonneg hw
    exact hsum.trans (hs.bounded now (hpresent now hnow) r hr)
  · intro now hnow receiptId a ha b hb halive hblive hclient
    obtain ⟨a₀, ha₀, haless⟩ := hrow a ha
    obtain ⟨b₀, hb₀, hbless⟩ := hrow b hb
    obtain ⟨halive₀, haclient, -⟩ := haless.live halive
    obtain ⟨hblive₀, hbclient, -⟩ := hbless.live hblive
    rw [haless.id, hbless.id]
    exact hs.single now (hpresent now hnow) receiptId a₀ ha₀ b₀ hb₀ halive₀ hblive₀
      (haclient ▸ hbclient ▸ hclient)

/-- A new row that the rest of its receipt covers, of a client with no live row there. -/
theorem Reservations.create (hs : Reservations s) {t : Table Withdrawal} {r : Receipt}
    (hinsert : s.withdrawals.insert w = some t) (hquantity : 0 ≤ w.quantity)
    (hfind : s.ledger.receipts.find w.receiptId = some r) (htenant : r.tenantId = w.tenantId)
    (hcovered : w.quantity ≤ availableForWithdrawal s w.tenantId w.receiptId r.quantity
      (pendingPaymentCutoff w.createdAt))
    (hfree : ∀ w' ∈ s.withdrawals, w'.clientId = w.clientId →
      ¬ w'.Reserves w.tenantId w.receiptId (pendingPaymentCutoff w.createdAt)) :
    Reservations { s with withdrawals := t } := by
  have hself : w ∈ t := (Table.mem_insert hinsert).mpr (.inr rfl)
  have hpresent : ∀ now, Db.Present { s with withdrawals := t } now → s.Present now :=
    fun now hnow w' hw' => hnow w' ((Table.mem_insert hinsert).mpr (.inl hw'))
  -- no other live row of the client is on the receipt
  have hother : ∀ now, Db.Present { s with withdrawals := t } now → ∀ w' ∈ s.withdrawals,
      ∀ receiptId, w.LiveOn receiptId now → w'.LiveOn receiptId now → w'.clientId ≠ w.clientId := by
    rintro now hnow w' hw' receiptId ⟨rfl, -, -⟩ ⟨hreceipt, hstatus, hwindow⟩ hclient
    obtain ⟨-, r', hfind', htenant'⟩ := hs.owned w' hw' hstatus
    rw [hreceipt, hfind] at hfind'
    obtain rfl := Option.some_inj.mp hfind'
    apply hfree w' hw' hclient
    exact ⟨htenant'.symm.trans htenant, hreceipt, hstatus,
      lt_of_le_of_lt (pendingPaymentCutoff_mono (hnow w hself)) hwindow⟩
  constructor
  · exact hs.stocked
  · intro w' hw' hstatus
    rcases (Table.mem_insert hinsert).mp hw' with hold | rfl
    · exact hs.owned w' hold hstatus
    · exact ⟨hquantity, r, hfind, htenant⟩
  · intro now hnow r' hr'
    have hsum : reservedOn { s with withdrawals := t } r'.id now =
        reservedOn s r'.id now + w.claimOn r'.id now := Table.sumOf_insert hinsert _
    rw [hsum]
    by_cases hlive : w.LiveOn r'.id now
    · have hfind' := Table.find_of_mem hr'
      rw [key_receipt, ← hlive.1, hfind] at hfind'
      obtain rfl := Option.some_inj.mp hfind'
      have hroom := hs.reservedOn_le hfind (hnow w hself)
      rw [← hlive.1, Withdrawal.claimOn, if_pos ⟨rfl, hlive.2⟩]
      rw [htenant] at hroom
      linarith
    · rw [Withdrawal.claimOn, if_neg hlive, add_zero]
      exact hs.bounded now (hpresent now hnow) r' hr'
  · intro now hnow receiptId a ha b hb halive hblive hclient
    rcases (Table.mem_insert hinsert).mp ha with hold | rfl
    · rcases (Table.mem_insert hinsert).mp hb with hold' | rfl
      · exact hs.single now (hpresent now hnow) receiptId a hold b hold' halive hblive hclient
      · exact absurd hclient (hother now hnow a hold receiptId hblive halive)
    · rcases (Table.mem_insert hinsert).mp hb with hold' | rfl
      · exact absurd hclient.symm (hother now hnow b hold' receiptId halive hblive)
      · rfl

/-- The ledger moves on: receipts keep their volumes, and no row is on a new one. -/
theorem Reservations.later (hs : Reservations s) {ledger : Ledger}
    (hlater : Later s.ledger ledger) (hstocked : ∀ r ∈ ledger.receipts, 0 ≤ r.quantity) :
    Reservations { s with ledger } := by
  constructor
  · exact hstocked
  · intro w hw hstatus
    obtain ⟨hquantity, r, hfind, htenant⟩ := hs.owned w hw hstatus
    obtain ⟨r', hfind', hnode, -⟩ := hlater.find hfind
    exact ⟨hquantity, r', hfind', hnode.tenantId.trans htenant⟩
  · intro now hnow r' hr'
    by_cases hclaimed : ∃ w ∈ s.withdrawals, w.LiveOn r'.id now
    · obtain ⟨w, hw, hlive⟩ := hclaimed
      obtain ⟨-, r, hfind, -⟩ := hs.owned w hw hlive.2.1
      rw [hlive.1] at hfind
      obtain ⟨r'', hfind', hnode, -⟩ := hlater.find hfind
      have hself : ledger.receipts.find r'.id = some r' := Table.find_of_mem hr'
      rw [hself] at hfind'
      obtain rfl := Option.some_inj.mp hfind'
      have hbound := hs.bounded now hnow r (Table.mem_of_find hfind)
      rw [hnode.quantity, hnode.id]
      exact hbound
    · have hzero : reservedOn s r'.id now = 0 := by
        apply Table.sumOf_eq_zero
        intro w hw
        exact if_neg fun hlive => hclaimed ⟨w, hw, hlive⟩
      exact hzero.trans_le (hstocked r' hr')
  · exact hs.single

end Claims

section Requests

variable {num : Numeric} {request : Request} {s : Db} {by_ : Issuer} {α : Type}

/-- A ledger call whose new receipts have volumes. -/
theorem safe_moveLedger {op : LedgerOp} {tx : Tx α} {uuids : Uuids} {wrap : α → LedgerResult}
    {g : α → Api Unit} (hcall : op.call num uuids = wrap <$> tx)
    (hcreated : ∀ ledger events change result, Effect num uuids ledger op events change result →
      ∀ k ∈ change.created, 0 ≤ k.quantity)
    (hnext : ∀ a s', (reservations.named request).Safe (g a) s') :
    (reservations.named request).Safe (Api.ledger by_ op tx >>= g : Api Unit) s := by
  apply keeps_ledger (fun _ _ => trivial) hcall
  intro s' a ledger _ hs _ houtcome
  have hmoved : Reservations { s' with ledger } ∧ Later s'.ledger ledger := by
    cases houtcome with
    | replayed e prior reconstructs same =>
        subst same
        exact ⟨hs, .refl _⟩
    | committed free events change effect commits =>
        have hlater := commits.later effect
        refine ⟨hs.later hlater ?_, hlater⟩
        intro r hr
        rcases commits.mem_receipts.mp hr with ⟨r₀, hr₀, rfl⟩ | hnew
        · rw [(commits.advance effect hr₀).1.quantity]
          exact hs.stocked r₀ hr₀
        · exact hcreated _ _ _ _ effect r hnew
  exact ⟨hmoved.1, hmoved.2, False.elim, hnext a _⟩

/-- A rewrite that keeps or ends the claim of a row, at the end of a request. -/
theorem safe_amend {id : Id} {f : Withdrawal → Withdrawal}
    {hf : ∀ w, Keyed.key (f w) = Keyed.key w} (hlessens : ∀ w, Lessens w (f w)) :
    (reservations.named request).Safe (updateWithdrawal by_ id f hf) s := by
  apply Contract.safe_write_last
  intro s' _ s'' _ hs _ hok
  obtain ⟨withdrawals, hupdate, hpair⟩ := map_ok.mp hok
  obtain ⟨-, rfl⟩ := Prod.mk.inj hpair
  obtain ⟨w, -, rfl⟩ := updateRow_ok.mp hupdate
  have hs'' : Reservations { s' with withdrawals := s'.withdrawals.modify id f hf } :=
    hs.rewrite hlessens
  exact ⟨hs'', .refl _, fun hdebt => hdebt⟩

/-- A row that no longer awaits its payment claims nothing. -/
theorem Lessens.ended {w w' : Withdrawal} (hid : w'.id = w.id)
    (hcreated : w'.createdAt = w.createdAt) (hstatus : w'.status ≠ .pendingPayment) :
    Lessens w w' :=
  ⟨hid, hcreated, fun hpending => absurd hpending hstatus⟩

theorem safe_party {tenantId actorUserId clientId receiptId : Id} {actorRoles : List Role}
    {e : ApiError} {g : Unit → Api Unit}
    (h : ∀ s', (reservations.named request).Safe (g ()) s') :
    (reservations.named request).Safe
      (requireParty tenantId actorUserId actorRoles clientId receiptId e >>= g : Api Unit) s := by
  apply Contract.safe_bind
  · unfold requireParty
    split
    · trivial
    · split
      · apply Contract.safe_find
        intro s' receipt _ _ _
        apply Contract.safe_read
        intro s' _ _
        unfold Api.throwIf Attempt.throwIf
        split <;> trivial
      · trivial
  · intro _ s' _
    exact h s'

/-- A creation leaves its row as affordable as it found it to be. -/
theorem createWithdrawalRequest_reserves (dto : CreateWithdrawal) :
    (reservations.named (.createWithdrawalRequest dto)).Safe (createWithdrawalRequest dto) s := by
  apply Contract.safe_throwIf
  intro hpositive
  apply Contract.safe_ofExcept
  intro _ _
  apply Contract.safe_read
  intro s₁ _ _
  apply Contract.safe_orThrow
  intro r hr
  obtain ⟨hfind, htenant⟩ := Option.filter_eq_some_iff.mp hr
  have hid : r.id = dto.receiptId := Table.key_of_find hfind
  apply Contract.safe_throwIf
  intro _
  apply Contract.safe_throwIf
  intro _
  apply Contract.safe_throwIf
  intro _
  apply Contract.safe_read
  intro s₂ hrely₂ _
  apply Contract.safe_throwIf
  intro _
  apply Contract.safe_read
  intro s₃ hrely₃ _
  apply Contract.safe_throwIf
  intro _
  apply Contract.safe_ofExcept
  intro storageFee _
  apply Contract.safe_write_last
  intro s' _ s'' hrely hs hadmits hok
  split at hok
  · cases hok
    exact ⟨hs, .refl _, fun hdebt => hdebt⟩
  · obtain ⟨withdrawals, hcreate, hpair⟩ := map_ok.mp hok
    obtain ⟨-, rfl⟩ := Prod.mk.inj hpair
    obtain ⟨-, hinsert⟩ := createRow_ok.mp hcreate
    -- the receipt is still there, and the run admits the row on it
    have hlater : Later s₁.ledger s'.ledger := (hrely₂.trans hrely₃).trans hrely
    obtain ⟨r', hfind', hnode, -⟩ := hlater.find hfind
    obtain ⟨hcovered, hfree⟩ := hadmits dto rfl r' hfind'
    rw [← hid] at hcovered hfree hfind'
    have hs'' := hs.create hinsert (le_of_not_ge hpositive) hfind'
      (hnode.tenantId.trans (by simpa using htenant)) hcovered hfree
    exact ⟨hs'', .refl _, fun hdebt => hdebt⟩

/-- The cron ends the claims of the rows whose window is over. -/
theorem expirePendingPayment_reserves (now : Timestamp) :
    (reservations.named request).Safe (expirePendingPayment now) s := by
  apply Contract.safe_read
  intro s₁ _ _
  split
  · trivial
  · apply Contract.safe_write_last
    intro s' _ s'' _ hs _ hok
    obtain ⟨-, rfl⟩ := Prod.mk.inj (Except.ok.inj hok)
    refine ⟨hs.rewrite ?_, .refl _, fun hdebt => hdebt⟩
    intro w
    exact .ended rfl rfl (by simp)

/-- The receipts that a hold creates have volumes, if rounding keeps the sign. -/
theorem hold_created_nonneg (hsign : ∀ x, 0 ≤ x → 0 ≤ num.numeric18_3 x) {uuids : Uuids}
    {input : HoldInput} {ledger : Ledger} {events : List InventoryEvent} {change : Change}
    {result : LedgerResult} (h : Effect num uuids ledger (.hold input) events change result)
    {k : Receipt} (hk : k ∈ change.created) : 0 ≤ k.quantity := by
  cases h with
  | hold _ src number number' loaded active approved leaf positive available =>
      rcases List.mem_cons.mp hk with rfl | hk
      · exact hsign _ positive.le
      · unfold partitionRemainder at hk
        split at hk
        · rename_i hrest
          obtain rfl := List.mem_singleton.mp hk
          exact hsign _ hrest.le
        · cases hk

/-- Every withdrawal request keeps its part of the contract. -/
theorem safe_withdrawal (hsign : ∀ x, 0 ≤ x → 0 ≤ num.numeric18_3 x) (h : request.Withdraws) :
    (reservations.named request).Safe (request.run num) s := by
  cases h with
  | create dto => exact createWithdrawalRequest_reserves dto
  | confirm uuids tenantId withdrawalId actorUserId actorRoles =>
      apply Contract.safe_find
      intro s' w _ _ _
      apply safe_party
      intro s'
      apply Contract.safe_throwIf
      intro _
      apply safe_moveLedger rfl fun _ _ _ _ heffect k hk => hold_created_nonneg hsign heffect hk
      intro result s'
      apply Contract.safe_orThrow
      intro held _
      apply safe_amend
      intro w
      exact .ended rfl rfl (by simp)
  | approve uuids tenantId withdrawalId actorUserId =>
      apply Contract.safe_find
      intro s' w _ _ _
      apply Contract.safe_throwIf
      intro _
      have hcall : ∀ ctx receiptId, (LedgerOp.approveHold ctx receiptId).call num uuids =
          .node <$> Inventory.approveHold num uuids ctx receiptId := fun _ _ => rfl
      apply safe_moveLedger (hcall _ _)
      · intro _ _ _ _ heffect k hk
        cases heffect
        cases hk
      intro r s'
      apply safe_amend
      intro w
      exact .ended rfl rfl (by simp)
  | reject uuids tenantId withdrawalId actorUserId reason =>
      apply Contract.safe_find
      intro s' w _ _ _
      apply Contract.safe_throwIf
      intro _
      apply Contract.safe_bind
      · apply Contract.safe_read
        intro s' _ _
        split
        · trivial
        · split
          · apply safe_moveLedger rfl
            · intro _ _ _ _ heffect k hk
              cases heffect
              cases hk
            · intro _ _
              trivial
          · trivial
      · intro _ s' _
        split
        · trivial
        · apply safe_amend
          intro w
          exact .ended rfl rfl (by simp)
  | complete uuids storageFee tenantId withdrawalId actorUserId =>
      apply Contract.safe_find
      intro s' w _ _ _
      apply Contract.safe_throwIf
      intro _
      apply safe_moveLedger rfl
      · intro _ _ _ _ heffect k hk
        cases heffect
        cases hk
      intro r s'
      apply Contract.safe_read
      intro s' _ _
      apply Contract.safe_orThrow
      intro _ _
      apply Contract.safe_ofExcept
      intro finalStorageFee _
      apply safe_amend
      intro w
      exact .ended rfl rfl (by simp)
  | edit dto =>
      apply Contract.safe_find
      intro s' w _ _ _
      apply Contract.safe_throwIf
      intro _
      apply safe_party
      intro s'
      apply Contract.safe_throwIf
      intro _
      dsimp only
      split
      · trivial
      · apply safe_amend
        intro w
        exact ⟨rfl, rfl, fun hstatus => ⟨hstatus, rfl, rfl, rfl, rfl⟩⟩
  | expire now => exact expirePendingPayment_reserves now

end Requests

/-- In every interleaving of withdrawal requests in which each row is still affordable when
it is created, the live rows on a receipt take no more than it has in every state, and no
client has two of them. -/
theorem reservations_hold {num : Numeric} (hsign : ∀ x, 0 ≤ x → 0 ≤ num.numeric18_3 x)
    (requests : List Request) (hrequests : ∀ request ∈ requests, request.Withdraws) {s s' : Db}
    {trace : List (Transition (Request × Label) Db)}
    {pool : List (Process (Request × Label) Db (Except ApiError Unit))}
    (hrun : Run s (requests.map fun request => Process.tag request (request.run num)) trace s'
      pool)
    (hstart : Reservations s) (hadmits : ∀ t ∈ trace, StillAffordable t.label t.before) :
    Reservations s' ∧ ∀ t ∈ trace, Reservations t.after := by
  have hholds : reservations.Holds s
      (requests.map fun request => Process.tag request (request.run num)) := by
    refine ⟨hstart, ?_, fun hdebt => hdebt.elim⟩
    intro p hp
    obtain ⟨request, hrequest, rfl⟩ := List.mem_map.mp hp
    exact Contract.Keeps.tag (safe_withdrawal hsign (hrequests request hrequest))
  have hrun := hholds.run hrun hadmits
  refine ⟨hrun.final.inv, ?_⟩
  intro t ht
  obtain ⟨-, -, hinv, -, -⟩ := hrun.each t ht
  exact hinv

/-- A withdrawal of part of receipt 102 at the start of the clock. -/
def sampleRequest (withdrawalId : Id) (reference : String) (clientId : Id) (quantity : ℚ) :
    Request :=
  .createWithdrawalRequest
    { withdrawalId := withdrawalId, reference := reference, now := 0, auth := .ok ()
      storageFee := .ok 0, tenantId := 1, clientId := clientId, receiptId := 102
      quantity := quantity, reason := none, plannedDate := 0 }

/-- Requests for the ten units of receipt 102 under a schedule. -/
def reservationRace (requests : List Request) (schedule : List ℕ) :
    List (Transition (Request × Label) Db) × Db ×
      List (Process (Request × Label) Db (Except ApiError Unit)) :=
  interleave schedule (runRequests .decimalJs sampleStock (Db.initial sampleDirectory))
    (requests.map fun request => Process.tag request (request.run .decimalJs))

theorem sampleStock_reservations :
    Reservations (runRequests .decimalJs sampleStock (Db.initial sampleDirectory)) := by
  have hnone : (runRequests .decimalJs sampleStock (Db.initial sampleDirectory)).withdrawals.rows =
      [] := by decide +kernel
  have hstocked : ∀ r ∈ (runRequests .decimalJs sampleStock
      (Db.initial sampleDirectory)).ledger.receipts.rows, 0 ≤ r.quantity := by decide +kernel
  constructor
  · exact hstocked
  · intro w hw
    rw [Table.mem_def, hnone] at hw
    cases hw
  · intro now _ r hr
    unfold reservedOn Table.sumOf
    rw [hnone]
    exact hstocked r hr
  · intro now _ receiptId w hw
    rw [Table.mem_def, hnone] at hw
    cases hw

/-- Six and four units of two clients, the second once the first is in the count. -/
theorem reservations_hold_sample :
    Reservations (reservationRace
        [sampleRequest 9 "WD-1" 10 6, sampleRequest 19 "WD-2" 11 4, .expirePendingPayment 1]
        [0, 1, 0, 0, 0, 1, 2, 1, 1]).2.1 ∧
      reservedOn (reservationRace
        [sampleRequest 9 "WD-1" 10 6, sampleRequest 19 "WD-2" 11 4, .expirePendingPayment 1]
        [0, 1, 0, 0, 0, 1, 2, 1, 1]).2.1 102 0 = 10 := by
  constructor
  · have hwithdraws : ∀ request ∈ [sampleRequest 9 "WD-1" 10 6, sampleRequest 19 "WD-2" 11 4,
        .expirePendingPayment 1], request.Withdraws := by
      simp only [List.forall_mem_cons, List.not_mem_nil, false_imp_iff, implies_true, and_true]
      exact ⟨.create _, .create _, .expire _⟩
    exact (reservations_hold (fun _ hx => hx) _ hwithdraws
      (run_interleave [0, 1, 0, 0, 0, 1, 2, 1, 1] _ _) sampleStock_reservations
      (by decide +kernel)).1
  · decide +kernel

/-- Two requests of one client for six units each count the live rows before either has
created its own: neither of the two promises is kept. -/
theorem two_requests_overbook :
    ¬ ∀ (requests : List Request) (s s' : Db)
        (trace : List (Transition (Request × Label) Db))
        (pool : List (Process (Request × Label) Db (Except ApiError Unit))),
        (∀ request ∈ requests, request.Withdraws) → Reservations s →
        Run s (requests.map fun request => Process.tag request (request.run .decimalJs)) trace s'
          pool →
          (∀ now, s'.Present now → ∀ r ∈ s'.ledger.receipts, r.status = .active →
              reservedOn s' r.id now ≤ r.quantity) ∨
            ∀ now, s'.Present now → ∀ receiptId, ∀ w ∈ s'.withdrawals, ∀ w' ∈ s'.withdrawals,
              w.LiveOn receiptId now → w'.LiveOn receiptId now → w.clientId = w'.clientId →
                w.id = w'.id := by
  intro hclaim
  let race := reservationRace [sampleRequest 9 "WD-1" 10 6, sampleRequest 19 "WD-2" 10 6]
    [0, 0, 0, 1, 1, 1, 0, 1]
  have hpresent : ∀ w ∈ race.2.1.withdrawals.rows, w.createdAt ≤ 0 := by decide +kernel
  have hwithdraws : ∀ request ∈ [sampleRequest 9 "WD-1" 10 6, sampleRequest 19 "WD-2" 10 6],
      request.Withdraws := by
    simp only [List.forall_mem_cons, List.not_mem_nil, false_imp_iff, implies_true, and_true]
    exact ⟨.create _, .create _⟩
  rcases hclaim _ _ race.2.1 _ _ hwithdraws sampleStock_reservations (run_interleave _ _ _) with
    hbounded | hsingle
  · have hover : ∃ r ∈ race.2.1.ledger.receipts.rows, r.status = .active ∧
        r.quantity < reservedOn race.2.1 r.id 0 := by decide +kernel
    obtain ⟨r, hr, hactive, hlt⟩ := hover
    exact absurd (hbounded 0 hpresent r hr hactive) (not_le_of_gt hlt)
  · have htwo : ∃ w ∈ race.2.1.withdrawals.rows, ∃ w' ∈ race.2.1.withdrawals.rows,
        w.LiveOn 102 0 ∧ w'.LiveOn 102 0 ∧ w.clientId = w'.clientId ∧ w.id ≠ w'.id := by
      decide +kernel
    obtain ⟨w, hw, w', hw', hlive, hlive', hclient, hid⟩ := htwo
    exact absurd (hsingle 0 hpresent 102 w hw w' hw' hlive hlive' hclient) hid

end SecureStore.Services
