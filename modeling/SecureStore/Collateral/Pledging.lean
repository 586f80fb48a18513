/-
# Pledges within the available volume

A client pledges volume that its receipt shows as available. The guards of the request add up
the ACTIVE leaves of the tree; the ledger is then asked to hold volume of the receipt itself. So
once a receipt was split, nothing of what it shows can be pledged through it.
-/

import SecureStore.Access.OnBehalf
import SecureStore.Collateral.Encumbrance

namespace SecureStore.Services

open SecureStore.Foundation SecureStore.Inventory SecureStore.Access

/-- The ids that the request draws are new. -/
structure CreatePledge.Fresh (dto : CreatePledge) (db : Db) : Prop where
  pledge : db.pledges.find dto.pledgeId = none
  uuids : dto.uuids.Fresh db.ledger
  key : db.ledger.events.find [.text "pledge", .text "create", .uuid dto.pledgeId] = none

/-- The financier has an ACTIVE link of a tenant to a warehouse. -/
def WarehouseLinked (db : Db) (tenantId financierOrgId warehouseId : Id) : Prop :=
  ∃ link ∈ db.directory.warehouseLinks, link.tenantId = tenantId ∧
    link.financierOrgId = financierOrgId ∧ link.warehouseId = warehouseId ∧
      link.status = .active

instance (db : Db) (tenantId financierOrgId warehouseId : Id) :
    Decidable (WarehouseLinked db tenantId financierOrgId warehouseId) :=
  inferInstanceAs (Decidable (∃ link ∈ db.directory.warehouseLinks.rows,
    link.tenantId = tenantId ∧ link.financierOrgId = financierOrgId ∧
      link.warehouseId = warehouseId ∧ link.status = .active))

/-- One new PENDING pledge came of the request, and a new leaf of its quantity is held for it. -/
def PledgePlaced (dto : CreatePledge) (leaf : ℚ) (quantity : ℚ) (db db' : Db) : Prop :=
  ∃ p k, db'.pledges.rows = db.pledges.rows ++ [p] ∧ p.status = .pending ∧
    p.receiptId = dto.receiptId ∧ p.clientId = dto.callerUserId ∧
    p.financierOrgId = dto.financierId ∧ p.quantity = quantity ∧ p.heldReceiptId = some k.id ∧
    db.ledger.receipts.find k.id = none ∧ k ∈ db'.ledger.receipts ∧ k.isParent = false ∧
    k.status = .heldPledgePending ∧ k.quantity = leaf

/-- The request placed one pledge, of one leaf. -/
theorem PledgePlaced.unique {dto : CreatePledge} {leaf leaf' quantity quantity' : ℚ} {db db' : Db}
    (h : PledgePlaced dto leaf quantity db db') (h' : PledgePlaced dto leaf' quantity' db db') :
    leaf = leaf' ∧ quantity = quantity' := by
  obtain ⟨p, k, hrows, -, -, -, -, hquantity, hheld, -, hk, -, -, hleaf⟩ := h
  obtain ⟨p', k', hrows', -, -, -, -, hquantity', hheld', -, hk', -, -, hleaf'⟩ := h'
  obtain rfl : p = p' := by
    simpa using hrows.symm.trans hrows'
  obtain rfl : k = k' := Table.eq_of_key_eq hk hk' (Option.some_inj.mp (hheld.symm.trans hheld'))
  exact ⟨hleaf.symm.trans hleaf', hquantity.symm.trans hquantity'⟩

/-- The request goes through, and what it leaves is a pledge of the quantity. -/
def PledgedThrough (num : Numeric) (dto : CreatePledge) (db : Db) : Prop :=
  ∃ db', (createPledge num dto).exec db = (.ok (), db') ∧
    PledgePlaced dto dto.quantity dto.quantity db db'

section Request

variable {num : Numeric} {dto : CreatePledge} {db : Db} {r : Receipt}

theorem findWarehouseLink_iff {tenantId financierOrgId warehouseId : Id} {org : FinancierOrg} :
    findWarehouseLink db tenantId financierOrgId warehouseId = some org ↔
      WarehouseLinked db tenantId financierOrgId warehouseId ∧
        db.directory.financierOrgs.find financierOrgId = some org := by
  simp only [findWarehouseLink, Option.bind_eq_bind, Option.bind_eq_some_iff]
  constructor
  · rintro ⟨link, hlink, horg⟩
    have hmatches := List.find?_some hlink
    rw [decide_eq_true_eq] at hmatches
    exact ⟨⟨link, List.mem_of_find?_eq_some hlink, hmatches⟩, hmatches.2.1 ▸ horg⟩
  · rintro ⟨⟨link, hmem, hmatches⟩, horg⟩
    cases hfind : db.directory.warehouseLinks.rows.find? fun l => l.tenantId = tenantId ∧
        l.financierOrgId = financierOrgId ∧ l.warehouseId = warehouseId ∧ l.status = .active with
    | none =>
        exact absurd (decide_eq_true hmatches) (List.find?_eq_none.mp hfind link hmem)
    | some first =>
        have hfirst := List.find?_some hfind
        rw [decide_eq_true_eq] at hfirst
        exact ⟨first, rfl, hfirst.2.1.symm ▸ horg⟩

/-- What the hold of a pledge is asked for. -/
def pledgeHold (dto : CreatePledge) (r : Receipt) : HoldInput where
  tenantId := r.tenantId
  sourceReceiptId := r.id
  quantity := dto.quantity
  heldStatus := .heldPledgePending
  txnType := .pledge
  txnId := dto.pledgeId
  actorUserId := some dto.callerUserId
  idempotencyKey := [.text "pledge", .text "create", .uuid dto.pledgeId]

/-- A hold under a new key leaves a new leaf. -/
theorem hold_leaf {uuids : Uuids} {input : HoldInput} {s s' : Ledger} {result : HoldResult}
    {held : Receipt} (hfresh : uuids.Fresh s) (hkey : s.events.find input.idempotencyKey = none)
    (h : hold num uuids input s = .ok (result, s')) (hheld : result.held = some held) :
    s.receipts.find held.id = none ∧ held ∈ s'.receipts ∧ held.isParent = false ∧
      held.status = input.heldStatus.status ∧ held.quantity = num.numeric18_3 input.quantity := by
  have houtcome : Outcome num uuids (.hold input) s (.held result) s' :=
    call_outcome (Tx.map_ok.mpr ⟨result, h, rfl⟩)
  cases houtcome with
  | replayed e prior => cases hkey.symm.trans prior
  | committed free events change effect commits =>
      cases effect with
      | hold input src number number' =>
          obtain rfl := Option.some_inj.mp hheld
          exact ⟨hfresh.primary, commits.mem_receipts.mpr (.inr List.mem_cons_self), rfl, rfl, rfl⟩

/-- What the request asks of its client, receipt and financier, and of the ledger. -/
structure Pledgeable (dto : CreatePledge) (db : Db) (u : User) (r : Receipt)
    (org : FinancierOrg) : Prop where
  user : db.directory.users.find dto.callerUserId = some u
  receipt : db.ledger.receipts.find dto.receiptId = some r
  owner : r.clientId = dto.callerUserId
  tenant : r.tenantId = u.tenantId
  positive : 0 < dto.quantity
  available : dto.quantity ≤ availableOf db r
  linked : WarehouseLinked db u.tenantId dto.financierId r.warehouseId
  financier : db.directory.financierOrgs.find dto.financierId = some org
  active : org.status = .active
  holdable : Holdable db.ledger (pledgeHold dto r) r

/-- The available volume of a receipt is shown to its client. -/
theorem getReceiptEncumbrance_exec {receiptId : Id} {available : ℚ} {db' : Db} :
    (getReceiptEncumbrance dto.callerUserId receiptId).exec db = (.ok available, db') ↔
      ∃ r, db.ledger.receipts.find receiptId = some r ∧ r.clientId = dto.callerUserId ∧
        availableOf db r = available ∧ db = db' := by
  cases hfind : db.ledger.receipts.find receiptId with
  | none =>
      simp [getReceiptEncumbrance, Api.query, Api.orThrow, hfind, Attempt.exec_bind]
  | some r =>
      by_cases howner : r.clientId = dto.callerUserId
      · simp [getReceiptEncumbrance, Api.query, Api.orThrow, Api.throwIf, hfind, howner,
          Attempt.exec_bind, Attempt.exec_throwIf]
      · simp [getReceiptEncumbrance, Api.query, Api.orThrow, Api.throwIf, hfind, howner,
          Attempt.exec_bind, Attempt.exec_throwIf]

/-- The request succeeds exactly when its guards and those of the ledger hold. -/
theorem createPledge_succeeds (hcustody : Custody db) (hfresh : dto.Fresh db) :
    (createPledge num dto).Succeeds db ↔ ∃ u r org, Pledgeable dto db u r org := by
  have hcreate : ∀ (r : Receipt) (row : Receipt → Pledge), (∀ held, (row held).id = dto.pledgeId) →
      ∀ result held ledger,
        hold num dto.uuids (pledgeHold dto r) db.ledger = .ok (result, ledger) →
          result.held = some held →
          ((Api.write (.createPledge dto.pledgeId) fun db =>
              (createRow db.pledges (row held) fun x => x.heldReceiptId = some held.id).map
                fun pledges => ((), { db with pledges })).Succeeds { db with ledger } ↔ True) := by
    intro r row hid result held ledger hhold hheld
    simp only [Api.write, succeeds_write_last, iff_true]
    obtain ⟨hnew, -⟩ := hold_leaf hfresh.uuids hfresh.key hhold hheld
    apply (succeeds_createRow _).mpr
    · intro x hx hunique
      obtain ⟨k, hk, -⟩ := hcustody.pledges x hx held.id hunique
      cases hnew.symm.trans hk
    · rw [key_pledge, hid held]
      exact hfresh.pledge
  have hhold : ∀ (r : Receipt) (row : Receipt → Pledge), (∀ held, (row held).id = dto.pledgeId) →
      ((Api.hold num (.createPledge dto.pledgeId) dto.uuids (pledgeHold dto r) >>= fun result =>
          Api.heldOf result >>= fun held => Api.write (.createPledge dto.pledgeId) fun db =>
            (createRow db.pledges (row held) fun x => x.heldReceiptId = some held.id).map
              fun pledges => ((), { db with pledges })).Succeeds db ↔
        ∃ src, Holdable db.ledger (pledgeHold dto r) src) := by
    intro r row hid
    rw [hold_then_succeeds hfresh.uuids hfresh.key (hcreate r row hid), and_true]
  unfold createPledge
  simp only [Api.query, Api.orThrow, Api.throwIf, succeeds_read, succeeds_orThrow,
    succeeds_throwIf]
  constructor
  · rintro ⟨u, huser, r, hfound, hstatus, hpositive, hrest⟩
    obtain ⟨hr, howner, htenant⟩ : db.ledger.receipts.find dto.receiptId = some r ∧
        r.clientId = dto.callerUserId ∧ r.tenantId = u.tenantId := by
      simpa [Option.filter_eq_some_iff] using hfound
    obtain ⟨available, db', hexec, hrest⟩ := succeeds_bind.mp hrest
    obtain ⟨shown, hshown, -, rfl, rfl⟩ := getReceiptEncumbrance_exec.mp hexec
    simp only [succeeds_read, succeeds_orThrow, succeeds_throwIf] at hrest
    obtain ⟨havailable, org, hlink, hactive, hrest⟩ := hrest
    obtain ⟨src, hsrc⟩ := (hhold r _ fun _ => rfl).mp hrest
    obtain ⟨hlinked, horg⟩ := findWarehouseLink_iff.mp hlink
    have hself : db.ledger.receipts.find r.id = some r := Table.find_of_mem (Table.mem_of_find hr)
    obtain rfl : shown = r := Option.some_inj.mp (hshown.symm.trans hself)
    obtain rfl : src = shown := Option.some_inj.mp (hsrc.loaded.1.symm.trans hself)
    exact ⟨u, src, org, huser, hr, howner, htenant, not_le.mp hpositive, not_lt.mp havailable,
      hlinked, horg, not_not.mp hactive, hsrc⟩
  · rintro ⟨u, r, org, h⟩
    have hself : db.ledger.receipts.find r.id = some r :=
      Table.find_of_mem (Table.mem_of_find h.receipt)
    refine ⟨u, h.user, r, ?_, ?_, not_le.mpr h.positive, succeeds_bind.mpr ⟨availableOf db r, db,
      getReceiptEncumbrance_exec.mpr ⟨r, hself, h.owner, rfl, rfl⟩, ?_⟩⟩
    · simp [Option.filter_eq_some_iff, h.receipt, h.owner, h.tenant]
    · simp [h.holdable.active]
    simp only [succeeds_read, succeeds_orThrow, succeeds_throwIf]
    exact ⟨not_lt.mpr h.available, org, findWarehouseLink_iff.mpr ⟨h.linked, h.financier⟩,
      not_not.mpr h.active, (hhold r _ fun _ => rfl).mpr ⟨r, h.holdable⟩⟩

/-- What the request leaves when it succeeds. -/
theorem createPledge_placed (hfresh : dto.Fresh db) {db' : Db}
    (h : (createPledge num dto).exec db = (.ok (), db')) :
    PledgePlaced dto (num.numeric18_3 dto.quantity) (num.numeric20_4 dto.quantity) db db' := by
  have hensures : Process.Ensures (fun _ => True)
      (fun result db' => result = .ok () → PledgePlaced dto (num.numeric18_3 dto.quantity)
        (num.numeric20_4 dto.quantity) db db') (createPledge num dto) db := by
    unfold createPledge
    refine ensures_read trivial (ensures_orThrow (fun _ => nofun) fun u huser => ?_)
    refine ensures_read trivial (ensures_orThrow (fun _ => nofun) fun r hr => ?_)
    refine ensures_throwIf (fun _ => nofun) fun hstatus => ensures_throwIf (fun _ => nofun)
      fun hpositive => ensures_bind ?_
    refine ensures_find trivial (fun _ => nofun) fun shown hshown => ?_
    refine ensures_throwIf (fun _ => nofun) fun howner => ensures_read_last trivial ?_
    refine continues_ok.mpr (ensures_throwIf (fun _ => nofun) fun havailable => ?_)
    refine ensures_read trivial (ensures_orThrow (fun _ => nofun) fun org hlink => ?_)
    refine ensures_throwIf (fun _ => nofun) fun hactive => ?_
    refine ensures_write (fun _ _ => ⟨trivial, nofun⟩) fun result s' hheld => ⟨trivial, ?_⟩
    obtain ⟨ledger, hhold, rfl⟩ := Api.within_ok hheld
    refine ensures_orThrow (fun _ => nofun) fun held hheld => ?_
    refine ensures_write_last (fun _ _ => ⟨trivial, nofun⟩) fun _ s' hcreate => ⟨trivial, ?_⟩
    rintro -
    obtain ⟨t, hcreated, hresult⟩ := map_ok.mp hcreate
    cases hresult
    obtain ⟨-, hrows⟩ := Table.insert_eq_some_iff.mp (createRow_ok.mp hcreated).2
    obtain ⟨hnew, hmem, hleaf, hheldStatus, hquantity⟩ :=
      hold_leaf hfresh.uuids hfresh.key hhold hheld
    have hreceipt : r.id = dto.receiptId := Table.key_of_find (Option.filter_eq_some_iff.mp hr).1
    exact ⟨_, held, hrows, rfl, hreceipt, rfl, rfl, rfl, rfl, hnew, hmem, hleaf, hheldStatus,
      hquantity⟩
  have hexec : Process.exec (createPledge num dto) db = (.ok (), db') := h
  have hpost := hensures.exec
  rw [hexec] at hpost
  exact hpost rfl

end Request

/-- The volume that the ledger would hold of an available receipt is what the receipt shows, as
long as the receipt was not split. -/
theorem availableOf_active {db : Db} {r : Receipt} (h : Ancestry db.ledger)
    (hr : r ∈ db.ledger.receipts) (hactive : r.status = .active) :
    availableOf db r = r.quantity := by
  rw [availableOf_eq]
  by_cases hroot : r.parentReceiptId = none
  · rw [volumeIn_root h hr hroot (by decide), subtree_leaf h hr (by simp [hactive]),
      sumQuantity_filter]
    simp [hactive]
  · rw [volumeIn_inner h hr hroot (by decide), if_pos hactive]

/-- A pledge of volume that a receipt shows as available goes through exactly when the receipt is
ACTIVE and so was not split, its client has a row in the receipt's tenant with the financier linked
there, and the quantity has three decimals at most. -/
theorem pledged_through_iff {directory : Directory} {requests : List Request}
    {trace : List (Transition Label Db)} {db : Db} {pool : List (Api Unit)}
    (h : Run (Db.initial directory) (requests.map (Request.run .postgres)) trace db pool)
    {dto : CreatePledge} {r : Receipt} {org : FinancierOrg} {available : ℚ}
    (hr : db.ledger.receipts.find dto.receiptId = some r) (howner : r.clientId = dto.callerUserId)
    (horg : db.directory.financierOrgs.find dto.financierId = some org)
    (hactive : org.status = .active) (hpositive : 0 < dto.quantity)
    (hshown : (getReceiptEncumbrance dto.callerUserId r.id).exec db = (.ok available, db))
    (havailable : dto.quantity ≤ available) (hfresh : dto.Fresh db) :
    PledgedThrough .postgres dto db ↔
      r.status = .active ∧
        (∃ u, db.directory.users.find dto.callerUserId = some u ∧ u.tenantId = r.tenantId ∧
          WarehouseLinked db r.tenantId dto.financierId r.warehouseId) ∧
        HasScale 3 dto.quantity := by
  have hcustody : Custody db := (runs_custody .postgres directory requests h).final.inv
  have hancestry := (runs_grown keepsSign_postgres h).ancestry
  have hmem := Table.mem_of_find hr
  have hself : db.ledger.receipts.find r.id = some r := Table.find_of_mem hmem
  obtain ⟨shown, hfind, -, rfl, -⟩ := getReceiptEncumbrance_exec.mp hshown
  obtain rfl : shown = r := Option.some_inj.mp (hfind.symm.trans hself)
  constructor
  · rintro ⟨db', hexec, hplaced⟩
    obtain ⟨u, r, f, hpledgeable⟩ := (createPledge_succeeds hcustody hfresh).mp ⟨(), db', hexec⟩
    obtain rfl : shown = r := Option.some_inj.mp (hr.symm.trans hpledgeable.receipt)
    obtain ⟨hweight, -⟩ := hplaced.unique (createPledge_placed hfresh hexec)
    exact ⟨hpledgeable.holdable.active,
      ⟨u, hpledgeable.user, hpledgeable.tenant.symm, hpledgeable.tenant ▸ hpledgeable.linked⟩,
      roundScale_eq_self_iff.mp hweight.symm⟩
  · rintro ⟨hunsplit, ⟨u, huser, htenant, hlinked⟩, hscale⟩
    have hleaf : ¬ shown.isParent = true := by
      rw [hancestry.lifecycle.parent_iff shown hmem, hunsplit]
      decide
    have hholdable : Holdable db.ledger (pledgeHold dto shown) shown :=
      ⟨⟨hself, rfl⟩, hunsplit, hancestry.lifecycle.active_approved shown hmem hunsplit,
        Bool.not_eq_true _ ▸ hleaf, hpositive,
        availableOf_active hancestry hmem hunsplit ▸ havailable⟩
    obtain ⟨_, db', hexec⟩ := (createPledge_succeeds hcustody hfresh).mpr
      ⟨u, shown, org, huser, hr, howner, htenant.symm, hpositive, havailable,
        htenant.symm ▸ hlinked, horg, hactive, hholdable⟩
    have hplaced := createPledge_placed hfresh hexec
    rw [show Numeric.postgres.numeric18_3 dto.quantity = dto.quantity from
      roundScale_of_hasScale hscale, show Numeric.postgres.numeric20_4 dto.quantity = dto.quantity
      from roundScale_of_hasScale hscale.succ] at hplaced
    exact ⟨db', hexec, hplaced⟩

instance (dto : CreatePledge) (db : Db) : Decidable (dto.Fresh db) :=
  decidable_of_iff
    (db.pledges.find dto.pledgeId = none ∧ dto.uuids.Fresh db.ledger ∧
      db.ledger.events.find [.text "pledge", .text "create", .uuid dto.pledgeId] = none)
    ⟨fun ⟨pledge, uuids, key⟩ => ⟨pledge, uuids, key⟩, fun h => ⟨h.pledge, h.uuids, h.key⟩⟩

/-- Three units of receipt 102, pledged to organisation 30. -/
def sampleSmallPledge : CreatePledge where
  uuids := sampleUuids 180
  pledgeId := 17
  now := 0
  callerUserId := 10
  receiptId := 102
  quantity := 3
  financierId := 30
  note := none

/-- Of the ten units of a whole receipt, three can be pledged. -/
theorem pledged_through_iff_sample :
    PledgedThrough .postgres sampleSmallPledge (oneByOne sampleStock).2.1 := by
  obtain ⟨r, hr, u, huser, org, horg, howner, htenant, hunsplit, hlinked, hactive, havailable,
      hfresh⟩ :
      ∃ r ∈ (oneByOne sampleStock).2.1.ledger.receipts.find 102,
        ∃ u ∈ (oneByOne sampleStock).2.1.directory.users.find 10,
        ∃ org ∈ (oneByOne sampleStock).2.1.directory.financierOrgs.find 30,
          r.clientId = 10 ∧ u.tenantId = r.tenantId ∧ r.status = .active ∧
          WarehouseLinked (oneByOne sampleStock).2.1 r.tenantId 30 r.warehouseId ∧
            org.status = .active ∧
          3 ≤ availableOf (oneByOne sampleStock).2.1 r ∧
          sampleSmallPledge.Fresh (oneByOne sampleStock).2.1 := by
    decide +kernel
  have hself := Table.find_of_mem (Table.mem_of_find hr)
  refine (pledged_through_iff (run_oneByOne sampleStock) hr howner horg hactive
    (by decide +kernel) (getReceiptEncumbrance_exec.mpr ⟨r, hself, howner, rfl, rfl⟩) havailable
    hfresh).mpr ⟨hunsplit, ⟨u, huser, htenant, hlinked⟩, 3000, ?_⟩
  norm_num [sampleSmallPledge]

/-- Once six of the ten units are pledged, four are left on a leaf of their own. The receipt shows
them as available, and none of them can be pledged through it. -/
theorem available_volume_unpledgeable :
    ¬ ∀ (directory : Directory) (requests : List Request) (trace : List (Transition Label Db))
        (db : Db) (pool : List (Api Unit)),
      Run (Db.initial directory) (requests.map (Request.run .postgres)) trace db pool →
        ∀ (dto : CreatePledge) (u : User) (r : Receipt) (org : FinancierOrg) (available : ℚ),
          db.directory.users.find dto.callerUserId = some u → u.tenantId = r.tenantId →
          db.ledger.receipts.find dto.receiptId = some r → r.clientId = dto.callerUserId →
          r.status = .active ∨ r.status = .split →
          db.directory.financierOrgs.find dto.financierId = some org → org.status = .active →
          WarehouseLinked db r.tenantId dto.financierId r.warehouseId → 0 < dto.quantity →
          (getReceiptEncumbrance dto.callerUserId r.id).exec db = (.ok available, db) →
          dto.quantity ≤ available →
          (∃ x ∈ subtree db.ledger r.id, AvailableTo dto.callerUserId x ∧
            dto.quantity ≤ x.quantity) →
          dto.Fresh db → PledgedThrough .postgres dto db := by
  intro hclaim
  obtain ⟨r, hr, u, huser, org, horg, howner, htenant, hsplit, hlinked, hactive, havailable,
      hleaf, hfresh, hrefused⟩ :
      ∃ r ∈ (oneByOne (sampleStock ++ [samplePledge])).2.1.ledger.receipts.find 102,
        ∃ u ∈ (oneByOne (sampleStock ++ [samplePledge])).2.1.directory.users.find 10,
        ∃ org ∈ (oneByOne (sampleStock ++ [samplePledge])).2.1.directory.financierOrgs.find 30,
          r.clientId = 10 ∧ u.tenantId = r.tenantId ∧ r.status = .split ∧
          WarehouseLinked (oneByOne (sampleStock ++ [samplePledge])).2.1
            r.tenantId 30 r.warehouseId ∧
          org.status = .active ∧
          3 ≤ availableOf (oneByOne (sampleStock ++ [samplePledge])).2.1 r ∧
          (∃ x ∈ subtree (oneByOne (sampleStock ++ [samplePledge])).2.1.ledger r.id,
            AvailableTo 10 x ∧ 3 ≤ x.quantity) ∧
          sampleSmallPledge.Fresh (oneByOne (sampleStock ++ [samplePledge])).2.1 ∧
          (((createPledge .postgres sampleSmallPledge).exec
            (oneByOne (sampleStock ++ [samplePledge])).2.1).1 matches .error _) := by
    decide +kernel
  have hself := Table.find_of_mem (Table.mem_of_find hr)
  obtain ⟨db', hexec, -⟩ := hclaim _ _ _ _ _ (run_oneByOne (sampleStock ++ [samplePledge]))
    sampleSmallPledge u r org _ huser htenant hr howner (.inr hsplit) horg hactive
    hlinked (by decide +kernel) (getReceiptEncumbrance_exec.mpr ⟨r, hself, howner, rfl, rfl⟩)
    havailable hleaf hfresh
  rw [hexec] at hrefused
  cases hrefused

end SecureStore.Services
