/-
# Stock where it is accepted

A deposit is filed only where its commodity is accepted, and an edit that moves a receipt
checks the destination; an edit of the commodity alone does not, and unlinking counts the
ACTIVE receipts only. Every receipt in store keeps its link in the sequences of requests
that avoid these two gaps.
-/

import SecureStore.Deposits.Genesis

namespace SecureStore.Deposits

open SecureStore.Foundation SecureStore.Inventory

/-- The statuses of goods in store: PENDING_APPROVAL, ACTIVE and every HELD status. -/
def InStore (status : ReceiptStatus) : Prop :=
  status = .pendingApproval ∨ status = .active ∨ status.Held

instance : DecidablePred InStore := fun _ => instDecidableOr

/-- Only goods in store move to another status. -/
theorem moves_inStore {before after : ReceiptStatus} (h : Moves before after) :
    InStore before := by
  cases h with
  | release held => exact .inr (.inr held)
  | withdraw held => exact .inr (.inr held)
  | _ => decide

/-- Receipts in store are linked, and commodities are shared by no two tenants. -/
structure Accepting (s : Desk) : Prop where
  linked : ∀ r ∈ s.ledger.receipts, InStore r.status →
    s.links.find (r.warehouseId, r.commodityId) ≠ none
  receipts : ∀ r ∈ s.ledger.receipts,
    ∃ c, s.commodities.find r.commodityId = some c ∧ c.tenantId = r.tenantId
  links : ∀ l ∈ s.links,
    ∃ c, s.commodities.find l.commodityId = some c ∧ c.tenantId = l.tenantId

theorem accepting_opening (commodities : Table Commodity) (warehouses : Table Warehouse) :
    Accepting (.opening commodities warehouses) := by
  constructor <;> simp [Desk.opening]

/-- A pair that a deposit may name: it is linked, and the commodity is the tenant's. -/
def AcceptedPair (s : Desk) (tenantId warehouseId commodityId : Id) : Prop :=
  s.links.find (warehouseId, commodityId) ≠ none ∧
    ∃ c, s.commodities.find commodityId = some c ∧ c.tenantId = tenantId

section Ledgers

variable {num : Numeric} {uuids : Uuids} {op : LedgerOp} {s : Desk} {ledger : Ledger}
  {events : List InventoryEvent} {change : Change} {result : LedgerResult}

/-- A created receipt is a deposited root, or a child of a receipt in store. -/
theorem created_origin (h : Effect num uuids ledger op events change result) {k : Receipt}
    (hk : k ∈ change.created) :
    (∃ input, op = .deposit input ∧ k = depositRoot num uuids input) ∨
      ∃ src, change.rewritten = some (src, supersede src) ∧ InStore src.status ∧ Kin src k := by
  obtain ⟨e, he, -, horigin⟩ := h.minted hk
  rcases horigin with ⟨hroot, -⟩ | ⟨src, hrewritten, -, hkin⟩
  · rcases h.genesis with ⟨root, e, hmint, -⟩ | ⟨-, hnoroot⟩
    · cases h with
      | deposit input positive => exact .inl ⟨input, rfl, List.mem_singleton.mp hk⟩
      | _ => cases hmint
    · exact absurd hroot (hnoroot k hk)
  · cases change with
    | mint root => cases hrewritten
    | amend before after => cases hk
    | split source kids =>
        cases hrewritten
        exact .inr ⟨src, rfl, moves_inStore h.split_leaf, hkin⟩

/-- A ledger operation keeps goods where they are accepted, if the deposit it may be is of
an accepted pair. -/
theorem Accepting.commit (hs : Accepting s)
    (heffect : Effect num uuids s.ledger op events change result)
    (hcommits : Commits s.ledger events change ledger)
    (hdeposit : ∀ input, op = .deposit input →
      AcceptedPair s input.tenantId input.warehouseId input.commodityId) :
    Accepting { s with ledger } := by
  have hsource : ∀ src, change.rewritten = some (src, supersede src) → src ∈ s.ledger.receipts :=
    fun src hrewritten => Table.mem_of_find (hcommits.found _ _ hrewritten).1
  constructor
  · intro r hr hstore
    change s.links.find _ ≠ none
    rcases hcommits.mem_receipts.mp hr with ⟨r₀, hr₀, rfl⟩ | hcreated
    · have hbefore : InStore r₀.status := by
        rcases (hcommits.advance heffect hr₀).2 with hsame | hmove
        · exact hsame ▸ hstore
        · exact moves_inStore hmove
      rw [hcommits.sameWarehouse heffect hr₀, hcommits.sameCommodity heffect hr₀]
      exact hs.linked r₀ hr₀ hbefore
    · rcases created_origin heffect hcreated with
        ⟨input, hop, rfl⟩ | ⟨src, hrewritten, hlive, hkin⟩
      · exact (hdeposit input hop).1
      · rw [hkin.warehouseId, hkin.commodityId]
        exact hs.linked src (hsource src hrewritten) hlive
  · intro r hr
    change ∃ c, s.commodities.find _ = some c ∧ _
    rcases hcommits.mem_receipts.mp hr with ⟨r₀, hr₀, rfl⟩ | hcreated
    · rw [hcommits.sameCommodity heffect hr₀, (hcommits.advance heffect hr₀).1.tenantId]
      exact hs.receipts r₀ hr₀
    · rcases created_origin heffect hcreated with
        ⟨input, hop, rfl⟩ | ⟨src, hrewritten, -, hkin⟩
      · exact (hdeposit input hop).2
      · rw [hkin.commodityId, hkin.tenantId]
        exact hs.receipts src (hsource src hrewritten)
  · exact hs.links

end Ledgers

section Links

variable {s : Desk}

theorem Accepting.upsertLink (hs : Accepting s) {link : WarehouseCommodity}
    (hlink : ∃ c, s.commodities.find link.commodityId = some c ∧ c.tenantId = link.tenantId) :
    Accepting (s.upsertLink link) := by
  cases hinsert : s.links.insert link with
  | none =>
      have hsame : s.upsertLink link = s := by simp [Desk.upsertLink, hinsert]
      rw [hsame]
      exact hs
  | some links =>
      have hgrown : (s.upsertLink link).links = links := by simp [Desk.upsertLink, hinsert]
      constructor
      · intro r hr hstore
        obtain ⟨l, hl⟩ := Option.ne_none_iff_exists'.mp (hs.linked r hr hstore)
        rw [hgrown, Table.find_insert_of_find hinsert hl]
        simp
      · exact hs.receipts
      · intro l hl
        rw [hgrown, Table.mem_insert hinsert] at hl
        rcases hl with hold | rfl
        · exact hs.links l hold
        · exact hlink

theorem Accepting.upsertLinks (hs : Accepting s) {tenantId commodityId : Id} {c : Commodity}
    (hcommodity : s.commodities.find commodityId = some c) (htenant : c.tenantId = tenantId)
    (targetIds : List Id) :
    Accepting (targetIds.foldl (fun s warehouseId =>
      s.upsertLink ⟨warehouseId, commodityId, tenantId⟩) s) := by
  induction targetIds generalizing s with
  | nil => exact hs
  | cons warehouseId rest ih => exact ih (hs.upsertLink ⟨c, hcommodity, htenant⟩) hcommodity

/-- A commodity can be unlinked where none of it is in store. -/
theorem Accepting.deleteLink (hs : Accepting s) {warehouseId commodityId : Id}
    (hnone : ∀ r ∈ s.ledger.receipts, r.warehouseId = warehouseId →
      r.commodityId = commodityId → ¬ InStore r.status) :
    Accepting (s.deleteLink warehouseId commodityId) := by
  constructor
  · intro r hr hstore
    have hother : (r.warehouseId, r.commodityId) ≠ (warehouseId, commodityId) := by
      intro heq
      obtain ⟨hwarehouse, hcommodity⟩ := Prod.mk.inj heq
      exact hnone r hr hwarehouse hcommodity hstore
    change (s.links.remove _).find _ ≠ none
    rw [Table.find_remove_of_ne hother]
    exact hs.linked r hr hstore
  · exact hs.receipts
  · intro l hl
    exact hs.links l (Table.mem_remove.mp hl).1

/-- A receipt of a linked pair belongs to the tenant of the link. -/
theorem Accepting.tenant_of_link (hs : Accepting s) {link : WarehouseCommodity}
    (hlink : link ∈ s.links) {r : Receipt} (hr : r ∈ s.ledger.receipts)
    (hcommodity : r.commodityId = link.commodityId) : r.tenantId = link.tenantId := by
  obtain ⟨c, hfind, htenant⟩ := hs.receipts r hr
  obtain ⟨c', hfind', htenant'⟩ := hs.links link hlink
  rw [hcommodity, hfind'] at hfind
  obtain rfl := Option.some_inj.mp hfind
  exact htenant.symm.trans htenant'

end Links

/-- An edit of the commodity alone names a commodity that the warehouse accepts, a removal
finds nothing of the pair pending or held, and a deposit that another module makes names an
accepted pair. -/
structure StaysAccepted (request : Request) (s : Desk) : Prop where
  edit : ∀ tenantId receiptId dto, request.edit = some (tenantId, receiptId, dto) →
    ∀ commodityId ∈ dto.commodityId, ∀ r ∈ s.ledger.receipts.find receiptId,
      commodityId ≠ r.commodityId → dto.warehouseId.getD r.warehouseId = r.warehouseId →
        s.links.find (r.warehouseId, commodityId) ≠ none
  removal : ∀ tenantId warehouseId commodityId,
    request = .removeCommodity tenantId warehouseId commodityId →
      ∀ r ∈ s.ledger.receipts, r.warehouseId = warehouseId → r.commodityId = commodityId →
        r.status ≠ .pendingApproval ∧ ¬ r.status.Held
  direct : ∀ call input, request = .ledger call → call.op = .deposit input →
    AcceptedPair s input.tenantId input.warehouseId input.commodityId

section Requests

variable {num : Numeric} {plus : ℚ → ℚ → ℚ} {request : Request} {s s' : Desk}

/-- An edit keeps goods where they are accepted. -/
theorem Accepting.edited (hs : Accepting s) (hstays : StaysAccepted request s)
    {tenantId receiptId : Id} {dto : EditDepositDto} {receipt : Receipt}
    {commodity : Commodity} {scored : Option GradingScores} {columns : GradingColumns}
    (hedits : request.edit = some (tenantId, receiptId, dto))
    (hadmitted : Admitted plus tenantId receiptId dto receipt commodity scored s)
    (hdone : Desk.updateReceipt num receiptId (updateData receipt columns dto scored) s =
      .ok ((), s')) : Accepting s' := by
  have hmem := Table.mem_of_find hadmitted.found
  have hid : commodity.id = dto.commodityId.getD receipt.commodityId :=
    Table.key_of_find hadmitted.destination
  have hframe : s'.links = s.links ∧ s'.commodities = s.commodities := by
    obtain ⟨-, rfl⟩ := updateReceipt_ok.mp hdone
    exact ⟨rfl, rfl⟩
  have hlink : InStore receipt.status →
      s.links.find (dto.warehouseId.getD receipt.warehouseId,
        dto.commodityId.getD receipt.commodityId) ≠ none := by
    intro hstore
    by_cases hwarehouse : dto.warehouseId.getD receipt.warehouseId = receipt.warehouseId
    · rw [hwarehouse]
      cases hcommodity : dto.commodityId with
      | none => exact hs.linked receipt hmem hstore
      | some commodityId =>
          by_cases hsame : commodityId = receipt.commodityId
          · rw [Option.getD_some, hsame]
            exact hs.linked receipt hmem hstore
          · exact hstays.edit tenantId receiptId dto hedits commodityId hcommodity receipt
              hadmitted.found hsame hwarehouse
    · rw [← hid]
      exact hadmitted.accepted hwarehouse
  have hcommodity : ∃ c, s.commodities.find (dto.commodityId.getD receipt.commodityId) = some c ∧
      c.tenantId = receipt.tenantId := by
    refine ⟨commodity, hadmitted.destination, ?_⟩
    by_cases hsame : dto.commodityId.getD receipt.commodityId = receipt.commodityId
    · obtain ⟨c, hfind, htenant⟩ := hs.receipts receipt hmem
      rw [← hsame, hadmitted.destination] at hfind
      exact Option.some_inj.mp hfind ▸ htenant
    · exact (hadmitted.owner hsame).trans hadmitted.tenant.symm
  constructor
  · intro r hr hstore
    rw [hframe.1]
    rcases mem_updated hdone hr with ⟨r₀, hfind, rfl⟩ | ⟨hold, -⟩
    · rw [hadmitted.found] at hfind
      obtain rfl := Option.some_inj.mp hfind
      simpa [updateData] using hlink hstore
    · exact hs.linked r hold hstore
  · intro r hr
    rw [hframe.2]
    rcases mem_updated hdone hr with ⟨r₀, hfind, rfl⟩ | ⟨hold, -⟩
    · rw [hadmitted.found] at hfind
      obtain rfl := Option.some_inj.mp hfind
      simpa [updateData] using hcommodity
    · exact hs.receipts r hold
  · rw [hframe.1, hframe.2]
    exact hs.links

/-- A request keeps goods where they are accepted. -/
theorem Happens.accepting (h : Happens num plus s request s') (hs : Accepting s)
    (hstays : StaysAccepted request s) : Accepting s' := by
  cases h with
  | nothing => exact hs
  | deposited dto commodity scores accepted found graded done =>
      rcases deposit_cases done with rfl | ⟨events, ledger, heffect, hcommits, rfl⟩
      · exact hs
      · have hkept := hs.commit heffect hcommits fun input hop => by
          cases hop
          exact ⟨accepted, commodity, findCommodity_eq_some.mp found⟩
        exact ⟨hkept.linked, hkept.receipts, hkept.links⟩
  | edited edits receipt commodity scored admitted done =>
      exact hs.edited hstays edits admitted done
  | linked links commodity found targetIds =>
      obtain ⟨hcommodity, htenant⟩ := findCommodity_eq_some.mp found
      exact hs.upsertLinks hcommodity htenant targetIds
  | unlinked tenantId warehouseId commodityId link found tenant unused =>
      apply hs.deleteLink
      intro r hr hwarehouse hcommodity hstore
      have hkey := Table.key_of_find found
      have hsame : r.commodityId = link.commodityId :=
        hcommodity.trans (Prod.mk.inj hkey).2.symm
      have htenant := hs.tenant_of_link (Table.mem_of_find found) hr hsame
      obtain ⟨hpending, hheld⟩ := hstays.removal _ _ _ rfl r hr hwarehouse hcommodity
      have hactive : r.status = .active := (hstore.resolve_left hpending).resolve_right hheld
      have hnone := List.countP_eq_zero.mp unused r hr
      simp [hwarehouse, hcommodity, htenant, tenant, hactive] at hnone
  | operated call done =>
      rw [operate_ledger done]
      rcases after_cases num call s.ledger with hsame |
        ⟨events, change, result, -, heffect, hcommits⟩
      · rw [hsame]
        exact hs
      · exact hs.commit heffect hcommits fun input hop => hstays.direct call input rfl hop

end Requests

/-- After every sequence of whole requests that stay where the goods are accepted, every
receipt in store has the link of its warehouse and its commodity. -/
theorem stock_accepted (num : Numeric) (plus : ℚ → ℚ → ℚ) (commodities : Table Commodity)
    (warehouses : Table Warehouse) (requests : List Request)
    (hstays : Meets num plus StaysAccepted requests (.opening commodities warehouses)) :
    let s := runRequests num plus requests (.opening commodities warehouses)
    ∀ r ∈ s.ledger.receipts,
      r.status = .pendingApproval ∨ r.status = .active ∨ r.status.Held →
        ∃ link ∈ s.links, link.warehouseId = r.warehouseId ∧ link.commodityId = r.commodityId := by
  intro s r hr hstore
  have haccepting : Accepting s :=
    runRequests_invariant (fun hs hcondition hhappens => hhappens.accepting hs hcondition)
      requests (accepting_opening commodities warehouses) hstays
  obtain ⟨link, hlink⟩ := Option.ne_none_iff_exists'.mp (haccepting.linked r hr hstore)
  obtain ⟨hwarehouse, hcommodity⟩ := Prod.mk.inj (Table.key_of_find hlink)
  exact ⟨link, Table.mem_of_find hlink, hwarehouse, hcommodity⟩

theorem regraded_stays (s : Desk) :
    Meets .postgres (fun x y => x + y) StaysAccepted regraded s := by
  have unrelated : ∀ {request : Request} {s : Desk}, request.edit = none →
      (∀ tenantId warehouseId commodityId,
        request ≠ .removeCommodity tenantId warehouseId commodityId) →
      (∀ call input, request = .ledger call → call.op ≠ .deposit input) →
      StaysAccepted request s := by
    intro request s hedit hremoval hdirect
    constructor
    · intro _ _ _ hsome
      rw [hedit] at hsome
      cases hsome
    · intro _ _ _ hrequest
      exact absurd hrequest (hremoval _ _ _)
    · intro call input hrequest hop
      exact absurd hop (hdirect call input hrequest)
  have graded : ∀ s, StaysAccepted (sampleEdit { grade := some "Grade 2" }) s := by
    intro s
    constructor
    · intro _ _ dto hedit commodityId hcommodity
      cases hedit
      cases hcommodity
    · intro _ _ _ hrequest
      cases hrequest
    · intro _ _ hrequest
      cases hrequest
  have approved : ∀ s, StaysAccepted sampleApproval s := by
    intro s
    apply unrelated
    · rfl
    · intro _ _ _ hrequest
      cases hrequest
    · intro call input hrequest hop
      cases hrequest
      cases hop
  have filed : ∀ dto s, StaysAccepted (.createDeposit dto) s := by
    intro dto s
    apply unrelated
    · rfl
    · intro _ _ _ hrequest
      cases hrequest
    · intro call input hrequest
      cases hrequest
  have added : ∀ s, StaysAccepted (.addCommodity 7 40 20) s := by
    intro s
    apply unrelated
    · rfl
    · intro _ _ _ hrequest
      cases hrequest
    · intro call input hrequest
      cases hrequest
  exact ⟨added _, filed _ _, graded _, approved _, trivial⟩

/-- The theorem at the regraded deposit. -/
theorem stock_accepted_sample :
    ∃ r ∈ (sampleDesk regraded).ledger.receipts, r.status = .active ∧
      ∃ link ∈ (sampleDesk regraded).links,
        link.warehouseId = r.warehouseId ∧ link.commodityId = r.commodityId := by
  have hroot : ∃ r ∈ (sampleDesk regraded).ledger.receipts.rows, r.status = .active := by
    decide +kernel
  obtain ⟨r, hmem, hactive⟩ := hroot
  have haccepted := stock_accepted .postgres (fun x y => x + y) sampleCommodities
    sampleWarehouses regraded (regraded_stays _)
  exact ⟨r, hmem, hactive, haccepted r hmem (.inr (.inl hactive))⟩

/-- The hold of all ten units of the approved deposit. -/
def holdAll : Request :=
  .ledger ⟨⟨103, 0, 2, 3, .stored⟩, .hold
    { tenantId := 7, sourceReceiptId := 1, quantity := 10, heldStatus := .heldWithdrawal
      txnType := .withdrawal, txnId := 50, actorUserId := none
      idempotencyKey := [.text "hold"] }⟩

/-- An edit of the commodity alone leaves a pending receipt of a commodity that its
warehouse does not accept, and a removal leaves a held one. -/
theorem unaccepted_stock :
    ((sampleDesk (sampleFiling ++ [sampleEdit { commodityId := some 21 }])).ledger.receipts.rows.map
        (fun r => (r.status, r.warehouseId, r.commodityId)) =
          [(.pendingApproval, 40, 21)] ∧
      (sampleDesk (sampleFiling ++ [sampleEdit { commodityId := some 21 }])).links.find (40, 21) =
        none) ∧
    ((sampleDesk (sampleFiling ++
        [sampleApproval, holdAll, .removeCommodity 7 40 20])).ledger.receipts.rows.map
          (fun r => (r.status, r.warehouseId, r.commodityId)) =
            [(.split, 40, 20), (.heldWithdrawal, 40, 20)] ∧
      (sampleDesk (sampleFiling ++
        [sampleApproval, holdAll, .removeCommodity 7 40 20])).links.find (40, 20) = none) := by
  refine ⟨⟨?_, ?_⟩, ?_, ?_⟩
  · decide +kernel
  · decide +kernel
  · decide +kernel
  · decide +kernel

end SecureStore.Deposits
