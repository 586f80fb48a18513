/-
# Racing for a listed trade

All settlements of a trade move the ledger under one key, and a cancellation
releases the leaf under another. Whichever transaction commits first decides the
trade: the leaf is ACTIVE from then on, so every other transaction is refused. What
the ledger does not tell is the buyer: the settlement of a second buyer who read the
trade as listed and looks the key up behind the first buyer's commit replays the
first buyer's event and returns without an error.
-/

import SecureStore.Races.Decisions

namespace SecureStore.Services

open SecureStore.Foundation SecureStore.Inventory

/-- What became of a trade. -/
inductive Deal where
  | listed
  | settled (buyerId : Id)
  | released
  deriving DecidableEq

namespace Deal

/-- The trade's row under a deal. -/
def Row : Deal → Trade → Prop
  | listed, x => x.status = .listed
  | settled buyerId, x => x.status = .settled ∧ x.buyerId = some buyerId
  | released, x => x.status = .listed ∨ x.status = .cancelled

/-- The trade's leaf under a deal. -/
def Leaf : Deal → Receipt → Prop
  | listed, r => r.status.Held
  | settled buyerId, r => r.status = .active ∧ r.clientId = buyerId
  | released, r => r.status = .active

end Deal

/-- An ownership transfer of a receipt in the log. -/
def Transferred (s : Ledger) (receiptId : Id) : Prop :=
  ∃ e ∈ s.events, e.eventType = .ownershipTransferred ∧ e.fromReceiptId = receiptId

/-- Trade t on leaf h under a deal: row, leaf and log tell the same. -/
structure TradeStanding (t h : Id) (deal : Deal) (s : Db) : Prop where
  row : ∃ x, s.trades.find t = some x ∧ x.receiptId = h ∧ deal.Row x
  leaf : ∃ r, s.ledger.receipts.find h = some r ∧ deal.Leaf r
  transfer : s.ledger.Used (tradeKey t "transfer") ↔ ∃ buyerId, deal = .settled buyerId
  release : s.ledger.Used (tradeKey t "cancel-release") ↔ deal = .released
  transferred : Transferred s.ledger h ↔ ∃ buyerId, deal = .settled buyerId

/-- The trade is settled with the buyer, who owns the receipt by a logged transfer. -/
structure SettledTo (t h buyerId : Id) (s : Db) : Prop where
  row : ∃ x, s.trades.find t = some x ∧ x.status = .settled ∧ x.buyerId = some buyerId
  receipt : ∃ r, s.ledger.receipts.find h = some r ∧ r.clientId = buyerId
  transferred : Transferred s.ledger h

section Standing

variable {t h : Id} {deal : Deal} {s : Db} {ledger : Ledger}

theorem TradeStanding.settledTo {buyerId : Id} (hs : TradeStanding t h (.settled buyerId) s) :
    SettledTo t h buyerId s := by
  obtain ⟨x, hfind, -, hstatus, hbuyer⟩ := hs.row
  obtain ⟨r, hr, -, howner⟩ := hs.leaf
  exact ⟨⟨x, hfind, hstatus, hbuyer⟩, ⟨r, hr, howner⟩, hs.transferred.mpr ⟨buyerId, rfl⟩⟩

theorem TradeStanding.untransferred (hs : TradeStanding t h .released s) :
    ¬ Transferred s.ledger h := by
  rw [hs.transferred]
  rintro ⟨_, ⟨⟩⟩

/-- The deal can be read off a row that is not listed. -/
theorem TradeStanding.deal_of_row {x : Trade} (hs : TradeStanding t h deal s)
    (hfind : s.trades.find t = some x) : x.receiptId = h ∧ deal.Row x := by
  obtain ⟨x', hfind', hreceipt, hrow⟩ := hs.row
  obtain rfl : x' = x := Option.some_inj.mp (hfind'.symm.trans hfind)
  exact ⟨hreceipt, hrow⟩

/-- A trade stands in one way. -/
theorem TradeStanding.unique {deal' : Deal} (hs : TradeStanding t h deal s)
    (hs' : TradeStanding t h deal' s) : deal = deal' := by
  have htransfer := hs.transfer.symm.trans hs'.transfer
  have hrelease := hs.release.symm.trans hs'.release
  obtain ⟨x, hfind, -, hrow⟩ := hs.row
  have hrow' := (hs'.deal_of_row hfind).2
  cases deal with
  | listed => cases deal' <;> simp_all
  | released => cases deal' <;> simp_all
  | settled buyerId =>
      cases deal' with
      | settled buyerId' => exact congrArg _ (Option.some_inj.mp (hrow.2.symm.trans hrow'.2))
      | _ => simp at htransfer

/-- The deal of a trade whose leaf is held is open. -/
theorem TradeStanding.listed_of_held {r : Receipt} (hs : TradeStanding t h deal s)
    (hr : s.ledger.receipts.find h = some r) (hheld : r.status.Held) : deal = .listed := by
  obtain ⟨r', hr', hleaf⟩ := hs.leaf
  obtain rfl : r' = r := Option.some_inj.mp (hr'.symm.trans hr)
  cases deal with
  | listed => rfl
  | settled buyerId =>
      rw [hleaf.1] at hheld
      exact absurd hheld (by decide)
  | released =>
      rw [show r'.status = .active from hleaf] at hheld
      exact absurd hheld (by decide)

theorem transferred_commits {events : List InventoryEvent} {change : Change} {s : Ledger}
    (hcommits : Commits s events change ledger) : Transferred ledger h ↔ Transferred s h ∨
      ∃ e ∈ events, e.eventType = .ownershipTransferred ∧ e.fromReceiptId = h := by
  unfold Transferred
  simp only [hcommits.mem_events, or_and_right, exists_or]

/-- Cancelling a listed trade frees the leaf; doing so again changes nothing. -/
theorem TradeStanding.cancel {num : Numeric} {uuids : Uuids} {ctx : ActorCtx}
    {result : LedgerResult} (hs : TradeStanding t h deal s)
    (hkey : ctx.idempotencyKey = tradeKey t "cancel-release")
    (houtcome : Outcome num uuids (.release ctx h) s.ledger result ledger) :
    TradeStanding t h .released { s with ledger } := by
  rcases houtcome.of_release with
    ⟨hused, rfl⟩ | ⟨-, r, e, hr, hheld, hnew, htype, -, hcommits⟩
  · rw [hkey, hs.release] at hused
    exact hused ▸ hs
  · obtain rfl := hs.listed_of_held hr hheld
    obtain ⟨x, hfind, hreceipt, hlisted⟩ := hs.row
    constructor
    · exact ⟨x, hfind, hreceipt, .inl hlisted⟩
    · have hfind' := hcommits.find_receipt hr
      rw [Change.apply_amend_self] at hfind'
      exact ⟨_, hfind', rfl⟩
    · have htransfer : ¬ s.ledger.Used (tradeKey t "transfer") := by
        rw [hs.transfer]
        rintro ⟨_, ⟨⟩⟩
      have hother : e.idempotencyKey ≠ tradeKey t "transfer" := by
        simp [hnew, hkey, tradeKey]
      simpa [hcommits.used_iff, hother] using htransfer
    · simp [hcommits.used_iff, hnew, hkey]
    · have hnever : ¬ Transferred s.ledger h := by
        rw [hs.transferred]
        rintro ⟨_, ⟨⟩⟩
      simpa [transferred_commits hcommits, htype] using hnever

/-- The cancellation is recorded once the leaf is free. -/
theorem TradeStanding.record {trades : Table Trade} {f : Trade → Trade}
    {hf : ∀ r, Keyed.key (f r) = Keyed.key r} (hs : TradeStanding t h .released s)
    (hupdate : updateRow s.trades t f hf = .ok trades)
    (hreceipt : ∀ r, (f r).receiptId = r.receiptId) (hstatus : ∀ r, (f r).status = .cancelled) :
    TradeStanding t h .released { s with trades } := by
  obtain ⟨x, hfind, rfl⟩ := updateRow_ok.mp hupdate
  have hrow := (hs.deal_of_row hfind).1
  have hself : (s.trades.modify t f hf).find t = some (f x) := Table.find_modify_self hfind
  exact { hs with row := ⟨f x, hself, (hreceipt x).trans hrow, .inr (hstatus x)⟩ }

theorem markSettled_ok {trades trades' : Table Trade} {buyerId : Id}
    (hmark : markSettled trades t buyerId = .ok trades') :
    ∃ x, trades.find t = some x ∧ x.status = .listed ∧
      trades'.find t = some { x with status := .settled, buyerId := some buyerId } := by
  unfold markSettled at hmark
  split at hmark
  · rename_i hlisted
    obtain ⟨x, hmem, hid, hstatus⟩ := hlisted
    cases hmark
    have hfind : trades.find t = some x := Table.find_eq_some_iff.mpr ⟨hmem, hid⟩
    refine ⟨x, hfind, hstatus, ?_⟩
    rw [Table.find_modifyWhere, hfind, Option.map_some, if_pos ⟨hid, hstatus⟩]
  · cases hmark

/-- The transfer to a buyer that commits settles the trade with this buyer. -/
theorem TradeStanding.settle {num : Numeric} {uuids : Uuids} {ctx : ActorCtx} {buyerId : Id}
    {txnType : TxnType} {txnId : Id} {withinTx : Receipt → Except ApiError Unit}
    {events : List InventoryEvent} {change : Change} {result : LedgerResult}
    {trades : Table Trade} (hs : TradeStanding t h deal s)
    (hkey : ctx.idempotencyKey = tradeKey t "transfer")
    (heffect : Effect num uuids s.ledger
      (.transferAndRelease ctx h buyerId txnType txnId withinTx) events change result)
    (hcommits : Commits s.ledger events change ledger)
    (hmark : markSettled s.trades t buyerId = .ok trades) :
    TradeStanding t h (.settled buyerId) { s with ledger, trades } := by
  cases heffect with
  | transferAndRelease ctx newOwnerId txnType txnId withinTx r loaded held =>
      obtain rfl := hs.listed_of_held loaded.1 held
      obtain ⟨x, hfind, -, hsettled⟩ := markSettled_ok hmark
      have hid : r.id = h := Table.key_of_find loaded.1
      constructor
      · exact ⟨_, hsettled, (hs.deal_of_row hfind).1, rfl, rfl⟩
      · have hfind' := hcommits.find_receipt loaded.1
        rw [Change.apply_amend_self] at hfind'
        exact ⟨_, hfind', rfl, rfl⟩
      · simp [hcommits.used_iff, hkey]
      · have hreleased : ¬ s.ledger.Used (tradeKey t "cancel-release") := by
          rw [hs.release]
          exact nofun
        simpa [hcommits.used_iff, hkey, tradeKey, releaseKey] using hreleased
      · simp [transferred_commits hcommits, hid]

end Standing

/-- The buyer for whom a step looks the transfer of trade t up. -/
def Label.buyer (t : Id) : Label → Option Id
  | .read (some (.transferAndRelease _ _ buyerId _ txnId _)) =>
      if txnId = t then some buyerId else none
  | _ => none

/-- A settlement of trade t for a buyer looks the transfer up behind the transfer to
someone else. -/
def Outbid (t : Id) (label : Label) (s : Db) : Prop :=
  ∃ buyerId, label.buyer t = some buyerId ∧ s.ledger.Used (tradeKey t "transfer") ∧
    (s.trades.find t).bind Trade.buyerId ≠ some buyerId

instance (t : Id) (label : Label) (s : Db) : Decidable (Outbid t label s) :=
  match hbuyer : label.buyer t with
  | none => .isFalse (by
      rintro ⟨_, hsome, -⟩
      rw [hbuyer] at hsome
      cases hsome)
  | some buyerId =>
      decidable_of_iff (s.ledger.Used (tradeKey t "transfer") ∧
          (s.trades.find t).bind Trade.buyerId ≠ some buyerId) <| by
        constructor
        · exact fun hlate => ⟨buyerId, hbuyer, hlate⟩
        · rintro ⟨_, hsome, hlate⟩
          rw [hbuyer] at hsome
          cases hsome
          exact hlate

/-- A trade that is settled or released stays so. -/
def DealKept (t h : Id) (s s' : Db) : Prop :=
  ∀ deal, deal ≠ .listed → TradeStanding t h deal s → TradeStanding t h deal s'

/-- Requests that settle or cancel trade t. -/
def settlement (t h : Id) : Contract Label Db where
  inv s := ∃ deal, TradeStanding t h deal s
  rely := DealKept t h
  admits label s := ¬ Outbid t label s
  guar _ := DealKept t h
  debt _ := False
  rely_refl _ := fun _ _ hs => hs
  rely_trans h h' := fun deal hdeal hs => h' deal hdeal (h deal hdeal hs)
  guar_refl _ _ := fun _ _ hs => hs
  guar_rely _ hguar := hguar

theorem TradeStanding.kept {t h : Id} {deal deal' : Deal} {s s' : Db}
    (hs : TradeStanding t h deal s) (hs' : TradeStanding t h deal' s')
    (hdeal : deal = .listed ∨ deal' = deal) : DealKept t h s s' := by
  intro other hother hstanding
  obtain rfl := hs.unique hstanding
  rcases hdeal with hlisted | rfl
  · exact absurd hlisted hother
  · exact hs'

section Requests

variable {num : Numeric} {t h : Id} {s : Db}

/-- What a settlement for a buyer promises when it returns without an error. -/
def Sold {α : Type} (t h buyerId : Id) : Except ApiError α → Db → Prop
  | .ok _, s => TradeStanding t h (.settled buyerId) s
  | .error _, _ => True

/-- What a cancellation promises when it returns without an error. -/
def Freed {α : Type} (t h : Id) : Except ApiError α → Db → Prop
  | .ok _, s => TradeStanding t h .released s
  | .error _, _ => True

/-- A trade that was found. -/
theorem keeps_loadTrade {post : Except ApiError Unit → Db → Prop}
    (herr : ∀ e s, post (.error e) s) {tenantId : Id} {g : Trade → Api Unit}
    (hnext : ∀ s' x deal, TradeStanding t h deal s' → s'.trades.find t = some x →
      (settlement t h).Keeps post (g x) s') :
    (settlement t h).Keeps post (loadTrade tenantId t >>= g : Api Unit) s := by
  apply Contract.keeps_find herr
  intro s' x _ hinv hx
  obtain ⟨deal, hs⟩ := hinv
  exact hnext s' x deal hs (Option.filter_eq_some_iff.mp hx).1

/-- The transfer of a settlement: only the buyer of the trade replays it, and the transaction
that commits settles a listed trade. -/
theorem transferSettled_keeps (uuids : Uuids) (tenantId buyerId : Id) {x : Trade}
    (hreceipt : x.receiptId = h) : (settlement x.id h).Keeps (Sold x.id h buyerId)
      (transferSettled num uuids tenantId x x.id buyerId) s := by
  apply keeps_runIdempotent fun _ _ => trivial
  · intro s₁ e _ hinv hadmits hprior s₂ r hrely
    obtain ⟨deal, hs⟩ := hinv
    have hused : s₁.ledger.Used (tradeKey x.id "transfer") := used_of_find hprior
    obtain ⟨other, rfl⟩ := hs.transfer.mp hused
    obtain ⟨y, hfind, -, -, hother⟩ := hs.row
    obtain rfl : other = buyerId := by
      by_contra hne
      apply hadmits
      refine ⟨buyerId, if_pos rfl, hused, ?_⟩
      rw [hfind, Option.bind_some, hother, Ne, Option.some_inj]
      exact hne
    exact hrely _ (by simp) hs
  · intro s₁ r s₂ _ hinv hwork
    obtain ⟨deal, hs⟩ := hinv
    obtain ⟨trades, ledger, hmark, -, ⟨events, change, result, heffect, hcommits⟩, rfl⟩ :=
      transferTx_ok hwork
    rw [hreceipt] at heffect
    have hsettled := hs.settle rfl heffect hcommits hmark
    have hlisted : deal = .listed := by
      cases heffect with
      | transferAndRelease ctx newOwnerId txnType txnId withinTx r loaded held =>
          exact hs.listed_of_held loaded.1 held
    exact ⟨⟨_, hsettled⟩, hs.kept hsettled (.inl hlisted), False.elim, hsettled⟩

/-- The release of a cancellation frees the leaf, or the trade was released before. -/
theorem releaseListed_keeps (uuids : Uuids) (tenantId : Id) {x : Trade}
    (hreceipt : x.receiptId = h) : (settlement x.id h).Keeps (Freed x.id h)
      (releaseListed num uuids tenantId x) s := by
  apply keeps_runIdempotent fun _ _ => trivial
  · intro s₁ e _ hinv _ hprior s₂ r hrely
    obtain ⟨deal, hs⟩ := hinv
    have hreleased : deal = .released := hs.release.mp (used_of_find hprior)
    exact hrely _ (by decide) (hreleased ▸ hs)
  · intro s₁ r s₂ _ hinv hwork
    obtain ⟨deal, hs⟩ := hinv
    obtain ⟨ledger, hrelease, rfl⟩ := Api.within_ok hwork
    rw [hreceipt] at hrelease
    have houtcome := outcome_of_releaseWork hrelease
    have hreleased := hs.cancel rfl houtcome
    have hdeal : deal = .listed ∨ .released = deal := by
      rcases houtcome.of_release with ⟨hused, -⟩ | ⟨-, r, e, hr, hheld, -⟩
      · exact .inr (hs.release.mp hused).symm
      · exact .inl (hs.listed_of_held hr hheld)
    exact ⟨⟨_, hreleased⟩, hs.kept hreleased hdeal, False.elim, hreleased⟩

theorem settleTrade_keeps (uuids : Uuids) (tenantId buyerId : Id) :
    (settlement t h).Keeps (Sold t h buyerId) (settleTrade num uuids tenantId t buyerId) s := by
  have herr : ∀ e s, Sold t h buyerId (.error e : Except ApiError Unit) s := fun _ _ => trivial
  apply keeps_loadTrade herr
  intro s₁ x deal hs₁ hfind
  obtain ⟨hreceipt, hrow⟩ := hs₁.deal_of_row hfind
  obtain rfl : x.id = t := Table.key_of_find hfind
  apply Contract.keeps_throwIf herr
  intro _
  split
  · -- the trade is this buyer's already
    rename_i hsettled
    have hmine : deal = .settled buyerId := by
      cases deal with
      | listed => exact absurd (hrow.symm.trans hsettled.1) (by decide)
      | released =>
          rcases hrow with hstatus | hstatus
          · exact absurd (hstatus.symm.trans hsettled.1) (by decide)
          · exact absurd (hstatus.symm.trans hsettled.1) (by decide)
      | settled other =>
          obtain rfl := Option.some_inj.mp (hrow.2.symm.trans hsettled.2)
          rfl
    subst hmine
    apply Contract.keeps_read
    intro s₂ hrely _
    exact hrely _ (by simp) hs₁
  · apply Contract.keeps_throwIf herr
    intro _
    apply Contract.keeps_read
    intro s₂ _ _
    apply Contract.keeps_orThrow herr
    intro _ _
    apply Contract.keeps_bind herr
    refine (transferSettled_keeps uuids tenantId buyerId hreceipt).weaken ?_
    rintro _ s₃ hsold a rfl
    exact hsold

theorem cancelTrade_keeps (uuids : Uuids) (tenantId : Id) :
    (settlement t h).Keeps (Freed t h) (cancelTrade num uuids tenantId t) s := by
  have herr : ∀ e s, Freed t h (.error e : Except ApiError Unit) s := fun _ _ => trivial
  apply keeps_loadTrade herr
  intro s₁ x deal hs₁ hfind
  obtain ⟨hreceipt, -⟩ := hs₁.deal_of_row hfind
  obtain rfl : x.id = t := Table.key_of_find hfind
  apply Contract.keeps_throwIf herr
  intro _
  apply Contract.keeps_bind herr
  refine (releaseListed_keeps uuids tenantId hreceipt).weaken ?_
  rintro _ s₃ hs₃ a rfl
  apply Contract.keeps_write_last herr
  intro s₄ b s₅ hrely _ _ hok
  obtain ⟨trades, hupdate, hresult⟩ := map_ok.mp hok
  cases hresult
  have hs₄ := hrely .released (by decide) hs₃
  have hs₅ := hs₄.record hupdate (fun _ => rfl) fun _ => rfl
  exact ⟨⟨_, hs₅⟩, hs₄.kept hs₅ (.inr rfl), False.elim, hs₅⟩

/-- The requests that settle or cancel trade t. -/
def Request.Settles (t : Id) : Request → Prop
  | .settleTrade _ _ tradeId _ => tradeId = t
  | .cancelTrade _ _ tradeId => tradeId = t
  | _ => False

/-- What a request on trade t promises to its caller. -/
def Request.Promises (t h : Id) : Request → Except ApiError Unit → Db → Prop
  | .settleTrade _ _ _ buyerId => Sold t h buyerId
  | .cancelTrade _ _ _ => Freed t h
  | _ => fun _ _ => True

theorem Request.promise_kept {request : Request} {result : Except ApiError Unit} {s s' : Db}
    (hpromise : request.Promises t h result s) (hrely : DealKept t h s s') :
    request.Promises t h result s' := by
  cases result with
  | error e => cases request <;> trivial
  | ok a =>
      cases request with
      | settleTrade uuids tenantId tradeId buyerId => exact hrely _ (by simp) hpromise
      | cancelTrade uuids tenantId tradeId => exact hrely _ (by simp) hpromise
      | _ => trivial

theorem Request.settles_keeps {request : Request} (hsettles : request.Settles t) :
    (settlement t h).Keeps (request.Promises t h) (request.run num) s := by
  cases request with
  | settleTrade uuids tenantId tradeId buyerId =>
      obtain rfl : tradeId = t := hsettles
      exact settleTrade_keeps uuids tenantId buyerId
  | cancelTrade uuids tenantId tradeId =>
      obtain rfl : tradeId = t := hsettles
      exact cancelTrade_keeps uuids tenantId
  | _ => exact hsettles.elim

end Requests

/-- A request of the pool that has returned without an error. -/
def Succeeded (pool : List (Api Unit)) (i : ℕ) : Prop :=
  pool[i]?.bind Process.result = some (.ok ())

/-- What the requests on trade t have told their callers. -/
structure SettlementAgrees (t h : Id) (requests : List Request) (s : Db)
    (pool : List (Api Unit)) : Prop where
  sold : ∀ i uuids tenantId buyerId,
    requests[i]? = some (.settleTrade uuids tenantId t buyerId) → Succeeded pool i →
      SettledTo t h buyerId s
  cancelled : ∀ i uuids tenantId, requests[i]? = some (.cancelTrade uuids tenantId t) →
    Succeeded pool i → ¬ Transferred s.ledger h
  row : ∀ x, s.trades.find t = some x → x.status = .cancelled → ¬ Transferred s.ledger h

/-- At most one buyer is told that the trade is theirs. -/
theorem SettlementAgrees.one_buyer {t h : Id} {requests : List Request} {s : Db}
    {pool : List (Api Unit)} (hagrees : SettlementAgrees t h requests s pool) {i j : ℕ}
    {uuids uuids' : Uuids} {tenantId tenantId' buyerId buyerId' : Id}
    (hi : requests[i]? = some (.settleTrade uuids tenantId t buyerId)) (hsold : Succeeded pool i)
    (hj : requests[j]? = some (.settleTrade uuids' tenantId' t buyerId'))
    (hsold' : Succeeded pool j) : buyerId = buyerId' := by
  obtain ⟨r, hr, howner⟩ := (hagrees.sold i _ _ _ hi hsold).receipt
  obtain ⟨r', hr', howner'⟩ := (hagrees.sold j _ _ _ hj hsold').receipt
  obtain rfl : r = r' := Option.some_inj.mp (hr.symm.trans hr')
  exact howner.symm.trans howner'

/-- Any number of settlements and cancellations of a trade, interleaved in any way, tell
their callers what became of it, as long as no settlement looks its transfer up behind
the transfer to another buyer. -/
theorem trade_settlement_agrees (num : Numeric) {t h : Id} {deal : Deal} {s s' : Db}
    (hstart : TradeStanding t h deal s) (requests : List Request)
    (hsettles : ∀ request ∈ requests, request.Settles t) {trace : List (Transition Label Db)}
    {pool : List (Api Unit)} (hrun : Run s (requests.map (Request.run num)) trace s' pool)
    (hadmits : ∀ step ∈ trace, ¬ Outbid t step.label step.before) :
    SettlementAgrees t h requests s' pool ∧
      ∀ i j uuids uuids' tenantId tenantId' buyerId buyerId',
        requests[i]? = some (.settleTrade uuids tenantId t buyerId) → Succeeded pool i →
        requests[j]? = some (.settleTrade uuids' tenantId' t buyerId') → Succeeded pool j →
          buyerId = buyerId' := by
  obtain ⟨hholds, hpromise⟩ := Contract.run_promised (c := settlement t h) hrun hadmits
    (Request.Promises t h) Request.promise_kept ⟨deal, hstart⟩ False.elim
    fun request hrequest => Request.settles_keeps (hsettles request hrequest)
  obtain ⟨deal', hfinal⟩ := hholds.final.inv
  have hagrees : SettlementAgrees t h requests s' pool := by
    constructor
    · intro i uuids tenantId buyerId hrequest hsold
      have hstanding : TradeStanding t h (.settled buyerId) s' :=
        hpromise i _ _ hrequest hsold
      exact hstanding.settledTo
    · intro i uuids tenantId hrequest hfreed
      have hstanding : TradeStanding t h .released s' := hpromise i _ _ hrequest hfreed
      exact hstanding.untransferred
    · intro x hfind hcancelled
      have hrow := (hfinal.deal_of_row hfind).2
      cases deal' with
      | listed => exact absurd (hrow.symm.trans hcancelled) (by decide)
      | settled buyerId => exact absurd (hrow.1.symm.trans hcancelled) (by decide)
      | released => exact hfinal.untransferred
  refine ⟨hagrees, ?_⟩
  intro i j uuids uuids' tenantId tenantId' buyerId buyerId' hi hsold hj hsold'
  exact hagrees.one_buyer hi hsold hj hsold'

/-- Trade 13 of receipt 102. -/
def sampleTrade : Request :=
  .createTrade
    { uuids := sampleUuids 180, tradeId := 13, reference := "TR-2026-1", auth := .ok ()
      tenantId := 1, receiptId := 102, sellerId := 10, actorUserId := none }

/-- The store with trade 13 listed on receipt 182. -/
def listedStore : Db :=
  runRequests .postgres (sampleStock ++ [sampleTrade]) (Db.initial sampleDirectory)

theorem listedStore_standing : TradeStanding 13 182 .listed listedStore := by
  constructor
  · have hrow : (listedStore.trades.find 13).map (fun x => (x.receiptId, x.status)) =
        some (182, .listed) := by
      decide +kernel
    obtain ⟨x, hfind, hx⟩ := Option.map_eq_some_iff.mp hrow
    exact ⟨x, hfind, congrArg Prod.fst hx, congrArg Prod.snd hx⟩
  · have hleaf : (listedStore.ledger.receipts.find 182).map Receipt.status = some .heldTrade := by
      decide +kernel
    obtain ⟨r, hfind, hstatus⟩ := Option.map_eq_some_iff.mp hleaf
    refine ⟨r, hfind, ?_⟩
    rw [Deal.Leaf, hstatus]
    decide
  · have hunused : ¬ listedStore.ledger.Used (tradeKey 13 "transfer") := by decide +kernel
    exact ⟨fun hused => absurd hused hunused, nofun⟩
  · have hunused : ¬ listedStore.ledger.Used (tradeKey 13 "cancel-release") := by decide +kernel
    exact ⟨fun hused => absurd hused hunused, nofun⟩
  · have hnever : ∀ e ∈ listedStore.ledger.events.rows, e.eventType ≠ .ownershipTransferred := by
      decide +kernel
    constructor
    · rintro ⟨e, he, htransfer, -⟩
      exact absurd htransfer (hnever e he)
    · exact nofun

/-- The settlements of trade 13 by buyers 20 and 11 under a schedule. -/
def tradeRace (choices : List ℕ) :
    List (Transition Label Db) × Db × List (Process Label Db (Except ApiError Unit)) :=
  interleave choices listedStore
    ([.settleTrade (sampleUuids 190) 1 13 20, .settleTrade (sampleUuids 200) 1 13 11].map
      (Request.run .postgres))

/-- Both buyers read the trade as listed, the first settles it, the second looks the
transfer up and replays it: both are told that the trade is theirs. -/
theorem trade_sold_twice :
    ¬ ∀ (num : Numeric) (t h : Id) (s s' : Db), TradeStanding t h .listed s →
      ∀ requests : List Request, (∀ request ∈ requests, request.Settles t) →
        ∀ (trace : List (Transition Label Db)) (pool : List (Api Unit)),
          Run s (requests.map (Request.run num)) trace s' pool →
            SettlementAgrees t h requests s' pool := by
  intro hclaim
  have hsettles : ∀ request ∈ [Request.settleTrade (sampleUuids 190) 1 13 20,
      .settleTrade (sampleUuids 200) 1 13 11], request.Settles 13 := by
    simp [Request.Settles]
  have hagrees := hclaim .postgres 13 182 _ _ listedStore_standing _ hsettles _ _
    (run_interleave [0, 0, 1, 1, 0, 0, 1, 1] _ _)
  have hfirst : Succeeded (tradeRace [0, 0, 1, 1, 0, 0, 1, 1]).2.2 0 := by
    unfold Succeeded
    decide +kernel
  have hsecond : Succeeded (tradeRace [0, 0, 1, 1, 0, 0, 1, 1]).2.2 1 := by
    unfold Succeeded
    decide +kernel
  have hsame : (20 : Id) = 11 := hagrees.one_buyer rfl hfirst rfl hsecond
  exact absurd hsame (by decide)

/-- Both buyers look the transfer up before the first settles the trade: the transaction of
the second is refused. -/
theorem trade_settlement_agrees_sample :
    SettlementAgrees 13 182
        [.settleTrade (sampleUuids 190) 1 13 20, .settleTrade (sampleUuids 200) 1 13 11]
        (tradeRace [0, 0, 1, 1, 0, 1, 0, 1]).2.1 (tradeRace [0, 0, 1, 1, 0, 1, 0, 1]).2.2 ∧
      ∀ i j uuids uuids' tenantId tenantId' buyerId buyerId',
        [Request.settleTrade (sampleUuids 190) 1 13 20,
          .settleTrade (sampleUuids 200) 1 13 11][i]? =
            some (.settleTrade uuids tenantId 13 buyerId) →
        Succeeded (tradeRace [0, 0, 1, 1, 0, 1, 0, 1]).2.2 i →
        [Request.settleTrade (sampleUuids 190) 1 13 20,
          .settleTrade (sampleUuids 200) 1 13 11][j]? =
            some (.settleTrade uuids' tenantId' 13 buyerId') →
        Succeeded (tradeRace [0, 0, 1, 1, 0, 1, 0, 1]).2.2 j → buyerId = buyerId' :=
  trade_settlement_agrees .postgres listedStore_standing _ (by simp [Request.Settles])
    (run_interleave _ _ _) (by decide +kernel)

end SecureStore.Services
