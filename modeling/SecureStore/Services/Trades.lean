/-
# Trades

A trade holds a whole ACTIVE leaf. Settlement hands the leaf to the buyer and
marks the trade settled in one transaction; a listed trade can be cancelled.
-/

import SecureStore.Services.Database

namespace SecureStore.Services

open SecureStore.Foundation SecureStore.Inventory

def TradeStatus.text : TradeStatus → String
  | .listed => "LISTED"
  | .pendingSettlement => "PENDING_SETTLEMENT"
  | .settled => "SETTLED"
  | .cancelled => "CANCELLED"

structure CreateTrade where
  uuids : Uuids
  tradeId : Id
  reference : String
  auth : Except ApiError Unit
  tenantId : Id
  receiptId : Id
  sellerId : Id
  actorUserId : Option Id

def loadTrade (tenantId id : Id) : Api Trade := do
  let t ← Api.query fun db => (db.trades.find id).filter fun t => t.tenantId = tenantId
  Api.orThrow t (.notFound "Trade not found")

/-- `trade.update` -/
def updateTrade (by_ : Issuer) (id : Id) (f : Trade → Trade)
    (hf : ∀ r, Keyed.key (f r) = Keyed.key r := by intro r; rfl) : Api Unit :=
  Api.write by_ fun db =>
    (updateRow db.trades id f hf).map fun trades => ((), { db with trades })

/-- The key `TRADE:${id}:${word}`. -/
def tradeKey (id : Id) (word : String) : IdempotencyKey := [.text "TRADE", .uuid id, .text word]

/-- The settlement's own work: the trade must still be listed. -/
def markSettled (trades : Table Trade) (tradeId buyerId : Id) : Except ApiError (Table Trade) :=
  if ∃ t ∈ trades.rows, t.id = tradeId ∧ t.status = .listed then
    .ok (trades.modifyWhere (fun t => t.id = tradeId ∧ t.status = .listed) fun r =>
      { r with status := .settled, buyerId := some buyerId })
  else .error (.conflict
    "Trade was settled by another buyer while this request was in flight")

section Requests

variable (num : Numeric)

def createTrade (dto : CreateTrade) : Api Unit := do
  Api.authorise dto.auth
  let receipt ← Api.query fun db =>
    (db.ledger.receipts.find dto.receiptId).filter fun r => r.tenantId = dto.tenantId
  let receipt ← Api.orThrow receipt (.notFound "Receipt not found")
  let holdResult ← Api.hold num (.createTrade dto.tradeId) dto.uuids
    { tenantId := dto.tenantId
      sourceReceiptId := receipt.id
      quantity := receipt.quantity
      heldStatus := .heldTrade
      txnType := .trade
      txnId := dto.tradeId
      actorUserId := some (dto.actorUserId.getD dto.sellerId)
      idempotencyKey := tradeKey dto.tradeId "hold" }
  let held ← Api.heldOf holdResult
  Api.write (.createTrade dto.tradeId) fun db =>
    match db.trades.find dto.tradeId with
    | some _ => .ok ((), db)
    | none => (createRow db.trades
        { id := dto.tradeId
          reference := dto.reference
          tenantId := dto.tenantId
          receiptId := held.id
          sellerId := dto.sellerId
          quantity := held.quantity
          status := .listed }
        (fun x => x.reference = dto.reference)).map fun trades => ((), { db with trades })

/-- The transaction of a settlement: that of the ledger with the trade's update in it. -/
def transferTx (uuids : Uuids) (ctx : ActorCtx) (trade : Trade) (tradeId buyerId : Id) (db : Db) :
    Except ApiError (Receipt × Db) :=
  match transferAndReleaseWork num uuids ctx trade.receiptId buyerId .trade trade.id
      (fun _ => markSettled db.trades tradeId buyerId) db.ledger with
  | .ok ((updated, trades), ledger) => .ok (updated, { db with ledger, trades })
  | .error e => .error e

/-- `ledger.transferAndRelease` with the trade's update in the same transaction. -/
def transferSettled (uuids : Uuids) (tenantId : Id) (trade : Trade) (tradeId buyerId : Id) :
    Api Receipt :=
  let ctx : ActorCtx :=
    { tenantId := tenantId
      actorUserId := none
      idempotencyKey := tradeKey trade.id "transfer" }
  Api.runIdempotent (.settleTrade trade.id)
    (.transferAndRelease ctx trade.receiptId buyerId .trade trade.id fun _ => .ok ())
    (transferTx num uuids ctx trade tradeId buyerId)

/-- `ledger.release` of a trade's receipt, one database call a step. -/
def releaseListed (uuids : Uuids) (tenantId : Id) (trade : Trade) : Api Receipt :=
  let ctx : ActorCtx :=
    { tenantId := tenantId
      actorUserId := none
      idempotencyKey := tradeKey trade.id "cancel-release" }
  Api.runIdempotent (.cancelTrade trade.id) (.release ctx trade.receiptId)
    (Api.within (releaseWork num uuids ctx trade.receiptId))

def settleTrade (uuids : Uuids) (tenantId tradeId buyerId : Id) : Api Unit := do
  let trade ← loadTrade tenantId tradeId
  Api.throwIf (trade.sellerId = buyerId) (.badRequest "Buyer and seller cannot be the same")
  let findBuyer := Api.query fun db =>
    (db.directory.users.find buyerId).filter fun u => u.tenantId = tenantId
  if trade.status = .settled ∧ trade.buyerId = some buyerId then do
    let _ ← findBuyer
    pure ()
  else do
    Api.throwIf (trade.status ≠ .listed)
      (.badRequest ("Trade is not available for settlement (status: " ++ trade.status.text ++ ")"))
    let buyer ← findBuyer
    let _ ← Api.orThrow buyer (.notFound "Buyer not found")
    let _ ← transferSettled num uuids tenantId trade tradeId buyerId
    pure ()

def cancelTrade (uuids : Uuids) (tenantId tradeId : Id) : Api Unit := do
  let trade ← loadTrade tenantId tradeId
  Api.throwIf (trade.status ≠ .listed)
    (.badRequest ("Trade cannot be cancelled (status: " ++ trade.status.text ++ ")"))
  let _ ← releaseListed num uuids tenantId trade
  updateTrade (.cancelTrade trade.id) tradeId fun r => { r with status := .cancelled }

end Requests

/-- A settlement commits under a new key, with the trade marked. -/
theorem transferTx_ok {num : Numeric} {uuids : Uuids} {ctx : ActorCtx} {trade : Trade}
    {tradeId buyerId : Id} {r : Receipt} {db db' : Db}
    (h : transferTx num uuids ctx trade tradeId buyerId db = .ok (r, db')) :
    ∃ trades ledger, markSettled db.trades tradeId buyerId = .ok trades ∧
      db.ledger.events.find ctx.idempotencyKey = none ∧
      (∃ events change result, Effect num uuids db.ledger
        (.transferAndRelease ctx trade.receiptId buyerId .trade trade.id fun _ => .ok ())
          events change result ∧ Commits db.ledger events change ledger) ∧
      db' = { db with ledger, trades } := by
  unfold transferTx at h
  split at h
  · rename_i updated trades ledger hwork
    cases h
    obtain ⟨hmark, hfree, heffect⟩ := transferAndReleaseWork_commits hwork
    exact ⟨trades, ledger, hmark, hfree, heffect, rfl⟩
  · cases h

end SecureStore.Services
