/-
# The statements of a ledger call, among the requests

The requests take a ledger call as one step. In the database it is several: lookups of its key,
submissions of its transaction, reads of a replay. Each of them does nothing to the database or
all that the one step does. So a call that is rightful keeps custody in its statements as it does
in one step, whatever requests run in between, and with nothing in between its statements come
to what the one step comes to.
-/

import SecureStore.Custody.Requests
import SecureStore.Inventory.Serializable

namespace SecureStore.Services

open SecureStore.Foundation SecureStore.Inventory

/-- A ledger call in its statements, each on the ledger of the database. -/
def Api.ledgerStatements (num : Numeric) (json : TxError → List Char) (by_ : Issuer)
    (r : LedgerRequest) : Attempt Label Db TxError LedgerResult :=
  Attempt.zoom
    (fun
      | .findKey => .read (some r.op)
      | .transaction _ _ => .ledger by_ r.op
      | .findReceipts => .read)
    Db.ledger (fun ledger db => { db with ledger }) id (r.run num json)

section Statements

variable {num : Numeric} {json : TxError → List Char} {mine : Issuer → Prop} {by_ : Issuer}
  {r : LedgerRequest} {s : Db}

/-- A statement does nothing, or it is the call as a whole. -/
def Whole (num : Numeric) (by_ : Issuer) (r : LedgerRequest) (label : Label) (s s' : Db) : Prop :=
  s' = s ∨ label = .ledger by_ r.op ∧ ∃ uuids v ledger,
    r.op.call num uuids s.ledger = .ok (v, ledger) ∧ s' = { s with ledger }

theorem ledgerStatements_whole :
    Process.Takes (Whole num by_ r) (Api.ledgerStatements num json by_ r) := by
  apply takes_zoom (run_takes.and run_submits)
  rintro label s ledger ⟨hadvances, hown⟩
  cases hcommit : commitOf num ⟨s.ledger, label, ledger⟩ with
  | none =>
      left
      rw [hadvances.idle hcommit]
  | some call =>
      obtain ⟨weather, hlabel, -⟩ := commitOf_eq_some.mp hcommit
      obtain ⟨-, v, hcall⟩ := hadvances.committed call hcommit
      simp only [] at hlabel
      subst hlabel
      rw [hown call weather rfl] at hcall
      exact .inr ⟨rfl, call.uuids, v, ledger, hcall, rfl⟩

/-- A rightful ledger call in its statements, beside requests that keep custody. -/
theorem safe_ledgerStatements (hmine : mine by_)
    (hright : ∀ s', s.Later s' → Custody s' → Rightful s' by_ r.op) :
    (custody num mine).Safe (Api.ledgerStatements num json by_ r) s := by
  refine Contract.safe_of_takes_from (fun label s₁ s₂ hrely hinv hwhole => ?_)
    ledgerStatements_whole
  rcases hwhole with rfl | ⟨rfl, uuids, v, ledger, hcall, rfl⟩
  · exact ⟨hinv, Contract.guar_refl _ _ _, id⟩
  · have htakes : Custody { s₁ with ledger } ∧
        Takes num mine (.ledger by_ r.op) s₁ { s₁ with ledger } :=
      rightful_takes hinv hmine (hright s₁ (custody_later hrely) hinv) (call_outcome hcall)
    exact ⟨htakes.1, htakes.2, id⟩

/-- With nothing in between, and when nothing befalls its transactions, the statements of a call
are its one step. -/
theorem ledgerStatements_exec (hfair : ∀ n, r.weather n = .fair)
    (huuids : ∀ n, r.uuids n = r.uuids 0) :
    (Api.ledgerStatements num json by_ r).exec s =
      Prod.map (Except.mapError TxError.api) id
        ((Api.ledger by_ r.op (r.op.call num (r.uuids 0))).exec s) := by
  have hzoom : (Api.ledgerStatements num json by_ r).exec s =
      (((r.run num json).exec s.ledger).1.mapError id,
        { s with ledger := ((r.run num json).exec s.ledger).2 }) := by
    apply Attempt.exec_zoom
    · exact fun _ _ => rfl
    · exact fun _ _ _ => rfl
    · exact fun _ => rfl
  rw [hzoom, LedgerRequest.run_exec hfair huuids]
  unfold Tx.answer Api.ledger
  rw [Attempt.exec_write]
  unfold Api.within
  cases r.op.call num (r.uuids 0) s.ledger <;> rfl

end Statements

/-- A ledger call in its statements, whatever it answers. -/
def Api.inStatements (num : Numeric) (json : TxError → List Char) (by_ : Issuer)
    (r : LedgerRequest) : Api Unit :=
  Process.bind (Api.ledgerStatements num json by_ r) fun _ => .done (.ok ())

/-- Custody in every state of a run of requests and of rightful calls in their statements. -/
theorem custody_beside_statements {num : Numeric} {json : TxError → List Char}
    {requests : List Request} {calls : List (Issuer × LedgerRequest)} {s s' : Db}
    {trace : List (Transition Label Db)} {pool : List (Api Unit)}
    (hrun : Run s (requests.map (Request.run num) ++
      calls.map fun c => Api.inStatements num json c.1 c.2) trace s' pool)
    (hs : Custody s)
    (hright : ∀ c ∈ calls, ∀ s', s.Later s' → Custody s' → Rightful s' c.1 c.2.op) :
    Custody s' := by
  have hpool : ∀ p ∈ requests.map (Request.run num) ++
      calls.map fun c => Api.inStatements num json c.1 c.2,
        (custody num fun _ => True).Safe p s := by
    intro p hp
    rcases List.mem_append.mp hp with hp | hp
    · obtain ⟨request, -, rfl⟩ := List.mem_map.mp hp
      exact request.safe (fun _ => trivial) s
    · obtain ⟨c, hc, rfl⟩ := List.mem_map.mp hp
      apply Contract.Keeps.bind
      exact (safe_ledgerStatements trivial (hright c hc)).weaken fun _ _ _ => trivial
  exact (Contract.Holds.run ⟨hs, hpool, False.elim⟩ hrun fun _ _ => trivial).final.inv

end SecureStore.Services
