/-
# Calls one after another

Whole calls on a shared state, each starting where the last one ended; a call that fails
leaves the state as it was. A succession lists the calls that went through.
-/

import SecureStore.Foundation.Interleaving

namespace SecureStore.Foundation

universe u v w

variable {ι : Type u} {σ : Type v} {ε : Type w} {call : ι → σ → Except ε σ}

/-- `if (c) throw e` -/
def Call.throwIf (c : Prop) [Decidable c] (e : ε) : Except ε Unit :=
  if c then .error e else .ok ()

/-- `if (!x) throw e` -/
def Call.orThrow {α : Type w} (o : Option α) (e : ε) : Except ε α :=
  match o with
  | some a => .ok a
  | none => .error e

@[simp]
theorem Call.throwIf_ok {c : Prop} [Decidable c] {e : ε} {u : Unit} :
    Call.throwIf c e = .ok u ↔ ¬ c := by
  unfold Call.throwIf
  split <;> simp [*]

@[simp]
theorem Call.orThrow_ok {α : Type w} {o : Option α} {e : ε} {a : α} :
    Call.orThrow o e = .ok a ↔ o = some a := by
  cases o <;> simp [Call.orThrow]

@[simp]
theorem Call.mapError_ok {ε' : Type w} {α : Type w} {x : Except ε α} {f : ε → ε'} {a : α} :
    x.mapError f = .ok a ↔ x = .ok a := by
  cases x <;> simp [Except.mapError]

/-- The calls that succeed one after another from a state, with the state before and
after each. -/
inductive Succession (call : ι → σ → Except ε σ) (s : σ) : List (Transition ι σ) → σ → Prop where
  | start : Succession call s [] s
  | next {trail : List (Transition ι σ)} {s' s'' : σ} (prior : Succession call s trail s') (i : ι)
      (succeeds : call i s' = .ok s'') : Succession call s (trail ++ [⟨s', i, s''⟩]) s''

/-- Make the calls of a list in order, and keep the ones that succeed. -/
def perform (call : ι → σ → Except ε σ) : List ι → σ → List (Transition ι σ) × σ
  | [], s => ([], s)
  | i :: rest, s =>
      match call i s with
      | .ok s' =>
          let (trail, last) := perform call rest s'
          (⟨s, i, s'⟩ :: trail, last)
      | .error _ => perform call rest s

theorem Succession.perform {s s' : σ} {trail : List (Transition ι σ)}
    (h : Succession call s trail s') (calls : List ι) :
    Succession call s (trail ++ (Foundation.perform call calls s').1)
      (Foundation.perform call calls s').2 := by
  induction calls generalizing trail s' with
  | nil => simpa [Foundation.perform] using h
  | cons i rest ih =>
      unfold Foundation.perform
      split
      · simpa using ih (h.next i ‹_›)
      · exact ih h

theorem succession_perform (call : ι → σ → Except ε σ) (calls : List ι) (s : σ) :
    Succession call s (perform call calls s).1 (perform call calls s).2 :=
  Succession.perform .start calls

namespace Succession

variable {s s' : σ} {trail : List (Transition ι σ)}

/-- What holds at the start and is kept by every call, along with the calls so far, holds at
the end. -/
theorem along {P : List (Transition ι σ) → σ → Prop} (h : Succession call s trail s')
    (hstart : P [] s)
    (hstep : ∀ {trail i s s'}, P trail s → call i s = .ok s' → P (trail ++ [⟨s, i, s'⟩]) s') :
    P trail s' := by
  induction h with
  | start => exact hstart
  | next prior i succeeds ih => exact hstep ih succeeds

/-- What every admitted call keeps holds after all of them. -/
theorem invariant {inv : σ → Prop} (admits : ι → Prop) (h : Succession call s trail s')
    (hadmits : ∀ t ∈ trail, admits t.label) (hstart : inv s)
    (hstep : ∀ {i s s'}, admits i → inv s → call i s = .ok s' → inv s') : inv s' := by
  induction h with
  | start => exact hstart
  | next prior i succeeds ih =>
      have hprior := ih fun t ht => hadmits t (List.mem_append_left _ ht)
      have hlast := hadmits _ (List.mem_append_right _ (List.mem_singleton_self _))
      exact hstep hlast hprior succeeds

/-- A property that each successful call keeps exactly if it is admitted holds after all
calls exactly if they are all admitted. -/
theorem exactly {inv : σ → Prop} {admits : ι → σ → Prop} (h : Succession call s trail s')
    (hstart : inv s)
    (hstep : ∀ {i s s'}, inv s → call i s = .ok s' → (inv s' ↔ admits i s)) :
    (∀ t ∈ trail, inv t.after) ↔ ∀ t ∈ trail, admits t.label t.before := by
  suffices hboth : ((∀ t ∈ trail, inv t.after) ↔ ∀ t ∈ trail, admits t.label t.before) ∧
      ((∀ t ∈ trail, inv t.after) → inv s') from hboth.1
  induction h with
  | start => exact ⟨by simp, fun _ => hstart⟩
  | @next trail s' s'' prior i succeeds ih =>
      have hlast : (∀ t ∈ trail, inv t.after) → (inv s'' ↔ admits i s') :=
        fun hall => hstep (ih.2 hall) succeeds
      simp only [List.forall_mem_append, List.forall_mem_singleton]
      refine ⟨?_, And.right⟩
      constructor
      · rintro ⟨hall, hafter⟩
        exact ⟨ih.1.mp hall, (hlast hall).mp hafter⟩
      · rintro ⟨hadmits, hadmit⟩
        have hall := ih.1.mpr hadmits
        exact ⟨hall, (hlast hall).mpr hadmit⟩

end Succession

end SecureStore.Foundation
