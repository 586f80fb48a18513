/-
# Interleaved runs and rely-guarantee contracts

A run advances one process of a finite pool at a time. A process that is never
advanced again has crashed, so every property of all runs covers crashes at
every point. Requests may arrive at any time: one that has not started has taken
no step, so the pool holds all of them from the beginning.

A contract names the invariant, what a process may rely on between its own
steps, what each of its steps guarantees, and a debt: a condition that must not
remain once every process has finished. A process that runs up a debt has to owe
its settlement, that is to reach a debt-free state by its own later steps
whatever the others do. Contracts are checked process by process and hold of the
pool.
-/

import SecureStore.Foundation.Process
import Mathlib.Data.List.Basic

namespace SecureStore.Foundation

universe u v w

variable {ℓ : Type u} {σ : Type v} {α β : Type w}

/-- One step of a run: the state it found, its label and the state it left. -/
structure Transition (ℓ : Type u) (σ : Type v) where
  before : σ
  label : ℓ
  after : σ

/-- Interleaved runs of a pool, with the transitions taken so far in order. -/
inductive Run (s : σ) (pool : List (Process ℓ σ α)) :
    List (Transition ℓ σ) → σ → List (Process ℓ σ α) → Prop where
  | start : Run s pool [] s pool
  | advance {trace : List (Transition ℓ σ)} {s' : σ}
      {pool' : List (Process ℓ σ α)} (prior : Run s pool trace s' pool') (i : ℕ) {label : ℓ}
      {effect : σ → σ} {next : σ → Process ℓ σ α}
      (chosen : pool'[i]? = some (.step label effect next)) :
      Run s pool (trace ++ [⟨s', label, effect s'⟩]) (effect s') (pool'.set i (next s'))

/-- Every process of the pool has returned. -/
def Quiescent (pool : List (Process ℓ σ α)) : Prop :=
  ∀ p ∈ pool, ∃ a, p = .done a

instance (p : Process ℓ σ α) : Decidable (∃ a, p = .done a) :=
  match p with
  | .done a => .isTrue ⟨a, rfl⟩
  | .step _ _ _ => .isFalse nofun

instance (pool : List (Process ℓ σ α)) : Decidable (Quiescent pool) := List.decidableBAll _ pool

/-- The run up to one of its steps. -/
theorem Run.before {s s' : σ} {pool pool' : List (Process ℓ σ α)}
    {earlier later : List (Transition ℓ σ)} {t : Transition ℓ σ}
    (h : Run s pool (earlier ++ t :: later) s' pool') :
    ∃ pool'', Run s pool earlier t.before pool'' := by
  generalize htrace : earlier ++ t :: later = trace at h
  induction h generalizing later with
  | start => simp at htrace
  | @advance trace s' pool' prior i label effect next chosen ih =>
      rcases List.eq_nil_or_concat later with rfl | ⟨later', last, rfl⟩
      · obtain ⟨rfl, heq⟩ := List.append_inj' htrace rfl
        obtain rfl := (List.cons.inj heq).1
        exact ⟨pool', prior⟩
      · rw [List.concat_eq_append, ← List.cons_append, ← List.append_assoc] at htrace
        exact ih (List.append_inj' htrace rfl).1

/-- What holds at the end of a run and not at its start was brought about by one of
its steps. -/
theorem Run.became {s s' : σ} {pool pool' : List (Process ℓ σ α)}
    {trace : List (Transition ℓ σ)} {P : σ → Prop} (h : Run s pool trace s' pool')
    (hstart : ¬ P s) (hend : P s') : ∃ t ∈ trace, ¬ P t.before ∧ P t.after := by
  induction h with
  | start => exact absurd hend hstart
  | @advance trace s' pool' prior i label effect next chosen ih =>
      by_cases hbefore : P s'
      · obtain ⟨t, ht, hchange⟩ := ih hbefore
        exact ⟨t, List.mem_append_left _ ht, hchange⟩
      · exact ⟨_, List.mem_append_right _ (List.mem_singleton.mpr rfl), hbefore, hend⟩

/-- What holds at the start and is carried over every step of a run, knowing the steps
before it, holds at its end. -/
theorem Run.history {s s' : σ} {pool pool' : List (Process ℓ σ α)}
    {trace : List (Transition ℓ σ)} {P : List (Transition ℓ σ) → σ → Prop}
    (h : Run s pool trace s' pool') (hstart : P [] s)
    (hstep : ∀ earlier t later, trace = earlier ++ t :: later → P earlier t.before →
      P (earlier ++ [t]) t.after) : P trace s' := by
  induction h with
  | start => exact hstart
  | @advance trace s' pool' prior i label effect next chosen ih =>
      apply hstep trace ⟨s', label, effect s'⟩ [] rfl
      apply ih
      intro earlier t later htrace
      exact hstep earlier t (later ++ [⟨s', label, effect s'⟩]) (by simp [htrace])

/-- The run that advances a pool by the given choices; a choice of a process that has
returned is skipped. -/
def interleave : List ℕ → σ → List (Process ℓ σ α) →
    List (Transition ℓ σ) × σ × List (Process ℓ σ α)
  | [], s, pool => ([], s, pool)
  | i :: rest, s, pool =>
      match pool[i]? with
      | some (.step label effect next) =>
          let (trace, result) := interleave rest (effect s) (pool.set i (next s))
          (⟨s, label, effect s⟩ :: trace, result)
      | _ => interleave rest s pool

theorem Run.interleave {s s' : σ} {pool pool' : List (Process ℓ σ α)}
    {trace : List (Transition ℓ σ)} (h : Run s pool trace s' pool') (choices : List ℕ) :
    Run s pool (trace ++ (interleave choices s' pool').1) (interleave choices s' pool').2.1
      (interleave choices s' pool').2.2 := by
  induction choices generalizing trace s' pool' with
  | nil => simpa [Foundation.interleave] using h
  | cons i rest ih =>
      unfold Foundation.interleave
      split
      · rename_i label effect next hi
        simpa using ih (h.advance i hi)
      · exact ih h

/-- The run of a schedule, from its start. -/
theorem run_interleave (choices : List ℕ) (s : σ) (pool : List (Process ℓ σ α)) :
    Run s pool (interleave choices s pool).1 (interleave choices s pool).2.1
      (interleave choices s pool).2.2 :=
  Run.interleave .start choices

/-- Replacing one process of a pool changes no other. -/
theorem mem_set_pool {pool : List α} {i : ℕ} {p q : α} (h : q ∈ pool.set i p) :
    q = p ∨ q ∈ pool := by
  rcases List.mem_or_eq_of_mem_set h with hmem | heq
  · exact .inr hmem
  · exact .inl heq

/-- A process other than the chosen one stays in the pool. -/
theorem mem_pool_of_ne {pool : List α} {i : ℕ} {p q r : α} (hi : pool[i]? = some p)
    (hq : q ∈ pool) (hne : q ≠ p) : q ∈ pool.set i r := by
  obtain ⟨j, hj⟩ := List.mem_iff_getElem?.mp hq
  have hij : i ≠ j := by
    rintro rfl
    rw [hi] at hj
    exact hne (Option.some_inj.mp hj).symm
  exact List.mem_iff_getElem?.mpr ⟨j, by rw [List.getElem?_set_ne hij, hj]⟩

theorem mem_pool_self {pool : List α} {i : ℕ} {p r : α} (hi : pool[i]? = some p) :
    r ∈ pool.set i r := by
  obtain ⟨hlt, -⟩ := List.getElem?_eq_some_iff.mp hi
  exact List.mem_set hlt r

/-- Every step that a process can ever take, in any state, stands in a relation. -/
def Process.Takes (R : ℓ → σ → σ → Prop) : Process ℓ σ α → Prop
  | .done _ => True
  | .step label effect next => ∀ s, R label s (effect s) ∧ Takes R (next s)

section Takes

variable {R : ℓ → σ → σ → Prop}

theorem Process.Takes.bind {p : Process ℓ σ α} {f : α → Process ℓ σ β} (hp : p.Takes R)
    (hf : ∀ a, (f a).Takes R) : (p.bind f).Takes R := by
  induction p with
  | done a => exact hf a
  | step label effect next ih => exact fun s => ⟨(hp s).1, ih s (hp s).2⟩

theorem Process.Takes.mono {R' : ℓ → σ → σ → Prop} {p : Process ℓ σ α} (h : p.Takes R)
    (himp : ∀ label s s', R label s s' → R' label s s') : p.Takes R' := by
  induction p with
  | done a => trivial
  | step label effect next ih => exact fun s => ⟨himp _ _ _ (h s).1, ih s (h s).2⟩

theorem Process.Takes.and {R' : ℓ → σ → σ → Prop} {p : Process ℓ σ α} (h : p.Takes R)
    (h' : p.Takes R') : p.Takes fun label s s' => R label s s' ∧ R' label s s' := by
  induction p with
  | done a => trivial
  | step label effect next ih => exact fun s => ⟨⟨(h s).1, (h' s).1⟩, ih s (h s).2 (h' s).2⟩

/-- What every step stands in, every step of a run stands in. -/
theorem Run.takes {s s' : σ} {pool pool' : List (Process ℓ σ α)}
    {trace : List (Transition ℓ σ)} (h : Run s pool trace s' pool')
    (htakes : ∀ p ∈ pool, p.Takes R) : ∀ p ∈ pool', p.Takes R := by
  induction h with
  | start => exact htakes
  | @advance trace s' pool' prior i label effect next chosen ih =>
      intro p hp
      rcases mem_set_pool hp with rfl | hp
      · exact (ih _ (List.mem_of_getElem? chosen) s').2
      · exact ih p hp

/-- What holds at the start and is kept by every admitted step, along with the trace so
far, holds at the end of a run. -/
theorem Run.along {s s' : σ} {pool pool' : List (Process ℓ σ α)}
    {trace : List (Transition ℓ σ)} {P : List (Transition ℓ σ) → σ → Prop}
    {admits : ℓ → σ → Prop} (h : Run s pool trace s' pool') (htakes : ∀ p ∈ pool, p.Takes R)
    (hadmits : ∀ t ∈ trace, admits t.label t.before) (hstart : P [] s)
    (hstep : ∀ {trace : List (Transition ℓ σ)} {t : Transition ℓ σ}, P trace t.before →
      admits t.label t.before → R t.label t.before t.after → P (trace ++ [t]) t.after) :
    P trace s' := by
  induction h with
  | start => exact hstart
  | @advance trace s' pool' prior i label effect next chosen ih =>
      have hprior := ih fun t ht => hadmits t (List.mem_append_left _ ht)
      have hlast := hadmits ⟨s', label, effect s'⟩ (List.mem_append_right _ (by simp))
      have hnext := prior.takes htakes _ (List.mem_of_getElem? chosen) s'
      exact hstep (t := ⟨s', label, effect s'⟩) hprior hlast hnext.1

/-- A property that each step keeps exactly if it is admitted holds throughout a run
exactly if all its steps are admitted. -/
theorem Run.exactly {s s' : σ} {pool pool' : List (Process ℓ σ α)}
    {trace : List (Transition ℓ σ)} {inv : σ → Prop} {admits : ℓ → σ → Prop}
    (h : Run s pool trace s' pool') (htakes : ∀ p ∈ pool, p.Takes R) (hstart : inv s)
    (hstep : ∀ {label s s'}, inv s → R label s s' → (inv s' ↔ admits label s)) :
    (∀ t ∈ trace, inv t.after) ↔ ∀ t ∈ trace, admits t.label t.before := by
  suffices hboth : ((∀ t ∈ trace, inv t.after) ↔ ∀ t ∈ trace, admits t.label t.before) ∧
      ((∀ t ∈ trace, inv t.after) → inv s') from hboth.1
  induction h with
  | start => exact ⟨by simp, fun _ => hstart⟩
  | @advance trace s' pool' prior i label effect next chosen ih =>
      have hnext := (prior.takes htakes _ (List.mem_of_getElem? chosen) s').1
      have hlast : (∀ t ∈ trace, inv t.after) →
          (inv (effect s') ↔ admits label s') := fun hall => hstep (ih.2 hall) hnext
      simp only [List.forall_mem_append, List.forall_mem_singleton]
      refine ⟨?_, And.right⟩
      constructor
      · rintro ⟨hall, hafter⟩
        exact ⟨ih.1.mp hall, (hlast hall).mp hafter⟩
      · rintro ⟨hadmits, hadmit⟩
        have hall := ih.1.mpr hadmits
        exact ⟨hall, (hlast hall).mpr hadmit⟩

/-- The steps of a process on a component, in a relation on the whole state. -/
theorem Process.Takes.zoom {ℓ' : Type u} {τ : Type v} {R' : ℓ' → τ → τ → Prop}
    {label : ℓ → ℓ'} {get : τ → σ} {put : σ → τ → τ} {p : Process ℓ σ α} (h : p.Takes R)
    (hlift : ∀ l t s', R l (get t) s' → R' (label l) t (put s' t)) :
    (p.zoom label get put).Takes R' := by
  induction p with
  | done a => trivial
  | step l effect next ih =>
      intro t
      exact ⟨hlift l t _ (h (get t)).1, ih (get t) (h (get t)).2⟩

section Attempts

universe y

variable {ε α β : Type y} {label : ℓ}

theorem takes_bind {p : Attempt ℓ σ ε α} {g : α → Attempt ℓ σ ε β} (hp : Process.Takes R p)
    (hg : ∀ a, Process.Takes R (g a)) : Process.Takes R (p >>= g : Attempt ℓ σ ε β) := by
  apply Process.Takes.bind hp
  rintro (e | a)
  · trivial
  · exact hg a

theorem takes_read {f : σ → α} {g : α → Attempt ℓ σ ε β} (hread : ∀ s, R label s s)
    (hg : ∀ s, Process.Takes R (g (f s))) :
    Process.Takes R (Attempt.read label f >>= g : Attempt ℓ σ ε β) :=
  fun s => ⟨hread s, hg s⟩

theorem takes_zoom {ℓ' : Type u} {τ : Type v} {ε' : Type y} {R' : ℓ' → τ → τ → Prop}
    {label : ℓ → ℓ'} {get : τ → σ} {put : σ → τ → τ} {error : ε → ε'} {p : Attempt ℓ σ ε α}
    (h : Process.Takes R p) (hlift : ∀ l t s', R l (get t) s' → R' (label l) t (put s' t)) :
    Process.Takes R' (Attempt.zoom label get put error p) :=
  Process.Takes.bind (h.zoom hlift) fun _ => trivial

/-- A write has to be in the relation whether it commits or fails. -/
theorem takes_write {f : σ → Except ε (β × σ)}
    (hok : ∀ s b s', f s = .ok (b, s') → R label s s')
    (herr : ∀ s e, f s = .error e → R label s s) :
    Process.Takes R (Attempt.write label f : Attempt ℓ σ ε β) := by
  intro s
  cases hf : f s with
  | ok result =>
      simp only [hf]
      exact ⟨hok s _ _ hf, trivial⟩
  | error e =>
      simp only [hf]
      exact ⟨herr s e hf, trivial⟩

theorem takes_throwIf {cond : Prop} [Decidable cond] {e : ε} {g : PUnit → Attempt ℓ σ ε β}
    (h : ¬ cond → Process.Takes R (g ⟨⟩)) :
    Process.Takes R (Attempt.throwIf cond e >>= g : Attempt ℓ σ ε β) := by
  unfold Attempt.throwIf
  split
  · trivial
  · exact h ‹_›

theorem takes_orThrow {o : Option α} {e : ε} {g : α → Attempt ℓ σ ε β}
    (h : ∀ a, o = some a → Process.Takes R (g a)) :
    Process.Takes R (Attempt.orThrow o e >>= g : Attempt ℓ σ ε β) := by
  cases o with
  | none => trivial
  | some a => exact h a rfl

theorem takes_ofExcept {r : Except ε α} {g : α → Attempt ℓ σ ε β}
    (h : ∀ a, r = .ok a → Process.Takes R (g a)) :
    Process.Takes R (Attempt.ofExcept r >>= g : Attempt ℓ σ ε β) := by
  cases r with
  | error e => trivial
  | ok a => exact h a rfl

theorem takes_recover {p : Attempt ℓ σ ε β} {handler : ε → Attempt ℓ σ ε β}
    (h : Process.Takes R p) (hhandler : ∀ e, Process.Takes R (handler e)) :
    Process.Takes R (p.recover handler) := by
  apply Process.Takes.bind h
  rintro (e | b)
  · exact hhandler e
  · trivial

end Attempts

end Takes

/-- What a family of processes keeps, relies on and guarantees. -/
structure Contract (ℓ : Type u) (σ : Type v) where
  /-- Holds between any two steps. -/
  inv : σ → Prop
  /-- How the state may have moved between two steps of one process. -/
  rely : σ → σ → Prop
  /-- The steps a run is assumed to take. -/
  admits : ℓ → σ → Prop
  /-- What each step does. -/
  guar : ℓ → σ → σ → Prop
  /-- What must be settled before all processes have returned. -/
  debt : σ → Prop
  rely_refl : ∀ s, rely s s
  rely_trans : ∀ {s s' s''}, rely s s' → rely s' s'' → rely s s''
  guar_refl : ∀ label s, guar label s s
  guar_rely : ∀ {label s s'}, inv s → guar label s s' → rely s s'

namespace Contract

variable (c : Contract ℓ σ)

/-- The process settles the debt by one of its own later steps, whatever happens
in between. -/
def Owes : Process ℓ σ α → σ → Prop
  | .done _, _ => False
  | .step label effect next, s => ∀ s', c.rely s s' → c.inv s' → c.admits label s' →
      ¬ c.debt (effect s') ∨ Owes (next s') (effect s')

/-- Every step of the process, at any state the others may have reached, keeps
the invariant, meets the guarantee and runs up no debt that it does not owe; the
result satisfies the postcondition when it is returned. -/
def Keeps (post : α → σ → Prop) : Process ℓ σ α → σ → Prop
  | .done a, s => post a s
  | .step label effect next, s => ∀ s', c.rely s s' → c.inv s' → c.admits label s' →
      c.inv (effect s') ∧ c.guar label s' (effect s') ∧
        (c.debt (effect s') → c.debt s' ∨ c.Owes (next s') (effect s')) ∧
          Keeps post (next s') (effect s')

/-- A process that keeps the contract whatever it returns. -/
def Safe (p : Process ℓ σ α) (s : σ) : Prop := c.Keeps (fun _ _ => True) p s

variable {c}

theorem Owes.mono {p : Process ℓ σ α} {s s' : σ} (h : c.Owes p s) (hrely : c.rely s s') :
    c.Owes p s' := by
  cases p with
  | done a => exact h
  | step label effect next => exact fun s'' hlater => h s'' (c.rely_trans hrely hlater)

theorem Safe.mono {p : Process ℓ σ α} {s s' : σ} (h : c.Safe p s) (hrely : c.rely s s') :
    c.Safe p s' := by
  cases p with
  | done a => trivial
  | step label effect next => exact fun s'' hlater => h s'' (c.rely_trans hrely hlater)

theorem Owes.bind {p : Process ℓ σ α} {f : α → Process ℓ σ β} {s : σ} (h : c.Owes p s) :
    c.Owes (p.bind f) s := by
  induction p generalizing s with
  | done a => exact h.elim
  | step label effect next ih =>
      intro s' hrely hinv hadmits
      exact (h s' hrely hinv hadmits).imp_right (ih s')

theorem Keeps.bind {post : β → σ → Prop} {p : Process ℓ σ α} {f : α → Process ℓ σ β} {s : σ}
    (h : c.Keeps (fun a s' => c.Keeps post (f a) s') p s) : c.Keeps post (p.bind f) s := by
  induction p generalizing s with
  | done a => exact h
  | step label effect next ih =>
      intro s' hrely hinv hadmits
      obtain ⟨hinv', hguar, hdebt, hnext⟩ := h s' hrely hinv hadmits
      exact ⟨hinv', hguar, fun hd => (hdebt hd).imp_right Owes.bind, ih s' hnext⟩

theorem Keeps.weaken {post post' : α → σ → Prop} {p : Process ℓ σ α} {s : σ}
    (h : c.Keeps post p s) (himp : ∀ a s', post a s' → post' a s') : c.Keeps post' p s := by
  induction p generalizing s with
  | done a => exact himp a s h
  | step label effect next ih =>
      intro s' hrely hinv hadmits
      obtain ⟨hinv', hguar, hdebt, hnext⟩ := h s' hrely hinv hadmits
      exact ⟨hinv', hguar, hdebt, ih s' hnext⟩

/-- The state in which a result is returned lies after the state at the start. -/
theorem Keeps.later {post : α → σ → Prop} {p : Process ℓ σ α} {s : σ}
    (h : c.Keeps post p s) : c.Keeps (fun a s' => post a s' ∧ c.rely s s') p s := by
  induction p generalizing s with
  | done a => exact ⟨h, c.rely_refl s⟩
  | step label effect next ih =>
      intro s' hrely hinv hadmits
      obtain ⟨hinv', hguar, hdebt, hnext⟩ := h s' hrely hinv hadmits
      refine ⟨hinv', hguar, hdebt, (ih s' hnext).weaken ?_⟩
      rintro a s'' ⟨hpost, hlater⟩
      exact ⟨hpost, c.rely_trans (c.rely_trans hrely (c.guar_rely hinv hguar)) hlater⟩

/-- The contract as the process named i sees it. -/
def named {ι : Type u} (c : Contract (ι × ℓ) σ) (i : ι) : Contract ℓ σ where
  inv := c.inv
  rely := c.rely
  admits l := c.admits (i, l)
  guar l := c.guar (i, l)
  debt := c.debt
  rely_refl := c.rely_refl
  rely_trans := c.rely_trans
  guar_refl l := c.guar_refl (i, l)
  guar_rely := c.guar_rely

theorem Owes.tag {ι : Type u} {c : Contract (ι × ℓ) σ} {i : ι} {p : Process ℓ σ α} {s : σ}
    (h : (c.named i).Owes p s) : c.Owes (p.tag i) s := by
  induction p generalizing s with
  | done a => exact h
  | step label effect next ih =>
      intro s' hrely hinv hadmits
      exact (h s' hrely hinv hadmits).imp_right (ih s')

/-- A process that keeps its part of a contract keeps the contract under its name. -/
theorem Keeps.tag {ι : Type u} {c : Contract (ι × ℓ) σ} {i : ι} {post : α → σ → Prop}
    {p : Process ℓ σ α} {s : σ} (h : (c.named i).Keeps post p s) : c.Keeps post (p.tag i) s := by
  induction p generalizing s with
  | done a => exact h
  | step label effect next ih =>
      intro s' hrely hinv hadmits
      obtain ⟨hinv', hguar, hdebt, hnext⟩ := h s' hrely hinv hadmits
      exact ⟨hinv', hguar, fun hd => (hdebt hd).imp_right Owes.tag, ih s' hnext⟩

/-- What holds of the pool at every point of a run: the invariant, every process
keeps the contract from here on, and a debt is owed by some process. -/
structure Holds (c : Contract ℓ σ) (s : σ) (pool : List (Process ℓ σ α)) : Prop where
  inv : c.inv s
  safe : ∀ p ∈ pool, c.Safe p s
  owed : c.debt s → ∃ p ∈ pool, c.Owes p s

/-- One admitted step keeps everything that holds of the pool. -/
theorem Holds.advance {s : σ} {pool : List (Process ℓ σ α)} (h : c.Holds s pool) {i : ℕ}
    {label : ℓ} {effect : σ → σ} {next : σ → Process ℓ σ α}
    (chosen : pool[i]? = some (.step label effect next)) (hadmits : c.admits label s) :
    c.guar label s (effect s) ∧ c.Holds (effect s) (pool.set i (next s)) := by
  have hmem : Process.step label effect next ∈ pool := List.mem_of_getElem? chosen
  obtain ⟨hinv, hguar, hdebt, hnext⟩ := h.safe _ hmem s (c.rely_refl s) h.inv hadmits
  have hrely := c.guar_rely h.inv hguar
  refine ⟨hguar, hinv, ?_, ?_⟩
  · intro p hp
    rcases mem_set_pool hp with rfl | hp
    · exact hnext
    · exact (h.safe p hp).mono hrely
  · intro hd
    rcases hdebt hd with hbefore | howes
    · -- the debt is old: its debtor either moved just now or is still waiting
      obtain ⟨p, hp, howes⟩ := h.owed hbefore
      by_cases hself : p = Process.step label effect next
      · subst hself
        rcases howes s (c.rely_refl s) h.inv hadmits with hsettled | howes
        · exact absurd hd hsettled
        · exact ⟨_, mem_pool_self chosen, howes⟩
      · exact ⟨p, mem_pool_of_ne chosen hp hself, howes.mono hrely⟩
    · exact ⟨_, mem_pool_self chosen, howes⟩

/-- What a contract says of a run whose steps are all admitted. -/
structure RunHolds (c : Contract ℓ σ) (s : σ) (trace : List (Transition ℓ σ)) (s' : σ)
    (pool' : List (Process ℓ σ α)) : Prop where
  final : c.Holds s' pool'
  rely : c.rely s s'
  each : ∀ t ∈ trace, c.inv t.before ∧ c.guar t.label t.before t.after ∧ c.inv t.after ∧
    c.rely s t.before ∧ c.rely t.after s'

/-- The contract holds along every run that takes admitted steps only. -/
theorem Holds.run {s s' : σ} {pool pool' : List (Process ℓ σ α)}
    {trace : List (Transition ℓ σ)} (h : c.Holds s pool) (hrun : Run s pool trace s' pool')
    (hadmits : ∀ t ∈ trace, c.admits t.label t.before) : c.RunHolds s trace s' pool' := by
  induction hrun with
  | start => exact ⟨h, c.rely_refl s, by simp⟩
  | @advance trace s' pool' prior i label effect next chosen ih =>
      have before := ih fun t ht => hadmits t (List.mem_append_left _ ht)
      have hlast := hadmits ⟨s', label, effect s'⟩ (List.mem_append_right _ (by simp))
      obtain ⟨hguar, hholds⟩ := before.final.advance chosen hlast
      have hrely := c.guar_rely before.final.inv hguar
      refine ⟨hholds, c.rely_trans before.rely hrely, ?_⟩
      intro t ht
      rcases List.mem_append.mp ht with ht | ht
      · obtain ⟨hb, hg, ha, hearly, hlate⟩ := before.each t ht
        exact ⟨hb, hg, ha, hearly, c.rely_trans hlate hrely⟩
      · obtain rfl := List.mem_singleton.mp ht
        exact ⟨before.final.inv, hguar, hholds.inv, before.rely, c.rely_refl _⟩

theorem Keeps.mono {post : α → σ → Prop} {p : Process ℓ σ α} {s s' : σ}
    (hpost : ∀ {a s s'}, post a s → c.rely s s' → post a s') (h : c.Keeps post p s)
    (hrely : c.rely s s') : c.Keeps post p s' := by
  cases p with
  | done a => exact hpost h hrely
  | step label effect next => exact fun s'' hlater => h s'' (c.rely_trans hrely hlater)

/-- Where every process keeps the contract towards a stable postcondition of its own,
what has been returned at the end of a run satisfies it. -/
theorem Holds.returns {s s' : σ} {pool pool' : List (Process ℓ σ α)}
    {trace : List (Transition ℓ σ)} (h : c.Holds s pool) (hrun : Run s pool trace s' pool')
    (hadmits : ∀ t ∈ trace, c.admits t.label t.before) (post : ℕ → α → σ → Prop)
    (hstable : ∀ {i a s s'}, post i a s → c.rely s s' → post i a s')
    (hpost : ∀ i p, pool[i]? = some p → c.Keeps (post i) p s) :
    ∀ i p, pool'[i]? = some p → c.Keeps (post i) p s' := by
  induction hrun with
  | start => exact hpost
  | @advance trace s' pool' prior i label effect next chosen ih =>
      have hbefore := fun t ht => hadmits t (List.mem_append_left _ ht)
      have hlast := hadmits ⟨s', label, effect s'⟩ (List.mem_append_right _ (by simp))
      have hinv := (h.run prior hbefore).final.inv
      obtain ⟨-, hguar, -, hnext⟩ := ih hbefore i _ chosen s' (c.rely_refl s') hinv hlast
      have hrely := c.guar_rely hinv hguar
      intro j p hp
      by_cases hij : i = j
      · subst hij
        obtain ⟨hlt, -⟩ := List.getElem?_eq_some_iff.mp chosen
        rw [List.getElem?_set_self hlt] at hp
        obtain rfl := Option.some_inj.mp hp
        exact hnext
      · rw [List.getElem?_set_ne hij] at hp
        exact (ih hbefore j p hp).mono hstable hrely

/-- A pool of requests, each of which keeps the contract towards a stable promise: the
contract holds of the run, and what a request has returned is as promised. -/
theorem run_promised {ι : Type*} {s s' : σ} {requests : List ι} {run : ι → Process ℓ σ α}
    {trace : List (Transition ℓ σ)} {pool : List (Process ℓ σ α)}
    (hrun : Run s (requests.map run) trace s' pool)
    (hadmits : ∀ t ∈ trace, c.admits t.label t.before) (promise : ι → α → σ → Prop)
    (hstable : ∀ {x a s s'}, promise x a s → c.rely s s' → promise x a s')
    (hinv : c.inv s) (hclear : ¬ c.debt s)
    (hkeeps : ∀ x ∈ requests, c.Keeps (promise x) (run x) s) :
    c.RunHolds s trace s' pool ∧ ∀ (i : ℕ) x a, requests[i]? = some x →
      pool[i]?.bind Process.result = some a → promise x a s' := by
  let post (i : ℕ) (a : α) (s : σ) : Prop := ∀ x, requests[i]? = some x → promise x a s
  have hpost : ∀ i p, (requests.map run)[i]? = some p → c.Keeps (post i) p s := by
    intro i p hp
    rw [List.getElem?_map] at hp
    obtain ⟨x, hx, rfl⟩ := Option.map_eq_some_iff.mp hp
    apply (hkeeps x (List.mem_of_getElem? hx)).weaken
    intro a s₁ hpromise y hy
    obtain rfl : x = y := Option.some_inj.mp (hx.symm.trans hy)
    exact hpromise
  have hholds : c.Holds s (requests.map run) := by
    refine ⟨hinv, ?_, fun hdebt => absurd hdebt hclear⟩
    intro p hp
    obtain ⟨i, hi⟩ := List.getElem?_of_mem hp
    exact (hpost i p hi).weaken fun _ _ _ => trivial
  refine ⟨hholds.run hrun hadmits, ?_⟩
  intro i x a hx hresult
  obtain ⟨p, hp, ha⟩ := Option.bind_eq_some_iff.mp hresult
  obtain rfl := Process.result_eq_some_iff.mp ha
  have hreturned : post i a s' :=
    hholds.returns hrun hadmits post (fun h hrely y hy => hstable (h y hy) hrely) hpost i _ hp
  exact hreturned x hx

/-- Once every process has returned, nothing is owed. -/
theorem Holds.settled {s : σ} {pool : List (Process ℓ σ α)} (h : c.Holds s pool)
    (hquiet : Quiescent pool) : ¬ c.debt s := by
  intro hd
  obtain ⟨p, hp, howes⟩ := h.owed hd
  obtain ⟨a, rfl⟩ := hquiet p hp
  exact howes

/-- A process run on its own keeps the contract. -/
theorem Keeps.exec {post : α → σ → Prop} {p : Process ℓ σ α} {s : σ} (h : c.Keeps post p s)
    (hinv : c.inv s) (hadmits : ∀ label s, c.admits label s) :
    c.inv (p.exec s).2 ∧ c.rely s (p.exec s).2 ∧ post (p.exec s).1 (p.exec s).2 := by
  induction p generalizing s with
  | done a => exact ⟨hinv, c.rely_refl s, h⟩
  | step label effect next ih =>
      obtain ⟨hinv', hguar, -, hnext⟩ := h s (c.rely_refl s) hinv (hadmits label s)
      obtain ⟨hinv'', hrely, hpost⟩ := ih s hnext hinv'
      exact ⟨hinv'', c.rely_trans (c.guar_rely hinv hguar) hrely, hpost⟩

/-- A contract with one more invariant. -/
def also (c : Contract ℓ σ) (J : σ → Prop) : Contract ℓ σ where
  inv s := c.inv s ∧ J s
  rely := c.rely
  admits := c.admits
  guar := c.guar
  debt := c.debt
  rely_refl := c.rely_refl
  rely_trans := c.rely_trans
  guar_refl := c.guar_refl
  guar_rely hinv := c.guar_rely hinv.1

theorem Owes.also {J : σ → Prop} {p : Process ℓ σ α} {s : σ} (h : c.Owes p s) :
    (c.also J).Owes p s := by
  induction p generalizing s with
  | done a => exact h.elim
  | step label effect next ih =>
      intro s' hrely hinv hadmits
      exact (h s' hrely hinv.1 hadmits).imp_right (ih s')

/-- The contract of steps in a relation that rely on an invariant and on nothing else. -/
def stepping (I : σ → Prop) (R : ℓ → σ → σ → Prop) (hrefl : ∀ label s, R label s s) :
    Contract ℓ σ where
  inv := I
  rely _ _ := True
  admits _ _ := True
  guar := R
  debt _ := False
  rely_refl _ := trivial
  rely_trans _ _ := trivial
  guar_refl := hrefl
  guar_rely _ _ := trivial

/-- What the steps of a contract keep that are in a relation besides is one more invariant. -/
theorem Keeps.also {I J : σ → Prop} {R : ℓ → σ → σ → Prop} {hrefl : ∀ label s, R label s s}
    {post : α → σ → Prop} {p : Process ℓ σ α} {s : σ} (h : c.Keeps post p s)
    (h' : (stepping I R hrefl).Safe p s) (hI : ∀ s, c.inv s → J s → I s)
    (hJ : ∀ {label s s'}, c.inv s → J s → c.guar label s s' → R label s s' → J s') :
    (c.also J).Keeps post p s := by
  induction p generalizing s with
  | done a => exact h
  | step label effect next ih =>
      intro s' hrely hinv hadmits
      obtain ⟨hafter, hguar, hdebt, hnext⟩ := h s' hrely hinv.1 hadmits
      obtain ⟨-, hstep, -, hnext'⟩ := h' s' trivial (hI s' hinv.1 hinv.2) trivial
      exact ⟨⟨hafter, hJ hinv.1 hinv.2 hguar hstep⟩, hguar,
        fun hd => (hdebt hd).imp_right Owes.also, ih s' hnext hnext'⟩

/-- A contract with one more invariant, whose steps are in a relation that all rely on. -/
def within (c : Contract ℓ σ) (J : σ → Prop) (R : σ → σ → Prop) (hrefl : ∀ s, R s s)
    (htrans : ∀ {s s' s''}, R s s' → R s' s'' → R s s'') : Contract ℓ σ where
  inv s := c.inv s ∧ J s
  rely s s' := c.rely s s' ∧ R s s'
  admits := c.admits
  guar label s s' := c.guar label s s' ∧ R s s'
  debt := c.debt
  rely_refl s := ⟨c.rely_refl s, hrefl s⟩
  rely_trans h h' := ⟨c.rely_trans h.1 h'.1, htrans h.2 h'.2⟩
  guar_refl label s := ⟨c.guar_refl label s, hrefl s⟩
  guar_rely hinv hguar := ⟨c.guar_rely hinv.1 hguar.1, hguar.2⟩

section Within

variable {J : σ → Prop} {R : σ → σ → Prop} {hR : ∀ s, R s s}
  {hR' : ∀ {s s' s''}, R s s' → R s' s'' → R s s''}

theorem Owes.within {p : Process ℓ σ α} {s : σ} (h : c.Owes p s) :
    (c.within J R hR hR').Owes p s := by
  induction p generalizing s with
  | done a => exact h.elim
  | step label effect next ih =>
      intro s' hrely hinv hadmits
      exact (h s' hrely.1 hinv.1 hadmits).imp_right (ih s')

/-- The steps of a contract that are in a relation besides, if that keeps the invariant and
implies what is relied on. -/
theorem Keeps.within {I : σ → Prop} {R' : ℓ → σ → σ → Prop} {hrefl : ∀ label s, R' label s s}
    {post : α → σ → Prop} {p : Process ℓ σ α} {s : σ} (h : c.Keeps post p s)
    (h' : (stepping I R' hrefl).Safe p s) (hI : ∀ s, c.inv s → J s → I s)
    (hJ : ∀ {label s s'}, c.inv s → J s → c.guar label s s' → R' label s s' → J s' ∧ R s s') :
    (c.within J R hR hR').Keeps post p s := by
  induction p generalizing s with
  | done a => exact h
  | step label effect next ih =>
      intro s' hrely hinv hadmits
      obtain ⟨hafter, hguar, hdebt, hnext⟩ := h s' hrely.1 hinv.1 hadmits
      obtain ⟨-, hstep, -, hnext'⟩ := h' s' trivial (hI s' hinv.1 hinv.2) trivial
      obtain ⟨hkept, hmoved⟩ := hJ hinv.1 hinv.2 hguar hstep
      exact ⟨⟨hafter, hkept⟩, ⟨hguar, hmoved⟩, fun hd => (hdebt hd).imp_right Owes.within,
        ih s' hnext hnext'⟩

end Within

/-! ## Rules for attempts -/

section Attempts

universe y

variable {ε α β : Type y} {s : σ} {label : ℓ}

variable {post : Except ε β → σ → Prop}

/-- Rules for a postcondition that only speaks of what is returned without an error. -/
theorem keeps_bind (herr : ∀ e s, post (.error e) s) {p : Attempt ℓ σ ε α}
    {g : α → Attempt ℓ σ ε β}
    (hp : c.Keeps (fun r s' => ∀ a, r = .ok a → c.Keeps post (g a) s') p s) :
    c.Keeps post (p >>= g : Attempt ℓ σ ε β) s := by
  refine Keeps.bind (hp.weaken ?_)
  rintro (e | a) s' h
  · exact herr e s'
  · exact h a rfl

/-- A read changes nothing; what it returns was there at some later moment, in a state that the
read is admitted in. -/
theorem keeps_lookup {f : σ → α} {g : α → Attempt ℓ σ ε β}
    (h : ∀ s', c.rely s s' → c.inv s' → c.admits label s' → c.Keeps post (g (f s')) s') :
    c.Keeps post (Attempt.read label f >>= g : Attempt ℓ σ ε β) s :=
  fun s' hrely hinv hadmits => ⟨hinv, c.guar_refl label s', .inl, h s' hrely hinv hadmits⟩

theorem keeps_read {f : σ → α} {g : α → Attempt ℓ σ ε β}
    (h : ∀ s', c.rely s s' → c.inv s' → c.Keeps post (g (f s')) s') :
    c.Keeps post (Attempt.read label f >>= g : Attempt ℓ σ ε β) s :=
  keeps_lookup fun s' hrely hinv _ => h s' hrely hinv

/-- A write that commits has to keep the contract; one that fails changes nothing. -/
theorem keeps_write (herr : ∀ e s, post (.error e) s) {f : σ → Except ε (α × σ)}
    {g : α → Attempt ℓ σ ε β}
    (h : ∀ s' a s'', c.rely s s' → c.inv s' → c.admits label s' → f s' = .ok (a, s'') →
      c.inv s'' ∧ c.guar label s' s'' ∧ (c.debt s'' → c.debt s' ∨ c.Owes (g a) s'') ∧
        c.Keeps post (g a) s'') :
    c.Keeps post (Attempt.write label f >>= g : Attempt ℓ σ ε β) s := by
  intro s' hrely hinv hadmits
  cases hf : f s' with
  | ok result =>
      obtain ⟨a, s''⟩ := result
      simp only [hf]
      exact h s' a s'' hrely hinv hadmits hf
  | error e =>
      simp only [hf]
      exact ⟨hinv, c.guar_refl label s', .inl, herr e s'⟩

/-- A write as the last step of an attempt. -/
theorem keeps_write_last (herr : ∀ e s, post (.error e) s) {f : σ → Except ε (β × σ)}
    (h : ∀ s' b s'', c.rely s s' → c.inv s' → c.admits label s' → f s' = .ok (b, s'') →
      c.inv s'' ∧ c.guar label s' s'' ∧ (c.debt s'' → c.debt s') ∧ post (.ok b) s'') :
    c.Keeps post (Attempt.write label f : Attempt ℓ σ ε β) s := by
  intro s' hrely hinv hadmits
  cases hf : f s' with
  | ok result =>
      obtain ⟨b, s''⟩ := result
      obtain ⟨hinv', hguar, hdebt, hpost⟩ := h s' b s'' hrely hinv hadmits hf
      simp only [hf]
      exact ⟨hinv', hguar, fun hd => .inl (hdebt hd), hpost⟩
  | error e =>
      simp only [hf]
      exact ⟨hinv, c.guar_refl label s', .inl, herr e s'⟩

theorem keeps_throwIf (herr : ∀ e s, post (.error e) s) {cond : Prop} [Decidable cond] {e : ε}
    {g : PUnit → Attempt ℓ σ ε β} (h : ¬ cond → c.Keeps post (g ⟨⟩) s) :
    c.Keeps post (Attempt.throwIf cond e >>= g : Attempt ℓ σ ε β) s := by
  unfold Attempt.throwIf
  split
  · exact herr e s
  · exact h ‹_›

theorem keeps_orThrow (herr : ∀ e s, post (.error e) s) {o : Option α} {e : ε}
    {g : α → Attempt ℓ σ ε β} (h : ∀ a, o = some a → c.Keeps post (g a) s) :
    c.Keeps post (Attempt.orThrow o e >>= g : Attempt ℓ σ ε β) s := by
  cases o with
  | none => exact herr e s
  | some a => exact h a rfl

theorem keeps_ofExcept (herr : ∀ e s, post (.error e) s) {r : Except ε α}
    {g : α → Attempt ℓ σ ε β} (h : ∀ a, r = .ok a → c.Keeps post (g a) s) :
    c.Keeps post (Attempt.ofExcept r >>= g : Attempt ℓ σ ε β) s := by
  cases r with
  | error e => exact herr e s
  | ok a => exact h a rfl

/-- A lookup that throws when it finds nothing. -/
theorem keeps_find (herr : ∀ e s, post (.error e) s) {f : σ → Option α} {e : ε}
    {g : α → Attempt ℓ σ ε β}
    (h : ∀ s' a, c.rely s s' → c.inv s' → f s' = some a → c.Keeps post (g a) s') :
    c.Keeps post ((Attempt.read label f >>= fun o => Attempt.orThrow o e) >>= g :
      Attempt ℓ σ ε β) s := by
  rw [Attempt.bind_assoc]
  exact keeps_read fun s' hrely hinv =>
    keeps_orThrow herr fun a ha => h s' a hrely hinv ha

/-- An attempt that resumes from an error keeps what its handler keeps. -/
theorem keeps_recover {p : Attempt ℓ σ ε β} {handler : ε → Attempt ℓ σ ε β}
    (h : c.Keeps (fun r s' => match r with
      | .ok b => post (.ok b) s'
      | .error e => c.Keeps post (handler e) s') p s) : c.Keeps post (p.recover handler) s := by
  refine Keeps.bind (h.weaken ?_)
  rintro (e | b) s' hs'
  · exact hs'
  · exact hs'

/-- A process whose steps all stand in a relation that suffices from the start on. -/
theorem safe_of_takes_from {R : ℓ → σ → σ → Prop} {p : Process ℓ σ α} {s : σ}
    (hR : ∀ label s₁ s₂, c.rely s s₁ → c.inv s₁ → R label s₁ s₂ →
      c.inv s₂ ∧ c.guar label s₁ s₂ ∧ (c.debt s₂ → c.debt s₁))
    (h : p.Takes R) : c.Safe p s := by
  induction p generalizing s with
  | done a => trivial
  | step label effect next ih =>
      intro s' hrely hinv _
      obtain ⟨hstep, hnext⟩ := h s'
      obtain ⟨hinv', hguar, hdebt⟩ := hR label s' (effect s') hrely hinv hstep
      refine ⟨hinv', hguar, fun hd => .inl (hdebt hd), ih s' (fun l s₁ s₂ hlater => ?_) hnext⟩
      exact hR l s₁ s₂ (c.rely_trans (c.rely_trans hrely (c.guar_rely hinv hguar)) hlater)

/-- A process whose steps all stand in a relation that suffices. -/
theorem safe_of_takes {R : ℓ → σ → σ → Prop} {p : Process ℓ σ α}
    (hR : ∀ label s s', c.inv s → R label s s' →
      c.inv s' ∧ c.guar label s s' ∧ (c.debt s' → c.debt s))
    (h : p.Takes R) (s : σ) : c.Safe p s :=
  safe_of_takes_from (fun label s s' _ => hR label s s') h

theorem safe_bind {p : Attempt ℓ σ ε α} {g : α → Attempt ℓ σ ε β} (hp : c.Safe p s)
    (hg : ∀ a s', c.rely s s' → c.Safe (g a) s') : c.Safe (p >>= g : Attempt ℓ σ ε β) s :=
  keeps_bind (fun _ _ => trivial) (hp.later.weaken fun _ s' h a _ => hg a s' h.2)

theorem safe_read {f : σ → α} {g : α → Attempt ℓ σ ε β}
    (h : ∀ s', c.rely s s' → c.inv s' → c.Safe (g (f s')) s') :
    c.Safe (Attempt.read label f >>= g : Attempt ℓ σ ε β) s :=
  keeps_read h

theorem safe_read_last {f : σ → β} :
    c.Safe (Attempt.read label f : Attempt ℓ σ ε β) s :=
  fun s' _ hinv _ => ⟨hinv, c.guar_refl label s', .inl, trivial⟩

theorem safe_write {f : σ → Except ε (α × σ)} {g : α → Attempt ℓ σ ε β}
    (h : ∀ s' a s'', c.rely s s' → c.inv s' → c.admits label s' → f s' = .ok (a, s'') →
      c.inv s'' ∧ c.guar label s' s'' ∧ (c.debt s'' → c.debt s' ∨ c.Owes (g a) s'') ∧
        c.Safe (g a) s'') :
    c.Safe (Attempt.write label f >>= g : Attempt ℓ σ ε β) s :=
  keeps_write (fun _ _ => trivial) h

theorem safe_write_last {f : σ → Except ε (β × σ)}
    (h : ∀ s' b s'', c.rely s s' → c.inv s' → c.admits label s' → f s' = .ok (b, s'') →
      c.inv s'' ∧ c.guar label s' s'' ∧ (c.debt s'' → c.debt s')) :
    c.Safe (Attempt.write label f : Attempt ℓ σ ε β) s := by
  refine keeps_write_last (fun _ _ => trivial) fun s' b s'' hrely hinv hadmits hf => ?_
  obtain ⟨hinv', hguar, hdebt⟩ := h s' b s'' hrely hinv hadmits hf
  exact ⟨hinv', hguar, hdebt, trivial⟩

theorem safe_throwIf {cond : Prop} [Decidable cond] {e : ε} {g : PUnit → Attempt ℓ σ ε β}
    (h : ¬ cond → c.Safe (g ⟨⟩) s) :
    c.Safe (Attempt.throwIf cond e >>= g : Attempt ℓ σ ε β) s :=
  keeps_throwIf (fun _ _ => trivial) h

theorem safe_orThrow {o : Option α} {e : ε} {g : α → Attempt ℓ σ ε β}
    (h : ∀ a, o = some a → c.Safe (g a) s) :
    c.Safe (Attempt.orThrow o e >>= g : Attempt ℓ σ ε β) s :=
  keeps_orThrow (fun _ _ => trivial) h

theorem safe_ofExcept {r : Except ε α} {g : α → Attempt ℓ σ ε β}
    (h : ∀ a, r = .ok a → c.Safe (g a) s) :
    c.Safe (Attempt.ofExcept r >>= g : Attempt ℓ σ ε β) s :=
  keeps_ofExcept (fun _ _ => trivial) h

theorem safe_find {f : σ → Option α} {e : ε} {g : α → Attempt ℓ σ ε β}
    (h : ∀ s' a, c.rely s s' → c.inv s' → f s' = some a → c.Safe (g a) s') :
    c.Safe ((Attempt.read label f >>= fun o => Attempt.orThrow o e) >>= g :
      Attempt ℓ σ ε β) s :=
  keeps_find (fun _ _ => trivial) h

/-- What is stable and suffices for every element suffices for the loop. -/
theorem safe_forEach {δ : Type w} {items : List δ} {body : δ → Attempt ℓ σ ε PUnit}
    (I : σ → Prop) (hI : ∀ {s s'}, I s → c.rely s s' → I s')
    (hbody : ∀ item ∈ items, ∀ s, I s → c.Safe (body item) s) (hs : I s) :
    c.Safe (Attempt.forEach items body) s := by
  induction items generalizing s with
  | nil => trivial
  | cons item rest ih =>
      refine safe_bind (hbody item List.mem_cons_self s hs) fun _ s' hrely => ?_
      exact ih (fun item hitem => hbody item (List.mem_cons_of_mem _ hitem)) (hI hs hrely)

/-- Past its checks, an attempt knows what they have checked. -/
theorem safe_checks {P : Prop} {p : Attempt ℓ σ ε PUnit} {g : PUnit → Attempt ℓ σ ε β}
    (hp : Attempt.Checks P p) (hg : P → c.Safe (g ⟨⟩) s) :
    c.Safe (p >>= g : Attempt ℓ σ ε β) s := by
  rcases hp with ⟨e, rfl⟩ | ⟨rfl, hP⟩
  · trivial
  · exact hg hP

/-- An attempt that resumes from every error. -/
theorem safe_recover {p : Attempt ℓ σ ε β} {handler : ε → Attempt ℓ σ ε β} (h : c.Safe p s)
    (hhandler : ∀ e s', c.Safe (handler e) s') : c.Safe (p.recover handler) s := by
  refine keeps_recover (h.weaken ?_)
  rintro (e | b) s' -
  · exact hhandler e s'
  · trivial

end Attempts

end Contract

end SecureStore.Foundation
