/-
# Processes seen on a component

A process that works on a component and on columns beside it does on the component what a
process does that knows the component only. Where this holds of each step, whatever else is done
in between, every run of such processes is a run of the others on the component.
-/

import SecureStore.Foundation.Interleaving

namespace SecureStore.Foundation

universe u v w x y

variable {ℓ ℓ' : Type u} {σ τ : Type v}

/-- Each step of the first process leaves a component alone, or does to it what the next step of
the second does to the whole of its state. They return what belongs together. -/
def Process.Projects {α : Type w} {β : Type x} (name : ℓ → ℓ') (get : τ → σ)
    (Answers : α → β → Prop) : Process ℓ τ α → Process ℓ' σ β → Prop
  | .done a, q => ∃ b, q = .done b ∧ Answers a b
  | .step label effect next, q =>
      (∀ t, get (effect t) = get t ∧ Projects name get Answers (next t) q) ∨
        ∃ effect' next', q = .step (name label) effect' next' ∧
          ∀ t, get (effect t) = effect' (get t) ∧
            Projects name get Answers (next t) (next' (get t))

section Projects

variable {α : Type w} {β : Type x} {name : ℓ → ℓ'} {get : τ → σ} {Answers : α → β → Prop}

/-- What returns at once belongs to what returns at once. -/
theorem projects_done {a : α} {b : β} (h : Answers a b) :
    Process.Projects name get Answers (.done a : Process ℓ τ α) (.done b : Process ℓ' σ β) :=
  ⟨b, rfl, h⟩

theorem Process.Projects.bind {α' : Type w} {β' : Type x} {Answers' : α' → β' → Prop}
    {p : Process ℓ τ α} {q : Process ℓ' σ β} {f : α → Process ℓ τ α'} {g : β → Process ℓ' σ β'}
    (h : Process.Projects name get Answers p q)
    (hnext : ∀ a b, Answers a b → Process.Projects name get Answers' (f a) (g b)) :
    Process.Projects name get Answers' (p.bind f) (q.bind g) := by
  induction p generalizing q with
  | done a =>
      obtain ⟨b, rfl, hab⟩ := h
      exact hnext a b hab
  | step label effect next ih =>
      rcases h with hidle | ⟨effect', next', rfl, hmoves⟩
      · exact .inl fun t => ⟨(hidle t).1, ih t (hidle t).2⟩
      · refine .inr ⟨effect', fun s => (next' s).bind g, rfl, fun t => ?_⟩
        exact ⟨(hmoves t).1, ih t (hmoves t).2⟩

/-- A run of processes is, on the component, a run of their projections. -/
theorem Run.projects {t t' : τ} {pool : List (Process ℓ τ α)} {trace : List (Transition ℓ τ)}
    {pairs : List (Process ℓ τ α × Process ℓ' σ β)}
    (h : Run t (pairs.map Prod.fst) trace t' pool)
    (hpairs : ∀ x ∈ pairs, Process.Projects name get Answers x.1 x.2) :
    ∃ (trace' : List (Transition ℓ' σ)) (pairs' : List (Process ℓ τ α × Process ℓ' σ β)),
      Run (get t) (pairs.map Prod.snd) trace' (get t') (pairs'.map Prod.snd) ∧
        pool = pairs'.map Prod.fst ∧
          ∀ x ∈ pairs', Process.Projects name get Answers x.1 x.2 := by
  induction h with
  | start => exact ⟨[], pairs, .start, rfl, hpairs⟩
  | @advance trace s' pool' prior i label effect next chosen ih =>
      obtain ⟨trace', pairs', hrun, rfl, hpairs'⟩ := ih
      rw [List.getElem?_map] at chosen
      obtain ⟨x, hx, hfirst⟩ := Option.map_eq_some_iff.mp chosen
      have hproject := hpairs' x (List.mem_of_getElem? hx)
      rw [hfirst] at hproject
      have hsecond : (pairs'.map Prod.snd)[i]? = some x.2 := by
        rw [List.getElem?_map, hx, Option.map_some]
      have hall : ∀ q, Process.Projects name get Answers (next s') q →
          ∀ y ∈ pairs'.set i (next s', q), Process.Projects name get Answers y.1 y.2 := by
        intro q hq y hy
        rcases mem_set_pool hy with rfl | hy
        · exact hq
        · exact hpairs' y hy
      rcases hproject with hidle | ⟨effect', next', hq, hmoves⟩
      · refine ⟨trace', pairs'.set i (next s', x.2), ?_, by rw [List.map_set],
          hall _ (hidle s').2⟩
        obtain ⟨hlt, hget⟩ := List.getElem?_eq_some_iff.mp hsecond
        rw [List.map_set, (hidle s').1, ← hget, List.set_getElem_self]
        exact hrun
      · refine ⟨trace' ++ [⟨get s', name label, effect' (get s')⟩],
          pairs'.set i (next s', next' (get s')), ?_, by rw [List.map_set], hall _ (hmoves s').2⟩
        rw [List.map_set, (hmoves s').1]
        exact hrun.advance i (hsecond.trans (congrArg some hq))

/-- A run of requests is, on the component, a run of what they do there. -/
theorem Run.projects_map {ι : Type*} {requests : List ι} {run : ι → Process ℓ τ α}
    {run' : ι → Process ℓ' σ β} {t t' : τ} {pool : List (Process ℓ τ α)}
    {trace : List (Transition ℓ τ)} (h : Run t (requests.map run) trace t' pool)
    (hrequests : ∀ x ∈ requests, Process.Projects name get Answers (run x) (run' x)) :
    ∃ (trace' : List (Transition ℓ' σ)) (pool' : List (Process ℓ' σ β)),
      Run (get t) (requests.map run') trace' (get t') pool' := by
  have hpaired : Run t ((requests.map fun x => (run x, run' x)).map Prod.fst) trace t' pool := by
    rw [List.map_map]
    exact h
  have hprojects : ∀ x ∈ requests.map fun x => (run x, run' x),
      Process.Projects name get Answers x.1 x.2 := List.forall_mem_map.mpr hrequests
  obtain ⟨trace', pairs, hrun, -, -⟩ := hpaired.projects hprojects
  rw [List.map_map] at hrun
  exact ⟨trace', _, hrun⟩

end Projects

section Attempts

variable {ε : Type y} {α β α' β' : Type y} {name : ℓ → ℓ'} {get : τ → σ} {label : ℓ}
  {label' : ℓ'}

/-- The same error, or values that belong together. -/
inductive AnswersAlike (R : α → β → Prop) : Except ε α → Except ε β → Prop where
  | ok {a : α} {b : β} (related : R a b) : AnswersAlike R (.ok a) (.ok b)
  | error (e : ε) : AnswersAlike R (.error e) (.error e)

/-- The attempt does on the component what another one does, with the same errors. -/
def Attempt.Projects (name : ℓ → ℓ') (get : τ → σ) (R : α → β → Prop) (p : Attempt ℓ τ ε α)
    (q : Attempt ℓ' σ ε β) : Prop :=
  Process.Projects name get (AnswersAlike R) p q

variable {R : α → β → Prop} {R' : α' → β' → Prop}

theorem projects_bind {p : Attempt ℓ τ ε α} {q : Attempt ℓ' σ ε β} {f : α → Attempt ℓ τ ε α'}
    {g : β → Attempt ℓ' σ ε β'} (h : p.Projects name get R q)
    (hnext : ∀ a b, R a b → (f a).Projects name get R' (g b)) :
    (p >>= f : Attempt ℓ τ ε α').Projects name get R' (q >>= g : Attempt ℓ' σ ε β') := by
  apply Process.Projects.bind h
  intro a b hab
  cases hab with
  | ok related => exact hnext _ _ related
  | error e => exact projects_done (.error e)

theorem projects_pure {a : α} {b : β} (h : R a b) :
    (pure a : Attempt ℓ τ ε α).Projects name get R (pure b : Attempt ℓ' σ ε β) :=
  projects_done (.ok h)

theorem projects_read {f : τ → α} {g : σ → β} (hlabel : name label = label')
    (h : ∀ t, R (f t) (g (get t))) :
    (Attempt.read label f : Attempt ℓ τ ε α).Projects name get R
      (Attempt.read label' g : Attempt ℓ' σ ε β) := by
  refine .inr ⟨_, _, congrArg (fun l => Process.step l _ _) hlabel.symm, fun t => ?_⟩
  exact ⟨rfl, projects_done (.ok (h t))⟩

theorem projects_write {f : τ → Except ε (α × τ)} {g : σ → Except ε (β × σ)}
    (hlabel : name label = label')
    (herr : ∀ t e, f t = .error e → g (get t) = .error e)
    (hok : ∀ t a t', f t = .ok (a, t') → ∃ b, g (get t) = .ok (b, get t') ∧ R a b) :
    (Attempt.write label f : Attempt ℓ τ ε α).Projects name get R
      (Attempt.write label' g : Attempt ℓ' σ ε β) := by
  refine .inr ⟨_, _, congrArg (fun l => Process.step l _ _) hlabel.symm, fun t => ?_⟩
  cases hf : f t with
  | error e =>
      have hg := herr t e hf
      simp only [hf, hg]
      exact ⟨trivial, projects_done (.error e)⟩
  | ok result =>
      obtain ⟨b, hg, hb⟩ := hok t result.1 result.2 hf
      simp only [hf, hg]
      exact ⟨trivial, projects_done (.ok hb)⟩

/-- A write beside the component. -/
theorem projects_beside {f : τ → Except ε (α × τ)} {b : β}
    (h : ∀ t, ∃ a t', f t = .ok (a, t') ∧ get t' = get t ∧ R a b) :
    (Attempt.write label f : Attempt ℓ τ ε α).Projects name get R
      (pure b : Attempt ℓ' σ ε β) := by
  refine .inl fun t => ?_
  obtain ⟨a, t', hf, hsame, ha⟩ := h t
  simp only [hf]
  exact ⟨hsame, projects_done (.ok ha)⟩

theorem projects_throwIf {c c' : Prop} [Decidable c] [Decidable c'] {e : ε} (h : c ↔ c') :
    (Attempt.throwIf c e : Attempt ℓ τ ε PUnit).Projects name get (fun _ _ => True)
      (Attempt.throwIf c' e : Attempt ℓ' σ ε PUnit) := by
  unfold Attempt.throwIf
  by_cases hc : c
  · rw [if_pos hc, if_pos (h.mp hc)]
    exact projects_done (.error e)
  · rw [if_neg hc, if_neg fun hc' => hc (h.mpr hc')]
    exact projects_done (.ok trivial)

theorem projects_orThrow {o : Option α} {o' : Option β} {e : ε} (h : Option.Rel R o o') :
    (Attempt.orThrow o e : Attempt ℓ τ ε α).Projects name get R
      (Attempt.orThrow o' e : Attempt ℓ' σ ε β) := by
  cases h with
  | some hab => exact projects_done (.ok hab)
  | none => exact projects_done (.error e)

theorem projects_orThrow_self {o : Option α} {e : ε} :
    (Attempt.orThrow o e : Attempt ℓ τ ε α).Projects name get Eq
      (Attempt.orThrow o e : Attempt ℓ' σ ε α) := by
  cases o with
  | none => exact projects_done (.error e)
  | some a => exact projects_done (.ok rfl)

/-- An attempt on the component. -/
theorem projects_zoom {put : σ → τ → τ} {zoomed : ℓ' → ℓ} (hget : ∀ s t, get (put s t) = s)
    (hname : ∀ l, name (zoomed l) = l) (p : Attempt ℓ' σ ε α) :
    (Attempt.zoom zoomed get put id p).Projects name get Eq p := by
  have hproject : ∀ q : Process ℓ' σ (Except ε α),
      Process.Projects name get (AnswersAlike Eq)
        (Process.bind (Process.zoom zoomed get put q) fun result => .done (result.mapError id))
        q := by
    intro q
    induction q with
    | done result =>
        cases result with
        | error e => exact projects_done (.error e)
        | ok a => exact projects_done (.ok rfl)
    | step l effect next ih =>
        refine .inr ⟨effect, next, by rw [hname], fun t => ⟨hget _ t, ih (get t)⟩⟩
  exact hproject p

end Attempts

end SecureStore.Foundation
