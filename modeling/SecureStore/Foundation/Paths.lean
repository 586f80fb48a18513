/-
# The steps of one process in a run

In a run the steps of a process stand between the steps of the others, which may
have moved the state in the meantime. A path records the steps that one process
takes, each from whatever state it found. The steps of a run that carry the name
of a process form a path of it, so what a single process does on all its paths
it does in every run. A transaction that may fail for reasons of its own, and the
loop that tries it again, are described by their paths.
-/

import SecureStore.Foundation.Interleaving

namespace SecureStore.Foundation

universe u v w x

variable {ℓ : Type u} {σ : Type v} {α β : Type w}

/-- The steps a process takes, each at a state of the others' making. -/
inductive Path : Process ℓ σ α → List (Transition ℓ σ) → Process ℓ σ α → Prop where
  | rest (p : Process ℓ σ α) : Path p [] p
  | step {label : ℓ} {effect : σ → σ} {next : σ → Process ℓ σ α} (s : σ)
      {steps : List (Transition ℓ σ)} {q : Process ℓ σ α} (later : Path (next s) steps q) :
      Path (.step label effect next) (⟨s, label, effect s⟩ :: steps) q

namespace Path

variable {p q r : Process ℓ σ α} {steps more : List (Transition ℓ σ)}

theorem append (h : Path p steps q) (h' : Path q more r) : Path p (steps ++ more) r := by
  induction h with
  | rest p => exact h'
  | step s later ih => exact .step s (ih h')

theorem advance {label : ℓ} {effect : σ → σ} {next : σ → Process ℓ σ α}
    (h : Path p steps (.step label effect next)) (s : σ) :
    Path p (steps ++ [⟨s, label, effect s⟩]) (next s) :=
  h.append (.step s (.rest (next s)))

/-- A process that has returned takes no step. -/
theorem of_done {a : α} (h : Path (.done a) steps q) : steps = [] ∧ q = .done a := by
  cases h
  exact ⟨rfl, rfl⟩

/-- An atomic step that has returned was taken once. -/
theorem of_atomic {label : ℓ} {f : σ → α × σ} {a : α}
    (h : Path (.atomic label f) steps (.done a)) :
    ∃ s, steps = [⟨s, label, (f s).2⟩] ∧ a = (f s).1 := by
  cases h with
  | step s later =>
      obtain ⟨rfl, hq⟩ := later.of_done
      exact ⟨s, rfl, Process.done.inj hq⟩

/-- A sequence that has returned went through its first part, then its second. -/
theorem of_bind {p : Process ℓ σ α} {f : α → Process ℓ σ β} {b : β}
    (h : Path (p.bind f) steps (.done b)) :
    ∃ a early late, steps = early ++ late ∧ Path p early (.done a) ∧
      Path (f a) late (.done b) := by
  induction p generalizing steps with
  | done a => exact ⟨a, [], steps, rfl, .rest _, h⟩
  | step label effect next ih =>
      cases h with
      | step s later =>
          obtain ⟨a, early, late, rfl, hearly, hlate⟩ := ih s later
          exact ⟨a, _ :: early, late, rfl, .step s hearly, hlate⟩

end Path

/-- The steps of a process are in the relation that all its steps are in. -/
theorem Process.Takes.path {R : ℓ → σ → σ → Prop} {p q : Process ℓ σ α}
    {steps : List (Transition ℓ σ)} (h : p.Takes R) (hpath : Path p steps q) :
    ∀ t ∈ steps, R t.label t.before t.after := by
  induction hpath with
  | rest p => simp
  | step s later ih => exact List.forall_mem_cons.mpr ⟨(h s).1, ih (h s).2⟩

section Numbered

variable {ℓ : Type}

/-- A pool whose processes are named by their place in it. -/
def numbered (pool : List (Process ℓ σ α)) : List (Process (ℕ × ℓ) σ α) :=
  pool.mapIdx fun i p => p.tag i

/-- The step of the process i that a transition is, if it is one. -/
def Transition.of (i : ℕ) (t : Transition (ℕ × ℓ) σ) : Option (Transition ℓ σ) :=
  if t.label.1 = i then some ⟨t.before, t.label.2, t.after⟩ else none

/-- The steps of the process i in a trace. -/
def own (i : ℕ) (trace : List (Transition (ℕ × ℓ) σ)) : List (Transition ℓ σ) :=
  trace.filterMap (Transition.of i)

@[simp]
theorem own_nil (i : ℕ) : own i ([] : List (Transition (ℕ × ℓ) σ)) = [] := rfl

theorem own_concat_self (i : ℕ) (trace : List (Transition (ℕ × ℓ) σ)) (s s' : σ) (l : ℓ) :
    own i (trace ++ [⟨s, (i, l), s'⟩]) = own i trace ++ [⟨s, l, s'⟩] := by
  simp [own, Transition.of]

theorem own_concat_of_ne {i j : ℕ} (h : j ≠ i) (trace : List (Transition (ℕ × ℓ) σ)) (s s' : σ)
    (l : ℓ) : own i (trace ++ [⟨s, (j, l), s'⟩]) = own i trace := by
  simp [own, Transition.of, h]

theorem numbered_getElem? (pool : List (Process ℓ σ α)) (i : ℕ) :
    (numbered pool)[i]? = pool[i]?.map (Process.tag i) := by
  simp [numbered]

/-- What every step of a process is in, every step of it under a name is in. -/
theorem Process.Takes.tag {ι : Type} {R : ℓ → σ → σ → Prop} {p : Process ℓ σ α}
    (h : p.Takes R) (i : ι) : (p.tag i).Takes fun l => R l.2 :=
  h.zoom fun _ _ _ hstep => hstep

theorem takes_numbered {R : ℓ → σ → σ → Prop} {pool : List (Process ℓ σ α)}
    (h : ∀ p ∈ pool, p.Takes R) : ∀ p ∈ numbered pool, p.Takes fun l => R l.2 := by
  intro q hq
  obtain ⟨i, hi, rfl⟩ := List.mem_mapIdx.mp hq
  exact (h _ (List.getElem_mem hi)).tag i

theorem result_tag {ι : Type} (i : ι) (p : Process ℓ σ α) : (p.tag i).result = p.result := by
  cases p <;> rfl

/-- Where each process stands in a run: at the end of the path that its own steps
form. -/
theorem Run.own {s s' : σ} {pool : List (Process ℓ σ α)} {pool' : List (Process (ℕ × ℓ) σ α)}
    {trace : List (Transition (ℕ × ℓ) σ)} (h : Run s (numbered pool) trace s' pool') :
    ∀ i q', pool'[i]? = some q' → ∃ p q, pool[i]? = some p ∧ q' = q.tag i ∧
      Path p (Foundation.own i trace) q := by
  induction h with
  | start =>
      intro i q' hq'
      rw [numbered_getElem?] at hq'
      obtain ⟨p, hp, rfl⟩ := Option.map_eq_some_iff.mp hq'
      exact ⟨p, p, hp, rfl, .rest p⟩
  | @advance trace s' pool' prior j label effect next chosen ih =>
      obtain ⟨p, q, hp, hq, hpath⟩ := ih j _ chosen
      cases q with
      | done a => cases hq
      | step l effect' next' =>
          obtain ⟨rfl, rfl, rfl⟩ := Process.step.inj hq
          intro i q' hq'
          by_cases hij : j = i
          · subst hij
            obtain ⟨hlt, -⟩ := List.getElem?_eq_some_iff.mp chosen
            rw [List.getElem?_set_self hlt] at hq'
            obtain rfl := Option.some_inj.mp hq'
            refine ⟨p, next' s', hp, rfl, ?_⟩
            have hlast := own_concat_self j trace s' (effect' s') l
            exact (congrArg (Path p · (next' s')) hlast).mpr (hpath.advance s')
          · rw [List.getElem?_set_ne hij] at hq'
            obtain ⟨p, q, hp, rfl, hpath⟩ := ih i q' hq'
            have hrest := own_concat_of_ne hij trace s' (effect' s') l
            exact ⟨p, q, hp, rfl, (congrArg (Path p · q) hrest).mpr hpath⟩

/-- A process that has returned took a path to its result. -/
theorem Run.returned {s s' : σ} {pool : List (Process ℓ σ α)}
    {pool' : List (Process (ℕ × ℓ) σ α)} {trace : List (Transition (ℕ × ℓ) σ)}
    (h : Run s (numbered pool) trace s' pool') {i : ℕ} {a : α}
    (hresult : pool'[i]?.bind Process.result = some a) :
    ∃ p, pool[i]? = some p ∧ Path p (Foundation.own i trace) (.done a) := by
  obtain ⟨q', hq', ha⟩ := Option.bind_eq_some_iff.mp hresult
  obtain ⟨p, q, hp, rfl, hpath⟩ := h.own i q' hq'
  rw [result_tag] at ha
  obtain rfl := Process.result_eq_some_iff.mp ha
  exact ⟨p, hp, hpath⟩

end Numbered

/-- What befalls a transaction besides what it does itself. -/
inductive Weather (ε : Type x) where
  | fair
  /-- The database aborts it. -/
  | aborted (e : ε)
  /-- It commits, but the answer is lost. -/
  | unanswered (e : ε)
  deriving DecidableEq

/-- What a transaction does is kept unless the database aborts it. -/
def Weather.Lands {ε : Type x} : Weather ε → Prop
  | fair => True
  | aborted _ => False
  | unanswered _ => True

instance {ε : Type x} (w : Weather ε) : Decidable w.Lands :=
  match w with
  | .fair => .isTrue trivial
  | .aborted _ => .isFalse not_false
  | .unanswered _ => .isTrue trivial

namespace Attempt

section Parts

variable {ε α β : Type x} {steps : List (Transition ℓ σ)} {answer : Except ε β}

/-- An attempt that has returned went through its first part, then its second unless the
first failed. -/
theorem path_bind {p : Attempt ℓ σ ε α} {g : α → Attempt ℓ σ ε β}
    (h : Path (p >>= g : Attempt ℓ σ ε β) steps (.done answer)) :
    (∃ a early late, steps = early ++ late ∧ Path p early (.done (.ok a)) ∧
      Path (g a) late (.done answer)) ∨
      ∃ e, Path p steps (.done (.error e)) ∧ answer = .error e := by
  obtain ⟨first, early, late, rfl, hfirst, hrest⟩ := h.of_bind
  cases first with
  | ok a => exact .inl ⟨a, early, late, rfl, hfirst, hrest⟩
  | error e =>
      obtain ⟨rfl, hanswer⟩ := hrest.of_done
      obtain rfl := Process.done.inj hanswer
      exact .inr ⟨e, by simpa using hfirst, rfl⟩

/-- An attempt with a handler that has returned: as it would have without it, or by way of
the handler. -/
theorem path_recover {p : Attempt ℓ σ ε β} {handler : ε → Attempt ℓ σ ε β}
    (h : Path (p.recover handler) steps (.done answer)) :
    (∃ b, Path p steps (.done (.ok b)) ∧ answer = .ok b) ∨
      ∃ e early late, steps = early ++ late ∧ Path p early (.done (.error e)) ∧
        Path (handler e) late (.done answer) := by
  obtain ⟨first, early, late, rfl, hfirst, hrest⟩ := h.of_bind
  cases first with
  | ok b =>
      obtain ⟨rfl, hanswer⟩ := hrest.of_done
      obtain rfl := Process.done.inj hanswer
      exact .inl ⟨b, by simpa using hfirst, rfl⟩
  | error e => exact .inr ⟨e, early, late, rfl, hfirst, hrest⟩

/-- A read that goes on is one step that changes nothing. -/
theorem path_read {label : ℓ} {f : σ → α} {g : α → Attempt ℓ σ ε β}
    (h : Path (read label f >>= g : Attempt ℓ σ ε β) steps (.done answer)) :
    ∃ s late, steps = ⟨s, label, s⟩ :: late ∧ Path (g (f s)) late (.done answer) := by
  cases h with
  | step s later => exact ⟨s, _, rfl, later⟩

/-- What takes no step leads to what it returns. -/
theorem path_ofExcept {r : Except ε α} {g : α → Attempt ℓ σ ε β}
    (h : Path (ofExcept r >>= g : Attempt ℓ σ ε β) steps (.done answer)) :
    (∃ a, r = .ok a ∧ Path (g a) steps (.done answer)) ∨
      ∃ e, r = .error e ∧ steps = [] ∧ answer = .error e := by
  cases r with
  | ok a => exact .inl ⟨a, rfl, h⟩
  | error e =>
      obtain ⟨rfl, hanswer⟩ := Path.of_done h
      exact .inr ⟨e, rfl, rfl, Process.done.inj hanswer⟩

theorem path_pure {b : β} (h : Path (pure b : Attempt ℓ σ ε β) steps (.done answer)) :
    steps = [] ∧ answer = .ok b := by
  obtain ⟨rfl, hanswer⟩ := Path.of_done h
  exact ⟨rfl, Process.done.inj hanswer⟩

theorem path_throw {e : ε} (h : Path (throw e : Attempt ℓ σ ε β) steps (.done answer)) :
    steps = [] ∧ answer = .error e := by
  obtain ⟨rfl, hanswer⟩ := Path.of_done h
  exact ⟨rfl, Process.done.inj hanswer⟩

end Parts

section Transactions

variable {ε α : Type x}

/-- Run a body as one transaction: it takes place as a whole or not at all. -/
def transaction (label : ℓ) (weather : Weather ε) (body : σ → Except ε (α × σ)) :
    Attempt ℓ σ ε α :=
  Process.atomic label fun s =>
    match body s, weather with
    | .ok (a, s'), .fair => (.ok a, s')
    | .ok (_, s'), .unanswered e => (.error e, s')
    | .ok _, .aborted e => (.error e, s)
    | .error _, .aborted e => (.error e, s)
    | .error e, _ => (.error e, s)

/-- A transaction that nothing befalls. -/
theorem exec_transaction_fair (label : ℓ) (body : σ → Except ε (α × σ)) (s : σ) :
    (transaction label .fair body : Attempt ℓ σ ε α).exec s =
      match body s with
      | .ok (a, s') => (.ok a, s')
      | .error e => (.error e, s) := by
  refine (Process.exec_atomic _ _ s).trans ?_
  cases body s <;> rfl

/-- Try again after an error that calls for it, as often as there are retries. -/
def retrying (again : ε → Bool) (attempt : ℕ → Attempt ℓ σ ε α) : ℕ → ℕ → Attempt ℓ σ ε α
  | 0, n => attempt n
  | retries + 1, n =>
      (attempt n).recover fun e =>
        if again e then retrying again attempt retries (n + 1) else throw e

variable {label : ℓ} {weather : Weather ε} {body : σ → Except ε (α × σ)}
  {steps : List (Transition ℓ σ)} {answer : Except ε α}

/-- How a transaction that has been answered went. -/
theorem transaction_cases (h : Path (transaction label weather body) steps (.done answer)) :
    ∃ t, steps = [t] ∧ t.label = label ∧
      ((∃ a, weather = .fair ∧ body t.before = .ok (a, t.after) ∧ answer = .ok a) ∨
        (∃ a e, weather = .unanswered e ∧ body t.before = .ok (a, t.after) ∧ answer = .error e) ∨
        (∃ e, t.after = t.before ∧ answer = .error e ∧
          (¬ weather.Lands ∨ body t.before = .error e))) := by
  obtain ⟨s, rfl, rfl⟩ := h.of_atomic
  refine ⟨_, rfl, rfl, ?_⟩
  rcases hbody : body s with e | ⟨a, s'⟩ <;> cases weather <;> simp [Weather.Lands]

theorem takes_transaction {R : ℓ → σ → σ → Prop}
    (hlands : weather.Lands → ∀ s a s', body s = .ok (a, s') → R label s s')
    (hfails : ∀ s, (weather.Lands → ∀ a s', body s ≠ .ok (a, s')) → R label s s) :
    Process.Takes R (transaction label weather body) := by
  intro s
  refine ⟨?_, trivial⟩
  rcases hbody : body s with e | ⟨a, s'⟩ <;> cases weather <;> simp only [hbody]
  all_goals first
    | exact hlands trivial s a s' hbody
    | exact hfails s fun hlands => by simp_all [Weather.Lands]

/-- What holds of a single attempt, and of a failed attempt together with what follows
it, holds of the whole loop. -/
theorem retrying_cases {again : ε → Bool} {attempt : ℕ → Attempt ℓ σ ε α}
    {P : ℕ → List (Transition ℓ σ) → Except ε α → Prop}
    (hlast : ∀ retries n steps answer, Path (attempt n) steps (.done answer) →
      P retries steps answer)
    (hagain : ∀ retries n e steps more answer, Path (attempt n) steps (.done (.error e)) →
      again e = true → P retries more answer → P (retries + 1) (steps ++ more) answer)
    {retries n : ℕ} (h : Path (retrying again attempt retries n) steps (.done answer)) :
    P retries steps answer := by
  induction retries generalizing n steps with
  | zero => exact hlast 0 n steps answer h
  | succ retries ih =>
      obtain ⟨first, early, late, rfl, hfirst, hrest⟩ := h.of_bind
      cases first with
      | ok a =>
          obtain ⟨rfl, hanswer⟩ := hrest.of_done
          obtain rfl := Process.done.inj hanswer
          simpa using hlast (retries + 1) n early _ hfirst
      | error e =>
          dsimp only at hrest
          split at hrest
          · rename_i hretry
            exact hagain retries n e early late answer hfirst hretry (ih hrest)
          · obtain ⟨rfl, hanswer⟩ := hrest.of_done
            obtain rfl := Process.done.inj hanswer
            simpa using hlast (retries + 1) n early _ hfirst

/-- An attempt that passes is not repeated. -/
theorem exec_retrying_ok {again : ε → Bool} {attempt : ℕ → Attempt ℓ σ ε α} {n : ℕ} {a : α}
    {s s' : σ} (h : (attempt n).exec s = (.ok a, s')) (retries : ℕ) :
    (retrying again attempt retries n).exec s = (.ok a, s') := by
  cases retries with
  | zero => exact h
  | succ retries =>
      rw [retrying, exec_recover, h]

/-- An error that every attempt meets is thrown. -/
theorem exec_retrying_error {again : ε → Bool} {attempt : ℕ → Attempt ℓ σ ε α} {e : ε} {s : σ}
    (h : ∀ n, (attempt n).exec s = (.error e, s)) (retries n : ℕ) :
    (retrying again attempt retries n).exec s = (.error e, s) := by
  induction retries generalizing n with
  | zero => exact h n
  | succ retries ih =>
      rw [retrying, exec_recover, h n]
      simp only []
      split
      · exact ih (n + 1)
      · rfl

theorem takes_retrying {R : ℓ → σ → σ → Prop} {again : ε → Bool}
    {attempt : ℕ → Attempt ℓ σ ε α} (h : ∀ n, Process.Takes R (attempt n)) (retries n : ℕ) :
    Process.Takes R (retrying again attempt retries n) := by
  induction retries generalizing n with
  | zero => exact h n
  | succ retries ih =>
      refine takes_recover (h n) fun e => ?_
      split
      · exact ih (n + 1)
      · trivial

end Transactions

end Attempt

end SecureStore.Foundation
