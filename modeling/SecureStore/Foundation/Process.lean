/-
# Processes of atomic steps

A process is a finite tree of labelled atomic steps on a shared state. A step
rewrites the state and continues with a process that may depend on the state it
found, which is how a read returns a value. One description of a process serves
every way of running it: to completion, stopped after some of its steps, or
interleaved with others. An attempt is a process whose result may be an error
that skips the steps still to come.
-/

import Mathlib.Data.Nat.Notation

namespace SecureStore.Foundation

universe u v w x

/-- A tree of atomic steps on states σ, labelled in ℓ, returning a value in α. -/
inductive Process (ℓ : Type u) (σ : Type v) (α : Type w) where
  | done (a : α)
  | step (label : ℓ) (effect : σ → σ) (next : σ → Process ℓ σ α)

namespace Process

variable {ℓ : Type u} {σ : Type v} {α β γ : Type w}

/-- Continue with the result of a process. -/
def bind : Process ℓ σ α → (α → Process ℓ σ β) → Process ℓ σ β
  | done a, f => f a
  | step label effect next, f => step label effect fun s => (next s).bind f

/-- One atomic step that computes a result and a new state from the state it finds. -/
def atomic (label : ℓ) (f : σ → α × σ) : Process ℓ σ α :=
  step label (fun s => (f s).2) fun s => done (f s).1

@[simp]
theorem bind_done (a : α) (f : α → Process ℓ σ β) : (done a).bind f = f a := rfl

@[simp]
theorem bind_step (label : ℓ) (effect : σ → σ) (next : σ → Process ℓ σ α)
    (f : α → Process ℓ σ β) :
    (step label effect next).bind f = step label effect fun s => (next s).bind f := rfl

@[simp]
theorem bind_atomic (label : ℓ) (g : σ → α × σ) (f : α → Process ℓ σ β) :
    (atomic label g).bind f = step label (fun s => (g s).2) fun s => f (g s).1 := rfl

theorem bind_assoc (p : Process ℓ σ α) (f : α → Process ℓ σ β) (g : β → Process ℓ σ γ) :
    (p.bind f).bind g = p.bind fun a => (f a).bind g := by
  induction p with
  | done a => rfl
  | step label effect next ih =>
      simp only [bind_step]
      congr 1
      funext s
      exact ih s

/-- Run to completion with nothing in between. -/
def exec : Process ℓ σ α → σ → α × σ
  | done a, s => (a, s)
  | step _ effect next, s => (next s).exec (effect s)

@[simp]
theorem exec_done (a : α) (s : σ) : (done a : Process ℓ σ α).exec s = (a, s) := rfl

@[simp]
theorem exec_step (label : ℓ) (effect : σ → σ) (next : σ → Process ℓ σ α) (s : σ) :
    (step label effect next).exec s = (next s).exec (effect s) := rfl

@[simp]
theorem exec_atomic (label : ℓ) (f : σ → α × σ) (s : σ) : (atomic label f).exec s = f s := rfl

theorem exec_bind (p : Process ℓ σ α) (f : α → Process ℓ σ β) (s : σ) :
    (p.bind f).exec s = (f (p.exec s).1).exec (p.exec s).2 := by
  induction p generalizing s with
  | done a => rfl
  | step label effect next ih => exact ih s (effect s)

/-- A process on a component of a larger state. -/
def zoom {ℓ' : Type u} {τ : Type v} (label : ℓ → ℓ') (get : τ → σ) (put : σ → τ → τ) :
    Process ℓ σ α → Process ℓ' τ α
  | done a => done a
  | step l effect next =>
      step (label l) (fun t => put (effect (get t)) t) fun t => (next (get t)).zoom label get put

/-- A component that is read back as it was put, and put back as it was read. -/
theorem exec_zoom {ℓ' : Type u} {τ : Type v} {label : ℓ → ℓ'} {get : τ → σ} {put : σ → τ → τ}
    (hget : ∀ a t, get (put a t) = a) (hput : ∀ a b t, put a (put b t) = put a t)
    (hsame : ∀ t, put (get t) t = t) (p : Process ℓ σ α) (t : τ) :
    (p.zoom label get put).exec t = ((p.exec (get t)).1, put (p.exec (get t)).2 t) := by
  induction p generalizing t with
  | done a => exact congrArg (a, ·) (hsame t).symm
  | step l effect next ih =>
      refine (ih (get t) (put (effect (get t)) t)).trans ?_
      rw [hget, hput]
      rfl

/-- A process whose steps are labelled with a name of it. -/
def tag {ι : Type u} (i : ι) (p : Process ℓ σ α) : Process (ι × ℓ) σ α :=
  p.zoom (fun l => (i, l)) id fun s _ => s

/-- What a process has returned, if it has. -/
def result : Process ℓ σ α → Option α
  | done a => some a
  | step _ _ _ => none

theorem result_eq_some_iff {p : Process ℓ σ α} {a : α} : p.result = some a ↔ p = done a := by
  cases p <;> simp [result]

/-- The state left behind when the process stops after at most n steps. -/
def stopAfter : ℕ → Process ℓ σ α → σ → σ
  | 0, _, s => s
  | _ + 1, done _, s => s
  | n + 1, step _ effect next, s => (next s).stopAfter n (effect s)

@[simp]
theorem stopAfter_zero (p : Process ℓ σ α) (s : σ) : p.stopAfter 0 s = s := by
  cases p <;> rfl

@[simp]
theorem stopAfter_done (n : ℕ) (a : α) (s : σ) :
    (done a : Process ℓ σ α).stopAfter n s = s := by
  cases n <;> rfl

@[simp]
theorem stopAfter_step (n : ℕ) (label : ℓ) (effect : σ → σ) (next : σ → Process ℓ σ α)
    (s : σ) :
    (step label effect next).stopAfter (n + 1) s = (next s).stopAfter n (effect s) := rfl

/-- How many steps an undisturbed run takes. -/
def steps : Process ℓ σ α → σ → ℕ
  | done _, _ => 0
  | step _ effect next, s => (next s).steps (effect s) + 1

@[simp]
theorem steps_done (a : α) (s : σ) : (done a : Process ℓ σ α).steps s = 0 := rfl

@[simp]
theorem steps_step (label : ℓ) (effect : σ → σ) (next : σ → Process ℓ σ α) (s : σ) :
    (step label effect next).steps s = (next s).steps (effect s) + 1 := rfl

/-- A sequence takes the steps of its parts. -/
theorem steps_bind (p : Process ℓ σ α) (f : α → Process ℓ σ β) (s : σ) :
    (p.bind f).steps s = p.steps s + (f (p.exec s).1).steps (p.exec s).2 := by
  induction p generalizing s with
  | done a => simp
  | step label effect next ih =>
      simp only [bind_step, steps_step, exec_step, ih]
      exact Nat.add_right_comm _ _ _

/-- A sequence that stops within its first part. -/
theorem stopAfter_bind_of_le {p : Process ℓ σ α} {f : α → Process ℓ σ β} {n : ℕ} {s : σ}
    (h : n ≤ p.steps s) : (p.bind f).stopAfter n s = p.stopAfter n s := by
  induction n generalizing p s with
  | zero => simp
  | succ n ih =>
      cases p with
      | done a => exact absurd h (Nat.not_succ_le_zero n)
      | step label effect next => exact ih (Nat.le_of_succ_le_succ h)

/-- A sequence that stops behind its first part. -/
theorem stopAfter_bind_of_ge {p : Process ℓ σ α} {f : α → Process ℓ σ β} {n : ℕ} {s : σ}
    (h : p.steps s ≤ n) :
    (p.bind f).stopAfter n s = (f (p.exec s).1).stopAfter (n - p.steps s) (p.exec s).2 := by
  induction p generalizing n s with
  | done a => rfl
  | step label effect next ih =>
      cases n with
      | zero => exact absurd h (Nat.not_succ_le_zero _)
      | succ n =>
          simp only [bind_step, stopAfter_step, exec_step, steps_step, Nat.succ_sub_succ]
          exact ih s (Nat.le_of_succ_le_succ h)

/-- A property of every state an undisturbed run goes through. -/
def Always (P : σ → Prop) : Process ℓ σ α → σ → Prop
  | done _, s => P s
  | step _ effect next, s => P s ∧ (next s).Always P (effect s)

theorem Always.start {P : σ → Prop} {p : Process ℓ σ α} {s : σ} (h : p.Always P s) : P s := by
  cases p with
  | done a => exact h
  | step label effect next => exact h.1

/-- Wherever the process stops, the property holds. -/
theorem Always.stopAfter {P : σ → Prop} {p : Process ℓ σ α} {s : σ} (h : p.Always P s)
    (n : ℕ) : P (p.stopAfter n s) := by
  induction n generalizing p s with
  | zero => simpa using h.start
  | succ n ih =>
      cases p with
      | done a => exact h
      | step label effect next => exact ih h.2

theorem Always.exec {P : σ → Prop} {p : Process ℓ σ α} {s : σ} (h : p.Always P s) :
    P (p.exec s).2 := by
  induction p generalizing s with
  | done a => exact h
  | step label effect next ih => exact ih s h.2

end Process

/-- A process whose result may be an error. -/
def Attempt (ℓ : Type u) (σ : Type v) (ε : Type x) (α : Type x) : Type (max u v x) :=
  Process ℓ σ (Except ε α)

namespace Attempt

variable {ℓ : Type u} {σ : Type v} {ε α β : Type x}

/-- Continue on success; an error ends the attempt. -/
def bind (p : Attempt ℓ σ ε α) (f : α → Attempt ℓ σ ε β) : Attempt ℓ σ ε β :=
  Process.bind p fun
    | .ok a => f a
    | .error e => .done (.error e)

instance : Monad (Attempt ℓ σ ε) where
  pure a := Process.done (.ok a)
  bind := bind

/-- Give up with an error. -/
def throw (e : ε) : Attempt ℓ σ ε α := Process.done (.error e)

/-- Resume from an error. -/
def recover (p : Attempt ℓ σ ε α) (handler : ε → Attempt ℓ σ ε α) : Attempt ℓ σ ε α :=
  Process.bind p fun
    | .ok a => .done (.ok a)
    | .error e => handler e

/-- Read a value from the state in one step. -/
def read (label : ℓ) (f : σ → α) : Attempt ℓ σ ε α :=
  Process.atomic label fun s => (.ok (f s), s)

/-- Change the state in one step; an error leaves the state as it was. -/
def write (label : ℓ) (f : σ → Except ε (α × σ)) : Attempt ℓ σ ε α :=
  Process.atomic label fun s =>
    match f s with
    | .ok (a, s') => (.ok a, s')
    | .error e => (.error e, s)

/-- The value of an option, or an error. -/
def orThrow (o : Option α) (e : ε) : Attempt ℓ σ ε α :=
  match o with
  | some a => pure a
  | none => throw e

/-- `if (c) throw e` -/
def throwIf (c : Prop) [Decidable c] (e : ε) : Attempt ℓ σ ε PUnit :=
  if c then throw e else pure ⟨⟩

/-- The outcome of a call that takes no step of its own. -/
def ofExcept (r : Except ε α) : Attempt ℓ σ ε α := Process.done r

/-- Run an attempt for every element of a list, in order. -/
def forEach {δ : Type w} (items : List δ) (body : δ → Attempt ℓ σ ε PUnit) :
    Attempt ℓ σ ε PUnit :=
  match items with
  | [] => pure ⟨⟩
  | item :: rest => (body item).bind fun _ => forEach rest body

/-- A loop passes over items that it takes no step for. -/
theorem forEach_append_of_pure {δ : Type w} {skipped items : List δ}
    {body : δ → Attempt ℓ σ ε PUnit} (h : ∀ item ∈ skipped, body item = pure ⟨⟩) :
    forEach (skipped ++ items) body = forEach items body := by
  induction skipped with
  | nil => rfl
  | cons item skipped ih =>
      rw [List.cons_append, forEach, h item List.mem_cons_self]
      exact ih fun x hx => h x (List.mem_cons_of_mem _ hx)

/-- Run to completion with nothing in between. -/
def exec (p : Attempt ℓ σ ε α) (s : σ) : Except ε α × σ := Process.exec p s

theorem bind_assoc {γ : Type x} (p : Attempt ℓ σ ε α) (f : α → Attempt ℓ σ ε β)
    (g : β → Attempt ℓ σ ε γ) :
    ((p >>= f) >>= g : Attempt ℓ σ ε γ) = p >>= fun a => f a >>= g := by
  refine (Process.bind_assoc p _ _).trans (congrArg (Process.bind p) ?_)
  funext result
  cases result <;> rfl

theorem throwIf_bind {c : Prop} [Decidable c] (h : ¬ c) (e : ε)
    (g : PUnit → Attempt ℓ σ ε β) : (throwIf c e >>= g : Attempt ℓ σ ε β) = g ⟨⟩ := by
  unfold throwIf
  rw [if_neg h]
  rfl

/-- A read is a step that leaves the state as it was. -/
theorem stopAfter_read (label : ℓ) (f : σ → α) (g : α → Attempt ℓ σ ε β) (n : ℕ) (s : σ) :
    Process.stopAfter (n + 1) (read label f >>= g : Attempt ℓ σ ε β) s =
      Process.stopAfter n (g (f s)) s := rfl

/-- An attempt on a component of a larger state, with its errors among more errors. -/
def zoom {ℓ' : Type u} {τ : Type v} {ε' : Type x} (label : ℓ → ℓ') (get : τ → σ)
    (put : σ → τ → τ) (error : ε → ε') (p : Attempt ℓ σ ε α) : Attempt ℓ' τ ε' α :=
  Process.bind (Process.zoom label get put p) fun result => .done (result.mapError error)

/-- The attempt takes no step: it throws, or it passes and what it checks holds. -/
def Checks (P : Prop) (p : Attempt ℓ σ ε PUnit) : Prop :=
  (∃ e, p = throw e) ∨ (p = pure ⟨⟩ ∧ P)

section Checks

variable {P : Prop} {e : ε}

theorem checks_throwIf {c : Prop} [Decidable c] {g : PUnit → Attempt ℓ σ ε PUnit}
    (h : ¬ c → Checks P (g ⟨⟩)) : Checks P (throwIf c e >>= g : Attempt ℓ σ ε PUnit) := by
  unfold throwIf
  split
  · exact .inl ⟨e, rfl⟩
  · exact h ‹_›

theorem checks_throwIf_last {c : Prop} [Decidable c] (h : ¬ c → P) :
    Checks P (throwIf c e : Attempt ℓ σ ε PUnit) := by
  unfold throwIf
  split
  · exact .inl ⟨e, rfl⟩
  · exact .inr ⟨rfl, h ‹_›⟩

theorem checks_orThrow {o : Option α} {g : α → Attempt ℓ σ ε PUnit}
    (h : ∀ a, o = some a → Checks P (g a)) :
    Checks P (orThrow o e >>= g : Attempt ℓ σ ε PUnit) := by
  cases o with
  | none => exact .inl ⟨e, rfl⟩
  | some a => exact h a rfl

/-- A loop of checks has checked every element. -/
theorem checks_forEach {δ : Type w} {Q : δ → Prop} {body : δ → Attempt ℓ σ ε PUnit}
    (h : ∀ item, Checks (Q item) (body item)) (items : List δ) :
    Checks (∀ item ∈ items, Q item) (forEach items body) := by
  induction items with
  | nil => exact .inr ⟨rfl, by simp⟩
  | cons item rest ih =>
      rw [forEach]
      rcases h item with ⟨e, hthrow⟩ | ⟨hpure, hitem⟩
      · rw [hthrow]
        exact .inl ⟨e, rfl⟩
      · rw [hpure]
        rcases ih with hthrow | ⟨hrest, hall⟩
        · exact .inl hthrow
        · exact .inr ⟨hrest, List.forall_mem_cons.mpr ⟨hitem, hall⟩⟩

end Checks

section Exec

variable {s s' : σ}

theorem exec_bind (p : Attempt ℓ σ ε α) (f : α → Attempt ℓ σ ε β) (s : σ) :
    (p >>= f).exec s =
      match p.exec s with
      | (.ok a, s') => (f a).exec s'
      | (.error e, s') => (.error e, s') := by
  refine (Process.exec_bind p _ s).trans ?_
  unfold exec
  rcases Process.exec p s with ⟨_ | a, s'⟩ <;> rfl

theorem exec_bind_ok {p : Attempt ℓ σ ε α} {f : α → Attempt ℓ σ ε β} {a : α}
    (h : p.exec s = (.ok a, s')) : (p >>= f).exec s = (f a).exec s' := by
  rw [exec_bind, h]

theorem exec_bind_error {p : Attempt ℓ σ ε α} {f : α → Attempt ℓ σ ε β} {e : ε}
    (h : p.exec s = (.error e, s')) : (p >>= f).exec s = (.error e, s') := by
  rw [exec_bind, h]

@[simp]
theorem exec_pure (a : α) (s : σ) : (pure a : Attempt ℓ σ ε α).exec s = (.ok a, s) := rfl

@[simp]
theorem exec_throw (e : ε) (s : σ) : (throw e : Attempt ℓ σ ε α).exec s = (.error e, s) := rfl

@[simp]
theorem exec_read (label : ℓ) (f : σ → α) (s : σ) :
    (read label f : Attempt ℓ σ ε α).exec s = (.ok (f s), s) := rfl

theorem exec_write (label : ℓ) (f : σ → Except ε (α × σ)) (s : σ) :
    (write label f : Attempt ℓ σ ε α).exec s =
      match f s with
      | .ok (a, s') => (.ok a, s')
      | .error e => (.error e, s) := rfl

theorem exec_recover (p : Attempt ℓ σ ε α) (handler : ε → Attempt ℓ σ ε α) (s : σ) :
    (p.recover handler).exec s =
      match p.exec s with
      | (.ok a, s') => (.ok a, s')
      | (.error e, s') => (handler e).exec s' := by
  refine (Process.exec_bind p _ s).trans ?_
  unfold exec
  rcases Process.exec p s with ⟨_ | a, s'⟩ <;> rfl

@[simp]
theorem exec_orThrow_some (a : α) (e : ε) (s : σ) :
    (orThrow (some a) e : Attempt ℓ σ ε α).exec s = (.ok a, s) := rfl

@[simp]
theorem exec_orThrow_none (e : ε) (s : σ) :
    (orThrow none e : Attempt ℓ σ ε α).exec s = (.error e, s) := rfl

theorem exec_throwIf (c : Prop) [Decidable c] (e : ε) (s : σ) :
    (throwIf c e : Attempt ℓ σ ε PUnit).exec s =
      if c then (.error e, s) else (.ok ⟨⟩, s) := by
  unfold throwIf
  split <;> rfl

@[simp]
theorem exec_ofExcept (r : Except ε α) (s : σ) :
    (ofExcept r : Attempt ℓ σ ε α).exec s = (r, s) := rfl

@[simp]
theorem exec_forEach_nil {δ : Type w} (body : δ → Attempt ℓ σ ε PUnit) (s : σ) :
    (forEach [] body).exec s = (.ok ⟨⟩, s) := rfl

theorem exec_forEach_cons {δ : Type w} (item : δ) (rest : List δ)
    (body : δ → Attempt ℓ σ ε PUnit) (s : σ) :
    (forEach (item :: rest) body).exec s =
      match (body item).exec s with
      | (.ok _, s') => (forEach rest body).exec s'
      | (.error e, s') => (.error e, s') := by
  rw [forEach]
  refine (exec_bind (body item) (fun _ => forEach rest body) s).trans ?_
  rcases (body item).exec s with ⟨_ | a, s'⟩ <;> rfl

theorem exec_zoom {ℓ' : Type u} {τ : Type v} {ε' : Type x} {label : ℓ → ℓ'} {get : τ → σ}
    {put : σ → τ → τ} {error : ε → ε'} (hget : ∀ a t, get (put a t) = a)
    (hput : ∀ a b t, put a (put b t) = put a t) (hsame : ∀ t, put (get t) t = t)
    (p : Attempt ℓ σ ε α) (t : τ) :
    (zoom label get put error p).exec t =
      ((p.exec (get t)).1.mapError error, put (p.exec (get t)).2 t) := by
  refine (Process.exec_bind _ _ t).trans ?_
  rw [show Process.exec (Process.zoom label get put p) t = _ from
    Process.exec_zoom hget hput hsame p t]
  rfl

end Exec

section Stops

variable {s s' : σ}

theorem steps_bind_ok {p : Attempt ℓ σ ε α} {f : α → Attempt ℓ σ ε β} {a : α}
    (h : p.exec s = (.ok a, s')) :
    Process.steps (p >>= f : Attempt ℓ σ ε β) s = Process.steps p s + Process.steps (f a) s' := by
  have hsteps := Process.steps_bind p (fun r => match r with
    | .ok a => f a
    | .error e => .done (.error e)) s
  rw [show Process.exec p s = (.ok a, s') from h] at hsteps
  exact hsteps

theorem steps_le_bind {p : Attempt ℓ σ ε α} {f : α → Attempt ℓ σ ε β} :
    Process.steps p s ≤ Process.steps (p >>= f : Attempt ℓ σ ε β) s :=
  Nat.le_trans (Nat.le_add_right _ _) (Nat.le_of_eq (Process.steps_bind p _ s).symm)

/-- An attempt that stops within its first part. -/
theorem stopAfter_bind_of_le {p : Attempt ℓ σ ε α} {f : α → Attempt ℓ σ ε β} {n : ℕ}
    (h : n ≤ Process.steps p s) :
    Process.stopAfter n (p >>= f : Attempt ℓ σ ε β) s = Process.stopAfter n p s :=
  Process.stopAfter_bind_of_le h

/-- An attempt that stops behind its first part. -/
theorem stopAfter_bind_ok {p : Attempt ℓ σ ε α} {f : α → Attempt ℓ σ ε β} {a : α} {n : ℕ}
    (h : p.exec s = (.ok a, s')) (hn : Process.steps p s ≤ n) :
    Process.stopAfter n (p >>= f : Attempt ℓ σ ε β) s =
      Process.stopAfter (n - Process.steps p s) (f a) s' := by
  refine (Process.stopAfter_bind_of_ge hn).trans ?_
  rw [show Process.exec p s = (.ok a, s') from h]

/-- Nothing comes behind an error. -/
theorem stopAfter_bind_error {p : Attempt ℓ σ ε α} {f : α → Attempt ℓ σ ε β} {e : ε} {n : ℕ}
    (h : p.exec s = (.error e, s')) (hn : Process.steps p s ≤ n) :
    Process.stopAfter n (p >>= f : Attempt ℓ σ ε β) s = s' := by
  refine (Process.stopAfter_bind_of_ge hn).trans ?_
  rw [show Process.exec p s = (.error e, s') from h]
  exact Process.stopAfter_done _ _ _

section Write

variable {label : ℓ} {f : σ → Except ε (α × σ)} {g : α → Attempt ℓ σ ε β}

/-- A write that is refused is the last step, and changes nothing. -/
theorem write_refused {e : ε} (h : f s = .error e) :
    (write label f >>= g : Attempt ℓ σ ε β).exec s = (.error e, s) ∧
      Process.steps (write label f >>= g : Attempt ℓ σ ε β) s = 1 ∧
        ∀ n, Process.stopAfter n (write label f >>= g : Attempt ℓ σ ε β) s = s := by
  have hwrite : (write label f).exec s = (.error e, s) := by
    rw [exec_write, h]
  refine ⟨exec_bind_error hwrite, ?_, fun n => ?_⟩
  · refine (Process.steps_bind _ _ s).trans ?_
    rw [show Process.exec (write label f) s = (.error e, s) from hwrite]
    rfl
  · cases n with
    | zero => exact Process.stopAfter_zero _ _
    | succ n => exact stopAfter_bind_error hwrite (Nat.succ_le_succ n.zero_le)

/-- Behind a write the attempt goes on from the state that it left. -/
theorem write_passed {a : α} (h : f s = .ok (a, s')) :
    (write label f >>= g : Attempt ℓ σ ε β).exec s = (g a).exec s' ∧
      Process.steps (write label f >>= g : Attempt ℓ σ ε β) s = 1 + Process.steps (g a) s' ∧
        ∀ n, Process.stopAfter (n + 1) (write label f >>= g : Attempt ℓ σ ε β) s =
          Process.stopAfter n (g a) s' := by
  have hwrite : (write label f).exec s = (.ok a, s') := by
    rw [exec_write, h]
  exact ⟨exec_bind_ok hwrite, steps_bind_ok hwrite,
    fun n => stopAfter_bind_ok hwrite (Nat.succ_le_succ n.zero_le)⟩

end Write

/-- A loop that returns takes the steps of its rounds. -/
theorem steps_forEach {δ : Type w} {body : δ → Attempt ℓ σ ε PUnit} {c : ℕ}
    (h : ∀ item s s', (body item).exec s = (.ok ⟨⟩, s') →
      Process.steps (body item) s = c)
    (items : List δ) (hok : (forEach items body).exec s = (.ok ⟨⟩, s')) :
    Process.steps (forEach items body) s = c * items.length := by
  induction items generalizing s with
  | nil => rfl
  | cons item rest ih =>
      rw [exec_forEach_cons] at hok
      rcases hround : (body item).exec s with ⟨e | ⟨⟩, s₁⟩
      · rw [hround] at hok
        cases hok
      · rw [hround] at hok
        have hsteps : Process.steps (forEach (item :: rest) body) s =
            Process.steps (body item) s + Process.steps (forEach rest body) s₁ :=
          steps_bind_ok hround
        rw [hsteps, h item s s₁ hround, ih hok, List.length_cons, Nat.mul_succ, Nat.add_comm]

end Stops

end Attempt

end SecureStore.Foundation
