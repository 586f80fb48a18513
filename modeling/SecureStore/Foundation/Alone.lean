/-
# Processes that run on their own

A request that nothing comes in between of still may stop after any of its steps. The
judgement here says what holds wherever it stops and what holds when it returns, and is
read off its text step by step; between two steps the state is the one left behind.
-/

import SecureStore.Foundation.Interleaving

namespace SecureStore.Foundation

universe u v w x

variable {ℓ : Type u} {σ : Type v} {α β : Type w}

/-- Every state the process steps into satisfies `crash`, and it returns with `post`. -/
def Process.Ensures (crash : σ → Prop) (post : α → σ → Prop) : Process ℓ σ α → σ → Prop
  | .done a, s => post a s
  | .step _ effect next, s => crash (effect s) ∧ Ensures crash post (next s) (effect s)

namespace Process.Ensures

variable {crash crash' : σ → Prop} {post post' : α → σ → Prop} {p : Process ℓ σ α} {s : σ}

theorem exec (h : p.Ensures crash post s) : post (p.exec s).1 (p.exec s).2 := by
  induction p generalizing s with
  | done a => exact h
  | step label effect next ih => exact ih s h.2

/-- Wherever the process stops, the crash condition holds. -/
theorem stopAfter (h : p.Ensures crash post s) (hs : crash s) (n : ℕ) :
    crash (p.stopAfter n s) := by
  induction n generalizing p s with
  | zero => simpa using hs
  | succ n ih =>
      cases p with
      | done a => exact hs
      | step label effect next => exact ih h.2 h.1

/-- Behind its first step, wherever the process stops, the crash condition holds. -/
theorem stopAfter_pos {n : ℕ} (h : p.Ensures crash post s) (hsteps : 0 < p.steps s) (hn : 0 < n) :
    crash (p.stopAfter n s) := by
  cases n with
  | zero => exact absurd hn (Nat.lt_irrefl 0)
  | succ n =>
      cases p with
      | done a => exact absurd hsteps (Nat.lt_irrefl 0)
      | step label effect next => exact stopAfter h.2 h.1 n

theorem mono (h : p.Ensures crash post s) (hcrash : ∀ s, crash s → crash' s)
    (hpost : ∀ a s, post a s → post' a s) : p.Ensures crash' post' s := by
  induction p generalizing s with
  | done a => exact hpost a s h
  | step label effect next ih => exact ⟨hcrash _ h.1, ih s h.2⟩

theorem weaken (h : p.Ensures crash post s) (hpost : ∀ a s, post a s → post' a s) :
    p.Ensures crash post' s :=
  h.mono (fun _ hs => hs) hpost

theorem and (h : p.Ensures crash post s) (h' : p.Ensures crash' post' s) :
    p.Ensures (fun s => crash s ∧ crash' s) (fun a s => post a s ∧ post' a s) s := by
  induction p generalizing s with
  | done a => exact ⟨h, h'⟩
  | step label effect next ih => exact ⟨⟨h.1, h'.1⟩, ih s h.2 h'.2⟩

/-- A process that keeps a contract keeps it alone. -/
theorem of_keeps {c : Contract ℓ σ} (h : c.Keeps post p s) (hinv : c.inv s)
    (hadmits : ∀ label s, c.admits label s) :
    p.Ensures (fun s' => c.inv s' ∧ c.rely s s')
      (fun a s' => c.inv s' ∧ c.rely s s' ∧ post a s') s := by
  induction p generalizing s with
  | done a => exact ⟨hinv, c.rely_refl s, h⟩
  | step label effect next ih =>
      obtain ⟨hinv', hguar, -, hnext⟩ := h s (c.rely_refl s) hinv (hadmits label s)
      have hrely := c.guar_rely hinv hguar
      refine ⟨⟨hinv', hrely⟩, (ih s hnext hinv').mono ?_ ?_⟩
      · intro s' hs'
        exact ⟨hs'.1, c.rely_trans hrely hs'.2⟩
      · intro a s' hs'
        exact ⟨hs'.1, c.rely_trans hrely hs'.2.1, hs'.2.2⟩

theorem bind {f : α → Process ℓ σ β} {post : β → σ → Prop}
    (h : p.Ensures crash (fun a s' => (f a).Ensures crash post s') s) :
    (p.bind f).Ensures crash post s := by
  induction p generalizing s with
  | done a => exact h
  | step label effect next ih => exact ⟨h.1, ih s h.2⟩

end Process.Ensures

/-! ## Rules for attempts -/

section Attempts

variable {ε α β : Type x} {crash : σ → Prop} {post : Except ε β → σ → Prop} {s : σ} {label : ℓ}

/-- What an attempt that is continued by `g` has to end in. -/
def Continues (crash : σ → Prop) (post : Except ε β → σ → Prop) (g : α → Attempt ℓ σ ε β) :
    Except ε α → σ → Prop
  | .ok a, s => Process.Ensures crash post (g a) s
  | .error e, s => post (.error e) s

theorem continues_ok {g : α → Attempt ℓ σ ε β} {a : α} :
    Continues crash post g (.ok a) s ↔ Process.Ensures crash post (g a) s := Iff.rfl

theorem ensures_bind {p : Attempt ℓ σ ε α} {g : α → Attempt ℓ σ ε β}
    (h : Process.Ensures crash (Continues crash post g) p s) :
    Process.Ensures crash post (p >>= g : Attempt ℓ σ ε β) s := by
  apply Process.Ensures.bind
  apply h.weaken
  rintro (e | a) s' hs'
  · exact hs'
  · exact hs'

theorem ensures_read (hs : crash s) {f : σ → α} {g : α → Attempt ℓ σ ε β}
    (h : Process.Ensures crash post (g (f s)) s) :
    Process.Ensures crash post (Attempt.read label f >>= g : Attempt ℓ σ ε β) s :=
  ⟨hs, h⟩

theorem ensures_read_last (hs : crash s) {f : σ → β} (h : post (.ok (f s)) s) :
    Process.Ensures crash post (Attempt.read label f : Attempt ℓ σ ε β) s :=
  ⟨hs, h⟩

theorem ensures_write_last {f : σ → Except ε (β × σ)}
    (herr : ∀ e, f s = .error e → crash s ∧ post (.error e) s)
    (hok : ∀ b s', f s = .ok (b, s') → crash s' ∧ post (.ok b) s') :
    Process.Ensures crash post (Attempt.write label f : Attempt ℓ σ ε β) s := by
  unfold Attempt.write
  cases hf : f s with
  | ok result =>
      obtain ⟨hcrash, hpost⟩ := hok _ _ hf
      refine ⟨?_, ?_⟩
      · simp only [hf]
        exact hcrash
      · simp only [hf]
        exact hpost
  | error e =>
      obtain ⟨hcrash, hpost⟩ := herr e hf
      refine ⟨?_, ?_⟩
      · simp only [hf]
        exact hcrash
      · simp only [hf]
        exact hpost

theorem ensures_write {f : σ → Except ε (α × σ)} {g : α → Attempt ℓ σ ε β}
    (herr : ∀ e, f s = .error e → crash s ∧ post (.error e) s)
    (hok : ∀ a s', f s = .ok (a, s') → crash s' ∧ Process.Ensures crash post (g a) s') :
    Process.Ensures crash post (Attempt.write label f >>= g : Attempt ℓ σ ε β) s :=
  ensures_bind (ensures_write_last herr hok)

theorem ensures_throwIf {cond : Prop} [Decidable cond] {e : ε} {g : PUnit → Attempt ℓ σ ε β}
    (herr : cond → post (.error e) s) (h : ¬ cond → Process.Ensures crash post (g ⟨⟩) s) :
    Process.Ensures crash post (Attempt.throwIf cond e >>= g : Attempt ℓ σ ε β) s := by
  unfold Attempt.throwIf
  split
  · exact herr ‹_›
  · exact h ‹_›

theorem ensures_throwIf_last {cond : Prop} [Decidable cond] {e : ε}
    {post : Except ε PUnit → σ → Prop} (herr : cond → post (.error e) s)
    (h : ¬ cond → post (.ok ⟨⟩) s) :
    Process.Ensures crash post (Attempt.throwIf cond e : Attempt ℓ σ ε PUnit) s := by
  unfold Attempt.throwIf
  split
  · exact herr ‹_›
  · exact h ‹_›

theorem ensures_orThrow {o : Option α} {e : ε} {g : α → Attempt ℓ σ ε β}
    (herr : o = none → post (.error e) s)
    (h : ∀ a, o = some a → Process.Ensures crash post (g a) s) :
    Process.Ensures crash post (Attempt.orThrow o e >>= g : Attempt ℓ σ ε β) s := by
  cases o with
  | none => exact herr rfl
  | some a => exact h a rfl

theorem ensures_ofExcept {r : Except ε α} {g : α → Attempt ℓ σ ε β}
    (herr : ∀ e, r = .error e → post (.error e) s)
    (h : ∀ a, r = .ok a → Process.Ensures crash post (g a) s) :
    Process.Ensures crash post (Attempt.ofExcept r >>= g : Attempt ℓ σ ε β) s := by
  cases r with
  | error e => exact herr e rfl
  | ok a => exact h a rfl

/-- A lookup that throws when it finds nothing. -/
theorem ensures_find (hs : crash s) {f : σ → Option α} {e : ε} {g : α → Attempt ℓ σ ε β}
    (herr : f s = none → post (.error e) s)
    (h : ∀ a, f s = some a → Process.Ensures crash post (g a) s) :
    Process.Ensures crash post
      ((Attempt.read label f >>= fun o => Attempt.orThrow o e) >>= g : Attempt ℓ σ ε β) s := by
  rw [Attempt.bind_assoc]
  exact ensures_read hs (ensures_orThrow herr h)

/-- A loop, by what holds before each of its elements. -/
theorem ensures_forEach {δ : Type w} {body : δ → Attempt ℓ σ ε PUnit}
    {post : Except ε PUnit → σ → Prop} (I : List δ → σ → Prop)
    (hbody : ∀ item rest s, I (item :: rest) s → Process.Ensures crash
      (fun r s' => match r with | .ok _ => I rest s' | .error e => post (.error e) s')
      (body item) s)
    (hdone : ∀ s, I [] s → post (.ok ⟨⟩) s) {items : List δ} (hs : I items s) :
    Process.Ensures crash post (Attempt.forEach items body) s := by
  induction items generalizing s with
  | nil => exact hdone s hs
  | cons item rest ih =>
      apply ensures_bind
      apply (hbody item rest s hs).weaken
      rintro (e | a) s' hs'
      · exact hs'
      · exact ih hs'

/-- An attempt that resumes from every error. -/
theorem ensures_recover {p : Attempt ℓ σ ε β} {handler : ε → Attempt ℓ σ ε β}
    (h : Process.Ensures crash (fun r s' => match r with
      | .ok b => post (.ok b) s'
      | .error e => Process.Ensures crash post (handler e) s') p s) :
    Process.Ensures crash post (p.recover handler) s := by
  apply Process.Ensures.bind
  apply h.weaken
  rintro (e | b) s' hs'
  · exact hs'
  · exact hs'

end Attempts

/-! ## Attempts that succeed -/

/-- The attempt returns a value when it runs from a state. -/
def Attempt.Succeeds {ε α : Type x} (p : Attempt ℓ σ ε α) (s : σ) : Prop :=
  ∃ a s', p.exec s = (.ok a, s')

section Succeeds

variable {ε α β : Type x} {s : σ} {label : ℓ}

theorem succeeds_bind {p : Attempt ℓ σ ε α} {g : α → Attempt ℓ σ ε β} :
    (p >>= g).Succeeds s ↔ ∃ a s', p.exec s = (.ok a, s') ∧ (g a).Succeeds s' := by
  unfold Attempt.Succeeds
  rw [Attempt.exec_bind]
  rcases p.exec s with ⟨e | a, s'⟩
  · simp
  · simp only [Prod.mk.injEq, Except.ok.injEq]
    constructor
    · intro h
      exact ⟨a, s', ⟨rfl, rfl⟩, h⟩
    · rintro ⟨_, _, ⟨rfl, rfl⟩, h⟩
      exact h

@[simp]
theorem succeeds_pure {a : α} : (pure a : Attempt ℓ σ ε α).Succeeds s := ⟨a, s, rfl⟩

@[simp]
theorem succeeds_read {f : σ → α} {g : α → Attempt ℓ σ ε β} :
    (Attempt.read label f >>= g : Attempt ℓ σ ε β).Succeeds s ↔ (g (f s)).Succeeds s := by
  simp [succeeds_bind]

@[simp]
theorem succeeds_throwIf {cond : Prop} [Decidable cond] {e : ε}
    {g : PUnit → Attempt ℓ σ ε β} :
    (Attempt.throwIf cond e >>= g : Attempt ℓ σ ε β).Succeeds s ↔
      ¬ cond ∧ (g ⟨⟩).Succeeds s := by
  rw [succeeds_bind, Attempt.exec_throwIf]
  by_cases hcond : cond
  · simp [hcond]
  · rw [if_neg hcond]
    constructor
    · rintro ⟨_, _, heq, h⟩
      cases heq
      exact ⟨hcond, h⟩
    · intro h
      exact ⟨⟨⟩, s, rfl, h.2⟩

@[simp]
theorem succeeds_throwIf_last {cond : Prop} [Decidable cond] {e : ε} :
    (Attempt.throwIf cond e : Attempt ℓ σ ε PUnit).Succeeds s ↔ ¬ cond := by
  unfold Attempt.Succeeds
  rw [Attempt.exec_throwIf]
  by_cases hcond : cond
  · simp [hcond]
  · simp [hcond]

@[simp]
theorem succeeds_orThrow {o : Option α} {e : ε} {g : α → Attempt ℓ σ ε β} :
    (Attempt.orThrow o e >>= g : Attempt ℓ σ ε β).Succeeds s ↔
      ∃ a, o = some a ∧ (g a).Succeeds s := by
  cases o with
  | none => simp [succeeds_bind]
  | some a => simp [succeeds_bind]

@[simp]
theorem succeeds_ofExcept {r : Except ε α} {g : α → Attempt ℓ σ ε β} :
    (Attempt.ofExcept r >>= g : Attempt ℓ σ ε β).Succeeds s ↔
      ∃ a, r = .ok a ∧ (g a).Succeeds s := by
  simp [succeeds_bind]

@[simp]
theorem succeeds_write {f : σ → Except ε (α × σ)} {g : α → Attempt ℓ σ ε β} :
    (Attempt.write label f >>= g : Attempt ℓ σ ε β).Succeeds s ↔
      ∃ a s', f s = .ok (a, s') ∧ (g a).Succeeds s' := by
  rw [succeeds_bind, Attempt.exec_write]
  cases hf : f s with
  | error e => simp
  | ok result =>
      obtain ⟨a, s'⟩ := result
      simp

@[simp]
theorem succeeds_write_last {f : σ → Except ε (α × σ)} :
    (Attempt.write label f : Attempt ℓ σ ε α).Succeeds s ↔ ∃ a s', f s = .ok (a, s') := by
  unfold Attempt.Succeeds
  rw [Attempt.exec_write]
  cases hf : f s with
  | error e => simp
  | ok result =>
      obtain ⟨a, s'⟩ := result
      simp

end Succeeds

/-! ## Attempts that bring about -/

/-- Executed from a state, the attempt returns and leaves a state as described. -/
def Attempt.Brings {ε α : Type x} (p : Attempt ℓ σ ε α) (s : σ) (goal : σ → Prop) : Prop :=
  ∃ a s', p.exec s = (.ok a, s') ∧ goal s'

section Brings

variable {ε α β : Type x} {s s' : σ} {label : ℓ} {goal : σ → Prop}

theorem brings_bind {p : Attempt ℓ σ ε α} {g : α → Attempt ℓ σ ε β} {a : α}
    (hp : p.exec s = (.ok a, s')) (h : (g a).Brings s' goal) : (p >>= g).Brings s goal := by
  obtain ⟨b, s'', hexec, hgoal⟩ := h
  exact ⟨b, s'', (Attempt.exec_bind_ok hp).trans hexec, hgoal⟩

/-- What attempts that run alike bring about is the same. -/
theorem brings_congr {p q : Attempt ℓ σ ε α} {g : α → Attempt ℓ σ ε β} (hexec : p.exec s = q.exec s)
    (h : (q >>= g : Attempt ℓ σ ε β).Brings s goal) :
    (p >>= g : Attempt ℓ σ ε β).Brings s goal := by
  obtain ⟨b, s', hq, hgoal⟩ := h
  exact ⟨b, s', by rw [Attempt.exec_bind, hexec, ← Attempt.exec_bind, hq], hgoal⟩

theorem brings_pure {a : α} (h : goal s) : (pure a : Attempt ℓ σ ε α).Brings s goal :=
  ⟨a, s, rfl, h⟩

theorem brings_read {f : σ → α} {g : α → Attempt ℓ σ ε β} (h : (g (f s)).Brings s goal) :
    (Attempt.read label f >>= g : Attempt ℓ σ ε β).Brings s goal :=
  brings_bind (Attempt.exec_read label f s) h

theorem brings_throwIf {cond : Prop} [Decidable cond] {e : ε} {g : PUnit → Attempt ℓ σ ε β}
    (hcond : ¬ cond) (h : (g ⟨⟩).Brings s goal) :
    (Attempt.throwIf cond e >>= g : Attempt ℓ σ ε β).Brings s goal :=
  brings_bind ((Attempt.exec_throwIf cond e s).trans (if_neg hcond)) h

theorem brings_orThrow {a : α} {e : ε} {g : α → Attempt ℓ σ ε β} {o : Option α} (ho : o = some a)
    (h : (g a).Brings s goal) : (Attempt.orThrow o e >>= g : Attempt ℓ σ ε β).Brings s goal := by
  subst ho
  exact brings_bind (Attempt.exec_orThrow_some a e s) h

theorem brings_ofExcept {a : α} {g : α → Attempt ℓ σ ε β} (h : (g a).Brings s goal) :
    (Attempt.ofExcept (.ok a) >>= g : Attempt ℓ σ ε β).Brings s goal :=
  brings_bind (Attempt.exec_ofExcept (.ok a) s) h

/-- A lookup that finds something. -/
theorem brings_find {f : σ → Option α} {e : ε} {g : α → Attempt ℓ σ ε β} {a : α}
    (hf : f s = some a) (h : (g a).Brings s goal) :
    ((Attempt.read label f >>= fun o => Attempt.orThrow o e) >>= g :
      Attempt ℓ σ ε β).Brings s goal := by
  rw [Attempt.bind_assoc]
  exact brings_read (brings_orThrow hf h)

theorem brings_write {f : σ → Except ε (α × σ)} {g : α → Attempt ℓ σ ε β} {a : α}
    (hf : f s = .ok (a, s')) (h : (g a).Brings s' goal) :
    (Attempt.write label f >>= g : Attempt ℓ σ ε β).Brings s goal :=
  brings_bind (by rw [Attempt.exec_write, hf]) h

theorem brings_write_last {f : σ → Except ε (α × σ)} {a : α} (hf : f s = .ok (a, s'))
    (h : goal s') : (Attempt.write label f : Attempt ℓ σ ε α).Brings s goal :=
  ⟨a, s', by rw [Attempt.exec_write, hf], h⟩

end Brings

/-! ## Processes that do alike -/

/-- Two processes take the same steps from a state and return the same. -/
def Process.Alike : Process ℓ σ α → Process ℓ σ α → σ → Prop
  | .done a, .done b, _ => a = b
  | .step label effect next, .step label' effect' next', s =>
      label = label' ∧ effect s = effect' s ∧ Alike (next s) (next' s) (effect s)
  | _, _, _ => False

namespace Process.Alike

variable {p q : Process ℓ σ α} {s : σ}

theorem refl (p : Process ℓ σ α) (s : σ) : p.Alike p s := by
  induction p generalizing s with
  | done a => rfl
  | step label effect next ih => exact ⟨rfl, rfl, ih s (effect s)⟩

theorem exec (h : p.Alike q s) : p.exec s = q.exec s := by
  induction p generalizing q s with
  | done a =>
      cases q with
      | done b => exact congrArg (·, s) h
      | step label' effect' next' => exact h.elim
  | step label effect next ih =>
      cases q with
      | done b => exact h.elim
      | step label' effect' next' =>
          obtain ⟨-, heffect, hnext⟩ := h
          rw [exec_step, exec_step, ← heffect]
          exact ih s hnext

theorem stopAfter (h : p.Alike q s) (n : ℕ) : p.stopAfter n s = q.stopAfter n s := by
  induction n generalizing p q s with
  | zero => rw [stopAfter_zero, stopAfter_zero]
  | succ n ih =>
      cases p with
      | done a =>
          cases q with
          | done b => rfl
          | step label' effect' next' => exact h.elim
      | step label effect next =>
          cases q with
          | done b => exact h.elim
          | step label' effect' next' =>
              obtain ⟨-, heffect, hnext⟩ := h
              rw [stopAfter_step, stopAfter_step, ← heffect]
              exact ih hnext

theorem bind {f g : α → Process ℓ σ β} (h : p.Alike q s)
    (hnext : (f (p.exec s).1).Alike (g (p.exec s).1) (p.exec s).2) :
    (p.bind f).Alike (q.bind g) s := by
  induction p generalizing q s with
  | done a =>
      cases q with
      | done b =>
          obtain rfl : a = b := h
          exact hnext
      | step label' effect' next' => exact h.elim
  | step label effect next ih =>
      cases q with
      | done b => exact h.elim
      | step label' effect' next' =>
          obtain ⟨hlabel, heffect, hrest⟩ := h
          exact ⟨hlabel, heffect, ih s hrest hnext⟩

end Process.Alike

section Alike

variable {ε α β : Type x} {s : σ} {label : ℓ}

/-- The continuations need to be alike only where the first attempts return. -/
theorem alike_bind {p q : Attempt ℓ σ ε α} {f g : α → Attempt ℓ σ ε β}
    (h : Process.Alike p q s)
    (hnext : ∀ a s', p.exec s = (.ok a, s') → Process.Alike (f a) (g a) s') :
    Process.Alike (p >>= f : Attempt ℓ σ ε β) (q >>= g : Attempt ℓ σ ε β) s := by
  apply Process.Alike.bind h
  rcases hexec : Process.exec p s with ⟨e | a, s'⟩
  · exact Process.Alike.refl _ _
  · exact hnext a s' hexec

/-- Attempts that begin alike, by what their beginning returns with. -/
theorem alike_continue {p : Attempt ℓ σ ε α} {f g : α → Attempt ℓ σ ε β} {crash : σ → Prop}
    {post : Except ε α → σ → Prop} (h : Process.Ensures crash post p s)
    (hnext : ∀ a s', post (.ok a) s' → Process.Alike (f a) (g a) s') :
    Process.Alike (p >>= f : Attempt ℓ σ ε β) (p >>= g : Attempt ℓ σ ε β) s := by
  apply alike_bind (.refl p s)
  intro a s' hexec
  have hpost := h.exec
  rw [show Process.exec p s = (.ok a, s') from hexec] at hpost
  exact hnext a s' hpost

theorem alike_read {h : σ → α} {f g : α → Attempt ℓ σ ε β}
    (hnext : Process.Alike (f (h s)) (g (h s)) s) :
    Process.Alike (Attempt.read label h >>= f : Attempt ℓ σ ε β)
      (Attempt.read label h >>= g : Attempt ℓ σ ε β) s :=
  ⟨rfl, rfl, hnext⟩

theorem alike_throwIf {cond : Prop} [Decidable cond] {e : ε} {f g : PUnit → Attempt ℓ σ ε β}
    (hnext : ¬ cond → Process.Alike (f ⟨⟩) (g ⟨⟩) s) :
    Process.Alike (Attempt.throwIf cond e >>= f : Attempt ℓ σ ε β)
      (Attempt.throwIf cond e >>= g : Attempt ℓ σ ε β) s := by
  unfold Attempt.throwIf
  split
  · exact .refl _ _
  · exact hnext ‹_›

theorem alike_orThrow {o : Option α} {e : ε} {f g : α → Attempt ℓ σ ε β}
    (hnext : ∀ a, o = some a → Process.Alike (f a) (g a) s) :
    Process.Alike (Attempt.orThrow o e >>= f : Attempt ℓ σ ε β)
      (Attempt.orThrow o e >>= g : Attempt ℓ σ ε β) s := by
  cases o with
  | none => exact .refl _ _
  | some a => exact hnext a rfl

theorem alike_write {f g : σ → Except ε (α × σ)} (h : f s = g s) :
    Process.Alike (Attempt.write label f) (Attempt.write label g) s := by
  have hsame : (Attempt.write label f : Attempt ℓ σ ε α).exec s =
      (Attempt.write label g : Attempt ℓ σ ε α).exec s := by
    rw [Attempt.exec_write, Attempt.exec_write, h]
  exact ⟨rfl, congrArg Prod.snd hsame, congrArg Prod.fst hsame⟩

/-- Loops whose rounds are alike while an invariant holds. -/
theorem alike_forEach {δ : Type w} {crash : σ → Prop} {items : List δ}
    {body body' : δ → Attempt ℓ σ ε PUnit} (inv : σ → Prop)
    (hround : ∀ item ∈ items, ∀ s, inv s → Process.Alike (body item) (body' item) s ∧
      Process.Ensures crash (fun _ => inv) (body item) s) (hinv : inv s) :
    Process.Alike (Attempt.forEach items body) (Attempt.forEach items body') s := by
  induction items generalizing s with
  | nil => rfl
  | cons item rest ih =>
      obtain ⟨halike, hkeeps⟩ := hround item List.mem_cons_self s hinv
      apply alike_bind halike
      intro a s' hexec
      have hkept := hkeeps.exec
      rw [show Process.exec (body item) s = (.ok a, s') from hexec] at hkept
      exact ih (fun item' hmem => hround item' (List.mem_cons_of_mem item hmem)) hkept

end Alike

end SecureStore.Foundation
