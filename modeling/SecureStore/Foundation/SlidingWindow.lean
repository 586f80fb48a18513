/-
# Limits over a sliding window

A limiter keeps a bucket of times for each key. An arrival drops the times that have left its
window; where as many as the limit are left it is refused, and the bucket stays as it was;
otherwise it is admitted and its time is added. With buckets that are kept from arrival to
arrival, no closed window holds more admissions than the limit, and nothing is refused before
that many fell into the window that ends with it.
-/

import Mathlib.Algebra.Order.Ring.Int
import Mathlib.Data.List.Basic
import Mathlib.Logic.Function.Basic

namespace SecureStore.Foundation.SlidingWindow

variable {κ : Type*} [DecidableEq κ] (limit : ℕ) (width : ℤ)

/-- The times that are still in the window that ends now. -/
def recent (now : ℤ) (times : List ℤ) : List ℤ := times.filter fun t => now - width ≤ t

/-- The bucket after an arrival, or none where it is refused. -/
def accept (now : ℤ) (times : List ℤ) : Option (List ℤ) :=
  if limit ≤ (recent width now times).length then none
  else some (recent width now times ++ [now])

/-- An arrival, and whether it was admitted. -/
structure Attempt (κ : Type*) where
  key : κ
  time : ℤ
  admitted : Bool

/-- The times at which arrivals with a key were admitted. -/
def admittedTimes (key : κ) (history : List (Attempt κ)) : List ℤ :=
  (history.filter fun a => a.key = key ∧ a.admitted = true).map Attempt.time

/-- What becomes of one arrival after another, each with the bucket of its key. -/
def admissions : (κ → List ℤ) → List (κ × ℤ) → List (Attempt κ)
  | _, [] => []
  | buckets, (key, now) :: arrivals =>
      match accept limit width now (buckets key) with
      | none => ⟨key, now, false⟩ :: admissions buckets arrivals
      | some times =>
          ⟨key, now, true⟩ :: admissions (Function.update buckets key times) arrivals

/-- No closed window holds more admissions of a key than the limit, and none of its arrivals is
refused unless that many were admitted in the window that ends with it. -/
structure Limited (key : κ) (history : List (Attempt κ)) : Prop where
  bounded : ∀ start, ((admittedTimes key history).filter fun t =>
    start ≤ t ∧ t ≤ start + width).length ≤ limit
  refused : ∀ before a after, history = before ++ a :: after → a.key = key →
    a.admitted = false → limit ≤ (recent width a.time (admittedTimes key before)).length

variable {limit width} {key : κ} {history : List (Attempt κ)} {buckets : κ → List ℤ}
  {now : ℤ} {times times' : List ℤ}

/-! ## Windows -/

theorem recent_append : recent width now (times ++ times') =
    recent width now times ++ recent width now times' :=
  List.filter_append times times'

/-- What has left a window is in no later one. -/
theorem recent_recent {later : ℤ} (hlater : now ≤ later) :
    recent width later (recent width now times) = recent width later times := by
  unfold recent
  rw [List.filter_filter]
  refine List.filter_congr fun t _ => ?_
  rw [Bool.and_eq_left_iff_imp, decide_eq_true_iff, decide_eq_true_iff]
  omega

/-- Times in a window that holds the present one are still in the window that ends now. -/
theorem length_window_le {start : ℤ} (hnow : now ≤ start + width) :
    (times.filter fun t => start ≤ t ∧ t ≤ start + width).length ≤
      (recent width now times).length := by
  refine (List.monotone_filter_right times fun t ht => ?_).length_le
  rw [decide_eq_true_iff] at ht ⊢
  omega

theorem accept_eq_none (h : accept limit width now times = none) :
    limit ≤ (recent width now times).length := by
  unfold accept at h
  by_contra hlt
  rw [if_neg hlt] at h
  cases h

theorem accept_eq_some (h : accept limit width now times = some times') :
    (recent width now times).length < limit ∧ times' = recent width now times ++ [now] := by
  unfold accept at h
  split at h
  · cases h
  · next hlt => exact ⟨not_le.mp hlt, (Option.some.inj h).symm⟩

/-! ## Histories -/

theorem admittedTimes_append (key : κ) (history history' : List (Attempt κ)) :
    admittedTimes key (history ++ history') =
      admittedTimes key history ++ admittedTimes key history' := by
  unfold admittedTimes
  rw [List.filter_append, List.map_append]

/-- What an attempt adds to the admissions of a key. -/
theorem admittedTimes_one (key : κ) (a : Attempt κ) :
    admittedTimes key [a] = if a.key = key ∧ a.admitted = true then [a.time] else [] := by
  unfold admittedTimes
  split
  · next hof => simp [hof]
  · next hof => rw [List.filter_cons_of_neg (by simpa using hof), List.filter_nil, List.map_nil]

theorem limited_nil (limit : ℕ) (width : ℤ) (key : κ) : Limited limit width key [] :=
  ⟨fun _ => Nat.zero_le _, fun before a after h => by
    cases before <;> cases h⟩

/-- One more attempt keeps the limit when it may be admitted, or must be refused. -/
theorem Limited.concat {a : Attempt κ} (h : Limited limit width key history)
    (hadmitted : a.key = key → a.admitted = true →
      (recent width a.time (admittedTimes key history)).length < limit)
    (hrefused : a.key = key → a.admitted = false →
      limit ≤ (recent width a.time (admittedTimes key history)).length) :
    Limited limit width key (history ++ [a]) := by
  constructor
  · intro start
    rw [admittedTimes_append, admittedTimes_one]
    by_cases hof : a.key = key ∧ a.admitted = true
    · rw [if_pos hof, List.filter_append]
      by_cases hin : start ≤ a.time ∧ a.time ≤ start + width
      · have hless := hadmitted hof.1 hof.2
        have hwindow : ((admittedTimes key history).filter fun t =>
            start ≤ t ∧ t ≤ start + width).length ≤
              (recent width a.time (admittedTimes key history)).length := length_window_le hin.2
        rw [List.length_append]
        exact (Nat.add_le_add_left (List.length_filter_le _ [a.time]) _).trans
          (hwindow.trans_lt hless)
      · rw [List.filter_cons_of_neg (by simpa using hin), List.filter_nil, List.append_nil]
        exact h.bounded start
    · rw [if_neg hof, List.append_nil]
      exact h.bounded start
  · intro before b after heq hkey hb
    rcases List.eq_nil_or_concat after with rfl | ⟨rest, c, rfl⟩
    · obtain ⟨rfl, hlast⟩ := List.append_inj' heq rfl
      obtain rfl := List.singleton_inj.mp hlast
      exact hrefused hkey hb
    · rw [List.concat_eq_append, ← List.cons_append, ← List.append_assoc] at heq
      obtain ⟨rfl, -⟩ := List.append_inj' heq rfl
      exact h.refused before b rest rfl hkey hb

/-! ## Buckets -/

/-- The buckets know which admissions are in the windows still to come. -/
def Tracks (width : ℤ) (buckets : κ → List ℤ) (history : List (Attempt κ)) : Prop :=
  ∀ key now, (∀ a ∈ history, a.time ≤ now) →
    recent width now (buckets key) = recent width now (admittedTimes key history)

theorem Tracks.refuse (h : Tracks width buckets history) :
    Tracks width buckets (history ++ [⟨key, now, false⟩]) := by
  intro key' later hlater
  rw [admittedTimes_append, admittedTimes_one, if_neg (by simp), List.append_nil]
  exact h key' later fun a ha => hlater a (List.mem_append_left _ ha)

/-- An admission prunes its own bucket, of what no later window holds. -/
theorem Tracks.accept (h : Tracks width buckets history) :
    Tracks width
      (Function.update buckets key (recent width now (buckets key) ++ [now]))
      (history ++ [⟨key, now, true⟩]) := by
  intro key' later hlater
  have hnow : now ≤ later := hlater ⟨key, now, true⟩ (by simp)
  have hbefore := h key' later fun a ha => hlater a (List.mem_append_left _ ha)
  rw [admittedTimes_append, admittedTimes_one]
  by_cases hkey : key = key'
  · subst hkey
    rw [Function.update_self, recent_append, recent_recent hnow, hbefore, if_pos ⟨rfl, rfl⟩,
      recent_append]
  · rw [Function.update_of_ne (Ne.symm hkey), hbefore, if_neg (fun hof => hkey hof.1),
      List.append_nil]

/-- From buckets that know the admissions so far, arrivals in order stay limited. -/
theorem Limited.admissions {arrivals : List (κ × ℤ)} (hlimited : Limited limit width key history)
    (htracks : Tracks width buckets history)
    (horder : arrivals.Pairwise fun x y => x.2 ≤ y.2)
    (hlater : ∀ a ∈ history, ∀ x ∈ arrivals, a.time ≤ x.2) :
    Limited limit width key (history ++ admissions limit width buckets arrivals) := by
  induction arrivals generalizing buckets history with
  | nil =>
      unfold SlidingWindow.admissions
      rwa [List.append_nil]
  | cons x arrivals ih =>
      obtain ⟨key', now⟩ := x
      obtain ⟨hfirst, horder⟩ := List.pairwise_cons.mp horder
      have hbucket := htracks key' now fun a ha => hlater a ha _ List.mem_cons_self
      have hnext : ∀ admitted, ∀ a ∈ history ++ [⟨key', now, admitted⟩], ∀ y ∈ arrivals,
          a.time ≤ y.2 := by
        intro admitted a ha y hy
        rcases List.mem_append.mp ha with ha | ha
        · exact hlater a ha y (List.mem_cons_of_mem _ hy)
        · obtain rfl := List.mem_singleton.mp ha
          exact hfirst y hy
      unfold SlidingWindow.admissions
      cases haccept : SlidingWindow.accept limit width now (buckets key') with
      | none =>
          have hfull := accept_eq_none haccept
          rw [hbucket] at hfull
          have hstep : Limited limit width key (history ++ [⟨key', now, false⟩]) :=
            hlimited.concat (fun _ h => by cases h) fun hkey _ => hkey ▸ hfull
          rw [List.append_cons]
          exact ih hstep htracks.refuse horder (hnext false)
      | some times =>
          obtain ⟨hroom, rfl⟩ := accept_eq_some haccept
          rw [hbucket] at hroom
          have hstep : Limited limit width key (history ++ [⟨key', now, true⟩]) :=
            hlimited.concat (fun hkey _ => hkey ▸ hroom) fun _ h => by cases h
          rw [List.append_cons]
          exact ih hstep htracks.accept horder (hnext true)

/-- Arrivals in order are limited, with buckets that start empty and are kept. -/
theorem limited_admissions {arrivals : List (κ × ℤ)}
    (horder : arrivals.Pairwise fun x y => x.2 ≤ y.2) :
    Limited limit width key (admissions limit width (fun _ => []) arrivals) := by
  have hstart : Tracks width (fun _ : κ => []) [] := fun _ _ _ => rfl
  exact (limited_nil limit width key).admissions hstart horder fun a ha => by cases ha

end SecureStore.Foundation.SlidingWindow
