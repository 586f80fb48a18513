/-
# A cache that is filled by one request at a time

A cell keeps an entry until it expires. A call that finds a fresh entry is answered with it at
once. The first call that finds none makes a request, and the calls that come while it is in
flight wait for it; when it finishes, its entry is kept and everyone who waited is due an answer,
which they take one after another. So the requests keep the distance that the entries last, no
call is answered with what had expired when it asked, and each call is answered once.
-/

import Mathlib.Algebra.Order.Group.Defs
import Mathlib.Algebra.Order.Monoid.NatCast
import Mathlib.Data.List.Perm.Basic
import Mathlib.Tactic.Abel

namespace SecureStore.Foundation.SingleFlight

/-- What happens at a cell. -/
inductive Event (T ε : Type*) where
  | hit (now : T) (call : ℕ) (entry : ε)
  | join (now : T) (call : ℕ)
  | request (now : T) (call : ℕ)
  | finish (now : T) (entry : ε)
  | resume (call : ℕ) (entry : ε)

/-- The entry that is kept, the calls that wait for the request in flight, and the calls that
are due an answer. -/
structure Cell (ε : Type*) where
  entry : Option ε
  flight : Option (List ℕ)
  due : List (ℕ × ε)

variable {T ε : Type*}

def Cell.empty : Cell ε := ⟨none, none, []⟩

/-- The calls that wait. -/
def Cell.waiting (c : Cell ε) : List ℕ := c.flight.getD []

namespace Event

def time : Event T ε → Option T
  | hit now _ _ => some now
  | join now _ => some now
  | request now _ => some now
  | finish now _ => some now
  | resume _ _ => none

def requested : Event T ε → Option T
  | request now _ => some now
  | _ => none

/-- When a call asks. -/
def asked : Event T ε → Option (T × ℕ)
  | hit now call _ => some (now, call)
  | join now call => some (now, call)
  | request now call => some (now, call)
  | _ => none

def finished : Event T ε → Option (T × ε)
  | finish now entry => some (now, entry)
  | _ => none

def answered : Event T ε → Option (ℕ × ε)
  | hit _ call entry => some (call, entry)
  | resume call entry => some (call, entry)
  | _ => none

end Event

section Steps

variable [LinearOrder T] [AddCommGroup T] (expires : ε → T) (least : T)

/-- The entry is there and has not expired. -/
def Cell.Fresh (c : Cell ε) (now : T) : Prop := ∃ entry ∈ c.entry, now < expires entry

inductive Step : Cell ε → Event T ε → Cell ε → Prop
  | hit {c : Cell ε} {now : T} {call : ℕ} {entry : ε} (kept : c.entry = some entry)
      (fresh : now < expires entry) : Step c (.hit now call entry) c
  | join {c : Cell ε} {now : T} {call : ℕ} {waiting : List ℕ} (stale : ¬ c.Fresh expires now)
      (flying : c.flight = some waiting) :
      Step c (.join now call) { c with flight := some (waiting ++ [call]) }
  | request {c : Cell ε} {now : T} {call : ℕ} (stale : ¬ c.Fresh expires now)
      (landed : c.flight = none) : Step c (.request now call) { c with flight := some [call] }
  | finish {c : Cell ε} {now : T} {entry : ε} {waiting : List ℕ}
      (flying : c.flight = some waiting) (lasts : now + least ≤ expires entry) :
      Step c (.finish now entry)
        ⟨some entry, none, c.due ++ waiting.map fun call => (call, entry)⟩
  | resume {c : Cell ε} {call : ℕ} {entry : ε} {before after : List (ℕ × ε)}
      (due : c.due = before ++ (call, entry) :: after) :
      Step c (.resume call entry) { c with due := before ++ after }

/-- What happened at a cell that was empty at first. -/
inductive Steps : List (Event T ε) → Cell ε → Prop
  | start : Steps [] Cell.empty
  | next {trace : List (Event T ε)} {c c' : Cell ε} {event : Event T ε} (prior : Steps trace c)
      (step : Step expires least c event c') : Steps (trace ++ [event]) c'

end Steps

/-- The clock never went back. -/
def Timely [LE T] (trace : List (Event T ε)) : Prop :=
  (trace.filterMap Event.time).Pairwise (· ≤ ·)

section Trace

variable {trace : List (Event T ε)} {event : Event T ε}

theorem filterMap_concat {α : Type*} (f : Event T ε → Option α) :
    (trace ++ [event]).filterMap f = trace.filterMap f ++ (f event).toList := by
  rw [List.filterMap_append]
  cases h : f event <;> simp [h]

theorem Timely.prior [LE T] (h : Timely (trace ++ [event])) : Timely trace := by
  unfold Timely at h
  rw [filterMap_concat] at h
  exact (List.pairwise_append.mp h).1

/-- What happened before the last event happened no later than it. -/
theorem Timely.le_last [LE T] (h : Timely (trace ++ [event])) {t now : T}
    (ht : t ∈ trace.filterMap Event.time) (hnow : event.time = some now) : t ≤ now := by
  unfold Timely at h
  rw [filterMap_concat] at h
  refine (List.pairwise_append.mp h).2.2 t ht now ?_
  simp [hnow]

theorem mem_times_of_requested {t : T} (h : t ∈ trace.filterMap Event.requested) :
    t ∈ trace.filterMap Event.time := by
  obtain ⟨event, hevent, hrequested⟩ := List.mem_filterMap.mp h
  refine List.mem_filterMap.mpr ⟨event, hevent, ?_⟩
  cases event <;> first | exact hrequested | cases hrequested

theorem mem_times_of_asked {t : T} {call : ℕ} (h : (t, call) ∈ trace.filterMap Event.asked) :
    t ∈ trace.filterMap Event.time := by
  obtain ⟨event, hevent, hasked⟩ := List.mem_filterMap.mp h
  refine List.mem_filterMap.mpr ⟨event, hevent, ?_⟩
  cases event <;> cases hasked <;> rfl

/-- An entry that answers a call: a request finished with it, and it had not expired when the
call asked. -/
def Answers [LT T] (expires : ε → T) (trace : List (Event T ε)) (call : ℕ) (entry : ε) : Prop :=
  ∃ now t, (now, call) ∈ trace.filterMap Event.asked ∧
    (t, entry) ∈ trace.filterMap Event.finished ∧ now < expires entry

theorem Answers.later [LT T] {expires : ε → T} {call : ℕ} {entry : ε}
    (h : Answers expires trace call entry) :
    Answers expires (trace ++ [event]) call entry := by
  obtain ⟨now, t, hasked, hfinished, hfresh⟩ := h
  refine ⟨now, t, ?_, ?_, hfresh⟩ <;> rw [filterMap_concat]
  · exact List.mem_append_left _ hasked
  · exact List.mem_append_left _ hfinished

/-- What is kept came from a request, who waits has asked, and who is due an answer is due one
that had not expired. -/
structure Grounded [LT T] (expires : ε → T) (trace : List (Event T ε)) (c : Cell ε) : Prop where
  kept : ∀ entry ∈ c.entry, ∃ t, (t, entry) ∈ trace.filterMap Event.finished
  waits : ∀ call ∈ c.waiting, ∃ now, (now, call) ∈ trace.filterMap Event.asked
  due : ∀ answer ∈ c.due, Answers expires trace answer.1 answer.2

theorem Grounded.later [LT T] {expires : ε → T} {c : Cell ε} (h : Grounded expires trace c) :
    Grounded expires (trace ++ [event]) c where
  kept entry hentry := by
    obtain ⟨t, ht⟩ := h.kept entry hentry
    exact ⟨t, by rw [filterMap_concat]; exact List.mem_append_left _ ht⟩
  waits call hcall := by
    obtain ⟨now, hnow⟩ := h.waits call hcall
    exact ⟨now, by rw [filterMap_concat]; exact List.mem_append_left _ hnow⟩
  due answer hanswer := (h.due answer hanswer).later

end Trace

/-! ## Every call once -/

section Calls

variable [LinearOrder T] [AddCommGroup T] {expires : ε → T} {least : T}
  {trace : List (Event T ε)} {c : Cell ε}

/-- Every call was answered, waits or is due an answer, and only once. -/
theorem Steps.calls_once (h : Steps expires least trace c) :
    ((trace.filterMap Event.asked).map Prod.snd).Perm
      ((trace.filterMap Event.answered).map Prod.fst ++ (c.waiting ++ c.due.map Prod.fst)) := by
  induction h with
  | start => exact List.Perm.nil
  | @next trace c c' event prior step ih =>
      apply List.perm_iff_count.mpr
      intro call
      have hbefore := ih.count_eq call
      simp only [List.count_append] at hbefore
      simp only [filterMap_concat, List.map_append, List.count_append, hbefore]
      cases step with
      | hit kept fresh =>
          simp only [Event.asked, Event.answered, Option.toList_some, List.map_cons, List.map_nil]
          omega
      | join stale flying =>
          simp only [Event.asked, Event.answered, Option.toList_some, Option.toList_none,
            List.map_cons, List.map_nil, Cell.waiting, flying, Option.getD_some, List.count_append,
            List.count_nil]
          omega
      | request stale landed =>
          simp only [Event.asked, Event.answered, Option.toList_some, Option.toList_none,
            List.map_cons, List.map_nil, Cell.waiting, landed, Option.getD_some, Option.getD_none,
            List.count_nil]
          omega
      | finish flying lasts =>
          simp only [Event.asked, Event.answered, Option.toList_none, List.map_nil, Cell.waiting,
            flying, Option.getD_some, Option.getD_none, List.map_append, List.map_map,
            Function.comp_def, List.map_id', List.count_append, List.count_nil]
          omega
      | resume due =>
          simp only [Event.asked, Event.answered, Option.toList_some, Option.toList_none,
            List.map_cons, List.map_nil, Cell.waiting, due, List.map_append, List.count_append,
            List.count_cons, List.count_nil]
          omega

end Calls

section Theory

variable [LinearOrder T] [AddCommGroup T] [IsOrderedAddMonoid T] {expires : ε → T} {least : T}
  {trace : List (Event T ε)} {event : Event T ε} {c c' : Cell ε}

/-! ## The distance of requests -/

/-- Unless a request is in flight, what is kept outlasts every request by the least time. -/
def Outlasts (expires : ε → T) (least : T) (trace : List (Event T ε)) (c : Cell ε) : Prop :=
  c.flight.isSome = true ∨ ∀ t ∈ trace.filterMap Event.requested,
    ∃ entry ∈ c.entry, t + least ≤ expires entry

theorem Outlasts.step (h : Outlasts expires least trace c) (hstep : Step expires least c event c')
    (htimely : Timely (trace ++ [event])) : Outlasts expires least (trace ++ [event]) c' := by
  unfold Outlasts at h ⊢
  rw [filterMap_concat]
  cases hstep with
  | hit => simpa [Event.requested] using h
  | join => exact .inl rfl
  | request => exact .inl rfl
  | resume => simpa [Event.requested] using h
  | @finish now entry waiting flying lasts =>
      right
      intro t ht
      have hbefore : t ∈ trace.filterMap Event.requested := by
        simpa [Event.requested] using ht
      refine ⟨entry, rfl, le_trans ?_ lasts⟩
      gcongr
      exact htimely.le_last (mem_times_of_requested hbefore) rfl

theorem Steps.outlasts (h : Steps expires least trace c) (htimely : Timely trace) :
    Outlasts expires least trace c := by
  induction h with
  | start => exact .inr (by simp)
  | next prior step ih => exact (ih htimely.prior).step step htimely

/-- Requests are apart at least as long as every entry lasts. -/
theorem Steps.requests_apart (h : Steps expires least trace c) (htimely : Timely trace) :
    (trace.filterMap Event.requested).Pairwise fun t t' => t + least ≤ t' := by
  induction h with
  | start => exact List.Pairwise.nil
  | @next trace c c' event prior step ih =>
      have hbefore := ih htimely.prior
      rw [filterMap_concat]
      cases step with
      | request stale landed =>
          refine List.pairwise_append.mpr ⟨hbefore, List.pairwise_singleton _ _, ?_⟩
          intro t ht now hnow
          obtain rfl := List.mem_singleton.mp hnow
          rcases prior.outlasts htimely.prior with hflying | houtlasts
          · rw [landed] at hflying
            cases hflying
          · obtain ⟨entry, hentry, hlast⟩ := houtlasts t ht
            exact hlast.trans (not_lt.mp fun hfresh => stale ⟨entry, hentry, hfresh⟩)
      | hit => simpa [Event.requested] using hbefore
      | join => simpa [Event.requested] using hbefore
      | finish => simpa [Event.requested] using hbefore
      | resume => simpa [Event.requested] using hbefore

/-- Times that keep a distance are no more than fit into a window. -/
theorem length_le_of_apart {times : List T} (h : times.Pairwise fun t t' => t + least ≤ t')
    (n : ℕ) (start : T) (hwindow : ∀ t ∈ times, start ≤ t ∧ t < start + n • least) :
    times.length ≤ n := by
  induction times generalizing n start with
  | nil => exact Nat.zero_le n
  | cons t times ih =>
      obtain ⟨hafter, hbefore⟩ := hwindow t List.mem_cons_self
      obtain ⟨hhead, htail⟩ := List.pairwise_cons.mp h
      cases n with
      | zero =>
          rw [zero_nsmul, add_zero] at hbefore
          exact absurd hbefore (not_lt.mpr hafter)
      | succ n =>
          refine Nat.succ_le_succ (ih htail n (start + least) fun t' ht' => ⟨?_, ?_⟩)
          · calc start + least ≤ t + least := by gcongr
              _ ≤ t' := hhead t' ht'
          · have hlater := (hwindow t' (List.mem_cons_of_mem _ ht')).2
            rw [succ_nsmul'] at hlater
            rwa [add_assoc]

/-- No window holds more requests than entries could have lasted one after another. -/
theorem Steps.requests_le (h : Steps expires least trace c) (htimely : Timely trace) (start : T)
    (n : ℕ) : ((trace.filterMap Event.requested).filter fun t =>
      start ≤ t ∧ t < start + n • least).length ≤ n := by
  refine length_le_of_apart ((h.requests_apart htimely).sublist List.filter_sublist) n start ?_
  intro t ht
  simpa using (List.mem_filter.mp ht).2

/-! ## What calls are answered -/

theorem Grounded.step (hpositive : 0 < least) (h : Grounded expires trace c)
    (hstep : Step expires least c event c') (htimely : Timely (trace ++ [event])) :
    Grounded expires (trace ++ [event]) c' := by
  have hlater : Grounded expires (trace ++ [event]) c := h.later
  cases hstep with
  | hit => exact hlater
  | @join now call waiting stale flying =>
      refine ⟨hlater.kept, ?_, hlater.due⟩
      intro call' hcall'
      rcases List.mem_append.mp hcall' with hold | hnew
      · exact hlater.waits call' (by rwa [Cell.waiting, flying])
      · obtain rfl := List.mem_singleton.mp hnew
        exact ⟨now, by simp [Event.asked]⟩
  | @request now call stale landed =>
      refine ⟨hlater.kept, ?_, hlater.due⟩
      intro call' hcall'
      obtain rfl := List.mem_singleton.mp hcall'
      exact ⟨now, by simp [Event.asked]⟩
  | @finish now entry waiting flying lasts =>
      have hfinished : (now, entry) ∈
          (trace ++ [Event.finish now entry]).filterMap Event.finished := by
        simp [Event.finished]
      refine ⟨?_, fun _ hcall => absurd hcall List.not_mem_nil, ?_⟩
      · intro entry' hentry'
        obtain rfl := Option.some_inj.mp hentry'
        exact ⟨now, hfinished⟩
      · intro answer hanswer
        rcases List.mem_append.mp hanswer with hold | hnew
        · exact hlater.due answer hold
        · obtain ⟨call, hcall, rfl⟩ := List.mem_map.mp hnew
          obtain ⟨asked, hasked⟩ := h.waits call (by rwa [Cell.waiting, flying])
          refine ⟨asked, now, ?_, hfinished, ?_⟩
          · rw [filterMap_concat]
            exact List.mem_append_left _ hasked
          · calc asked ≤ now := htimely.le_last (mem_times_of_asked hasked) rfl
              _ < now + least := lt_add_of_pos_right now hpositive
              _ ≤ expires entry := lasts
  | @resume call entry before after due =>
      refine ⟨hlater.kept, hlater.waits, fun answer hanswer => hlater.due answer ?_⟩
      rw [due]
      rcases List.mem_append.mp hanswer with hleft | hright
      · exact List.mem_append_left _ hleft
      · exact List.mem_append_right _ (List.mem_cons_of_mem _ hright)

theorem Steps.grounded (hpositive : 0 < least) (h : Steps expires least trace c)
    (htimely : Timely trace) : Grounded expires trace c := by
  induction h with
  | start =>
      exact ⟨fun _ h => absurd h (by simp [Cell.empty]), fun _ h => absurd h List.not_mem_nil,
        fun _ h => absurd h List.not_mem_nil⟩
  | next prior step ih => exact (ih htimely.prior).step hpositive step htimely

/-- No call is answered with what had expired when it asked. -/
theorem Steps.answers (hpositive : 0 < least) (h : Steps expires least trace c)
    (htimely : Timely trace) {call : ℕ} {entry : ε}
    (hanswered : (call, entry) ∈ trace.filterMap Event.answered) :
    Answers expires trace call entry := by
  induction h with
  | start => exact absurd hanswered List.not_mem_nil
  | @next trace c c' event prior step ih =>
      rw [filterMap_concat] at hanswered
      rcases List.mem_append.mp hanswered with hbefore | hlast
      · exact (ih htimely.prior hbefore).later
      · have hgrounded := prior.grounded hpositive htimely.prior
        cases step with
        | @hit now call' entry' kept fresh =>
            obtain ⟨rfl, rfl⟩ : call = call' ∧ entry = entry' := by
              simpa [Event.answered] using hlast
            obtain ⟨t, ht⟩ := hgrounded.kept entry kept
            refine ⟨now, t, by simp [Event.asked], ?_, fresh⟩
            rw [filterMap_concat]
            exact List.mem_append_left _ ht
        | @resume call' entry' before after due =>
            obtain ⟨rfl, rfl⟩ : call = call' ∧ entry = entry' := by
              simpa [Event.answered] using hlast
            refine (hgrounded.due (call, entry) ?_).later
            rw [due]
            exact List.mem_append_right _ List.mem_cons_self
        | join => simp [Event.answered] at hlast
        | request => simp [Event.answered] at hlast
        | finish => simp [Event.answered] at hlast

end Theory

end SecureStore.Foundation.SingleFlight
