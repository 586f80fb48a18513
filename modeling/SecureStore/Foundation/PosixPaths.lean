/-
# Paths as texts

Functions on paths in the way of POSIX: segments between slashes, of which empty ones and single
dots count for nothing, and two dots go up. Normalising a text and resolving it from a directory
work on segments with a stack; a walk that counts how often it went above its start says where
both of them lead.
-/

import Mathlib.Data.List.Basic
import Mathlib.Data.Nat.Notation

namespace SecureStore.Foundation.PosixPath

/-- Two dots, the segment that goes up. -/
def dotDot : List Char := ['.', '.']

def joinSegments (segments : List (List Char)) : List Char := ['/'].intercalate segments

/-- One more segment on the stack of those before it. -/
def pushSegment (allowAboveRoot : Bool) (res : List (List Char)) (segment : List Char) :
    List (List Char) :=
  if segment = [] ∨ segment = ['.'] then res
  else if segment = dotDot then
    match res with
    | [] => if allowAboveRoot then [dotDot] else []
    | top :: rest =>
        if top = dotDot then if allowAboveRoot then dotDot :: res else res else rest
  else segment :: res

def normalizeString (allowAboveRoot : Bool) (path : List Char) : List Char :=
  joinSegments ((path.splitOn '/').foldl (pushSegment allowAboveRoot) []).reverse

/-- `path.posix.normalize` -/
def normalize (path : List Char) : List Char :=
  if path = [] then ['.']
  else
    let isAbsolute : Bool := path.head? = some '/'
    let trailingSeparator : Bool := path.getLast? = some '/'
    let normal := normalizeString (!isAbsolute) path
    if normal = [] then
      if isAbsolute then ['/'] else if trailingSeparator then ['.', '/'] else ['.']
    else
      let normal := if trailingSeparator then normal ++ ['/'] else normal
      if isAbsolute then '/' :: normal else normal

/-- `path.resolve`, from a directory that is absolute. -/
def resolve (dir path : List Char) : List Char :=
  '/' :: normalizeString false (if path.head? = some '/' then path else dir ++ '/' :: path)

/-- The last segment, without the slashes behind it. -/
def basename (path : List Char) : List Char :=
  ((path.reverse.dropWhile (· = '/')).takeWhile (· ≠ '/')).reverse

/-- `path.posix.extname`: from the last dot of the last segment, unless it begins with that. -/
def extname (path : List Char) : List Char :=
  let base := basename path
  let after := (base.reverse.takeWhile (· ≠ '.')).reverse
  let before := base.take (base.length - (after.length + 1))
  if '.' ∉ base ∨ before = [] ∨ base = dotDot then [] else '.' :: after

/-- A segment that names an entry of a directory. -/
structure IsName (segment : List Char) : Prop where
  ne_nil : segment ≠ []
  ne_dot : segment ≠ ['.']
  ne_dotDot : segment ≠ dotDot
  slash : '/' ∉ segment

/-- Where a walk has come to: how often it went above its start, and the names below that, the
last first. -/
structure Walk where
  ups : ℕ
  names : List (List Char)

def Walk.step (w : Walk) (segment : List Char) : Walk :=
  if segment = [] ∨ segment = ['.'] then w
  else if segment = dotDot then
    match w.names with
    | [] => ⟨w.ups + 1, []⟩
    | _ :: rest => ⟨w.ups, rest⟩
  else ⟨w.ups, segment :: w.names⟩

/-- The walk along a path. -/
def walk (path : List Char) : Walk := (path.splitOn '/').foldl Walk.step ⟨0, []⟩

variable {segment : List Char} {segments : List (List Char)} {path dir : List Char} {w : Walk}

/-! ## Segments -/

theorem slash_not_mem (h : segment ∈ path.splitOn '/') : '/' ∉ segment := by
  induction path generalizing segment with
  | nil =>
      obtain rfl := List.mem_singleton.mp h
      exact List.not_mem_nil
  | cons c path ih =>
      rw [List.splitOn_cons_eq_if_modifyHead] at h
      split at h
      · rcases List.mem_cons.mp h with rfl | h
        · exact List.not_mem_nil
        · exact ih h
      · next hc =>
          cases hpieces : path.splitOn '/' with
          | nil => exact absurd hpieces (List.splitOn_ne_nil '/' path)
          | cons first rest =>
              rw [hpieces] at h
              rcases List.mem_cons.mp h with rfl | h
              · intro hmem
                rcases List.mem_cons.mp hmem with rfl | hmem
                · exact hc rfl
                · exact ih (hpieces ▸ List.mem_cons_self) hmem
              · exact ih (hpieces ▸ List.mem_cons_of_mem first h)

theorem joinSegments_cons {rest : List (List Char)} (hne : rest ≠ []) :
    joinSegments (segment :: rest) = segment ++ '/' :: joinSegments rest := by
  unfold joinSegments
  rw [List.intercalate_cons_of_ne_nil hne, List.append_assoc, List.singleton_append]

theorem splitOn_joinSegments (hnames : ∀ n ∈ segments, IsName n) (hne : segments ≠ []) :
    (joinSegments segments).splitOn '/' = segments :=
  List.splitOn_intercalate '/' (fun n hn => (hnames n hn).slash) hne

theorem joinSegments_append {front back : List (List Char)} (hfront : front ≠ [])
    (hback : back ≠ []) :
    joinSegments (front ++ back) = joinSegments front ++ '/' :: joinSegments back := by
  induction front with
  | nil => exact absurd rfl hfront
  | cons n front ih =>
      by_cases hnil : front = []
      · subst hnil
        rw [List.singleton_append, joinSegments_cons hback]
        exact congrArg (· ++ '/' :: joinSegments back) List.intercalate_singleton.symm
      · rw [List.cons_append, joinSegments_cons (by simp [hnil]), ih hnil, joinSegments_cons hnil,
          List.append_assoc]
        rfl

/-- A joined text begins with its first name. -/
theorem joinSegments_head (hnames : ∀ n ∈ segments, IsName n) (hne : segments ≠ []) :
    ∃ c rest, joinSegments segments = c :: rest ∧ c ≠ '/' := by
  obtain ⟨name, more, rfl⟩ := List.exists_cons_of_ne_nil hne
  have hname := hnames name List.mem_cons_self
  obtain ⟨c, tail, rfl⟩ := List.exists_cons_of_ne_nil hname.ne_nil
  have hc : c ≠ '/' := by
    rintro rfl
    exact hname.slash List.mem_cons_self
  cases more with
  | nil => exact ⟨c, tail, by rw [joinSegments, List.intercalate_singleton], hc⟩
  | cons next more =>
      rw [joinSegments_cons (List.cons_ne_nil next more)]
      exact ⟨c, _, rfl, hc⟩

theorem joinSegments_ne_nil (hnames : ∀ n ∈ segments, IsName n) (hne : segments ≠ []) :
    joinSegments segments ≠ [] := by
  obtain ⟨c, rest, heq, -⟩ := joinSegments_head hnames hne
  rw [heq]
  exact List.cons_ne_nil c rest

theorem joinSegments_inj {segments' : List (List Char)} (h : ∀ n ∈ segments, IsName n)
    (h' : ∀ n ∈ segments', IsName n) (heq : joinSegments segments = joinSegments segments') :
    segments = segments' := by
  by_cases hne : segments = []
  · subst hne
    by_contra hne'
    exact joinSegments_ne_nil h' (Ne.symm hne') heq.symm
  · by_cases hne' : segments' = []
    · subst hne'
      exact absurd heq (joinSegments_ne_nil h hne)
    · rw [← splitOn_joinSegments h hne, heq, splitOn_joinSegments h' hne']

/-! ## Walks -/

/-- The names of a walk. -/
def Walk.Named (w : Walk) : Prop := ∀ n ∈ w.names, IsName n

theorem Walk.Named.step (h : w.Named) (hslash : '/' ∉ segment) : (w.step segment).Named := by
  unfold Walk.step
  split
  · exact h
  · next hplain =>
      split
      · split
        · exact fun _ hn => absurd hn List.not_mem_nil
        · next hnames =>
            intro n hn
            exact h n (hnames ▸ List.mem_cons_of_mem _ hn)
      · next hup =>
          intro n hn
          rcases List.mem_cons.mp hn with rfl | hn
          · exact ⟨fun h => hplain (.inl h), fun h => hplain (.inr h), hup, hslash⟩
          · exact h n hn

theorem Walk.Named.foldl (h : w.Named) (hslash : ∀ s ∈ segments, '/' ∉ s) :
    (segments.foldl Walk.step w).Named := by
  induction segments generalizing w with
  | nil => exact h
  | cons s segments ih =>
      exact ih (h.step (hslash s List.mem_cons_self)) fun t ht =>
        hslash t (List.mem_cons_of_mem s ht)

theorem walk_named (path : List Char) : (walk path).Named :=
  Walk.Named.foldl (fun _ hn => absurd hn List.not_mem_nil) fun _ hs => slash_not_mem hs

/-- A stack that may not go above its start holds the names of the walk. -/
theorem foldl_push_false (h : w.Named) (hslash : ∀ s ∈ segments, '/' ∉ s) :
    segments.foldl (pushSegment false) w.names = (segments.foldl Walk.step w).names := by
  induction segments generalizing w with
  | nil => rfl
  | cons s segments ih =>
      have hstep : pushSegment false w.names s = (w.step s).names := by
        unfold pushSegment Walk.step
        split
        · rfl
        · split
          · cases hnames : w.names with
            | nil => rfl
            | cons top rest =>
                have htop := (h top (hnames ▸ List.mem_cons_self)).ne_dotDot
                exact if_neg htop
          · rfl
      rw [List.foldl_cons, List.foldl_cons, hstep]
      exact ih (h.step (hslash s List.mem_cons_self)) fun t ht =>
        hslash t (List.mem_cons_of_mem s ht)

/-- One that may go above holds two dots for each time as well. -/
theorem foldl_push_true (h : w.Named) (hslash : ∀ s ∈ segments, '/' ∉ s) :
    segments.foldl (pushSegment true) (w.names ++ List.replicate w.ups dotDot) =
      (segments.foldl Walk.step w).names ++
        List.replicate (segments.foldl Walk.step w).ups dotDot := by
  induction segments generalizing w with
  | nil => rfl
  | cons s segments ih =>
      have hstep : pushSegment true (w.names ++ List.replicate w.ups dotDot) s =
          (w.step s).names ++ List.replicate (w.step s).ups dotDot := by
        unfold pushSegment Walk.step
        split
        · rfl
        · split
          · cases hnames : w.names with
            | nil =>
                cases w.ups with
                | zero => rfl
                | succ ups => rfl
            | cons top rest =>
                have htop := (h top (hnames ▸ List.mem_cons_self)).ne_dotDot
                exact if_neg htop
          · rfl
      rw [List.foldl_cons, List.foldl_cons, hstep]
      exact ih (h.step (hslash s List.mem_cons_self)) fun t ht =>
        hslash t (List.mem_cons_of_mem s ht)

theorem normalizeString_false : normalizeString false path =
    joinSegments (walk path).names.reverse := by
  unfold normalizeString
  rw [show ([] : List (List Char)) = (⟨0, []⟩ : Walk).names from rfl, foldl_push_false
    (fun _ hn => absurd hn List.not_mem_nil) fun _ hs => slash_not_mem hs]
  rfl

theorem normalizeString_true : normalizeString true path =
    joinSegments (List.replicate (walk path).ups dotDot ++ (walk path).names.reverse) := by
  have hslash : ∀ s ∈ path.splitOn '/', '/' ∉ s := fun _ hs => slash_not_mem hs
  have h := foldl_push_true (w := ⟨0, []⟩) (fun _ hn => absurd hn List.not_mem_nil) hslash
  unfold normalizeString
  rw [List.replicate_zero, List.append_nil] at h
  rw [h, List.reverse_append, List.reverse_replicate]
  rfl

/-- Names are pushed one on another. -/
theorem foldl_push_names (b : Bool) (res : List (List Char))
    (hnames : ∀ n ∈ segments, IsName n) :
    segments.foldl (pushSegment b) res = segments.reverse ++ res := by
  induction segments generalizing res with
  | nil => rfl
  | cons n segments ih =>
      have hn := hnames n List.mem_cons_self
      have hpush : pushSegment b res n = n :: res := by
        unfold pushSegment
        rw [if_neg (not_or.mpr ⟨hn.ne_nil, hn.ne_dot⟩), if_neg hn.ne_dotDot]
      rw [List.foldl_cons, hpush, ih _ fun m hm => hnames m (List.mem_cons_of_mem n hm),
        List.reverse_cons, List.append_assoc]
      rfl

/-! ## Resolved paths -/

/-- The segments of a path that is resolved from a directory. -/
def resolved (dir path : List Char) : List (List Char) :=
  (walk (if path.head? = some '/' then path else dir ++ '/' :: path)).names.reverse

theorem resolve_eq : resolve dir path = '/' :: joinSegments (resolved dir path) :=
  congrArg _ normalizeString_false

theorem resolved_named (dir path : List Char) : ∀ n ∈ resolved dir path, IsName n := fun n hn =>
  walk_named _ n (List.mem_reverse.mp hn)

end SecureStore.Foundation.PosixPath
