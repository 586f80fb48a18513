/-
# Files on the local disk

The provider that keeps files under a directory of the disk finds the place of a file from its
key: the key is normalised, what leads above the root is cut off at its start, and the rest is
resolved from the root. Said without the texts in between, a key leads where the walk along it
ends, below the root, except that one which only goes up is refused.
-/

import Mathlib
import SecureStore.Foundation.PosixPaths
import SecureStore.Foundation.Table

namespace SecureStore.Storage

open SecureStore.Foundation.PosixPath

/-- The directory of the process, and the settings of its environment. -/
structure StorageConfig where
  cwd : List Char
  storageLocalDir : Option (List Char)
  storagePublicBaseUrl : Option (List Char)

/-- The directories and the files of the disk, each by its absolute path. -/
structure Disk where
  dirs : List (List Char)
  files : List (List Char)

/-! ## Places of keys -/

def StorageConfig.rootDir (cfg : StorageConfig) : List Char :=
  resolve cfg.cwd (cfg.storageLocalDir.getD "./uploads".toList)

/-- `.replace(/^(?:\.{2}\/)+/, '')` -/
def withoutUps : List Char → List Char
  | '.' :: '.' :: '/' :: path => withoutUps path
  | path => path

/-- The key as it is resolved from the root. -/
def safeKey (key : List Char) : List Char :=
  (withoutUps (Foundation.PosixPath.normalize key)).dropWhile (· = '/')

/-- The absolute path of a key, or none where the provider throws. -/
def resolveKey (cfg : StorageConfig) (key : List Char) : Option (List Char) :=
  let full := resolve cfg.rootDir (safeKey key)
  if ¬ (cfg.rootDir ++ ['/']).isPrefixOf full ∧ full ≠ cfg.rootDir then none else some full

/-- The directories above a path. -/
def directoriesAbove (full : List Char) : List (List Char) :=
  ['/'] :: full.inits.filter fun dir => dir ≠ [] ∧ (dir ++ ['/']).isPrefixOf full

/-- `fs.access` -/
def Disk.access (d : Disk) (full : List Char) : Prop := full ∈ d.dirs ∨ full ∈ d.files

instance (d : Disk) (full : List Char) : Decidable (d.access full) :=
  inferInstanceAs (Decidable (_ ∨ _))

/-- `fs.mkdir` and `fs.writeFile`. They fail where a file stands in place of a directory above, or
a directory in place of the file. -/
def Disk.write (d : Disk) (full : List Char) : Option Disk :=
  if (∃ dir ∈ directoriesAbove full, dir ∈ d.files) ∨ full ∈ d.dirs then none
  else some ⟨d.dirs ++ directoriesAbove full, full :: d.files⟩

/-- `fs.unlink`. It fails on a directory, and that there is no such file is not minded. -/
def Disk.unlink (d : Disk) (full : List Char) : Option Disk :=
  if full ∈ d.dirs then none else some { d with files := d.files.filter (· ≠ full) }

/-- `LocalDiskStorageProvider.put` -/
def Disk.put (cfg : StorageConfig) (d : Disk) (key : List Char) : Option Disk :=
  (resolveKey cfg key).bind d.write

/-- `LocalDiskStorageProvider.delete` -/
def Disk.delete (cfg : StorageConfig) (d : Disk) (key : List Char) : Option Disk :=
  (resolveKey cfg key).bind d.unlink

/-- `LocalDiskStorageProvider.exists` -/
def Disk.keyExists (cfg : StorageConfig) (d : Disk) (key : List Char) : Bool :=
  match resolveKey cfg key with
  | none => false
  | some full => d.access full

/-! ## Where keys lead -/

/-- The names of the directories down to the root. -/
def StorageConfig.root (cfg : StorageConfig) : List (List Char) :=
  resolved cfg.cwd (cfg.storageLocalDir.getD "./uploads".toList)

/-- A key that only goes up: it ends above its start, and neither begins nor ends with a slash. -/
def GoesUp (key : List Char) : Prop :=
  0 < (walk key).ups ∧ (walk key).names = [] ∧ key.head? ≠ some '/' ∧ key.getLast? ≠ some '/'

instance (key : List Char) : Decidable (GoesUp key) := inferInstanceAs (Decidable (_ ∧ _))

/-- Where the walk along a key ends, that never goes above the root. -/
def placeBelow (root : List (List Char)) (key : List Char) : List (List Char) :=
  if GoesUp key then root.dropLast else root ++ (walk key).names.reverse

/-- A key leads to the root or below it. At the top of the disk there is nothing below it. -/
def leadsTo (root : List (List Char)) (key : List Char) : Option (List (List Char)) :=
  if placeBelow root key = root ∨ (root ≠ [] ∧ root <+: placeBelow root key) then
    some (placeBelow root key)
  else none

/-- The absolute path of names. -/
def absolutePath (names : List (List Char)) : List Char := '/' :: joinSegments names

/-! ## The texts between -/

section Keys

variable {key path : List Char} {names root : List (List Char)} {cfg : StorageConfig}

/-- Two dots and a slash, over and over. -/
def upsText (ups : ℕ) : List Char := (List.replicate ups ['.', '.', '/']).flatten

theorem upsText_succ (ups : ℕ) : upsText (ups + 1) = '.' :: '.' :: '/' :: upsText ups := rfl

theorem withoutUps_upsText (ups : ℕ) (path : List Char) :
    withoutUps (upsText ups ++ path) = withoutUps path := by
  induction ups with
  | zero => rfl
  | succ ups ih =>
      rw [upsText_succ]
      exact ih

theorem joinSegments_ups (ups : ℕ) (hne : names ≠ []) :
    joinSegments (List.replicate ups dotDot ++ names) = upsText ups ++ joinSegments names := by
  induction ups with
  | zero => rfl
  | succ ups ih =>
      rw [List.replicate_succ, List.cons_append, joinSegments_cons (by simp [hne]), ih]
      rfl

theorem joinSegments_only_ups (ups : ℕ) :
    joinSegments (List.replicate (ups + 1) dotDot) = upsText ups ++ dotDot := by
  rw [List.replicate_succ', joinSegments_ups ups (List.cons_ne_nil dotDot [])]
  exact congrArg _ List.intercalate_singleton

section Names

variable {rest : List Char} (hnames : ∀ n ∈ names, IsName n) (hne : names ≠ [])
  (hrest : rest = [] ∨ rest = ['/'])

include hnames hne hrest

/-- A slash at the end adds an empty segment. -/
theorem splitOn_trailing : ∃ more, (joinSegments names ++ rest).splitOn '/' = names ++ more ∧
    (more = [] ∨ more = [[]]) := by
  rcases hrest with rfl | rfl
  · refine ⟨[], ?_, .inl rfl⟩
    rw [List.append_nil, List.append_nil, splitOn_joinSegments hnames hne]
  · refine ⟨[[]], ?_, .inr rfl⟩
    rw [List.splitOn_append_cons_self, splitOn_joinSegments hnames hne]
    rfl

/-- What begins with a name is left as it is, by both replacements. -/
theorem withoutUps_names :
    withoutUps (joinSegments names ++ rest) = joinSegments names ++ rest := by
  unfold withoutUps
  split
  · next path heq =>
      -- the first segment would be two dots
      exfalso
      obtain ⟨more, hsplit, -⟩ := splitOn_trailing hnames hne hrest
      have hup : ('.' :: '.' :: '/' :: path).splitOn '/' = dotDot :: path.splitOn '/' :=
        List.splitOn_append_cons_self_of_not_mem (show '/' ∉ dotDot by decide) path
      rw [heq, hup] at hsplit
      obtain ⟨name, others, rfl⟩ := List.exists_cons_of_ne_nil hne
      have hfirst : dotDot = name := (List.cons.inj hsplit).1
      exact (hnames name List.mem_cons_self).ne_dotDot hfirst.symm
  · rfl

omit hrest in
theorem dropWhile_names :
    (joinSegments names ++ rest).dropWhile (· = '/') = joinSegments names ++ rest := by
  obtain ⟨c, tail, hhead, hc⟩ := joinSegments_head hnames hne
  rw [hhead, List.cons_append, List.dropWhile_cons_of_neg (by simpa using hc)]

/-- The names are pushed on what was there. -/
theorem foldl_trailing (res : List (List Char)) :
    ((joinSegments names ++ rest).splitOn '/').foldl (pushSegment false) res =
      names.reverse ++ res := by
  obtain ⟨more, hsplit, hmore⟩ := splitOn_trailing hnames hne hrest
  rw [hsplit, List.foldl_append, foldl_push_names false res hnames]
  rcases hmore with rfl | rfl
  · rfl
  · rfl

end Names

/-! ## Keys from the root -/

theorem normalize_of_absolute (habs : key.head? = some '/') :
    Foundation.PosixPath.normalize key =
      if (walk key).names = [] then ['/']
      else '/' :: (joinSegments (walk key).names.reverse ++
        if key.getLast? = some '/' then ['/'] else []) := by
  have hne : key ≠ [] := by
    rintro rfl
    cases habs
  have hnormal : normalizeString (!true) key = joinSegments (walk key).names.reverse :=
    normalizeString_false
  have hnames : ∀ n ∈ (walk key).names.reverse, IsName n := fun n hn =>
    walk_named key n (List.mem_reverse.mp hn)
  unfold Foundation.PosixPath.normalize
  rw [if_neg hne]
  simp only [habs, decide_true, if_true, hnormal]
  by_cases hnil : (walk key).names = []
  · rw [if_pos hnil, hnil]
    rfl
  · rw [if_neg hnil, if_neg (joinSegments_ne_nil hnames (by simpa using hnil))]
    split
    · next hlast => rw [if_pos (of_decide_eq_true hlast)]
    · next hlast => rw [if_neg (by simpa using hlast), List.append_nil]

theorem normalize_of_relative (hne : key ≠ []) (habs : key.head? ≠ some '/') :
    Foundation.PosixPath.normalize key =
      if (walk key).ups = 0 ∧ (walk key).names = [] then
        if key.getLast? = some '/' then ['.', '/'] else ['.']
      else joinSegments (List.replicate (walk key).ups dotDot ++ (walk key).names.reverse) ++
        if key.getLast? = some '/' then ['/'] else [] := by
  have hnormal : normalizeString (!false) key =
      joinSegments (List.replicate (walk key).ups dotDot ++ (walk key).names.reverse) :=
    normalizeString_true
  have hempty : joinSegments (List.replicate (walk key).ups dotDot ++
      (walk key).names.reverse) = [] ↔ (walk key).ups = 0 ∧ (walk key).names = [] := by
    constructor
    · intro htext
      by_cases hnil : (walk key).names = []
      · cases hups : (walk key).ups with
        | zero => exact ⟨rfl, hnil⟩
        | succ ups =>
            rw [hups, hnil, List.reverse_nil, List.append_nil, joinSegments_only_ups] at htext
            exact absurd (List.append_eq_nil_iff.mp htext).2 (by decide)
      · rw [joinSegments_ups _ (by simpa using hnil)] at htext
        have hnames : ∀ n ∈ (walk key).names.reverse, IsName n := fun n hn =>
          walk_named key n (List.mem_reverse.mp hn)
        exact absurd (List.append_eq_nil_iff.mp htext).2
          (joinSegments_ne_nil hnames (by simpa using hnil))
    · rintro ⟨hups, hnil⟩
      rw [hups, hnil]
      rfl
  unfold Foundation.PosixPath.normalize
  rw [if_neg hne]
  simp only [decide_eq_false habs, Bool.false_eq_true, if_false, hnormal, hempty]
  split
  · split
    · next hlast => rw [if_pos (of_decide_eq_true hlast)]
    · next hlast => rw [if_neg (by simpa using hlast)]
  · split
    · next hlast => rw [if_pos (of_decide_eq_true hlast)]
    · next hlast => rw [if_neg (by simpa using hlast), List.append_nil]

/-- What is resolved from the root leads where the walk along the key ends. -/
theorem foldl_safeKey {res : List (List Char)} (hres : ∀ n ∈ res, IsName n) :
    ((safeKey key).splitOn '/').foldl (pushSegment false) res =
      if GoesUp key then res.tail else (walk key).names ++ res := by
  have hnames : ∀ n ∈ (walk key).names.reverse, IsName n := fun n hn =>
    walk_named key n (List.mem_reverse.mp hn)
  have hrest : (if key.getLast? = some '/' then ['/'] else []) = [] ∨
      (if key.getLast? = some '/' then ['/'] else []) = ['/'] := by
    split
    · exact .inr rfl
    · exact .inl rfl
  unfold safeKey
  by_cases habs : key.head? = some '/'
  · have hup : ¬ GoesUp key := fun h => h.2.2.1 habs
    rw [normalize_of_absolute habs, if_neg hup]
    by_cases hnil : (walk key).names = []
    · rw [if_pos hnil, hnil]
      rfl
    · have hne : (walk key).names.reverse ≠ [] := by simpa using hnil
      rw [if_neg hnil, withoutUps, List.dropWhile_cons, if_pos (by decide),
        dropWhile_names hnames hne, foldl_trailing hnames hne hrest, List.reverse_reverse]
      · rintro path heq
        cases heq
  · by_cases hempty : key = []
    · subst hempty
      rfl
    rw [normalize_of_relative hempty habs]
    by_cases hnil : (walk key).names = []
    · cases hups : (walk key).ups with
      | zero =>
          have hup : ¬ GoesUp key := fun h => by
            have := h.1
            omega
          rw [if_pos ⟨rfl, hnil⟩, if_neg hup, hnil]
          split
          · rfl
          · rfl
      | succ ups =>
          rw [if_neg (by omega), hnil, List.reverse_nil, List.append_nil, joinSegments_only_ups]
          by_cases hlast : key.getLast? = some '/'
          · have hup : ¬ GoesUp key := fun h => h.2.2.2 hlast
            rw [if_pos hlast, if_neg hup, List.append_assoc]
            have hall : withoutUps (upsText ups ++ (dotDot ++ ['/'])) = [] := by
              rw [withoutUps_upsText]
              rfl
            rw [hall]
            rfl
          · have hup : GoesUp key := ⟨by omega, hnil, habs, hlast⟩
            rw [if_neg hlast, if_pos hup, List.append_nil, withoutUps_upsText]
            cases res with
            | nil => rfl
            | cons top rest => exact if_neg (hres top List.mem_cons_self).ne_dotDot
    · have hne : (walk key).names.reverse ≠ [] := by simpa using hnil
      have hup : ¬ GoesUp key := fun h => hnil h.2.1
      rw [if_neg (fun h => hnil h.2), if_neg hup, joinSegments_ups _ hne, List.append_assoc,
        withoutUps_upsText, withoutUps_names hnames hne hrest, dropWhile_names hnames hne,
        foldl_trailing hnames hne hrest, List.reverse_reverse]

end Keys

/-! ## Resolved keys -/

section Resolved

variable {cfg : StorageConfig} {key : List Char} {root place : List (List Char)}

theorem root_named (cfg : StorageConfig) : ∀ n ∈ cfg.root, IsName n := resolved_named _ _

theorem rootDir_eq (cfg : StorageConfig) : cfg.rootDir = absolutePath cfg.root := resolve_eq

theorem placeBelow_named (hroot : ∀ n ∈ root, IsName n) (key : List Char) :
    ∀ n ∈ placeBelow root key, IsName n := by
  intro n hn
  unfold placeBelow at hn
  split at hn
  · exact hroot n ((List.dropLast_sublist root).subset hn)
  · rcases List.mem_append.mp hn with hn | hn
    · exact hroot n hn
    · exact walk_named key n (List.mem_reverse.mp hn)

/-- The stack after the segments of the root. -/
theorem foldl_absolutePath (hroot : ∀ n ∈ root, IsName n) :
    ((absolutePath root).splitOn '/').foldl (pushSegment false) [] = root.reverse := by
  unfold absolutePath
  have hsplit : ('/' :: joinSegments root).splitOn '/' =
      [] :: (joinSegments root).splitOn '/' :=
    List.splitOn_append_cons_self_of_not_mem List.not_mem_nil (joinSegments root)
  rw [hsplit]
  by_cases hne : root = []
  · subst hne
    rfl
  · rw [splitOn_joinSegments hroot hne]
    exact (foldl_push_names false [] hroot).trans (List.append_nil _)

theorem safeKey_head (key : List Char) : (safeKey key).head? ≠ some '/' := by
  intro hhead
  have hnot := List.head?_dropWhile_not (· = '/') (withoutUps (Foundation.PosixPath.normalize key))
  unfold safeKey at hhead
  rw [hhead] at hnot
  cases hnot

theorem resolve_safeKey (cfg : StorageConfig) (key : List Char) :
    resolve cfg.rootDir (safeKey key) = absolutePath (placeBelow cfg.root key) := by
  unfold resolve normalizeString
  rw [if_neg (safeKey_head key), List.splitOn_append_cons_self, List.foldl_append, rootDir_eq,
    foldl_absolutePath (root_named cfg),
    foldl_safeKey fun n hn => root_named cfg n (List.mem_reverse.mp hn)]
  unfold placeBelow absolutePath
  split
  · rw [List.tail_reverse, List.reverse_reverse]
  · rw [List.reverse_append, List.reverse_reverse]

/-- The path of a place begins with that of the root exactly when the place is below it. -/
theorem rootPath_begins (hroot : ∀ n ∈ root, IsName n) (hplace : ∀ n ∈ place, IsName n) :
    absolutePath root ++ ['/'] <+: absolutePath place ↔
      root ≠ [] ∧ root <+: place ∧ place ≠ root := by
  constructor
  · rintro ⟨rest, heq⟩
    have htext : joinSegments root ++ '/' :: rest = joinSegments place := by
      rw [List.append_assoc] at heq
      exact (List.cons.inj heq).2
    have hne : place ≠ [] := by
      rintro rfl
      exact absurd (List.append_eq_nil_iff.mp htext).2 (List.cons_ne_nil _ _)
    have hnonempty : root ≠ [] := by
      rintro rfl
      obtain ⟨c, tail, hhead, hc⟩ := joinSegments_head hplace hne
      rw [hhead] at htext
      exact hc (List.cons.inj htext).1.symm
    have hsplit := splitOn_joinSegments hplace hne
    rw [← htext, List.splitOn_append_cons_self, splitOn_joinSegments hroot hnonempty] at hsplit
    refine ⟨hnonempty, ⟨_, hsplit⟩, ?_⟩
    rintro rfl
    exact List.splitOn_ne_nil '/' rest (List.append_right_eq_self.mp hsplit)
  · rintro ⟨hnonempty, ⟨more, rfl⟩, hne⟩
    have hmore : more ≠ [] := by
      rintro rfl
      exact hne (List.append_nil root)
    refine ⟨joinSegments more, ?_⟩
    unfold absolutePath
    rw [joinSegments_append hnonempty hmore, List.append_assoc]
    rfl

theorem absolutePath_inj {place' : List (List Char)} (h : ∀ n ∈ place, IsName n)
    (h' : ∀ n ∈ place', IsName n) (heq : absolutePath place = absolutePath place') :
    place = place' :=
  joinSegments_inj h h' (List.cons.inj heq).2

/-- The path that the provider finds for a key is that of the place where the key leads. -/
theorem resolveKey_eq (cfg : StorageConfig) (key : List Char) :
    resolveKey cfg key = (leadsTo cfg.root key).map absolutePath := by
  have hplace := placeBelow_named (root_named cfg) key
  have hwithin : (cfg.rootDir ++ ['/']).isPrefixOf (absolutePath (placeBelow cfg.root key)) ↔
      cfg.root ≠ [] ∧ cfg.root <+: placeBelow cfg.root key ∧
        placeBelow cfg.root key ≠ cfg.root := by
    rw [List.isPrefixOf_iff_prefix, rootDir_eq]
    exact rootPath_begins (root_named cfg) hplace
  have hsame : absolutePath (placeBelow cfg.root key) = cfg.rootDir ↔
      placeBelow cfg.root key = cfg.root := by
    rw [rootDir_eq]
    exact ⟨absolutePath_inj hplace (root_named cfg), congrArg absolutePath⟩
  unfold resolveKey leadsTo
  simp only [resolve_safeKey, hwithin, hsame, ne_eq]
  by_cases heq : placeBelow cfg.root key = cfg.root
  · rw [if_neg (fun h => h.2 heq), if_pos (.inl heq)]
    rfl
  · by_cases hbelow : cfg.root ≠ [] ∧ cfg.root <+: placeBelow cfg.root key
    · rw [if_neg (fun h => h.1 ⟨hbelow.1, hbelow.2, heq⟩), if_pos (.inr hbelow)]
      rfl
    · rw [if_pos ⟨fun h => hbelow ⟨h.1, h.2.1⟩, heq⟩, if_neg (not_or.mpr ⟨heq, hbelow⟩)]
      rfl

end Resolved

end SecureStore.Storage
