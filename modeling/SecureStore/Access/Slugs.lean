/-
# Slugs of tenants

A tenant's slug is derived from its name: lower case, with a dash for every run of anything but
letters and digits, none at the ends, at most sixty characters, and with a number behind it where
the slug is taken. The cut to sixty comes after the dashes are cut off, so it can leave one at
the end; and the last number is tried out but not looked up.
-/

import SecureStore.Access.Assignments
import SecureStore.Foundation.Words

namespace SecureStore.Access

open SecureStore.Foundation

/-- One of the characters a-z and 0-9. -/
def slugChar (c : Char) : Bool := decide (('a' ≤ c ∧ c ≤ 'z') ∨ ('0' ≤ c ∧ c ≤ '9'))

inductive SlugError where
  | badRequest (message : String)
  | conflict (code field message : String)
  deriving DecidableEq

section Slugs

variable (toLowerCase : List Char → List Char)

/-- The name with its words in lower case, joined by dashes. -/
def dashed (name : List Char) : List Char :=
  trimBoth (· = '-') (collapse slugChar '-' false (trimBoth whiteSpace (toLowerCase name)))

/-- The slug without a number. -/
def slugBase (name : List Char) : List Char := (dashed toLowerCase name).take 60

/-- The slug with a number. -/
def suffixed (base : List Char) (suffix : ℕ) : List Char :=
  base ++ '-' :: Nat.toDigits 10 suffix

def slugTaken (name : List Char) : SlugError :=
  .conflict "TENANT_SLUG_TAKEN" "slug"
    ("Could not derive a unique slug from \"" ++ String.ofList name ++ "\". Please supply one.")

/-- The loop that looks for a free slug: `left` candidates are left to look up after this one.
After the last of them the number is raised once more, and the loop gives up. -/
def findSlug (existing : List (List Char)) (name base : List Char) :
    ℕ → List Char → Except SlugError (List Char)
  | left, candidate =>
      if candidate ∈ existing then
        match left with
        | 0 => .error (slugTaken name)
        | left + 1 => findSlug existing name base left (suffixed base (98 - left))
      else .ok candidate

def deriveSlug (existing : List (List Char)) (name : List Char) :
    Except SlugError (List Char) :=
  let base := slugBase toLowerCase name
  if base = [] then
    .error (.badRequest "Cannot derive slug from name — please supply one explicitly")
  else findSlug existing name base 97 base

end Slugs

/-! ## Names -/

section Names

variable {toLowerCase : List Char → List Char} {name : List Char}

theorem slugChar_dash : slugChar '-' = false := by decide

theorem not_whiteSpace_of_slugChar {c : Char} (hc : slugChar c = true) : whiteSpace c = false := by
  have hrange : (97 ≤ c.toNat ∧ c.toNat ≤ 122) ∨ (48 ≤ c.toNat ∧ c.toNat ≤ 57) := by
    simpa [slugChar, Char.le_def, UInt32.le_iff_toNat_le] using hc
  unfold whiteSpace
  rw [decide_eq_false_iff_not]
  omega

/-- The characters of words stay in the slug. -/
theorem mem_dashed {c : Char} (hc : slugChar c = true) :
    c ∈ dashed toLowerCase name ↔ c ∈ toLowerCase name := by
  unfold dashed
  rw [mem_trimBoth, mem_collapse slugChar_dash hc,
    mem_trimBoth (not_whiteSpace_of_slugChar hc)]
  exact decide_eq_false (word_ne_sep slugChar_dash hc)

variable (toLowerCase name) in
theorem dashed_spec :
    Spaced slugChar '-' (dashed toLowerCase name) ∧
      (dashed toLowerCase name).head? ≠ some '-' ∧
      (dashed toLowerCase name).getLast? ≠ some '-' := by
  obtain ⟨hspaced, -⟩ := spaced_collapse slugChar_dash false
    (trimBoth whiteSpace (toLowerCase name))
  obtain ⟨front, back, heq, hhead, hlast⟩ := trimBoth_spec (· = '-')
    (collapse slugChar '-' false (trimBoth whiteSpace (toLowerCase name)))
  rw [heq] at hspaced
  refine ⟨hspaced.left.right, fun h => ?_, fun h => ?_⟩
  · exact of_decide_eq_false (hhead '-' h) rfl
  · exact of_decide_eq_false (hlast '-' h) rfl

/-- The name is its words, joined by dashes. -/
theorem dashed_eq :
    dashed toLowerCase name = ['-'].intercalate (wordsOf slugChar (toLowerCase name)) := by
  have hwords : wordsOf slugChar (dashed toLowerCase name) =
      wordsOf slugChar (toLowerCase name) := by
    unfold dashed
    rw [wordsOf_trimBoth, wordsOf_collapse slugChar_dash, wordsOf_trimBoth]
    · intro c hspace
      by_contra hword
      rw [not_whiteSpace_of_slugChar (by simpa using hword)] at hspace
      cases hspace
    · intro c hdash
      rw [of_decide_eq_true hdash]
      exact slugChar_dash
  obtain ⟨hspaced, hhead, hlast⟩ := dashed_spec toLowerCase name
  by_cases hnil : dashed toLowerCase name = []
  · rw [hnil] at hwords
    rw [hnil, ← hwords]
    rfl
  · rw [← hwords]
    have hjoined := hspaced.joined slugChar_dash hnil hhead hlast
    exact (hjoined.intercalate slugChar_dash hspaced).symm

/-- There is no slug exactly when the name has no letter and no digit. -/
theorem slugBase_eq_nil : slugBase toLowerCase name = [] ↔
    ∀ c ∈ toLowerCase name, slugChar c = false := by
  have hnil : slugBase toLowerCase name = [] ↔ dashed toLowerCase name = [] := by
    unfold slugBase
    rw [List.take_eq_nil_iff]
    exact or_iff_right (by decide)
  rw [hnil]
  constructor
  · intro hempty c hc
    by_contra hword
    rw [Bool.not_eq_false] at hword
    have hmem : c ∈ dashed toLowerCase name := (mem_dashed hword).mpr hc
    rw [hempty] at hmem
    cases hmem
  · intro hnone
    obtain ⟨hspaced, hhead, -⟩ := dashed_spec toLowerCase name
    cases hdashed : dashed toLowerCase name with
    | nil => rfl
    | cons c rest =>
        rw [hdashed] at hspaced hhead
        exfalso
        rcases hspaced.chars c List.mem_cons_self with hword | rfl
        · have hmem : c ∈ toLowerCase name := by
            rw [← mem_dashed hword, hdashed]
            exact List.mem_cons_self
          rw [hnone c hmem] at hword
          cases hword
        · exact hhead rfl

/-- What is left of a name is joined, unless the cut to sixty leaves a dash at the end. -/
theorem joined_slugBase (hne : slugBase toLowerCase name ≠ []) :
    Joined slugChar '-' (slugBase toLowerCase name) ↔
      (dashed toLowerCase name)[59]? ≠ some '-' := by
  obtain ⟨hspaced, hhead, hlast⟩ := dashed_spec toLowerCase name
  have hcut : slugBase toLowerCase name =
      (dashed toLowerCase name).take 59 ++ (dashed toLowerCase name)[59]?.toList :=
    List.take_add_one
  cases hat : (dashed toLowerCase name)[59]? with
  | none =>
      have hall : slugBase toLowerCase name = dashed toLowerCase name := by
        have hlength := List.getElem?_eq_none_iff.mp hat
        exact List.take_of_length_le (by omega)
      rw [hall] at hne ⊢
      exact iff_of_true (hspaced.joined slugChar_dash hne hhead hlast)
        (Option.some_ne_none '-').symm
  | some c =>
      rw [hat] at hcut
      by_cases hc : c = '-'
      · subst hc
        refine iff_of_false (fun hjoined => ?_) (fun h => h rfl)
        rw [hcut] at hjoined
        exact not_joined_nil (joined_append_cons.mp hjoined).2
      · have hcutSpaced : Spaced slugChar '-' (slugBase toLowerCase name) := by
          rw [← List.take_append_drop 60 (dashed toLowerCase name)] at hspaced
          exact hspaced.left
        refine iff_of_true (hcutSpaced.joined slugChar_dash hne ?_ ?_) (by simpa using hc)
        · unfold slugBase
          rwa [List.head?_take, if_neg (by decide)]
        · rw [hcut]
          simpa using hc

/-- A number behind the slug joins as the slug does. -/
theorem joined_suffixed {base : List Char} {suffix : ℕ} :
    Joined slugChar '-' (suffixed base suffix) ↔ Joined slugChar '-' base := by
  have hdigits : Joined slugChar '-' (Nat.toDigits 10 suffix) := by
    refine joined_word slugChar_dash Nat.toDigits_ne_nil fun c hc => ?_
    have hdigit := Nat.isDigit_of_mem_toDigits (by decide) (by decide) hc
    have hrange : '0' ≤ c ∧ c ≤ '9' := by simpa [Char.isDigit, Char.le_def] using hdigit
    exact decide_eq_true (.inr hrange)
  unfold suffixed
  rw [joined_append_cons]
  exact and_iff_left hdigits

end Names

/-! ## The search for a free slug -/

section Search

variable {existing : List (List Char)} {name base candidate slug : List Char} {left : ℕ}
  {e : SlugError}

/-- The slug without a number is taken, and so it is with each number up to the last. -/
def AllTaken (existing : List (List Char)) (base : List Char) (last : ℕ) : Prop :=
  base ∈ existing ∧ ∀ suffix ≤ last, 2 ≤ suffix → suffixed base suffix ∈ existing

variable (existing base) in
theorem allTaken_succ {last : ℕ} (hlast : 1 ≤ last) :
    AllTaken existing base (last + 1) ↔
      AllTaken existing base last ∧ suffixed base (last + 1) ∈ existing := by
  unfold AllTaken
  constructor
  · rintro ⟨hbase, hall⟩
    exact ⟨⟨hbase, fun suffix hle => hall suffix (by omega)⟩, hall _ le_rfl (by omega)⟩
  · rintro ⟨⟨hbase, hall⟩, hnext⟩
    refine ⟨hbase, fun suffix hle htwo => ?_⟩
    rcases Nat.le_succ_iff.mp hle with hle | rfl
    · exact hall suffix hle htwo
    · exact hnext

/-- What the loop finds is free, and is the candidate or has one of the numbers left. -/
theorem findSlug_ok (h : findSlug existing name base left candidate = .ok slug) :
    slug ∉ existing ∧ (slug = candidate ∨ ∃ suffix, slug = suffixed base suffix) := by
  induction left generalizing candidate with
  | zero =>
      unfold findSlug at h
      split at h
      · cases h
      · next hfree =>
          obtain rfl := Except.ok.inj h
          exact ⟨hfree, .inl rfl⟩
  | succ left ih =>
      unfold findSlug at h
      split at h
      · obtain ⟨hfree, rfl | hsuffix⟩ := ih h
        · exact ⟨hfree, .inr ⟨98 - left, rfl⟩⟩
        · exact ⟨hfree, .inr hsuffix⟩
      · next hfree =>
          obtain rfl := Except.ok.inj h
          exact ⟨hfree, .inl rfl⟩

/-- The loop gives up exactly when the candidate and those with the numbers left are taken. -/
theorem findSlug_error (hleft : left ≤ 97) :
    (∃ e, findSlug existing name base left candidate = .error e) ↔
      candidate ∈ existing ∧
        ∀ suffix ≤ 98, 98 - left < suffix → suffixed base suffix ∈ existing := by
  induction left generalizing candidate with
  | zero =>
      unfold findSlug
      split
      · next htaken =>
          exact iff_of_true ⟨_, rfl⟩ ⟨htaken, fun suffix hle hlt => by omega⟩
      · next hfree => exact iff_of_false (by simp) fun h => hfree h.1
  | succ left ih =>
      unfold findSlug
      split
      · next htaken =>
          rw [ih (by omega), and_iff_right htaken]
          constructor
          · rintro ⟨hnext, hrest⟩ suffix hle hlt
            rcases (show 98 - left ≤ suffix by omega).eq_or_lt with rfl | hlt
            · exact hnext
            · exact hrest suffix hle hlt
          · intro hall
            exact ⟨hall _ (by omega) (by omega), fun suffix hle hlt => hall suffix hle (by omega)⟩
      · next hfree => exact iff_of_false (by simp) fun h => hfree h.1

variable (existing name base) in
theorem findSlug_gives_up :
    (∃ e, findSlug existing name base 97 base = .error e) ↔ AllTaken existing base 98 :=
  findSlug_error le_rfl

end Search

/-! ## Derived slugs -/

section Derived

variable (toLowerCase : List Char → List Char) (existing : List (List Char)) (name : List Char)

theorem deriveSlug_of_word (hne : slugBase toLowerCase name ≠ []) :
    deriveSlug toLowerCase existing name =
      findSlug existing name (slugBase toLowerCase name) 97 (slugBase toLowerCase name) :=
  if_neg hne

/-- What is found is joined exactly when the cut to sixty leaves no dash at the end. -/
theorem joined_found {slug : List Char} (hne : slugBase toLowerCase name ≠ [])
    (h : findSlug existing name (slugBase toLowerCase name) 97 (slugBase toLowerCase name) =
      .ok slug) :
    Joined slugChar '-' slug ↔ (dashed toLowerCase name)[59]? ≠ some '-' := by
  obtain ⟨-, rfl | ⟨suffix, rfl⟩⟩ := findSlug_ok h
  · exact joined_slugBase hne
  · rw [joined_suffixed]
    exact joined_slugBase hne

/-- A slug that is derived is free and joined of words, and none is derived only where the name
has no letter and no digit, or the slug and it with each number up to 99 are taken. -/
def SlugDerived : Prop :=
  (∀ slug, deriveSlug toLowerCase existing name = .ok slug →
    slug ∉ existing ∧ Joined slugChar '-' slug) ∧
  ∀ e, deriveSlug toLowerCase existing name = .error e →
    (∀ c ∈ toLowerCase name, slugChar c = false) ∨
      AllTaken existing (slugBase toLowerCase name) 99

/-- Slugs are derived as they should be exactly when the cut to sixty leaves no dash at the end
where a slug is found, and the last number is taken too where none is. -/
theorem derived_slugs_iff :
    SlugDerived toLowerCase existing name ↔
      ((∃ c ∈ toLowerCase name, slugChar c = true) →
        (¬ AllTaken existing (slugBase toLowerCase name) 98 →
          (['-'].intercalate (wordsOf slugChar (toLowerCase name)))[59]? ≠ some '-') ∧
        (AllTaken existing (slugBase toLowerCase name) 98 →
          suffixed (slugBase toLowerCase name) 99 ∈ existing)) := by
  rw [← dashed_eq]
  by_cases hword : ∃ c ∈ toLowerCase name, slugChar c = true
  · rw [forall_prop_of_true hword]
    have hne : slugBase toLowerCase name ≠ [] := by
      intro hempty
      obtain ⟨c, hc, hslug⟩ := hword
      rw [slugBase_eq_nil.mp hempty c hc] at hslug
      cases hslug
    have hnot : ¬ ∀ c ∈ toLowerCase name, slugChar c = false := fun h =>
      hne (slugBase_eq_nil.mpr h)
    have hgives := findSlug_gives_up existing name (slugBase toLowerCase name)
    unfold SlugDerived
    rw [deriveSlug_of_word toLowerCase existing name hne]
    cases hfind : findSlug existing name (slugBase toLowerCase name) 97
        (slugBase toLowerCase name) with
    | ok slug =>
        have hfree : ¬ AllTaken existing (slugBase toLowerCase name) 98 := by
          rw [← hgives, hfind]
          simp
        have hjoined := joined_found toLowerCase existing name hne hfind
        have hnew := (findSlug_ok hfind).1
        simp [hfree, hnew, hjoined]
    | error e =>
        have htaken : AllTaken existing (slugBase toLowerCase name) 98 := hgives.mp ⟨e, hfind⟩
        have hlast := allTaken_succ existing (slugBase toLowerCase name)
          (show 1 ≤ 98 by decide)
        rw [and_iff_right htaken] at hlast
        simp [htaken, hnot, hlast]
  · rw [forall_prop_of_false hword]
    have hnone : ∀ c ∈ toLowerCase name, slugChar c = false := by
      simpa using hword
    refine iff_of_true ⟨fun slug hslug => ?_, fun _ _ => .inl hnone⟩ trivial
    unfold deriveSlug at hslug
    rw [if_pos (slugBase_eq_nil.mpr hnone)] at hslug
    cases hslug

/-- A dash at the sixtieth place is left at the end; and where 98 slugs are taken, the one with
the number 99 is not looked up. -/
theorem derived_slugs_fail :
    ¬ SlugDerived (List.map Char.toLower) [] (List.replicate 59 'a' ++ " b".toList) ∧
      ¬ SlugDerived (List.map Char.toLower)
        ("a".toList :: (List.range' 2 97).map (suffixed "a".toList)) "A".toList := by
  constructor
  · intro h
    exact absurd (h.1 (List.replicate 59 'a' ++ ['-']) (by decide)).2 (by decide)
  · intro h
    have hbase : slugBase (List.map Char.toLower) "A".toList = "a".toList := by decide
    have htaken : AllTaken ("a".toList :: (List.range' 2 97).map (suffixed "a".toList))
        "a".toList 98 := by
      refine ⟨List.mem_cons_self, fun suffix hle htwo => List.mem_cons_of_mem _ ?_⟩
      exact List.mem_map_of_mem (List.mem_range'_1.mpr (by omega))
    obtain ⟨e, he⟩ := (findSlug_gives_up _ "A".toList _).mpr htaken
    have hderive : deriveSlug (List.map Char.toLower)
        ("a".toList :: (List.range' 2 97).map (suffixed "a".toList)) "A".toList = .error e := by
      rw [deriveSlug_of_word _ _ _ (by rw [hbase]; decide), hbase]
      exact he
    rcases h.2 e hderive with hnone | hall
    · exact absurd (hnone 'a' (by decide)) (by decide)
    · rw [hbase] at hall
      exact absurd (hall.2 99 le_rfl (by decide)) (by decide)

end Derived

end SecureStore.Access
