/-
# Comma-separated values

A reader of RFC 4180: records end at a line break and fields at a comma, a field may be
quoted, and in a quoted field everything stands for itself but a quote, which is written
twice. The line break of the document is CRLF; many writers use a bare LF, which the reader
accepts when it is told to. What is read is built from the end of the text, so that the reader
is one recursion over its characters.
-/

import Mathlib.Data.Char
import Mathlib.Data.List.Basic

namespace SecureStore.Foundation.Csv

/-- What a text reads as: its first field, the other fields of its first record, and its other
records. -/
structure Document where
  field : List Char
  fields : List (List Char)
  records : List (List (List Char))
  deriving DecidableEq, Repr

namespace Document

/-- Nothing but an empty field. -/
def empty : Document := ⟨[], [], []⟩

/-- The records, of which there is at least one. -/
def toRecords (d : Document) : List (List (List Char)) := (d.field :: d.fields) :: d.records

/-- The first field with more text before it. -/
def prepend (text : List Char) (d : Document) : Document := { d with field := text ++ d.field }

/-- A record that goes on with the first one. -/
def pushField (d : Document) : Document := ⟨[], d.field :: d.fields, d.records⟩

/-- A record before all others. -/
def pushRecord (d : Document) : Document := ⟨[], [], d.toRecords⟩

@[simp] theorem prepend_nil (d : Document) : d.prepend [] = d := rfl

@[simp] theorem prepend_prepend (s t : List Char) (d : Document) :
    (d.prepend t).prepend s = d.prepend (s ++ t) := by
  unfold prepend
  rw [List.append_assoc]

@[simp] theorem prepend_pushField_toRecords (s : List Char) (d : Document) :
    (d.pushField.prepend s).toRecords = (s :: d.field :: d.fields) :: d.records := by
  simp [prepend, pushField, toRecords]

@[simp] theorem prepend_pushRecord_toRecords (s : List Char) (d : Document) :
    (d.pushRecord.prepend s).toRecords = [s] :: d.toRecords := by
  simp [prepend, pushRecord, toRecords]

@[simp] theorem prepend_empty_toRecords (s : List Char) :
    (empty.prepend s).toRecords = [[s]] := by
  simp [prepend, empty, toRecords]

end Document

/-- The texts of fields that go on with the first one, the last of them being its beginning. -/
def Document.prependFields : List (List Char) → Document → Document
  | [], d => d
  | [t], d => d.prepend t
  | t :: t' :: ts, d => (prependFields (t' :: ts) d).pushField.prepend t

theorem Document.prependFields_toRecords {ts : List (List Char)} (hne : ts ≠ []) {d : Document}
    (hfield : d.field = []) :
    (prependFields ts d).toRecords = (ts ++ d.fields) :: d.records := by
  induction ts with
  | nil => exact absurd rfl hne
  | cons t ts ih =>
      cases ts with
      | nil => simp [prependFields, prepend, toRecords, hfield]
      | cons t' ts =>
          have hrest := ih (List.cons_ne_nil _ _)
          unfold toRecords at hrest
          rw [prependFields, prepend_pushField_toRecords]
          rw [List.cons.injEq] at hrest
          rw [hrest.1, hrest.2]
          rfl

/-- Where in a field the reader stands: at its first character, in one without quotes, inside
the quotes, after a quote that may be the closing one, or between CR and LF. -/
inductive Mode
  | start
  | bare
  | quoted
  | closing
  | lineBreak
  deriving DecidableEq, Repr

/-- What a character does to the document: it is part of the field, belongs to the notation, or
ends the field or the record. -/
inductive Effect
  | text (c : Char)
  | skip
  | field
  | record
  deriving DecidableEq, Repr

/-- A character outside of the quotes that may end a field. -/
def separator (lf : Bool) (c : Char) : Option (Mode × Effect) :=
  if c = ',' then some (.start, .field)
  else if c = '\r' then some (.lineBreak, .skip)
  else if c = '\n' ∧ lf = true then some (.start, .record)
  else none

/-- A character in a field without quotes, at its start or later. -/
def bareStep (lf : Bool) (c : Char) : Option (Mode × Effect) :=
  if c = ',' ∨ c = '\r' ∨ c = '\n' then separator lf c
  else if c = '"' then none
  else some (.bare, .text c)

/-- Where the reader stands after a character and what the character does; nothing when it may
not stand there. A bare LF is a line break if `lf` holds. -/
def step (lf : Bool) : Mode → Char → Option (Mode × Effect)
  | .start, c => if c = '"' then some (.quoted, .skip) else bareStep lf c
  | .bare, c => bareStep lf c
  | .quoted, c => if c = '"' then some (.closing, .skip) else some (.quoted, .text c)
  | .closing, c => if c = '"' then some (.quoted, .text c) else separator lf c
  | .lineBreak, c => if c = '\n' then some (.start, .record) else none

/-- The text may end everywhere but inside the quotes and between CR and LF. -/
def ends : Mode → Bool
  | .quoted | .lineBreak => false
  | _ => true

/-- What a character and what was read after it amount to. -/
def Effect.apply : Effect → Document → Document
  | .text c, d => d.prepend [c]
  | .skip, d => d
  | .field, d => d.pushField
  | .record, d => d.pushRecord

/-- Read a text from a place in a field on; nothing when it is malformed. The line break after
the last record may be missing. -/
def read (lf : Bool) : Mode → List Char → Option Document
  | mode, [] => if ends mode then some .empty else none
  | mode, c :: cs =>
      match step lf mode c with
      | none => none
      | some (_, .record) =>
          if cs = [] then some .empty else (read lf .start cs).map .pushRecord
      | some (next, effect) => (read lf next cs).map effect.apply

/-- The records of a text. -/
def records (lf : Bool) (text : List Char) : Option (List (List (List Char))) :=
  (read lf .start text).map Document.toRecords

section Read

variable {lf : Bool} {mode : Mode} {c : Char} {cs text rest : List Char}

theorem read_cons_text (hstep : step lf mode c = some (mode, .text c)) :
    read lf mode (c :: cs) = (read lf mode cs).map (.prepend [c]) := by
  rw [read, hstep]
  rfl

/-- Text that a mode takes as it stands. -/
theorem read_append_text (hstep : ∀ c ∈ text, step lf mode c = some (mode, .text c)) :
    read lf mode (text ++ rest) = (read lf mode rest).map (.prepend text) := by
  induction text with
  | nil =>
      have hid : Document.prepend [] = id := rfl
      rw [List.nil_append, hid, Option.map_id, id_eq]
  | cons c cs ih =>
      obtain ⟨hc, hcs⟩ := List.forall_mem_cons.mp hstep
      rw [List.cons_append, read_cons_text hc, ih hcs, Option.map_map]
      rfl

/-- A comma ends the field. -/
theorem read_comma (hend : mode = .start ∨ mode = .bare ∨ mode = .closing) :
    read lf mode (',' :: cs) = (read lf .start cs).map .pushField := by
  rcases hend with rfl | rfl | rfl <;> rfl

/-- A bare LF ends the record, where it is taken as a line break. -/
theorem read_lf (hend : mode = .start ∨ mode = .bare ∨ mode = .closing) (hmore : cs ≠ []) :
    read lf mode ('\n' :: cs) = if lf then (read lf .start cs).map .pushRecord else none := by
  cases lf <;> rcases hend with rfl | rfl | rfl <;>
    simp [read, step, bareStep, separator, hmore]

theorem ends_of_outside (hend : mode = .start ∨ mode = .bare ∨ mode = .closing) :
    ends mode = true := by
  rcases hend with rfl | rfl | rfl <;> rfl

/-- What may come after a field: nothing, a comma or a line break. -/
def FieldEnd : List Char → Prop
  | [] => True
  | c :: _ => c = ',' ∨ c = '\n'

theorem fieldEnd_nil : FieldEnd [] := trivial

theorem fieldEnd_comma (cs : List Char) : FieldEnd (',' :: cs) := Or.inl rfl

theorem fieldEnd_lf (cs : List Char) : FieldEnd ('\n' :: cs) := Or.inr rfl

/-- After a field it does not matter how it was written. -/
theorem read_fieldEnd (hend : mode = .start ∨ mode = .bare ∨ mode = .closing)
    (hrest : FieldEnd rest) : read lf mode rest = read lf .start rest := by
  cases rest with
  | nil =>
      rw [read, read, ends_of_outside hend]
      rfl
  | cons c cs =>
      rcases hrest with rfl | rfl <;> rcases hend with rfl | rfl | rfl <;> rfl

end Read

/-! ## Writing -/

/-- Texts with a separator between them. -/
def joinWith (sep : Char) : List (List Char) → List Char
  | [] => []
  | [t] => t
  | t :: t' :: ts => t ++ sep :: joinWith sep (t' :: ts)

/-- What is written reads as the text. -/
def Reads (lf : Bool) (written text : List Char) : Prop :=
  ∀ rest, FieldEnd rest →
    read lf .start (written ++ rest) = (read lf .start rest).map (.prepend text)

/-- What is written never reads as the text. -/
def Misreads (lf : Bool) (written text : List Char) : Prop :=
  ∀ rest d, read lf .start (written ++ rest) = some d → d.field ≠ text

/-- A text that may stand without quotes. -/
def Bare (text : List Char) : Prop :=
  text ≠ [] ∧ ∀ c ∈ text, c ≠ ',' ∧ c ≠ '"' ∧ c ≠ '\r' ∧ c ≠ '\n'

instance : DecidablePred Bare := fun text =>
  @instDecidableAnd _ _ _ (List.decidableBAll _ text)

/-- A bare text reads as it stands. -/
theorem reads_bare {lf : Bool} {text : List Char} (htext : Bare text) : Reads lf text text := by
  have hstep : ∀ c ∈ text, bareStep lf c = some (.bare, .text c) := by
    intro c hc
    obtain ⟨hcomma, hquote, hcr, hlf⟩ := htext.2 c hc
    unfold bareStep
    rw [if_neg (by simp [hcomma, hcr, hlf]), if_neg hquote]
  intro rest hrest
  obtain ⟨c, cs, rfl⟩ := List.exists_cons_of_ne_nil htext.1
  obtain ⟨hc, hcs⟩ := List.forall_mem_cons.mp hstep
  have hfirst : step lf .start c = some (.bare, .text c) :=
    (if_neg (htext.2 c List.mem_cons_self).2.1).trans hc
  have hread : read lf .start (c :: (cs ++ rest)) =
      (read lf .bare (cs ++ rest)).map (.prepend [c]) := by
    rw [read, hfirst]
    rfl
  rw [List.cons_append, hread, read_append_text hcs, read_fieldEnd (.inr (.inl rfl)) hrest,
    Option.map_map]
  rfl

/-- A quoted text without quotes reads as what stands between the quotes. -/
theorem reads_quoted {lf : Bool} {text : List Char} (htext : ∀ c ∈ text, c ≠ '"') :
    Reads lf ('"' :: (text ++ ['"'])) text := by
  intro rest hrest
  have hstep : ∀ c ∈ text, step lf .quoted c = some (.quoted, .text c) := fun c hc =>
    if_neg (htext c hc)
  have hopen : read lf .start ('"' :: (text ++ ['"'] ++ rest)) =
      (read lf .quoted (text ++ ('"' :: rest))).map id := by
    rw [List.append_assoc]
    rfl
  have hclose : read lf .quoted ('"' :: rest) = (read lf .closing rest).map id := rfl
  rw [List.cons_append, hopen, Option.map_id, id_eq, read_append_text hstep, hclose,
    Option.map_id, id_eq, read_fieldEnd (.inr (.inr rfl)) hrest]

section Written

variable {lf : Bool} {α : Type*} {enc txt : α → List Char} {Plain : α → Prop}
  {vs : List α} {rest : List Char}

/-- The line of some values. -/
def lineOf (enc : α → List Char) (vs : List α) : List Char := joinWith ',' (vs.map enc)

/-- A line whose values all read well. -/
theorem read_lineOf (hne : vs ≠ []) (hreads : ∀ v ∈ vs, Reads lf (enc v) (txt v))
    (hrest : FieldEnd rest) :
    read lf .start (lineOf enc vs ++ rest) =
      (read lf .start rest).map (.prependFields (vs.map txt)) := by
  induction vs with
  | nil => exact absurd rfl hne
  | cons v vs ih =>
      obtain ⟨hv, hvs⟩ := List.forall_mem_cons.mp hreads
      cases vs with
      | nil => exact hv rest hrest
      | cons v' vs =>
          have hline : lineOf enc (v :: v' :: vs) ++ rest =
              enc v ++ ',' :: (lineOf enc (v' :: vs) ++ rest) := by
            simp [lineOf, joinWith]
          rw [hline, hv _ (fieldEnd_comma _), read_comma (.inl rfl), ih (List.cons_ne_nil _ _) hvs,
            Option.map_map, Option.map_map]
          rfl

/-- A line with a value that does not read well: its record does not begin with the texts. -/
theorem read_lineOf_misread (hreads : ∀ v, Plain v → Reads lf (enc v) (txt v))
    (hmisreads : ∀ v, ¬ Plain v → Misreads lf (enc v) (txt v))
    (hbad : ¬ ∀ v ∈ vs, Plain v) {d : Document}
    (hread : read lf .start (lineOf enc vs ++ rest) = some d) :
    d.field :: d.fields ≠ vs.map txt := by
  induction vs generalizing d with
  | nil => simp at hbad
  | cons v vs ih =>
      by_cases hv : Plain v
      · cases vs with
        | nil => exact absurd (List.forall_mem_singleton.mpr hv) hbad
        | cons v' vs =>
            have hline : lineOf enc (v :: v' :: vs) ++ rest =
                enc v ++ ',' :: (lineOf enc (v' :: vs) ++ rest) := by
              simp [lineOf, joinWith]
            rw [hline, hreads v hv _ (fieldEnd_comma _), read_comma (.inl rfl),
            Option.map_map] at hread
            obtain ⟨d', hd', rfl⟩ := Option.map_eq_some_iff.mp hread
            have hbad' : ¬ ∀ v ∈ v' :: vs, Plain v := fun hall =>
              hbad (List.forall_mem_cons.mpr ⟨hv, hall⟩)
            intro heq
            exact ih hbad' hd' (List.cons.inj heq).2
      · intro heq
        have hline : ∃ rest', lineOf enc (v :: vs) ++ rest = enc v ++ rest' := by
          cases vs with
          | nil => exact ⟨rest, rfl⟩
          | cons v' vs => exact ⟨_, List.append_assoc _ _ _⟩
        obtain ⟨rest', hrest'⟩ := hline
        rw [hrest'] at hread
        exact hmisreads v hv rest' d hread (List.cons.inj heq).1

/-- The lines of some values, with a bare LF between them. -/
def linesOf (enc : α → List Char) (lines : List (List α)) : List Char :=
  joinWith '\n' (lines.map (lineOf enc))

/-- The lines read as the texts of their values exactly when all values read well and either a
bare LF is a line break or there is one line. -/
theorem records_linesOf_iff (hreads : ∀ v, Plain v → Reads lf (enc v) (txt v))
    (hmisreads : ∀ v, ¬ Plain v → Misreads lf (enc v) (txt v))
    (hempty : ∀ v vs, lineOf enc (v :: vs) ≠ []) {lines : List (List α)} (hne : lines ≠ [])
    (hlines : ∀ l ∈ lines, l ≠ []) :
    records lf (linesOf enc lines) = some (lines.map (·.map txt)) ↔
      (∀ l ∈ lines, ∀ v ∈ l, Plain v) ∧ (lf = true ∨ lines.length = 1) := by
  -- a line that misreads spoils the first record, whatever follows it
  have hspoilt : ∀ {l : List α} {rest : List Char} {others : List (List (List Char))},
      (¬ ∀ v ∈ l, Plain v) →
      (read lf .start (lineOf enc l ++ rest)).map Document.toRecords ≠
        some (l.map txt :: others) := by
    intro l rest others hbad heq
    obtain ⟨d, hd, hrecords⟩ := Option.map_eq_some_iff.mp heq
    exact read_lineOf_misread hreads hmisreads hbad hd (List.cons.inj hrecords).1
  induction lines with
  | nil => exact absurd rfl hne
  | cons l ls ih =>
      obtain ⟨hl, hls⟩ := List.forall_mem_cons.mp hlines
      have htexts : l.map txt ≠ [] := fun h => hl (List.map_eq_nil_iff.mp h)
      by_cases hplain : ∀ v ∈ l, Plain v
      · have hgood : ∀ v ∈ l, Reads lf (enc v) (txt v) := fun v hv => hreads v (hplain v hv)
        cases ls with
        | nil =>
            have hread := read_lineOf hl hgood fieldEnd_nil
            have hlast : (Document.prependFields (l.map txt) .empty).toRecords = [l.map txt] := by
              rw [Document.prependFields_toRecords htexts rfl]
              simp [Document.empty]
            have hnothing : read lf .start [] = some .empty := rfl
            rw [List.append_nil, hnothing, Option.map_some] at hread
            unfold records
            change (read lf .start (lineOf enc l)).map _ = _ ↔ _
            rw [hread, Option.map_some, hlast]
            simpa using hplain
        | cons l' ls =>
            have hrest : linesOf enc (l' :: ls) ≠ [] := by
              obtain ⟨v, vs, rfl⟩ := List.exists_cons_of_ne_nil (hls l' List.mem_cons_self)
              have hfirst := hempty v vs
              cases ls with
              | nil => exact hfirst
              | cons l'' ls =>
                  intro heq
                  exact hfirst (List.append_eq_nil_iff.mp heq).1
            have hread := read_lineOf hl hgood (fieldEnd_lf (linesOf enc (l' :: ls)))
            rw [read_lf (.inl rfl) hrest] at hread
            unfold records at ih ⊢
            change (read lf .start (lineOf enc l ++ '\n' :: linesOf enc (l' :: ls))).map _ = _ ↔ _
            rw [hread]
            cases lf with
            | false => simp
            | true =>
                have hall := ih (List.cons_ne_nil _ _) hls
                have hstep : (((read true .start (linesOf enc (l' :: ls))).map
                    Document.pushRecord).map (.prependFields (l.map txt))).map
                      Document.toRecords =
                    ((read true .start (linesOf enc (l' :: ls))).map Document.toRecords).map
                      (l.map txt :: ·) := by
                  rw [Option.map_map, Option.map_map, Option.map_map]
                  congr 1
                  funext d
                  change (Document.prependFields (l.map txt) d.pushRecord).toRecords = _
                  rw [Document.prependFields_toRecords htexts rfl]
                  simp [Document.pushRecord]
                rw [if_pos rfl, hstep, List.forall_mem_cons, and_iff_right hplain]
                have hcons : ∀ {o : Option (List (List (List Char)))} {rs},
                    o.map (l.map txt :: ·) = some (l.map txt :: rs) ↔ o = some rs := by
                  intro o rs
                  cases o <;> simp
                rw [List.map_cons, hcons]
                refine hall.trans (and_congr_right fun _ => ?_)
                simp
      · refine iff_of_false ?_ fun h => hplain (h.1 l List.mem_cons_self)
        have htext : ∃ rest, linesOf enc (l :: ls) = lineOf enc l ++ rest := by
          cases ls with
          | nil => exact ⟨[], (List.append_nil _).symm⟩
          | cons l' ls => exact ⟨_, rfl⟩
        obtain ⟨rest, hrest⟩ := htext
        unfold records
        rw [hrest]
        exact hspoilt hplain

end Written

end SecureStore.Foundation.Csv
