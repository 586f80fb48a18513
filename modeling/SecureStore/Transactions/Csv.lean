/-
# The text of an export

An export writes a header line and a line for each row: the values of the row as
`JSON.stringify` prints them, with a comma between them. A reader of comma-separated values gets
the values back where JSON leaves a text as it is: a quote, a backslash or a control character
is written with a backslash, which means nothing to the reader.
-/

import SecureStore.Foundation.Csv
import SecureStore.Transactions.Listing

namespace SecureStore.Transactions

open SecureStore.Foundation

/-! ## Values -/

/-- A number with leading zeros. -/
def padded (width n : ℕ) : Text :=
  List.replicate (width - (Nat.toDigits 10 n).length) '0' ++ Nat.toDigits 10 n

/-- The year, month and day of a day, counted from the first of January 1970. -/
def civil (day : ℤ) : ℤ × ℕ × ℕ :=
  let z := day + 719468
  let era := z / 146097
  let dayOfEra := (z % 146097).toNat
  let yearOfEra := (dayOfEra - dayOfEra / 1460 + dayOfEra / 36524 - dayOfEra / 146096) / 365
  let dayOfYear := dayOfEra - (365 * yearOfEra + yearOfEra / 4 - yearOfEra / 100)
  let shifted := (5 * dayOfYear + 2) / 153
  let month := if shifted < 10 then shifted + 3 else shifted - 9
  (yearOfEra + era * 400 + if month ≤ 2 then 1 else 0, month,
    dayOfYear - (153 * shifted + 2) / 5 + 1)

/-- A year in four digits, or with a sign in six. -/
def isoYear (year : ℤ) : Text :=
  if 0 ≤ year ∧ year ≤ 9999 then padded 4 year.toNat
  else (if year < 0 then '-' else '+') :: padded 6 year.natAbs

/-- `toISOString` of a time in milliseconds. -/
def toISOString (ms : ℤ) : Text :=
  let (year, month, day) := civil (ms / 86400000)
  let time := (ms % 86400000).toNat
  isoYear year ++ '-' :: padded 2 month ++ '-' :: padded 2 day ++
    'T' :: padded 2 (time / 3600000) ++ ':' :: padded 2 (time / 60000 % 60) ++
    ':' :: padded 2 (time / 1000 % 60) ++ '.' :: padded 3 (time % 1000) ++ ['Z']

example : toISOString 951782400000 = "2000-02-29T00:00:00.000Z".toList := by decide +kernel

/-- What a property of a row may hold. -/
inductive Value
  | text (s : Text)
  | number (n : JsNumber)
  | date (ms : ℤ)
  deriving DecidableEq

def JsNumber.toText : JsNumber → Text
  | .finite t => t.val
  | .nan => "NaN".toList
  | .infinity false => "Infinity".toList
  | .infinity true => "-Infinity".toList

/-- The text of a value. -/
def Value.toText : Value → Text
  | .text s => s
  | .number n => n.toText
  | .date ms => toISOString ms

/-! ## JSON -/

/-- A character of a JSON string: some have a name, and the other control characters a number
of four hexadecimal digits. -/
def quoteChar (c : Char) : Text :=
  if c = '\x08' then ['\\', 'b']
  else if c = '\t' then ['\\', 't']
  else if c = '\n' then ['\\', 'n']
  else if c = '\x0c' then ['\\', 'f']
  else if c = '\r' then ['\\', 'r']
  else if c = '"' then ['\\', '"']
  else if c = '\\' then ['\\', '\\']
  else if c.toNat < 0x20 then
    ['\\', 'u', '0', '0', Nat.digitChar (c.toNat / 16), Nat.digitChar (c.toNat % 16)]
  else [c]

/-- A JSON string. -/
def quoteJson (s : Text) : Text := '"' :: (s.flatMap quoteChar ++ ['"'])

/-- `JSON.stringify` of a value. -/
def stringify : Value → Text
  | .text s => quoteJson s
  | .number (.finite t) => t.val
  | .number _ => "null".toList
  | .date ms => quoteJson (toISOString ms)

/-! ## Lines -/

/-- The properties of an object. -/
abbrev Row := Text → Option Value

/-- `row[h] ?? ''` -/
def cell (row : Row) (h : Text) : Value := (row h).getD (.text [])

/-- The line of a row. -/
def rowLine (headers : List Text) (row : Row) : Text :=
  Csv.joinWith ',' (headers.map fun h => stringify (cell row h))

/-- The header line and the rows. -/
def toCsv (headers : List Text) (rows : List Row) : Text :=
  Csv.joinWith '\n' (Csv.joinWith ',' headers :: rows.map (rowLine headers))

/-- The headers of the tenant-admin export. -/
def adminHeaders : List Text :=
  ["id", "type", "reference", "status", "clientName", "commodity", "quantity", "receiptNumber",
    "warehouseId", "date"].map String.toList

/-- The headers of the legacy export. -/
def legacyHeaders : List Text :=
  ["id", "type", "reference", "status", "clientName", "commodity", "quantity", "receiptNumber",
    "date"].map String.toList

/-- The two services that export transactions. -/
inductive Exporter
  | admin
  | legacy
  deriving DecidableEq, Repr

def Exporter.headers : Exporter → List Text
  | .admin => adminHeaders
  | .legacy => legacyHeaders

/-- A transaction as an object. -/
def Transaction.toRow (t : Transaction) : Row := fun h =>
  [("id", some (.text t.id)), ("type", some (.text t.type.name)),
    ("reference", some (.text t.reference)), ("status", some (.text t.status)),
    ("clientId", some (.text t.clientId)), ("clientName", some (.text t.clientName)),
    ("commodity", some (.text t.commodity)), ("quantity", some (.number t.quantity)),
    ("receiptId", some (.text t.receiptId)), ("receiptNumber", some (.text t.receiptNumber)),
    ("warehouseId", some (.text t.warehouseId)), ("counterparty", t.counterparty.map .text),
    ("date", some (.date t.date))].find? (fun p : String × Option Value => p.1.toList = h)
    |>.bind (·.2)

/-- The text reads as one record with the headers and one with the texts of each row. -/
def Decodes (lf : Bool) (headers : List Text) (rows : List Row) : Prop :=
  Csv.records lf (toCsv headers rows) =
    some (headers :: rows.map fun row => headers.map fun h => (cell row h).toText)

instance (lf : Bool) (headers : List Text) (rows : List Row) :
    Decidable (Decodes lf headers rows) := inferInstanceAs (Decidable (_ = _))

/-- A character that JSON leaves as it is. -/
def PlainChar (c : Char) : Prop := c ≠ '"' ∧ c ≠ '\\' ∧ 0x20 ≤ c.toNat

instance : DecidablePred PlainChar := fun _ => inferInstanceAs (Decidable (_ ∧ _ ∧ _))

/-- A text without quotes, backslashes and control characters, a finite number or a date. -/
def Value.Plain : Value → Prop
  | .text s => ∀ c ∈ s, PlainChar c
  | .number (.finite _) => True
  | .number _ => False
  | .date _ => True

instance : DecidablePred Value.Plain
  | .text s => inferInstanceAs (Decidable (∀ c ∈ s, PlainChar c))
  | .number (.finite _) => .isTrue trivial
  | .number .nan => .isFalse id
  | .number (.infinity _) => .isFalse id
  | .date _ => .isTrue trivial

/-! ## Reading a value back -/

section Reading

variable {lf : Bool} {c : Char} {s rest : Text} {d : Csv.Document}

theorem quoteChar_of_plain (hc : PlainChar c) : quoteChar c = [c] := by
  obtain ⟨hquote, hback, hcontrol⟩ := hc
  have hne : ∀ x : Char, x.toNat < 0x20 → c ≠ x := by
    rintro x hx rfl
    omega
  unfold quoteChar
  rw [if_neg (hne _ (by decide)), if_neg (hne _ (by decide)), if_neg (hne _ (by decide)),
    if_neg (hne _ (by decide)), if_neg (hne _ (by decide)), if_neg hquote, if_neg hback,
    if_neg (by omega)]

/-- Every other character is written with a backslash. -/
theorem quoteChar_of_not_plain (hc : ¬ PlainChar c) : ∃ more, quoteChar c = '\\' :: more := by
  unfold quoteChar
  by_cases hcontrol : c.toNat < 0x20
  · split_ifs <;> exact ⟨_, rfl⟩
  · have hrest : c = '"' ∨ c = '\\' := by
      by_contra hneither
      rw [not_or] at hneither
      exact hc ⟨hneither.1, hneither.2, by omega⟩
    rcases hrest with rfl | rfl <;> exact ⟨_, rfl⟩

theorem quoteJson_of_plain (hs : ∀ c ∈ s, PlainChar c) : quoteJson s = '"' :: (s ++ ['"']) := by
  have hflat : s.flatMap quoteChar = s := by
    rw [List.flatMap_congr fun c hc => quoteChar_of_plain (hs c hc), List.flatMap_singleton']
  unfold quoteJson
  rw [hflat]

/-- One character inside the quotes. -/
theorem read_quoted_cons (hc : c ≠ '"') :
    Csv.read lf .quoted (c :: rest) = (Csv.read lf .quoted rest).map (.prepend [c]) :=
  Csv.read_cons_text (if_neg hc)

/-- A run of backslashes is read back twice as long. -/
theorem read_backslashes (s : Text) (k : ℕ)
    (hread : Csv.read lf .quoted (s.flatMap quoteChar ++ rest) = some d) :
    List.replicate (k + 1) '\\' ++ d.field ≠ s := by
  induction s generalizing k d with
  | nil => simp
  | cons c s ih =>
      rintro heq
      rw [List.replicate_succ, List.cons_append, List.cons.injEq] at heq
      obtain ⟨rfl, htail⟩ := heq
      have hpair : ('\\' :: s).flatMap quoteChar ++ rest =
          '\\' :: '\\' :: (s.flatMap quoteChar ++ rest) := rfl
      rw [hpair, read_quoted_cons (by decide), read_quoted_cons (by decide), Option.map_map]
        at hread
      obtain ⟨d', hd', rfl⟩ := Option.map_eq_some_iff.mp hread
      apply ih (k + 1) hd'
      rw [← htail, List.replicate_succ', List.replicate_succ']
      simp [Csv.Document.prepend]

/-- A quoted text that is not plain is read as another text. -/
theorem read_quoteJson_ne (hs : ¬ ∀ c ∈ s, PlainChar c)
    (hread : Csv.read lf .quoted (s.flatMap quoteChar ++ rest) = some d) : d.field ≠ s := by
  induction s generalizing d with
  | nil => simp at hs
  | cons c s ih =>
      by_cases hc : PlainChar c
      · have hs' : ¬ ∀ c ∈ s, PlainChar c := fun hall => hs (List.forall_mem_cons.mpr ⟨hc, hall⟩)
        rw [List.flatMap_cons, quoteChar_of_plain hc, List.append_assoc, List.singleton_append,
          read_quoted_cons hc.1] at hread
        obtain ⟨d', hd', rfl⟩ := Option.map_eq_some_iff.mp hread
        intro heq
        exact ih hs' hd' (List.cons.inj heq).2
      · obtain ⟨more, hmore⟩ := quoteChar_of_not_plain hc
        intro heq
        by_cases hback : c = '\\'
        · subst hback
          have hpair : ('\\' :: s).flatMap quoteChar ++ rest =
              '\\' :: '\\' :: (s.flatMap quoteChar ++ rest) := rfl
          rw [hpair, read_quoted_cons (by decide), read_quoted_cons (by decide),
            Option.map_map] at hread
          obtain ⟨d', hd', rfl⟩ := Option.map_eq_some_iff.mp hread
          exact read_backslashes s 0 hd' (List.cons.inj heq).2
        · rw [List.flatMap_cons, hmore, List.append_assoc, List.cons_append,
            read_quoted_cons (by decide)] at hread
          obtain ⟨d', hd', rfl⟩ := Option.map_eq_some_iff.mp hread
          exact hback (List.cons.inj heq).1.symm

end Reading

/-! ## Values that read well -/

section Values

variable {lf : Bool}

theorem plain_of_isDigit {c : Char} (hc : c.isDigit = true) : PlainChar c := by
  obtain ⟨hlow, hhigh⟩ := toNat_of_isDigit hc
  refine ⟨?_, ?_, by omega⟩ <;> (rintro rfl; exact absurd hc (by decide))

theorem padded_plain (width n : ℕ) : ∀ c ∈ padded width n, PlainChar c := by
  intro c hc
  rcases List.mem_append.mp hc with hzero | hdigit
  · rw [List.eq_of_mem_replicate hzero]
    decide
  · exact plain_of_isDigit (Nat.isDigit_of_mem_toDigits (by decide) (by decide) hdigit)

theorem isoYear_plain (year : ℤ) : ∀ c ∈ isoYear year, PlainChar c := by
  unfold isoYear
  split_ifs
  · exact padded_plain _ _
  all_goals exact List.forall_mem_cons.mpr ⟨by decide, padded_plain _ _⟩

/-- A date has nothing that JSON would change. -/
theorem toISOString_plain (ms : ℤ) : ∀ c ∈ toISOString ms, PlainChar c := by
  have happend : ∀ {s t : Text}, (∀ c ∈ s, PlainChar c) → (∀ c ∈ t, PlainChar c) →
      ∀ c ∈ s ++ t, PlainChar c := fun hs ht c hc => (List.mem_append.mp hc).elim (hs c) (ht c)
  have hpart : ∀ {sep : Char} {width n : ℕ} {rest : Text}, PlainChar sep →
      (∀ c ∈ rest, PlainChar c) → ∀ c ∈ sep :: (padded width n ++ rest), PlainChar c :=
    fun hsep hrest => List.forall_mem_cons.mpr ⟨hsep, happend (padded_plain _ _) hrest⟩
  unfold toISOString
  simp only [List.append_assoc, List.cons_append]
  apply happend (isoYear_plain _)
  apply hpart (by decide)
  apply hpart (by decide)
  apply hpart (by decide)
  apply hpart (by decide)
  apply hpart (by decide)
  apply hpart (by decide)
  exact List.forall_mem_singleton.mpr (by decide)

theorem bare_number (t : {s : Text // s ≠ [] ∧ ∀ c ∈ s, c.isDigit ∨ c ∈ ['+', '-', '.', 'e']}) :
    Csv.Bare t.val := by
  refine ⟨t.property.1, fun c hc => ?_⟩
  have hseparators : ∀ x ∈ [',', '"', '\r', '\n'],
      ¬ (x.isDigit = true ∨ x ∈ ['+', '-', '.', 'e']) := by simp [Char.isDigit]
  have hne : ∀ x ∈ [',', '"', '\r', '\n'], c ≠ x := by
    rintro x hx rfl
    exact hseparators c hx (t.property.2 c hc)
  exact ⟨hne _ (by decide), hne _ (by decide), hne _ (by decide), hne _ (by decide)⟩

theorem reads_quoteJson {s : Text} (hs : ∀ c ∈ s, PlainChar c) :
    Csv.Reads lf (quoteJson s) s := by
  rw [quoteJson_of_plain hs]
  exact Csv.reads_quoted fun c hc => (hs c hc).1

/-- A plain value reads as its text. -/
theorem reads_stringify {v : Value} (hv : v.Plain) : Csv.Reads lf (stringify v) v.toText := by
  match v, hv with
  | .text s, hs => exact reads_quoteJson hs
  | .number (.finite t), _ => exact Csv.reads_bare (bare_number t)
  | .date ms, _ => exact reads_quoteJson (toISOString_plain ms)

/-- Any other value reads as another text, if it reads at all. -/
theorem misreads_stringify {v : Value} (hv : ¬ v.Plain) :
    Csv.Misreads lf (stringify v) v.toText := by
  intro rest d hread
  -- no number prints as a text that begins with n
  have hnull : ∀ {text : Text}, Csv.read lf .start ("null".toList ++ rest) = some d →
      text.head? ≠ some 'n' → d.field ≠ text := by
    rintro text hnull hhead rfl
    have hfirst : Csv.read lf .start ("null".toList ++ rest) =
        (Csv.read lf .bare ("ull".toList ++ rest)).map (.prepend ['n']) := rfl
    rw [hfirst] at hnull
    obtain ⟨d', -, rfl⟩ := Option.map_eq_some_iff.mp hnull
    exact hhead rfl
  match v, hv with
  | .text s, hs =>
      have hopen : Csv.read lf .start (quoteJson s ++ rest) =
          (Csv.read lf .quoted (s.flatMap quoteChar ++ ('"' :: rest))).map id := by
        unfold quoteJson
        rw [List.cons_append, List.append_assoc]
        rfl
      rw [Option.map_id, id_eq] at hopen
      exact read_quoteJson_ne hs (hopen ▸ hread)
  | .number (.finite t), hfinite => exact absurd trivial hfinite
  | .number .nan, _ => exact hnull hread (by decide)
  | .number (.infinity false), _ => exact hnull hread (by decide)
  | .number (.infinity true), _ => exact hnull hread (by decide)
  | .date ms, hdate => exact absurd trivial hdate

theorem stringify_ne_nil (v : Value) : stringify v ≠ [] := by
  match v with
  | .text _ => exact List.cons_ne_nil _ _
  | .number (.finite t) => exact t.property.1
  | .number .nan => decide
  | .number (.infinity _) => exact List.cons_ne_nil _ _
  | .date _ => exact List.cons_ne_nil _ _

end Values

/-! ## Documents -/

/-- A header, or a value of a row. -/
abbrev Cell := {h : Text // Csv.Bare h} ⊕ Value

/-- What is written of it. -/
def Cell.written : Cell → Text
  | .inl h => h.val
  | .inr v => stringify v

def Cell.toText : Cell → Text
  | .inl h => h.val
  | .inr v => v.toText

def Cell.Plain : Cell → Prop
  | .inl _ => True
  | .inr v => v.Plain

/-- The cells of an export, the header line first. -/
def cells (headers : List {h : Text // Csv.Bare h}) (rows : List Row) : List (List Cell) :=
  headers.map .inl :: rows.map fun row => headers.map fun h => .inr (cell row h.val)

theorem Exporter.headers_bare (exporter : Exporter) : ∀ h ∈ exporter.headers, Csv.Bare h := by
  cases exporter <;> decide +kernel

/-- An export decodes exactly when it has no rows, or when a bare LF is read as a line break and
every value that it prints is plain. -/
theorem decodes_iff (lf : Bool) {headers : List Text} (hne : headers ≠ [])
    (hbare : ∀ h ∈ headers, Csv.Bare h) (rows : List Row) :
    Decodes lf headers rows ↔
      rows = [] ∨ (lf = true ∧ ∀ row ∈ rows, ∀ h ∈ headers, (cell row h).Plain) := by
  obtain ⟨headers, rfl⟩ : ∃ hs : List {h : Text // Csv.Bare h}, headers = hs.map Subtype.val :=
    ⟨headers.attachWith _ hbare, (List.attachWith_map_subtype_val _).symm⟩
  have hheaders : headers ≠ [] := fun h => hne (by rw [h]; rfl)
  have htext : toCsv (headers.map Subtype.val) rows =
      Csv.linesOf Cell.written (cells headers rows) := by
    simp only [toCsv, Csv.linesOf, Csv.lineOf, cells, List.map_cons, List.map_map]
    congr 2
    apply List.map_congr_left
    intro row _
    simp only [rowLine, Function.comp_apply, Csv.lineOf, List.map_map]
    rfl
  have htexts : ((cells headers rows).map (·.map Cell.toText)) =
      headers.map Subtype.val :: rows.map fun row =>
        (headers.map Subtype.val).map fun h => (cell row h).toText := by
    simp only [cells, List.map_cons, List.map_map]
    congr 2
    funext row
    simp only [Function.comp_apply, List.map_map]
    rfl
  have hplain : (∀ l ∈ cells headers rows, ∀ v ∈ l, v.Plain) ↔
      ∀ row ∈ rows, ∀ h ∈ headers.map Subtype.val, (cell row h).Plain := by
    simp only [cells, List.forall_mem_cons, List.forall_mem_map]
    exact and_iff_right fun h _ => trivial
  have hreads : ∀ v : Cell, v.Plain → Csv.Reads lf v.written v.toText := by
    rintro (h | v) hv
    · exact Csv.reads_bare h.property
    · exact reads_stringify hv
  have hmisreads : ∀ v : Cell, ¬ v.Plain → Csv.Misreads lf v.written v.toText := by
    rintro (h | v) hv
    · exact absurd trivial hv
    · exact misreads_stringify hv
  have hwritten : ∀ (v : Cell) (vs : List Cell), Csv.lineOf Cell.written (v :: vs) ≠ [] := by
    rintro v vs heq
    have hv : v.written ≠ [] := by
      rcases v with h | v
      · exact h.property.1
      · exact stringify_ne_nil v
    cases vs with
    | nil => exact hv heq
    | cons v' vs => exact hv (List.append_eq_nil_iff.mp heq).1
  have hlines : ∀ l ∈ cells headers rows, l ≠ [] := by
    simp only [cells, List.forall_mem_cons, List.forall_mem_map, ne_eq, List.map_eq_nil_iff]
    exact ⟨hheaders, fun _ _ => hheaders⟩
  have hcells : cells headers rows ≠ [] := List.cons_ne_nil _ _
  unfold Decodes
  rw [htext, ← htexts, Csv.records_linesOf_iff hreads hmisreads hwritten hcells hlines, hplain]
  cases rows with
  | nil => simp [cells]
  | cons row rows => simp [cells, and_comm]

/-- The CSV text of either export decodes exactly when it has no rows, or when its reader takes
a bare LF as a line break and every printed text is without quotes, backslashes and control
characters and every printed number finite. -/
theorem csv_decodes_iff (lf : Bool) (exporter : Exporter) (rows : List Row) :
    Decodes lf exporter.headers rows ↔
      rows = [] ∨ (lf = true ∧ ∀ row ∈ rows, ∀ h ∈ exporter.headers, (cell row h).Plain) := by
  apply decodes_iff lf _ exporter.headers_bare rows
  cases exporter <;> decide +kernel

/-- A row of which only the client's name is known. -/
def namedRow (clientName : String) : Row := fun h =>
  if h = "clientName".toList then some (.text clientName.toList) else none

/-- A comma in a name does not harm, but a quote, a backslash or a line break does. -/
theorem csv_spoilt_by_name :
    Decodes true Exporter.admin.headers [namedRow "Obi, Ada"] ∧
      ∀ clientName ∈ ["Ada \"Ace\" Obi", "Ada\\Obi", "Ada\nObi"],
        ¬ Decodes true Exporter.admin.headers [namedRow clientName] ∧
          ¬ Decodes true Exporter.legacy.headers [namedRow clientName] := by
  decide +kernel

end SecureStore.Transactions
