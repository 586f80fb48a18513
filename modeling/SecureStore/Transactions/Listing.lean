/-
# The list of transactions

A transaction is a deposit, a withdrawal, a loan or a trade of a tenant. The list is collected
from the four tables, newest first, filtered, and returned a page at a time; a page has at most
two hundred rows, whatever the caller asks for. Ids, references, names and statuses are texts
here, since the list only compares, searches and prints them. What a row includes of its
receipt and of its client is part of the row, as the query returns it. String conversions and
the reading of dates are those of the runtime.
-/

import SecureStore.Foundation.Table
import Mathlib

namespace SecureStore.Transactions

open SecureStore.Foundation

/-- A string of the runtime. -/
abbrev Text := List Char

/-- A number of the runtime, a finite one as it prints it. -/
inductive JsNumber
  | finite (text : {s : Text // s ≠ [] ∧ ∀ c ∈ s, c.isDigit ∨ c ∈ ['+', '-', '.', 'e']})
  | nan
  | infinity (negative : Bool)
  deriving DecidableEq

/-! ## Tables -/

/-- What is selected of a client. -/
structure ClientName where
  firstName : Text
  lastName : Text
  deriving DecidableEq

/-- What is included of the receipt of a transaction. -/
structure ReceiptInfo where
  receiptNumber : Text
  warehouseId : Text
  commodity : Text
  quantity : JsNumber
  deriving DecidableEq

structure DepositRow where
  id : Text
  tenantId : Text
  parentReceiptId : Option Text
  clientId : Text
  client : ClientName
  status : Text
  receipt : ReceiptInfo
  createdAt : ℤ
  deriving DecidableEq

structure WithdrawalRow where
  id : Text
  tenantId : Text
  clientId : Text
  client : ClientName
  reference : Text
  status : Text
  quantity : JsNumber
  receiptId : Text
  receipt : ReceiptInfo
  createdAt : ℤ
  deriving DecidableEq

structure LoanRow where
  id : Text
  tenantId : Text
  clientId : Text
  client : ClientName
  reference : Text
  status : Text
  financier : Text
  receiptId : Text
  receipt : ReceiptInfo
  createdAt : ℤ
  deriving DecidableEq

structure TradeRow where
  id : Text
  tenantId : Text
  sellerId : Text
  buyerId : Option Text
  seller : ClientName
  reference : Text
  status : Text
  quantity : JsNumber
  receiptId : Text
  receipt : ReceiptInfo
  createdAt : ℤ
  deriving DecidableEq

instance : Keyed DepositRow Text := ⟨DepositRow.id⟩
instance : Keyed WithdrawalRow Text := ⟨WithdrawalRow.id⟩
instance : Keyed LoanRow Text := ⟨LoanRow.id⟩
instance : Keyed TradeRow Text := ⟨TradeRow.id⟩

/-- The tables that the list is collected from, each in the order in which it is read. -/
structure Sources where
  receipts : Table DepositRow
  withdrawals : Table WithdrawalRow
  loans : Table LoanRow
  trades : Table TradeRow

/-! ## Collection -/

inductive TransactionType
  | deposit
  | withdrawal
  | loan
  | trade
  deriving DecidableEq, Repr

def TransactionType.name : TransactionType → Text
  | .deposit => "DEPOSIT".toList
  | .withdrawal => "WITHDRAWAL".toList
  | .loan => "LOAN".toList
  | .trade => "TRADE".toList

structure Transaction where
  id : Text
  type : TransactionType
  reference : Text
  status : Text
  clientId : Text
  clientName : Text
  commodity : Text
  quantity : JsNumber
  receiptId : Text
  receiptNumber : Text
  warehouseId : Text
  counterparty : Option Text
  date : ℤ
  deriving DecidableEq

/-- First and last name. -/
def name (u : ClientName) : Text := u.firstName ++ ' ' :: u.lastName

def DepositRow.toTransaction (r : DepositRow) : Transaction :=
  { id := r.id, type := .deposit, reference := r.receipt.receiptNumber, status := r.status
    clientId := r.clientId, clientName := name r.client, commodity := r.receipt.commodity
    quantity := r.receipt.quantity, receiptId := r.id, receiptNumber := r.receipt.receiptNumber
    warehouseId := r.receipt.warehouseId, counterparty := none, date := r.createdAt }

def WithdrawalRow.toTransaction (w : WithdrawalRow) : Transaction :=
  { id := w.id, type := .withdrawal, reference := w.reference, status := w.status
    clientId := w.clientId, clientName := name w.client, commodity := w.receipt.commodity
    quantity := w.quantity, receiptId := w.receiptId, receiptNumber := w.receipt.receiptNumber
    warehouseId := w.receipt.warehouseId, counterparty := none, date := w.createdAt }

def LoanRow.toTransaction (l : LoanRow) : Transaction :=
  { id := l.id, type := .loan, reference := l.reference, status := l.status
    clientId := l.clientId, clientName := name l.client, commodity := l.receipt.commodity
    quantity := l.receipt.quantity, receiptId := l.receiptId
    receiptNumber := l.receipt.receiptNumber, warehouseId := l.receipt.warehouseId
    counterparty := some l.financier, date := l.createdAt }

def TradeRow.toTransaction (t : TradeRow) : Transaction :=
  { id := t.id, type := .trade, reference := t.reference, status := t.status
    clientId := t.sellerId, clientName := name t.seller, commodity := t.receipt.commodity
    quantity := t.quantity, receiptId := t.receiptId, receiptNumber := t.receipt.receiptNumber
    warehouseId := t.receipt.warehouseId, counterparty := none, date := t.createdAt }

/-- The warehouses a caller may see: all, or those of a list. -/
def inScope (scope : Option (List Text)) (warehouseId : Text) : Bool :=
  match scope with
  | none => true
  | some ids => decide (warehouseId ∈ ids)

/-- A client, if one is given. -/
def ofClient (clientUserId : Option Text) (clientId : Text) : Bool :=
  match clientUserId with
  | none => true
  | some u => decide (clientId = u)

/-- The rows of a tenant that a caller may see, table after table. -/
def gather (db : Sources) (tenantId : Text) (clientUserId : Option Text)
    (scope : Option (List Text)) : List Transaction :=
  (db.receipts.rows.filter fun r =>
      r.tenantId = tenantId ∧ r.parentReceiptId = none ∧ ofClient clientUserId r.clientId ∧
        inScope scope r.receipt.warehouseId).map DepositRow.toTransaction ++
    (db.withdrawals.rows.filter fun w =>
      w.tenantId = tenantId ∧ ofClient clientUserId w.clientId ∧
        inScope scope w.receipt.warehouseId).map WithdrawalRow.toTransaction ++
    (db.loans.rows.filter fun l =>
      l.tenantId = tenantId ∧ ofClient clientUserId l.clientId ∧
        inScope scope l.receipt.warehouseId).map LoanRow.toTransaction ++
    (db.trades.rows.filter fun t =>
      t.tenantId = tenantId ∧
        (ofClient clientUserId t.sellerId ∨ t.buyerId = clientUserId) ∧
        inScope scope t.receipt.warehouseId).map TradeRow.toTransaction

/-- Newest first. -/
def newer (a b : Transaction) : Prop := b.date ≤ a.date

instance : DecidableRel newer := fun a b => inferInstanceAs (Decidable (b.date ≤ a.date))

def collectTransactions (db : Sources) (tenantId : Text) (clientUserId : Option Text)
    (scope : Option (List Text)) : List Transaction :=
  (gather db tenantId clientUserId scope).insertionSort newer

/-! ## Arguments -/

/-- White space that `parseInt` skips. -/
def isBlank (c : Char) : Bool :=
  c.isWhitespace || decide (c.toNat ∈ [0x0b, 0x0c, 0xa0, 0x1680, 0x2028, 0x2029, 0x202f, 0x205f,
    0x3000, 0xfeff]) || decide (0x2000 ≤ c.toNat ∧ c.toNat ≤ 0x200a)

/-- `parseInt(s, 10)`; `none` is NaN. -/
def parseInt (s : Text) : Option ℤ :=
  let (sign, unsigned) : ℤ × Text :=
    match s.dropWhile isBlank with
    | '-' :: rest => (-1, rest)
    | '+' :: rest => (1, rest)
    | rest => (1, rest)
  match unsigned.takeWhile Char.isDigit with
  | [] => none
  | digits => some (sign * Nat.ofDigitChars 10 digits 0)

/-- What the list takes from the runtime: `toUpperCase`, `toLowerCase` and the time of
`new Date(text)`, which is nothing when the text is no date. -/
structure Runtime where
  toUpperCase : Text → Text
  toLowerCase : Text → Text
  newDate : Text → Option ℤ

/-- A date given as text or as a date. -/
inductive DateArg
  | text (s : Text)
  | date (ms : Option ℤ)
  deriving DecidableEq

structure ListOptions where
  type : Option Text := none
  search : Option Text := none
  clientId : Option Text := none
  warehouseId : Option Text := none
  fromDate : Option DateArg := none
  toDate : Option DateArg := none
  page : Option Text := none
  limit : Option Text := none
  deriving DecidableEq

/-- An argument that is given and not empty. -/
def truthy (arg : Option Text) : Option Text := arg.filter (· ≠ [])

/-- A date argument that is given and not the empty text. -/
def truthyDate (arg : Option DateArg) : Option DateArg := arg.filter (· ≠ .text [])

/-- The time of a date argument. -/
def DateArg.getTime (rt : Runtime) : DateArg → Option ℤ
  | .text s => rt.newDate s
  | .date ms => ms

/-- Filter by an argument, if it is given. -/
def filterBy {α : Type} (arg : Option α) (keep : α → Transaction → Bool)
    (items : List Transaction) : List Transaction :=
  match arg with
  | none => items
  | some a => items.filter (keep a)

/-- The type that is asked for: PLEDGE is another name of LOAN. -/
def wantedType (rt : Runtime) (opts : ListOptions) : Option Text :=
  let want := rt.toUpperCase (opts.type.getD [])
  truthy (some (if want = "PLEDGE".toList then "LOAN".toList else want))

/-- `text.toLowerCase().includes(q)` -/
def contains (rt : Runtime) (q text : Text) : Bool := decide (q <:+: rt.toLowerCase text)

/-- The filters, one after the other; a date that is none keeps nothing. -/
def applyFilters (rt : Runtime) (opts : ListOptions) (items : List Transaction) :
    List Transaction :=
  let items := filterBy (wantedType rt opts) (fun norm i => i.type.name = norm) items
  let items := filterBy (truthy opts.clientId) (fun c i => i.clientId = c) items
  let items := filterBy (truthy opts.warehouseId) (fun w i => i.warehouseId = w) items
  let items := filterBy (truthyDate opts.fromDate)
    (fun d i => (d.getTime rt).elim false fun fd => fd ≤ i.date) items
  let items := filterBy (truthyDate opts.toDate)
    (fun d i => (d.getTime rt).elim false fun td => i.date ≤ td) items
  filterBy ((truthy opts.search).map rt.toLowerCase)
    (fun q i => contains rt q i.reference || contains rt q i.clientName ||
      contains rt q i.commodity) items

/-! ## Pages -/

structure PageMeta where
  total : ℕ
  page : Option ℤ
  limit : Option ℤ
  totalPages : ℕ
  deriving DecidableEq

structure Page where
  data : List Transaction
  info : PageMeta
  deriving DecidableEq

/-- The number of the page, the first one if none is given. -/
def pageOf (opts : ListOptions) : Option ℤ :=
  (parseInt ((truthy opts.page).getD ['1'])).map (max 1)

/-- The number of rows on a page, between one and two hundred. -/
def limitOf (opts : ListOptions) : Option ℤ :=
  (parseInt ((truthy opts.limit).getD ['2', '0'])).map fun n => min 200 (max 1 n)

/-- `items.slice((page - 1) * limit, page * limit)`; empty when the number of the page or its
size is NaN. -/
def slice {α : Type} (items : List α) : Option ℤ → Option ℤ → List α
  | some page, some limit => (items.take (page * limit).toNat).drop ((page - 1) * limit).toNat
  | _, _ => []

/-- `Math.ceil(total / limit) || 1` -/
def totalPages (total : ℕ) : Option ℤ → ℕ
  | none => 1
  | some limit => max 1 ((total + limit.toNat - 1) / limit.toNat)

def listTransactions (rt : Runtime) (db : Sources) (scope : Option (List Text))
    (tenantId : Text) (opts : ListOptions) : Page :=
  let items := applyFilters rt opts (collectTransactions db tenantId none scope)
  { data := slice items (pageOf opts) (limitOf opts)
    info :=
      { total := items.length, page := pageOf opts, limit := limitOf opts
        totalPages := totalPages items.length (limitOf opts) } }

/-! ## What is listed -/

section Listed

variable {rt : Runtime} {db : Sources} {scope : Option (List Text)} {tenantId : Text}
  {opts : ListOptions}

/-- A transaction that a filter keeps: every argument that is given is met, and no date is
before or after what is none. -/
def Matches (rt : Runtime) (opts : ListOptions) (t : Transaction) : Prop :=
  (∀ norm ∈ wantedType rt opts, t.type.name = norm) ∧
    (∀ c ∈ truthy opts.clientId, t.clientId = c) ∧
    (∀ w ∈ truthy opts.warehouseId, t.warehouseId = w) ∧
    (∀ d ∈ truthyDate opts.fromDate, ∃ fd ∈ d.getTime rt, fd ≤ t.date) ∧
    (∀ d ∈ truthyDate opts.toDate, ∃ td ∈ d.getTime rt, t.date ≤ td) ∧
    ∀ q ∈ truthy opts.search, ∃ text ∈ [t.reference, t.clientName, t.commodity],
      rt.toLowerCase q <:+: rt.toLowerCase text

instance : DecidablePred (Matches rt opts) := fun _ =>
  inferInstanceAs (Decidable (_ ∧ _ ∧ _ ∧ _ ∧ _ ∧ _))

theorem filterBy_eq {α : Type} (arg : Option α) (keep : α → Transaction → Bool)
    (items : List Transaction) :
    filterBy arg keep items = items.filter fun t => arg.all (keep · t) := by
  cases arg with
  | none => exact (List.filter_eq_self.mpr fun _ _ => rfl).symm
  | some a => rfl

/-- The filters together keep what matches. -/
theorem applyFilters_eq (items : List Transaction) :
    applyFilters rt opts items = items.filter (Matches rt opts ·) := by
  unfold applyFilters
  simp only [filterBy_eq, List.filter_filter]
  apply List.filter_congr
  intro t _
  rw [Bool.eq_iff_iff, decide_eq_true_eq]
  unfold Matches
  have hfrom : ∀ d : DateArg, ((d.getTime rt).elim false fun fd => decide (fd ≤ t.date)) = true ↔
      ∃ fd ∈ d.getTime rt, fd ≤ t.date := by
    intro d
    cases d.getTime rt <;> simp
  have hto : ∀ d : DateArg, ((d.getTime rt).elim false fun td => decide (t.date ≤ td)) = true ↔
      ∃ td ∈ d.getTime rt, t.date ≤ td := by
    intro d
    cases d.getTime rt <;> simp
  simp only [Bool.and_eq_true, Option.all_eq_true, hfrom, hto, Bool.or_eq_true, contains,
    decide_eq_true_eq, Option.mem_def]
  constructor
  · rintro ⟨hsearch, hto, hfrom, hware, hclient, htype⟩
    refine ⟨htype, hclient, hware, hfrom, hto, fun q hq => ?_⟩
    simpa [or_assoc] using hsearch (rt.toLowerCase q) (by rw [hq]; rfl)
  · rintro ⟨htype, hclient, hware, hfrom, hto, hsearch⟩
    refine ⟨fun q hq => ?_, hto, hfrom, hware, hclient, htype⟩
    obtain ⟨q, hgiven, rfl⟩ := Option.map_eq_some_iff.mp hq
    simpa [or_assoc] using hsearch q hgiven

/-- A transaction is known by its type and id. -/
def Transaction.key (t : Transaction) : TransactionType × Text := (t.type, t.id)

/-- Transactions of some types, none of them twice. -/
def OnceOf (types : List TransactionType) (l : List Transaction) : Prop :=
  (l.map Transaction.key).Nodup ∧ ∀ t ∈ l, t.type ∈ types

/-- The rows of a table, as transactions, are there once. -/
theorem onceOf_table {ρ : Type} [Keyed ρ Text] {table : Table ρ} {keep : ρ → Bool}
    {f : ρ → Transaction} {type : TransactionType}
    (hkey : ∀ r, (f r).key = (type, Keyed.key r)) :
    OnceOf [type] ((table.rows.filter keep).map f) := by
  constructor
  · have hkeys : ((table.rows.filter keep).map f).map Transaction.key =
        ((table.rows.filter keep).map Keyed.key).map (Prod.mk type) := by
      rw [List.map_map, List.map_map]
      exact List.map_congr_left fun r _ => hkey r
    rw [hkeys]
    apply List.Nodup.map (Prod.mk_right_injective type)
    exact table.nodup.sublist (List.filter_sublist.map _)
  · intro t ht
    obtain ⟨r, -, rfl⟩ := List.mem_map.mp ht
    exact List.mem_singleton.mpr (Prod.mk.inj (hkey r)).1

/-- Transactions of different types are different. -/
theorem OnceOf.append {types types' : List TransactionType} {l l' : List Transaction}
    (hl : OnceOf types l) (hl' : OnceOf types' l') (hdisjoint : ∀ type ∈ types, type ∉ types') :
    OnceOf (types ++ types') (l ++ l') := by
  constructor
  · rw [List.map_append, List.nodup_append]
    refine ⟨hl.1, hl'.1, ?_⟩
    intro k hk k' hk' heq
    obtain ⟨t, ht, rfl⟩ := List.mem_map.mp hk
    obtain ⟨t', ht', rfl⟩ := List.mem_map.mp hk'
    have htype : t.type = t'.type := (Prod.mk.inj heq).1
    exact hdisjoint t.type (hl.2 t ht) (htype ▸ hl'.2 t' ht')
  · intro t ht
    rcases List.mem_append.mp ht with h | h
    · exact List.mem_append_left _ (hl.2 t h)
    · exact List.mem_append_right _ (hl'.2 t h)

/-- No transaction is collected twice. -/
theorem gather_nodup (clientUserId : Option Text) :
    ((gather db tenantId clientUserId scope).map Transaction.key).Nodup := by
  have honce : OnceOf ([.deposit] ++ [.withdrawal] ++ [.loan] ++ [.trade])
      (gather db tenantId clientUserId scope) := by
    apply OnceOf.append
    · apply OnceOf.append
      · apply OnceOf.append
        · exact onceOf_table fun _ => rfl
        · exact onceOf_table fun _ => rfl
        · decide
      · exact onceOf_table fun _ => rfl
      · decide
    · exact onceOf_table fun _ => rfl
    · decide
  exact honce.1

/-- All transactions that match the filter, newest first. -/
def matching (rt : Runtime) (db : Sources) (scope : Option (List Text)) (tenantId : Text)
    (opts : ListOptions) : List Transaction :=
  applyFilters rt opts (collectTransactions db tenantId none scope)

/-- Each transaction that matches is there once. -/
theorem matching_perm : (matching rt db scope tenantId opts).Perm
    ((gather db tenantId none scope).filter (Matches rt opts ·)) := by
  unfold matching
  rw [applyFilters_eq]
  exact (List.perm_insertionSort newer _).filter _

/-- A number as the runtime prints it. -/
def pageText (n : ℕ) : Text := Nat.toDigits 10 n

theorem toNat_of_isDigit {c : Char} (hc : c.isDigit = true) : 48 ≤ c.toNat ∧ c.toNat ≤ 57 := by
  simpa [Char.isDigit, UInt32.le_iff_toNat_le] using hc

theorem isBlank_of_isDigit {c : Char} (hc : c.isDigit = true) : isBlank c = false := by
  obtain ⟨hlow, hhigh⟩ := toNat_of_isDigit hc
  have hwhite : c.isWhitespace = false := by
    by_contra hspace
    have hspaces : c ∈ [' ', '\t', '\r', '\n'] := by
      simpa [Char.isWhitespace, or_iff_not_imp_left] using hspace
    have hnone : ∀ c ∈ [' ', '\t', '\r', '\n'], c.isDigit = false := by simp [Char.isDigit]
    rw [hnone c hspaces] at hc
    cases hc
  unfold isBlank
  rw [hwhite, Bool.false_or, Bool.or_eq_false_iff]
  constructor <;> apply decide_eq_false
  · simp only [List.mem_cons, List.not_mem_nil, or_false]
    omega
  · omega

/-- Digits are read to their end. -/
theorem parseInt_digits {digits : Text} (hne : digits ≠ [])
    (hdigits : ∀ c ∈ digits, c.isDigit = true) :
    parseInt digits = some (Nat.ofDigitChars 10 digits 0 : ℤ) := by
  obtain ⟨c, cs, rfl⟩ := List.exists_cons_of_ne_nil hne
  have hc : c.isDigit = true := hdigits c List.mem_cons_self
  have htake : (c :: cs).takeWhile Char.isDigit = c :: cs := List.takeWhile_eq_self_iff.2 hdigits
  have hskip : (c :: cs).dropWhile isBlank = c :: cs := by
    rw [List.dropWhile_cons_of_neg]
    simp [isBlank_of_isDigit hc]
  have hminus : c ≠ '-' := by
    rintro rfl
    exact absurd hc (by decide)
  have hplus : c ≠ '+' := by
    rintro rfl
    exact absurd hc (by decide)
  unfold parseInt
  rw [hskip]
  split
  next sign unsigned hsign =>
    have hparts : sign = 1 ∧ unsigned = c :: cs := by
      split at hsign
      · next heq => exact absurd (List.cons.inj heq).1 hminus
      · next heq => exact absurd (List.cons.inj heq).1 hplus
      · exact ⟨(Prod.mk.inj hsign).1.symm, (Prod.mk.inj hsign).2.symm⟩
    obtain ⟨rfl, rfl⟩ := hparts
    rw [htake]
    change some (1 * (Nat.ofDigitChars 10 (c :: cs) 0 : ℤ)) = _
    rw [one_mul]

theorem parseInt_pageText (n : ℕ) : parseInt (pageText n) = some (n : ℤ) := by
  unfold pageText
  rw [parseInt_digits Nat.toDigits_ne_nil fun c hc =>
    Nat.isDigit_of_mem_toDigits (by decide) (by decide) hc]
  rw [Nat.ofDigitChars_ten_toDigits]

/-! ## Pages in order -/

/-- The windows of a list, one after the other, are the list. -/
theorem windows_eq_take {α : Type} (l : List α) (k n : ℕ) :
    (List.range n).flatMap (fun i => (l.take ((i + 1) * k)).drop (i * k)) = l.take (n * k) := by
  induction n with
  | zero => simp
  | succ n ih =>
      have hstart : l.take (n * k) = (l.take ((n + 1) * k)).take (n * k) := by
        rw [List.take_take, min_eq_left (Nat.mul_le_mul_right k n.le_succ)]
      rw [List.range_succ, List.flatMap_append, ih, List.flatMap_singleton, hstart,
        List.take_append_drop]

/-- The rows of all pages of a size, in order. -/
def allPages (rt : Runtime) (db : Sources) (scope : Option (List Text)) (tenantId : Text)
    (opts : ListOptions) (limit : Text) : List Transaction :=
  let first := listTransactions rt db scope tenantId { opts with limit := some limit }
  (List.range first.info.totalPages).flatMap fun i =>
    (listTransactions rt db scope tenantId
      { opts with page := some (pageText (i + 1)), limit := some limit }).data

/-- The pages are counted so that nothing is left out. -/
theorem le_pages_mul (total : ℕ) {limit : ℕ} (hlimit : 0 < limit) :
    total ≤ (total + limit - 1) / limit * limit := by
  have hdiv := Nat.div_add_mod (total + limit - 1) limit
  have hmod := Nat.mod_lt (total + limit - 1) hlimit
  rw [Nat.mul_comm] at hdiv
  omega

theorem le_totalPages_mul (total limit : ℕ) (hlimit : 0 < limit) :
    total ≤ totalPages total (some (limit : ℤ)) * limit :=
  (le_pages_mul total hlimit).trans (Nat.mul_le_mul_right limit (le_max_right _ _))

/-- The size of a page is between one and two hundred. -/
theorem limitOf_bounds {n : ℤ} (h : limitOf opts = some n) : 1 ≤ n ∧ n ≤ 200 := by
  obtain ⟨m, -, rfl⟩ := Option.map_eq_some_iff.mp h
  omega

/-- A page of a size, by its number. -/
theorem slice_window {α : Type} (items : List α) (i k : ℕ) :
    slice items (some ((i + 1 : ℕ) : ℤ)) (some (k : ℤ)) =
      (items.take ((i + 1) * k)).drop (i * k) := by
  have hstart : ((((i + 1 : ℕ) : ℤ) - 1) * (k : ℤ)).toNat = i * k := by
    push_cast
    rw [add_sub_cancel_right]
    exact_mod_cast Int.toNat_natCast (i * k)
  have hstop : (((i + 1 : ℕ) : ℤ) * (k : ℤ)).toNat = (i + 1) * k := by
    exact_mod_cast Int.toNat_natCast ((i + 1) * k)
  simp only [slice]
  rw [hstart, hstop]

/-- The number of a page is read back. -/
theorem pageOf_pageText (i : ℕ) :
    pageOf { page := some (pageText (i + 1)) } = some ((i + 1 : ℕ) : ℤ) := by
  have htruthy : truthy (some (pageText (i + 1))) = some (pageText (i + 1)) := by
    unfold truthy
    rw [Option.filter_some, if_pos]
    exact decide_eq_true Nat.toDigits_ne_nil
  unfold pageOf
  rw [htruthy, Option.getD_some, parseInt_pageText, Option.map_some, max_eq_right]
  omega

/-- The pages of a list, in order, when their size is a number. -/
theorem slices_eq {α : Type} (items : List α) {limit : Text}
    (hlimit : limitOf { limit := some limit } ≠ none) :
    (List.range (totalPages items.length (limitOf { limit := some limit }))).flatMap (fun i =>
      slice items (pageOf { page := some (pageText (i + 1)) })
        (limitOf { limit := some limit })) = items := by
  obtain ⟨n, hn⟩ := Option.ne_none_iff_exists'.mp hlimit
  obtain ⟨hpos, -⟩ := limitOf_bounds hn
  obtain ⟨k, rfl⟩ := Int.eq_ofNat_of_zero_le (by omega : 0 ≤ n)
  have hk : 0 < k := by omega
  have hpage : ∀ i, slice items (pageOf { page := some (pageText (i + 1)) }) (some (k : ℤ)) =
      (items.take ((i + 1) * k)).drop (i * k) := by
    intro i
    rw [pageOf_pageText]
    exact slice_window items i k
  rw [hn, funext hpage, windows_eq_take]
  exact List.take_of_length_le (le_totalPages_mul items.length k hk)

/-- The pages of a size that is a number, one after the other, are all that matches. -/
theorem allPages_eq {limit : Text} (hlimit : limitOf { opts with limit := some limit } ≠ none) :
    allPages rt db scope tenantId opts limit = matching rt db scope tenantId opts := by
  refine Eq.trans ?_ (slices_eq (matching rt db scope tenantId opts) hlimit)
  have hpage : ∀ i, (listTransactions rt db scope tenantId
      { opts with page := some (pageText (i + 1)), limit := some limit }).data =
        slice (matching rt db scope tenantId opts) (pageOf { page := some (pageText (i + 1)) })
          (limitOf { limit := some limit }) :=
    fun _ => rfl
  unfold allPages
  rw [funext hpage]
  rfl

end Listed

end SecureStore.Transactions
