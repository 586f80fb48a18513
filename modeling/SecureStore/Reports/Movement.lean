/-
# The movement of commodities

A warehouse manager's chart counts the deposits and withdrawals of a period by day, week, month,
quarter or year, and again by commodity within each. The loops keep a bucket for each key, with
two sets of sums in it. Keys are texts made of numerals of fixed widths, so the order of the
texts is the order of time, and the week of a date is the one of the calendar, also where the
week is of another year than the date.
-/

import SecureStore.Custody.Holdings
import SecureStore.Foundation.Calendar
import SecureStore.Foundation.Numerals

namespace SecureStore.Reports

open SecureStore.Foundation SecureStore.Inventory SecureStore.Services

/-! ## Keys -/

inductive MovementGranularity
  | day
  | week
  | month
  | quarter
  | year
  deriving DecidableEq, Repr

/-- `String(n)` -/
def numeral (n : ℕ) : List Char := Nat.toDigits 10 n

/-- The key of a date; the year and the number of its week are those of its Thursday. The runtime
takes years from 100 on as they are. -/
def bucketKey (d : CalendarDate) : MovementGranularity → List Char
  | .day => numeral d.year ++ '-' :: (padStart 2 d.month ++ '-' :: padStart 2 d.day)
  | .week =>
      let dt := d.dayNumber
      let dayNum := if weekDay dt = 0 then 7 else weekDay dt
      let dt := dt + 4 - dayNum
      let yearStart := dayFromYear (yearFromDay dt)
      -- the seventh part of the days that have begun, rounded up
      let week := (dt - yearStart + 1 + 6) / 7
      numeral (yearFromDay dt) ++ '-' :: 'W' :: padStart 2 week.toNat
  | .month => numeral d.year ++ '-' :: padStart 2 d.month
  | .quarter => numeral d.year ++ '-' :: 'Q' :: numeral ((d.month - 1) / 3 + 1)
  | .year => numeral d.year

/-! ## Movements -/

inductive MovementPeriod
  | days7
  | days30
  | days90
  | months6
  | year1
  | ytd
  | all
  | custom
  deriving DecidableEq, Repr

structure GetMovement where
  period : Option MovementPeriod := none
  fromDate : Option Timestamp := none
  toDate : Option Timestamp := none
  granularity : Option MovementGranularity := none
  commodityIds : Option (List Id) := none

/-- What the chart takes from the runtime and from columns that nothing else reads: when a receipt
was created, the local date of a time, and the time that a period ago was. -/
structure MovementRuntime where
  receiptCreatedAt : Id → Timestamp
  localDate : Timestamp → CalendarDate
  back : MovementPeriod → Timestamp → Timestamp
  isoDate : Timestamp → String

/-- A root receipt, or a withdrawal with its receipt. -/
inductive Movement
  | deposit (r : Receipt)
  | withdrawal (w : Withdrawal) (r : Receipt)
  deriving DecidableEq

namespace Movement

def commodityId : Movement → Id
  | deposit r => r.commodityId
  | withdrawal _ r => r.commodityId

def createdAt (rt : MovementRuntime) : Movement → Timestamp
  | deposit r => rt.receiptCreatedAt r.id
  | withdrawal w _ => w.createdAt

end Movement

/-- `resolveMovementWindow` -/
def resolveMovementWindow (rt : MovementRuntime) (now : Timestamp) (opts : GetMovement) :
    Option Timestamp × Option Timestamp :=
  match opts.period.getD .months6 with
  | .custom => (opts.fromDate, opts.toDate)
  | .all => (none, none)
  | period => (some (rt.back period now), some now)

structure CommodityCell where
  deposits : ℚ
  withdrawals : ℚ
  depositCount : ℕ
  withdrawalCount : ℕ
  deriving DecidableEq

structure BucketRow extends CommodityCell where
  byCommodity : List (Id × CommodityCell)

structure CommodityMovement extends CommodityCell where
  commodityId : Id
  name : String
  unit : String
  deriving DecidableEq

structure MovementBucket extends CommodityCell where
  bucket : List Char
  byCommodity : List CommodityMovement
  deriving DecidableEq

structure MovementMeta where
  period : MovementPeriod
  fromDate : Option String
  toDate : Option String
  granularity : MovementGranularity
  commodityIds : List Id
  deriving DecidableEq

structure MovementReport where
  data : List MovementBucket
  info : MovementMeta
  deriving DecidableEq

def CommodityCell.empty : CommodityCell := ⟨0, 0, 0, 0⟩

section Chart

variable (rt : MovementRuntime) (plus : ℚ → ℚ → ℚ)

def CommodityCell.add (m : Movement) (cell : CommodityCell) : CommodityCell :=
  match m with
  | .deposit r =>
      { cell with
        deposits := plus cell.deposits r.quantity, depositCount := cell.depositCount + 1 }
  | .withdrawal w _ =>
      { cell with
        withdrawals := plus cell.withdrawals w.quantity
        withdrawalCount := cell.withdrawalCount + 1 }

def BucketRow.empty : BucketRow := { CommodityCell.empty with byCommodity := [] }

/-- A movement is added to the row and to the row's cell of its commodity. -/
def BucketRow.add (m : Movement) (row : BucketRow) : BucketRow :=
  { row.toCommodityCell.add plus m with
    byCommodity := upsert m.commodityId (fun pc => (pc.getD .empty).add plus m) row.byCommodity }

/-- A receipt that the filter of commodities and the caller's warehouses let through. -/
def movementScope (commodityIds scope : Option (List Id)) (r : Receipt) : Bool :=
  decide ((∀ ids ∈ commodityIds, r.commodityId ∈ ids) ∧ ∀ ids ∈ scope, r.warehouseId ∈ ids)

/-- A time in a window. -/
def inWindow (window : Option Timestamp × Option Timestamp) (t : Timestamp) : Bool :=
  decide ((∀ start ∈ window.1, start ≤ t) ∧ ∀ stop ∈ window.2, t ≤ stop)

/-- `opts.commodityIds?.length ? opts.commodityIds : null` -/
def GetMovement.wanted (opts : GetMovement) : Option (List Id) := opts.commodityIds.filter (· ≠ [])

/-- The deposits of the window, and after them its withdrawals. -/
def movements (db : Db) (tenantId : Id) (scope : Option (List Id)) (now : Timestamp)
    (opts : GetMovement) : List Movement :=
  let window := resolveMovementWindow rt now opts
  let keeps := movementScope opts.wanted scope
  let deposits := db.ledger.receipts.rows.filter fun r =>
    r.tenantId = tenantId ∧ r.parentReceiptId = none ∧ keeps r ∧
      inWindow window (rt.receiptCreatedAt r.id)
  let withdrawals := (db.withdrawals.rows.filterMap fun w =>
    (db.ledger.receipts.find w.receiptId).map fun r => (w, r)).filter fun x =>
      x.1.tenantId = tenantId ∧ keeps x.2 ∧ inWindow window x.1.createdAt
  deposits.map .deposit ++ withdrawals.map fun x => .withdrawal x.1 x.2

/-- The commodities that the lines are named after. -/
def movementCommodities (commodities : Table Commodity) (tenantId : Id) (opts : GetMovement)
    (id : Id) : Option Commodity :=
  (commodities.find id).filter fun c =>
    c.tenantId = tenantId ∧ ∀ ids ∈ opts.wanted, c.id ∈ ids

/-- The lines of a bucket, of the commodities that were found. -/
def commodityLines (commById : Id → Option Commodity) (row : BucketRow) : List CommodityMovement :=
  row.byCommodity.flatMap fun qs =>
    (commById qs.1).elim [] fun c =>
      [{ qs.2 with commodityId := qs.1, name := c.name, unit := c.unitOfMeasure }]

/-- `localeCompare`, which orders keys of one kind by their characters. -/
def keyOrder (a b : List Char × BucketRow) : Prop := a.1 ≤ b.1

instance : DecidableRel keyOrder := fun a b => inferInstanceAs (Decidable (a.1 ≤ b.1))

/-- The buckets of movements, as the loops leave them. -/
def movementBuckets (granularity : MovementGranularity) (ms : List Movement) :
    List (List Char × BucketRow) :=
  buckets (fun m => bucketKey (rt.localDate (m.createdAt rt)) granularity) (fun _ => .empty)
    (BucketRow.add plus) ms

def getCommodityMovement (commodities : Table Commodity) (db : Db) (tenantId : Id)
    (scope : Option (List Id)) (now : Timestamp) (opts : GetMovement) : MovementReport :=
  let window := resolveMovementWindow rt now opts
  let granularity := opts.granularity.getD .month
  let rows := movementBuckets rt plus granularity (movements rt db tenantId scope now opts)
  { data := (rows.insertionSort keyOrder).map fun row =>
      { row.2.toCommodityCell with
        bucket := row.1
        byCommodity :=
          commodityLines (movementCommodities commodities tenantId opts) row.2 }
    info :=
      { period := opts.period.getD .months6
        fromDate := window.1.map rt.isoDate, toDate := window.2.map rt.isoDate
        granularity, commodityIds := opts.wanted.getD [] } }

end Chart

/-! ## Keys in order -/

section Keys

variable {d e : CalendarDate}

/-- A year that is written with four digits. -/
def FourDigits (year : ℕ) : Prop := 1000 ≤ year ∧ year ≤ 9999

theorem numeral_year {year : ℕ} (h : FourDigits year) : numeral year = padStart 4 year :=
  (padStart_of_le h.1).symm

theorem numeral_digit {n : ℕ} (h : 1 ≤ n) : numeral n = padStart 1 n := (padStart_of_le h).symm

/-- A year and what follows it are ordered by the year first. -/
theorem year_append_le {year year' : ℕ} {x y : List Char} (h : FourDigits year)
    (h' : FourDigits year') (hle : year < year' ∨ year = year' ∧ x ≤ y) :
    numeral year ++ x ≤ numeral year' ++ y := by
  rw [numeral_year h, numeral_year h']
  exact padStart_append_le (by decide) (Nat.lt_succ_of_le h'.2) hle

theorem cons_le_cons {c : Char} {x y : List Char} (h : x ≤ y) : c :: x ≤ c :: y := by
  rcases h.lt_or_eq with hlt | rfl
  · exact le_of_lt (List.cons_lt_cons_iff.mpr (.inr ⟨rfl, hlt⟩))
  · exact le_rfl

theorem padStart_le {m n : ℕ} (hn : n < 100) (h : m ≤ n) : padStart 2 m ≤ padStart 2 n := by
  rcases h.lt_or_eq with hlt | rfl
  · exact le_of_lt (padStart_lt (by decide) hlt hn)
  · exact le_rfl

theorem monthLength_lt (year month : ℕ) : monthLength year month < 100 := by
  unfold monthLength
  split
  · split <;> decide
  · split <;> decide

/-- The code goes to the Thursday of the week. -/
theorem add_four_sub (n : ℤ) :
    n + 4 - (if weekDay n = 0 then 7 else weekDay n) = thursdayOf n := by
  unfold thursdayOf mondayOf weekDay
  split
  · omega
  · omega

/-- The week that a key shows is the one of the calendar. -/
theorem bucketKey_week (d : CalendarDate) (hzero : dayFromYear 0 ≤ thursdayOf d.dayNumber) :
    ∃ year week, InIsoWeek d.dayNumber year week ∧
      bucketKey d .week = numeral year ++ '-' :: 'W' :: padStart 2 week := by
  unfold bucketKey
  dsimp only
  rw [add_four_sub]
  generalize hthursday : thursdayOf d.dayNumber = t at hzero ⊢
  have hyear := yearFromDay_spec hzero
  refine ⟨yearFromDay t, ((t - dayFromYear (yearFromDay t) + 1 + 6) / 7).toNat,
    inIsoWeek_iff.mpr ⟨hthursday ▸ hyear, ?_⟩, rfl⟩
  rw [hthursday]
  omega

/-- The Thursday of a date with a year of four digits has one, too. -/
theorem thursdayOf_fourDigits (h : FourDigits d.year) :
    dayFromYear 1000 ≤ thursdayOf d.dayNumber ∧ thursdayOf d.dayNumber < dayFromYear 10000 := by
  have hfrom : dayFromYear 1000 ≤ d.dayNumber :=
    (dayFromYear_strictMono.monotone h.1).trans d.dayFromYear_le
  have huntil : d.dayNumber < dayFromYear 10000 :=
    d.dayNumber_lt_year.trans_le (dayFromYear_strictMono.monotone (Nat.succ_le_succ h.2))
  unfold thursdayOf mondayOf weekDay
  unfold dayFromYear at *
  omega

/-- The year of a week is that of its Thursday. -/
theorem isoYear_fourDigits {n : ℤ} {year week : ℕ} (h : InIsoWeek n year week)
    (hfrom : dayFromYear 1000 ≤ thursdayOf n) (huntil : thursdayOf n < dayFromYear 10000) :
    FourDigits year := by
  obtain ⟨⟨hstart, hend⟩, -⟩ := inIsoWeek_iff.mp h
  have hlow : 1000 < year + 1 := dayFromYear_strictMono.lt_iff_lt.mp (hfrom.trans_lt hend)
  have hhigh : year < 10000 := dayFromYear_strictMono.lt_iff_lt.mp (hstart.trans_lt huntil)
  exact ⟨Nat.lt_succ_iff.mp hlow, Nat.lt_succ_iff.mp hhigh⟩

/-- Keys of dates in order are in order. -/
theorem bucketKey_mono (granularity : MovementGranularity) (hd : FourDigits d.year)
    (he : FourDigits e.year) (h : d.dayNumber ≤ e.dayNumber) :
    bucketKey d granularity ≤ bucketKey e granularity := by
  have hdate := CalendarDate.le_of_dayNumber_le h
  have hmonths := e.month_le
  have hmonth : e.month < 100 := by omega
  have hday : e.day < 100 := Nat.lt_of_le_of_lt e.day_le (monthLength_lt _ _)
  cases granularity with
  | day =>
      unfold bucketKey
      refine year_append_le hd he (hdate.imp_right (And.imp_right fun hrest => ?_))
      refine cons_le_cons (padStart_append_le (by decide) hmonth ?_)
      exact hrest.imp_right (And.imp_right fun hle => cons_le_cons (padStart_le hday hle))
  | week =>
      obtain ⟨hfrom, huntil⟩ := thursdayOf_fourDigits hd
      obtain ⟨hfrom', huntil'⟩ := thursdayOf_fourDigits he
      have hzero : dayFromYear 0 ≤ dayFromYear 1000 := by decide
      obtain ⟨year, week, hweek, hkey⟩ := bucketKey_week d (hzero.trans hfrom)
      obtain ⟨year', week', hweek', hkey'⟩ := bucketKey_week e (hzero.trans hfrom')
      have hfew := hweek'.week_le
      rw [hkey, hkey']
      refine year_append_le (isoYear_fourDigits hweek hfrom huntil)
        (isoYear_fourDigits hweek' hfrom' huntil') ?_
      refine (hweek.mono hweek' h).imp_right (And.imp_right fun hle => ?_)
      exact cons_le_cons (cons_le_cons (padStart_le (by omega) hle))
  | month =>
      unfold bucketKey
      refine year_append_le hd he (hdate.imp_right (And.imp_right fun hrest => ?_))
      refine cons_le_cons (padStart_le (by omega) ?_)
      omega
  | quarter =>
      unfold bucketKey
      refine year_append_le hd he (hdate.imp_right (And.imp_right fun hrest => ?_))
      have hquarter : (e.month - 1) / 3 + 1 < 10 := by omega
      have hsame : (d.month - 1) / 3 + 1 ≤ (e.month - 1) / 3 + 1 := by omega
      rcases hsame.lt_or_eq with hless | heq
      · rw [numeral_digit (by omega), numeral_digit (by omega)]
        exact cons_le_cons (cons_le_cons (le_of_lt (padStart_lt (by decide) hless hquarter)))
      · rw [heq]
  | year =>
      unfold bucketKey
      have hle : numeral d.year ++ [] ≤ numeral e.year ++ [] :=
        year_append_le hd he (hdate.imp_right fun hrest => ⟨hrest.1, le_rfl⟩)
      simpa using hle

end Keys

/-! ## Cells -/

namespace CommodityCell

/-- The cell of one movement. -/
def of (m : Movement) : CommodityCell :=
  match m with
  | .deposit r => ⟨r.quantity, 0, 1, 0⟩
  | .withdrawal w _ => ⟨0, w.quantity, 0, 1⟩

instance : Zero CommodityCell := ⟨empty⟩

/-- Cells are added figure by figure. -/
instance : Add CommodityCell :=
  ⟨fun x y => ⟨x.deposits + y.deposits, x.withdrawals + y.withdrawals,
    x.depositCount + y.depositCount, x.withdrawalCount + y.withdrawalCount⟩⟩

theorem add_def (x y : CommodityCell) :
    x + y = ⟨x.deposits + y.deposits, x.withdrawals + y.withdrawals,
      x.depositCount + y.depositCount, x.withdrawalCount + y.withdrawalCount⟩ := rfl

instance : AddCommMonoid CommodityCell where
  add_assoc x y z := by simp only [add_def, add_assoc]
  zero_add x := by
    change (⟨0 + x.deposits, 0 + x.withdrawals, 0 + x.depositCount, 0 + x.withdrawalCount⟩ :
      CommodityCell) = x
    simp only [zero_add]
  add_zero x := by
    change (⟨x.deposits + 0, x.withdrawals + 0, x.depositCount + 0, x.withdrawalCount + 0⟩ :
      CommodityCell) = x
    simp only [add_zero]
  add_comm x y := by
    rw [add_def, add_def]
    simp only [add_comm]
  nsmul := nsmulRec

/-- In exact arithmetic, a movement adds its own cell. -/
theorem add_exact (m : Movement) (cell : CommodityCell) :
    cell.add (· + ·) m = cell + of m := by
  rw [add_def]
  cases m with
  | deposit r => simp [add, of]
  | withdrawal w r => simp [add, of]

end CommodityCell

/-! ## Buckets -/

section Buckets

variable {rt : MovementRuntime} {granularity : MovementGranularity} {ms : List Movement}

/-- What is counted is of the commodities that are asked for. -/
theorem wanted_of_mem {db : Db} {tenantId : Id} {scope : Option (List Id)} {now : Timestamp}
    {opts : GetMovement} {m : Movement} (hm : m ∈ movements rt db tenantId scope now opts) :
    ∀ ids ∈ opts.wanted, m.commodityId ∈ ids := by
  rcases List.mem_append.mp hm with hdeposit | hwithdrawal
  · obtain ⟨r, hr, rfl⟩ := List.mem_map.mp hdeposit
    obtain ⟨-, -, hkeeps, -⟩ := of_decide_eq_true (List.mem_filter.mp hr).2
    exact (of_decide_eq_true hkeeps).1
  · obtain ⟨x, hx, rfl⟩ := List.mem_map.mp hwithdrawal
    obtain ⟨-, hkeeps, -⟩ := of_decide_eq_true (List.mem_filter.mp hx).2
    exact (of_decide_eq_true hkeeps).1

/-- The key of a movement. -/
def movementKey (rt : MovementRuntime) (granularity : MovementGranularity) (m : Movement) :
    List Char :=
  bucketKey (rt.localDate (m.createdAt rt)) granularity

/-- A bucket has the sum of the movements with its key. -/
theorem bucket_eq {p : List Char × BucketRow}
    (hp : p ∈ movementBuckets rt (· + ·) granularity ms) :
    p.2.toCommodityCell = sumOn (movementKey rt granularity) .of ms p.1 :=
  measure_bucket (v := BucketRow.toCommodityCell) (fun _ => rfl)
    (fun m row => CommodityCell.add_exact m row.toCommodityCell) hp

/-- The cells of a bucket add up to the bucket, and each is of a movement's commodity. -/
theorem bucket_cells {p : List Char × BucketRow}
    (hp : p ∈ movementBuckets rt (· + ·) granularity ms) :
    (p.2.byCommodity.map Prod.snd).sum = p.2.toCommodityCell ∧
      ∀ q ∈ p.2.byCommodity, ∃ m ∈ ms, m.commodityId = q.1 := by
  have hstep : ∀ m ∈ ms, ∀ row : BucketRow,
      (row.byCommodity.map Prod.snd).sum = row.toCommodityCell ∧
        (∀ q ∈ row.byCommodity, ∃ m ∈ ms, m.commodityId = q.1) →
      ((row.add (· + ·) m).byCommodity.map Prod.snd).sum =
          (row.add (· + ·) m).toCommodityCell ∧
        ∀ q ∈ (row.add (· + ·) m).byCommodity, ∃ m ∈ ms, m.commodityId = q.1 := by
    rintro m hm row ⟨hsum, hids⟩
    constructor
    · have hadd : ((row.add (· + ·) m).byCommodity.map Prod.snd).sum =
          (row.byCommodity.map Prod.snd).sum + .of m := by
        refine sum_upsert (v := id) ?_ fun cell => CommodityCell.add_exact m cell
        exact (CommodityCell.add_exact m .empty).trans (zero_add _)
      rw [hadd, hsum]
      exact (CommodityCell.add_exact m row.toCommodityCell).symm
    · intro q hq
      rcases mem_keys_upsert.mp (List.mem_map_of_mem hq) with hid | hid
      · exact ⟨m, hm, hid.symm⟩
      · obtain ⟨q', hq', hid'⟩ := List.mem_map.mp hid
        obtain ⟨m', hm', hcommodity⟩ := hids q' hq'
        exact ⟨m', hm', hcommodity.trans hid'⟩
  refine forall_mem_buckets (P := fun _ row => (row.byCommodity.map Prod.snd).sum =
    row.toCommodityCell ∧ ∀ q ∈ row.byCommodity, ∃ m ∈ ms, m.commodityId = q.1) ?_ ?_ hp
  · exact fun m hm => hstep m hm .empty ⟨rfl, by simp [BucketRow.empty]⟩
  · exact hstep

/-- When the commodities of a row are found, its lines add up to it. -/
theorem sum_commodityLines {commById : Id → Option Commodity} {row : BucketRow}
    (hfound : ∀ q ∈ row.byCommodity, (commById q.1).isSome) :
    ((commodityLines commById row).map CommodityMovement.toCommodityCell).sum =
      (row.byCommodity.map Prod.snd).sum := by
  unfold commodityLines
  generalize row.byCommodity = cells at hfound
  induction cells with
  | nil => rfl
  | cons q cells ih =>
      obtain ⟨c, hc⟩ := Option.isSome_iff_exists.mp (hfound q List.mem_cons_self)
      rw [List.flatMap_cons, hc, List.map_append, List.sum_append,
        ih fun q' hq' => hfound q' (List.mem_cons_of_mem q hq')]
      simp

/-- The keys of the buckets in order are ordered, none twice. -/
theorem sorted_keys :
    (((movementBuckets rt (· + ·) granularity ms).insertionSort keyOrder).map Prod.fst).Pairwise
      (· < ·) := by
  have : Std.Total keyOrder := ⟨fun a b => le_total a.1 b.1⟩
  have : IsTrans (List Char × BucketRow) keyOrder := ⟨fun _ _ _ h h' => le_trans h h'⟩
  have hsorted := List.pairwise_insertionSort keyOrder (movementBuckets rt (· + ·) granularity ms)
  have hnodup := ((List.perm_insertionSort keyOrder
    (movementBuckets rt (· + ·) granularity ms)).map Prod.fst).nodup_iff.mpr nodup_keys_buckets
  rw [List.pairwise_map]
  have hne := List.pairwise_map.mp hnodup
  exact (hsorted.and hne).imp fun h => lt_of_le_of_ne h.1 h.2

end Buckets

/-- Whatever the deposits and withdrawals, in exact arithmetic: the buckets of the chart have
different keys and are in their order, each movement is counted in one bucket, and what a bucket
counts is the sum of its commodities, if these belong to the tenant. The order of the keys is
that of the dates, and the week of a date is that of the calendar. -/
theorem movement_buckets (rt : MovementRuntime) (commodities : Table Commodity) (db : Db)
    (tenantId : Id) (scope : Option (List Id)) (now : Timestamp) (opts : GetMovement)
    (hcommodities : ∀ m ∈ movements rt db tenantId scope now opts,
      ∃ c ∈ commodities, c.id = m.commodityId ∧ c.tenantId = tenantId) :
    let granularity := opts.granularity.getD .month
    let key := movementKey rt granularity
    let counted := movements rt db tenantId scope now opts
    let data := (getCommodityMovement rt (· + ·) commodities db tenantId scope now opts).data
    (data.map MovementBucket.bucket).Pairwise (· < ·) ∧
      (∀ m ∈ counted, ∃! entry, entry ∈ data ∧ entry.bucket = key m) ∧
      (∀ entry ∈ data, entry.toCommodityCell = sumOn key .of counted entry.bucket ∧
        (entry.byCommodity.map CommodityMovement.toCommodityCell).sum = entry.toCommodityCell) ∧
      (∀ d e : CalendarDate, FourDigits d.year → FourDigits e.year → d.dayNumber ≤ e.dayNumber →
        bucketKey d granularity ≤ bucketKey e granularity) ∧
      ∀ d : CalendarDate, FourDigits d.year → ∃ year week, InIsoWeek d.dayNumber year week ∧
        bucketKey d .week = numeral year ++ '-' :: 'W' :: padStart 2 week := by
  intro granularity key counted data
  have hkeys : data.map MovementBucket.bucket =
      ((movementBuckets rt (· + ·) granularity counted).insertionSort keyOrder).map Prod.fst := by
    unfold data getCommodityMovement
    rw [List.map_map]
    rfl
  have hordered : (data.map MovementBucket.bucket).Pairwise (· < ·) := by
    rw [hkeys]
    exact sorted_keys
  have hdata : ∀ entry, entry ∈ data ↔ ∃ p ∈ movementBuckets rt (· + ·) granularity counted,
      ({ p.2.toCommodityCell with
        bucket := p.1
        byCommodity := commodityLines (movementCommodities commodities tenantId opts) p.2 } :
          MovementBucket) = entry := by
    intro entry
    unfold data getCommodityMovement
    rw [List.mem_map]
    simp only [List.mem_insertionSort]
    rfl
  refine ⟨hordered, ?_, ?_, fun d e => bucketKey_mono granularity, fun d hd => ?_⟩
  · intro m hm
    have hmem : key m ∈ data.map MovementBucket.bucket := by
      rw [hkeys]
      have hcounted : key m ∈ (movementBuckets rt (· + ·) granularity counted).map Prod.fst :=
        mem_keys_buckets.mpr ⟨m, hm, rfl⟩
      exact ((List.perm_insertionSort keyOrder _).map Prod.fst).mem_iff.mpr hcounted
    obtain ⟨entry, hentry, hbucket⟩ := List.mem_map.mp hmem
    refine ⟨entry, ⟨hentry, hbucket⟩, fun other hother => ?_⟩
    have hnodup : (data.map MovementBucket.bucket).Nodup := hordered.imp ne_of_lt
    exact List.inj_on_of_nodup_map hnodup hother.1 hentry (hother.2.trans hbucket.symm)
  · intro entry hentry
    obtain ⟨p, hp, rfl⟩ := (hdata entry).mp hentry
    obtain ⟨hsum, hids⟩ := bucket_cells hp
    refine ⟨bucket_eq hp, (sum_commodityLines fun q hq => ?_).trans hsum⟩
    obtain ⟨m, hm, hid⟩ := hids q hq
    obtain ⟨c, hc, hcid, htenant⟩ := hcommodities m hm
    refine Option.isSome_iff_exists.mpr ⟨c, Option.filter_eq_some_iff.mpr ⟨?_, ?_⟩⟩
    · rw [← hid, ← hcid]
      exact Table.find_of_mem hc
    · rw [decide_eq_true_eq, hcid]
      exact ⟨htenant, wanted_of_mem hm⟩
  · obtain ⟨hfrom, -⟩ := thursdayOf_fourDigits hd
    exact bucketKey_week d (le_trans (by decide) hfrom)

/-- Ten units are deposited on a Saturday, and four of them withdrawn in the same week of the
year before. -/
def movementRuntime : MovementRuntime where
  receiptCreatedAt _ := 1
  localDate t := if t = 1 then ⟨2027, 1, 2, by decide, by decide, by decide, by decide⟩
    else ⟨2026, 12, 31, by decide, by decide, by decide, by decide⟩
  back _ t := t
  isoDate _ := ""

def movementDb : Db :=
  runRequests .exact (sampleStock ++ sampleWithdrawal) (Db.initial sampleDirectory)

/-- All movements by week. -/
def weekly : GetMovement := { period := some .all, granularity := some .week }

/-- The week is the last of 2026. -/
theorem movement_buckets_sample :
    ((getCommodityMovement movementRuntime (· + ·) sampleCommodities movementDb 1 none 1
      weekly).data.map fun entry => (entry.bucket, entry.toCommodityCell)) =
        [("2026-W53".toList, ⟨10, 4, 1, 1⟩)] := by
  have hcommodities : ∀ m ∈ movements movementRuntime movementDb 1 none 1 weekly,
      ∃ c ∈ sampleCommodities.rows, c.id = m.commodityId ∧ c.tenantId = 1 := by decide +kernel
  have hbuckets : (getCommodityMovement movementRuntime (· + ·) sampleCommodities movementDb
      1 none 1 weekly).data.map MovementBucket.bucket = ["2026-W53".toList] := by decide +kernel
  obtain ⟨-, -, hsums, -⟩ := movement_buckets movementRuntime sampleCommodities movementDb 1 none 1
    weekly hcommodities
  obtain ⟨entry, hdata, hbucket⟩ := List.map_eq_singleton_iff.mp hbuckets
  rw [hdata] at hsums ⊢
  have hcell := (hsums entry List.mem_cons_self).1
  rw [hbucket] at hcell
  rw [List.map_singleton, hbucket, hcell]
  congr 2
  decide +kernel

end SecureStore.Reports
