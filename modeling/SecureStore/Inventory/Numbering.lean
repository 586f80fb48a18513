/-
# Numbers by lineage

The number of a receipt is meant to tell its tree: a root is numbered by its year and the
head of its id, and everything below it carries the number of the root and a letter suffix.
Children are numbered under the base of their parent, which drops a trailing group of
letters. That group is the suffix of a child, but also the head of an id without a decimal
digit: below such a root the law is broken, and below every other root it holds.
-/

import SecureStore.Inventory.Ancestry
import Mathlib.Data.List.TakeWhile

namespace SecureStore.Inventory

open SecureStore.Foundation

/-- `WR-${year}-${id.slice(0, 8).toUpperCase()}` -/
def rootNumber (year : ℕ) (id : Id) : List Char :=
  "WR-".toList ++ Nat.toDigits 10 year ++ '-' :: idHead id

/-- One of the first eight hexadecimal digits of an id is a decimal one. -/
def HeadHasDigit (id : Id) : Prop := ∃ c ∈ idHead id, c.isDigit = true

instance (id : Id) : Decidable (HeadHasDigit id) :=
  inferInstanceAs (Decidable (∃ c ∈ idHead id, c.isDigit = true))

/-- The number of a child of a receipt. -/
def childNumber (source : Receipt) (suffix : List Char) : List Char :=
  baseReceiptNumber source.receiptNumber ++ '-' :: suffix

/-! ### The text of a number -/

section Text

variable {base suffix head : List Char} {year : ℕ} {id : Id} {c : Char}

theorem isLetter_dash : isLetter '-' = false := by decide

theorem not_isLetter_of_isDigit (h : c.isDigit = true) : isLetter c = false := by
  simp only [Char.isDigit, Bool.and_eq_true, decide_eq_true_eq] at h
  simp only [isLetter, decide_eq_false_iff_not, Char.le_def]
  intro hletter
  have hupper := h.2
  have hlower := hletter.1
  rw [UInt32.le_iff_toNat_le] at hlower
  have hupper' : c.val.toNat ≤ 57 := UInt32.le_iff_toNat_le.mp hupper
  have hlower' : 65 ≤ c.val.toNat := hlower
  omega

/-- A hexadecimal digit is a letter or a decimal digit. -/
theorem hexDigit_cases {n : ℕ} (h : n < 16) :
    isLetter (hexDigit n) = true ∨ (hexDigit n).isDigit = true := by
  have hall : ∀ m : Fin 16, isLetter (hexDigit m) = true ∨ (hexDigit m).isDigit = true := by
    decide
  exact hall ⟨n, h⟩

theorem mem_idHead (hc : c ∈ idHead id) : isLetter c = true ∨ c.isDigit = true := by
  obtain ⟨i, -, rfl⟩ := List.mem_map.mp hc
  exact hexDigit_cases (Nat.mod_lt _ (by decide))

/-- There is no dash in the head of an id. -/
theorem dash_not_mem_idHead : '-' ∉ idHead id := by
  intro hdash
  rcases mem_idHead hdash with h | h <;> exact absurd h (by decide)

theorem dash_not_mem_suffix (h : IsSuffix suffix) : '-' ∉ suffix := by
  intro hdash
  exact absurd (h.2 _ hdash) (by decide)

/-- The base of a child's number is what its suffix was appended to. -/
theorem baseReceiptNumber_append (h : IsSuffix suffix) :
    baseReceiptNumber (base ++ '-' :: suffix) = base := by
  have hreverse : (base ++ '-' :: suffix).reverse = suffix.reverse ++ '-' :: base.reverse := by
    simp
  have hletters : ∀ c ∈ suffix.reverse, isLetter c = true :=
    fun c hc => h.2 c (List.mem_reverse.mp hc)
  have htake : (suffix.reverse ++ '-' :: base.reverse).takeWhile isLetter = suffix.reverse := by
    rw [List.takeWhile_append_of_pos hletters]
    simp [isLetter_dash]
  have hdrop : (suffix.reverse ++ '-' :: base.reverse).dropWhile isLetter =
      '-' :: base.reverse := by
    rw [List.dropWhile_append_of_pos hletters]
    simp [isLetter_dash]
  unfold baseReceiptNumber
  rw [hreverse, htake, hdrop]
  cases hsuffix : suffix.reverse with
  | nil => exact absurd (List.reverse_eq_nil_iff.mp hsuffix) h.1
  | cons c rest => simp

/-- A number that ends with a word that is not all letters is its own base. -/
theorem baseReceiptNumber_self (hc : c ∈ head) (hletter : isLetter c = false)
    (hdash : '-' ∉ head) : baseReceiptNumber (base ++ head) = base ++ head := by
  -- the letters at the end stop inside the word, at something else than a dash
  have hstop : ∃ d rest, head.reverse.dropWhile isLetter = d :: rest ∧ d ∈ head := by
    cases hdrop : head.reverse.dropWhile isLetter with
    | nil =>
        have hall := (List.dropWhile_eq_nil_iff).mp hdrop c (List.mem_reverse.mpr hc)
        rw [hletter] at hall
        cases hall
    | cons d rest =>
        refine ⟨d, rest, rfl, ?_⟩
        have hmem : d ∈ head.reverse.dropWhile isLetter := by simp [hdrop]
        exact List.mem_reverse.mp ((List.dropWhile_sublist _).mem hmem)
  obtain ⟨d, rest, hdrop, hd⟩ := hstop
  have hdrop' : (base ++ head).reverse.dropWhile isLetter = d :: (rest ++ base.reverse) := by
    rw [List.reverse_append, List.dropWhile_append]
    simp [hdrop]
  have hd' : d ≠ '-' := fun heq => hdash (heq ▸ hd)
  unfold baseReceiptNumber
  rw [hdrop']
  cases (base ++ head).reverse.takeWhile isLetter with
  | nil => rfl
  | cons letter letters => simp [hd']

/-- The number of a root is its own base if there is a digit in its head. -/
theorem baseReceiptNumber_root (h : HeadHasDigit id) :
    baseReceiptNumber (rootNumber year id) = rootNumber year id := by
  obtain ⟨c, hc, hdigit⟩ := h
  have hself : baseReceiptNumber (("WR-".toList ++ Nat.toDigits 10 year ++ ['-']) ++ idHead id) =
      ("WR-".toList ++ Nat.toDigits 10 year ++ ['-']) ++ idHead id :=
    baseReceiptNumber_self hc (not_isLetter_of_isDigit hdigit) dash_not_mem_idHead
  simpa [rootNumber] using hself

/-- A head without a digit is taken for a suffix. -/
theorem isSuffix_idHead (h : ¬ HeadHasDigit id) : IsSuffix (idHead id) := by
  refine ⟨by simp [idHead], ?_⟩
  intro c hc
  rcases mem_idHead hc with hletter | hdigit
  · exact hletter
  · exact absurd ⟨c, hc, hdigit⟩ h

theorem baseReceiptNumber_headless (h : ¬ HeadHasDigit id) :
    baseReceiptNumber (rootNumber year id) = "WR-".toList ++ Nat.toDigits 10 year :=
  baseReceiptNumber_append (isSuffix_idHead h)

theorem count_dash_year : (Nat.toDigits 10 year).count '-' = 0 := by
  apply List.count_eq_zero.mpr
  intro hdash
  have hdigit := Nat.isDigit_of_mem_toDigits (by decide) (by decide) hdash
  exact absurd hdigit (by decide)

/-- There are two dashes in the number of a root. -/
theorem count_dash_root : (rootNumber year id).count '-' = 2 := by
  have hhead : (idHead id).count '-' = 0 := List.count_eq_zero.mpr dash_not_mem_idHead
  simp [rootNumber, List.count_append, count_dash_year, hhead]

theorem count_dash_child (h : IsSuffix suffix) :
    (base ++ '-' :: suffix).count '-' = base.count '-' + 1 := by
  have hsuffix : suffix.count '-' = 0 := List.count_eq_zero.mpr (dash_not_mem_suffix h)
  simp [List.count_append, hsuffix]

end Text

/-! ### The law on the table of receipts -/

/-- A root is numbered by its year and its id, and a receipt below it under its base. -/
def NumberedIn (t : Table Receipt) (r : Receipt) : Prop :=
  match r.parentReceiptId with
  | none => r.rootReceiptId = r.id ∧ ∃ year, r.receiptNumber = rootNumber year r.id
  | some _ => ∃ root ∈ t, root.parentReceiptId = none ∧ root.id = r.rootReceiptId ∧
      ∃ suffix, IsSuffix suffix ∧ r.receiptNumber = childNumber root suffix

/-- Every receipt is numbered by the law and no number is given twice. -/
structure Numbered (t : Table Receipt) : Prop where
  numberedIn : ∀ r ∈ t, NumberedIn t r
  unique : ∀ r ∈ t, ∀ r' ∈ t, r.receiptNumber = r'.receiptNumber → r = r'

/-- Two versions of a receipt that the law reads alike. -/
structure SamePlace (before after : Receipt) : Prop where
  receiptNumber : after.receiptNumber = before.receiptNumber
  parentReceiptId : after.parentReceiptId = before.parentReceiptId
  rootReceiptId : after.rootReceiptId = before.rootReceiptId

theorem numbered_empty : Numbered (Table.empty : Table Receipt) where
  numberedIn r hr := absurd hr (Table.not_mem_empty r)
  unique r hr := absurd hr (Table.not_mem_empty r)

section Law

variable {t t' : Table Receipt} {r src : Receipt} {suffix : List Char}

theorem numberedIn_root (hparent : r.parentReceiptId = none) :
    NumberedIn t r ↔ r.rootReceiptId = r.id ∧ ∃ year, r.receiptNumber = rootNumber year r.id := by
  unfold NumberedIn
  rw [hparent]

theorem numberedIn_child (hparent : r.parentReceiptId ≠ none) :
    NumberedIn t r ↔ ∃ root ∈ t, root.parentReceiptId = none ∧ root.id = r.rootReceiptId ∧
      ∃ suffix, IsSuffix suffix ∧ r.receiptNumber = childNumber root suffix := by
  obtain ⟨p, hp⟩ := Option.ne_none_iff_exists'.mp hparent
  unfold NumberedIn
  rw [hp]

/-- More receipts break no law. -/
theorem NumberedIn.mono (h : NumberedIn t r) (hsub : ∀ x ∈ t, x ∈ t') : NumberedIn t' r := by
  by_cases hparent : r.parentReceiptId = none
  · exact (numberedIn_root hparent).mpr ((numberedIn_root hparent).mp h)
  · obtain ⟨root, hroot, hlaw⟩ := (numberedIn_child hparent).mp h
    exact (numberedIn_child hparent).mpr ⟨root, hsub root hroot, hlaw⟩

/-- Every receipt has the base of its root. -/
theorem Numbered.base (h : Numbered t) (hsrc : src ∈ t) :
    ∃ root ∈ t, root.parentReceiptId = none ∧ root.id = src.rootReceiptId ∧
      baseReceiptNumber src.receiptNumber = baseReceiptNumber root.receiptNumber := by
  by_cases hparent : src.parentReceiptId = none
  · obtain ⟨hid, -⟩ := (numberedIn_root hparent).mp (h.numberedIn src hsrc)
    exact ⟨src, hsrc, hparent, hid.symm, rfl⟩
  · obtain ⟨root, hroot, hnone, hid, suffix, hsuffix, hnumber⟩ :=
      (numberedIn_child hparent).mp (h.numberedIn src hsrc)
    refine ⟨root, hroot, hnone, hid, ?_⟩
    rw [hnumber, childNumber, baseReceiptNumber_append hsuffix]

/-- A child of a lawful receipt is lawful. -/
theorem Numbered.child (h : Numbered t) (hsrc : src ∈ t) (hsuffix : IsSuffix suffix)
    (hparent : r.parentReceiptId = some src.id) (hroot : r.rootReceiptId = src.rootReceiptId)
    (hnumber : r.receiptNumber = childNumber src suffix) : NumberedIn t r := by
  obtain ⟨root, hmem, hnone, hid, hbase⟩ := h.base hsrc
  have hchild : r.parentReceiptId ≠ none := by simp [hparent]
  apply (numberedIn_child hchild).mpr
  refine ⟨root, hmem, hnone, hid.trans hroot.symm, suffix, hsuffix, ?_⟩
  rw [hnumber, childNumber, childNumber, hbase]

/-- A lawful receipt with a new number joins. -/
theorem Numbered.append (h : Numbered t) (hlaw : NumberedIn t r)
    (hnew : ∀ x ∈ t, x.receiptNumber ≠ r.receiptNumber) (hrows : t'.rows = t.rows ++ [r]) :
    Numbered t' := by
  have hmem : ∀ x, x ∈ t' ↔ x ∈ t ∨ x = r := by
    intro x
    rw [Table.mem_def, hrows, List.mem_append, List.mem_singleton]
    rfl
  have hsub : ∀ x ∈ t, x ∈ t' := fun x hx => (hmem x).mpr (.inl hx)
  constructor
  · intro x hx
    rcases (hmem x).mp hx with hold | rfl
    · exact (h.numberedIn x hold).mono hsub
    · exact hlaw.mono hsub
  · intro x hx y hy hnumber
    rcases (hmem x).mp hx with hold | rfl
    · rcases (hmem y).mp hy with hold' | rfl
      · exact h.unique x hold y hold' hnumber
      · exact absurd hnumber (hnew x hold)
    · rcases (hmem y).mp hy with hold' | rfl
      · exact absurd hnumber.symm (hnew y hold')
      · rfl

/-- An update that keeps what the law reads keeps the law. -/
theorem Numbered.modify (h : Numbered t) {id : Id} {f : Receipt → Receipt}
    (hf : ∀ r, Keyed.key (f r) = Keyed.key r) (hsame : ∀ r, SamePlace r (f r)) :
    Numbered (t.modify id f hf) := by
  -- a row and what the update makes of it are read alike by the law
  have alike : ∀ {r r' : Receipt}, ((Keyed.key r = id ∧ r' = f r) ∨ (Keyed.key r ≠ id ∧ r' = r)) →
      SamePlace r r' := by
    rintro r r' (⟨-, rfl⟩ | ⟨-, rfl⟩)
    · exact hsame r
    · exact ⟨rfl, rfl, rfl⟩
  constructor
  · intro x hx
    obtain ⟨x₀, hx₀, hid, hcases⟩ := Table.exists_of_mem_modify f hf hx
    have hplace := alike hcases
    have hlaw := h.numberedIn x₀ hx₀
    by_cases hnone : x.parentReceiptId = none
    · obtain ⟨hself, year, hyear⟩ := (numberedIn_root (hplace.parentReceiptId ▸ hnone)).mp hlaw
      apply (numberedIn_root hnone).mpr
      refine ⟨hplace.rootReceiptId.trans (hself.trans hid.symm), year, ?_⟩
      rw [hplace.receiptNumber, hyear]
      exact congrArg (rootNumber year) hid.symm
    · obtain ⟨root, hmem, hrnone, hrid, suffix, hsuffix, hnumbered⟩ :=
        (numberedIn_child (hplace.parentReceiptId ▸ hnone)).mp hlaw
      obtain ⟨root', hmem', hid', hcases'⟩ := Table.exists_mem_modify f hf hmem id
      have hplace' := alike hcases'
      apply (numberedIn_child hnone).mpr
      refine ⟨root', hmem', hplace'.parentReceiptId.trans hrnone,
        hid'.trans (hrid.trans hplace.rootReceiptId.symm), suffix, hsuffix, ?_⟩
      rw [hplace.receiptNumber, hnumbered, childNumber, childNumber, hplace'.receiptNumber]
  · intro x hx y hy hxy
    obtain ⟨x₀, hx₀, hid, hcases⟩ := Table.exists_of_mem_modify f hf hx
    obtain ⟨y₀, hy₀, hid', hcases'⟩ := Table.exists_of_mem_modify f hf hy
    have hnumber : x₀.receiptNumber = y₀.receiptNumber := by
      rw [← (alike hcases).receiptNumber, hxy, (alike hcases').receiptNumber]
    obtain rfl := h.unique x₀ hx₀ y₀ hy₀ hnumber
    exact Table.eq_of_key_eq hx hy (hid.trans hid'.symm)

end Law

section Statements

variable {num : Numeric} {uuids : Uuids} {s s' : Ledger} {src r r' : Receipt}

theorem event_numbered {e e' : InventoryEvent} (hs : Numbered s.receipts)
    (h : event num e s = .ok (e', s')) : Numbered s'.receipts := by
  rw [(event_ok h).2.1]
  exact hs

theorem createReceipt_numbered (hs : Numbered s.receipts) (hlaw : NumberedIn s.receipts r')
    (h : createReceipt num r s = .ok (r', s')) : Numbered s'.receipts := by
  obtain ⟨-, hgrows⟩ := createReceipt_ok h
  exact hs.append hlaw (hgrows.numbers r' (List.mem_singleton.mpr rfl)) hgrows.rows

theorem updateReceipt_numbered {id : Id} {f : Receipt → Receipt}
    {hf : ∀ r, Keyed.key (f r) = Keyed.key r} (hs : Numbered s.receipts)
    (h : updateReceipt id f hf s = .ok (r, s')) (hsame : ∀ r, SamePlace r (f r)) :
    Numbered s'.receipts := by
  obtain ⟨_, -, -, rfl⟩ := updateReceipt_ok.mp h
  exact hs.modify hf hsame

theorem supersede_samePlace (r : Receipt) : SamePlace r (supersede r) := ⟨rfl, rfl, rfl⟩

/-- A child under the base of its source is numbered by the law; its source stays. -/
theorem createChild_numbered {id : Id} {suffix : List Char} {status : ReceiptStatus} {quantity : ℚ}
    {clientId : Id} {approvalStatus : ApprovalStatus} {sourceTxnType : Option TxnType}
    {sourceTxnId : Option Id} {eventId : Id} (hs : Numbered s.receipts) (hsrc : src ∈ s.receipts)
    (hsuffix : IsSuffix suffix)
    (h : createReceipt num (childOf src id (childNumber src suffix) status quantity clientId
      approvalStatus sourceTxnType sourceTxnId eventId) s = .ok (r, s')) :
    Numbered s'.receipts ∧ src ∈ s'.receipts := by
  obtain ⟨rfl, hgrows⟩ := createReceipt_ok h
  constructor
  · apply createReceipt_numbered hs ?_ h
    exact hs.child hsrc hsuffix rfl rfl rfl
  · rw [Table.mem_def, hgrows.rows]
    exact List.mem_append_left _ hsrc

/-- The two suffixes of a split are suffixes. -/
theorem suffixes_of_split (s : Ledger) (base : List Char) :
    IsSuffix (nextSuffix (existingChildSuffixes s.receipts.rows base)) ∧
      IsSuffix (nextSuffix (existingChildSuffixes s.receipts.rows base ++
        [nextSuffix (existingChildSuffixes s.receipts.rows base)])) := by
  have htaken : ∀ suffix ∈ existingChildSuffixes s.receipts.rows base, IsSuffix suffix :=
    fun suffix hmem => (mem_existingChildSuffixes.mp hmem).1
  have hfirst := (nextSuffix_spec htaken).1
  refine ⟨hfirst, (nextSuffix_spec ?_).1⟩
  intro suffix hmem
  rcases List.mem_append.mp hmem with hmem | hmem
  · exact htaken suffix hmem
  · rw [List.mem_singleton.mp hmem]
    exact hfirst

theorem partition_numbered {primaryQty : ℚ} {primary : Primary} {eventId : Id}
    {result : Receipt × Option Receipt} (hs : Numbered s.receipts) (hsrc : src ∈ s.receipts)
    (h : partition num uuids src primaryQty primary eventId s = .ok (result, s')) :
    Numbered s'.receipts := by
  simp only [partition, Tx.bind_ok, Tx.query_ok, Except.ok.injEq] at h
  obtain ⟨_, _, ⟨rfl, rfl⟩, row, s₁, hprimary, remainder, s₂, hremainder, _, _, hupdate,
    hresult⟩ := h
  obtain ⟨-, rfl⟩ := Tx.pure_ok.mp hresult
  obtain ⟨hsuffix, hsuffix'⟩ := suffixes_of_split s (baseReceiptNumber src.receiptNumber)
  obtain ⟨hs₁, hsrc₁⟩ := createChild_numbered hs hsrc hsuffix hprimary
  have hs₂ : Numbered s₂.receipts := by
    unfold createRemainder at hremainder
    split at hremainder
    · obtain ⟨row', hrow', -⟩ := Tx.map_ok.mp hremainder
      exact (createChild_numbered hs₁ hsrc₁ hsuffix' hrow').1
    · obtain ⟨-, rfl⟩ := Tx.pure_ok.mp hremainder
      exact hs₁
  exact updateReceipt_numbered hs₂ hupdate supersede_samePlace

theorem amendReceipt_numbered {tenantId receiptId : Id} {check : Receipt → Except ApiError Unit}
    {entry : Receipt → InventoryEvent} {update : Receipt → Receipt}
    {hf : ∀ r, Keyed.key (update r) = Keyed.key r} (hs : Numbered s.receipts)
    (h : amendReceipt num tenantId receiptId check entry update hf s = .ok (r, s'))
    (hsame : ∀ r, SamePlace r (update r)) :
    Numbered s'.receipts := by
  simp only [amendReceipt, Tx.bind_ok, Tx.query_ok] at h
  obtain ⟨_, _, ⟨-, rfl⟩, _, _, ⟨-, rfl⟩, _, s₁, hevent, hupdate⟩ := h
  exact updateReceipt_numbered (event_numbered hs hevent) hupdate hsame

/-- A replay changes nothing, so what the work keeps the operation keeps. -/
theorem runIdempotent_numbered {α : Type} {key : IdempotencyKey}
    {reconstruct : InventoryEvent → Ledger → Except ApiError α} {work : Tx α} {a : α}
    (hs : Numbered s.receipts)
    (hwork : work s = .ok (a, s') → Numbered s'.receipts)
    (h : runIdempotent key reconstruct work s = .ok (a, s')) : Numbered s'.receipts := by
  rcases runIdempotent_returns h with ⟨_, -, -, rfl⟩ | ⟨-, hrun⟩
  · exact hs
  · exact hwork hrun

end Statements

section Operations

variable {num : Numeric} {uuids : Uuids} {s s' : Ledger}

theorem deposit_numbered {input : DepositInput} {r : Receipt} (hs : Numbered s.receipts)
    (hnumber : input.receiptNumber = none)
    (h : deposit num uuids input s = .ok (r, s')) : Numbered s'.receipts := by
  simp only [deposit, Tx.bind_ok, Tx.throwIf_ok] at h
  obtain ⟨_, _, ⟨-, rfl⟩, hrun⟩ := h
  apply runIdempotent_numbered hs ?_ hrun
  intro hwork
  simp only [Tx.bind_ok] at hwork
  obtain ⟨root, s₁, hcreate, _, s₂, hevent, hupdate⟩ := hwork
  have hroot : NumberedIn s.receipts root := by
    obtain ⟨rfl, -⟩ := createReceipt_ok hcreate
    apply (numberedIn_root rfl).mpr
    refine ⟨rfl, input.currentYear, ?_⟩
    simp [hnumber, rootNumber]
  have hs₂ := event_numbered (createReceipt_numbered hs hroot hcreate) hevent
  exact updateReceipt_numbered hs₂ hupdate fun _ => ⟨rfl, rfl, rfl⟩

theorem hold_numbered {input : HoldInput} {result : HoldResult} (hs : Numbered s.receipts)
    (h : hold num uuids input s = .ok (result, s')) : Numbered s'.receipts := by
  apply runIdempotent_numbered hs ?_ h
  intro hwork
  simp only [Tx.bind_ok, Tx.query_ok, Tx.throwIf_ok, Ledger.loadOrThrow_ok] at hwork
  obtain ⟨src, _, ⟨⟨hfind, -⟩, rfl⟩, _, _, ⟨-, rfl⟩, _, _, ⟨-, rfl⟩, _, _, ⟨-, rfl⟩, _, _,
    ⟨-, rfl⟩, _, s₁, hevent, _, s₂, hpartition, hresult⟩ := hwork
  obtain ⟨-, rfl⟩ := Tx.pure_ok.mp hresult
  have hsrc : src ∈ s₁.receipts := by
    rw [(event_ok hevent).2.1]
    exact Table.mem_of_find hfind
  exact partition_numbered (event_numbered hs hevent) hsrc hpartition

theorem releasePartial_numbered {input : ReleasePartialInput} {result : ReleasePartialResult}
    (hs : Numbered s.receipts) (h : releasePartial num uuids input s = .ok (result, s')) :
    Numbered s'.receipts := by
  apply runIdempotent_numbered hs ?_ h
  intro hwork
  simp only [Tx.bind_ok, Tx.query_ok, Tx.throwIf_ok, Ledger.loadOrThrow_ok, Except.ok.injEq]
    at hwork
  obtain ⟨src, _, ⟨⟨hfind, -⟩, rfl⟩, _, _, ⟨-, rfl⟩, _, _, ⟨-, rfl⟩, _, _, ⟨-, rfl⟩, _, s₁, hevent,
    _, _, ⟨rfl, rfl⟩, _, s₂, hreleased, _, s₃, hremaining, _, _, hupdate, hresult⟩ := hwork
  obtain ⟨-, rfl⟩ := Tx.pure_ok.mp hresult
  have hsrc : src ∈ s₁.receipts := by
    rw [(event_ok hevent).2.1]
    exact Table.mem_of_find hfind
  obtain ⟨hsuffix, hsuffix'⟩ := suffixes_of_split s₁ (baseReceiptNumber src.receiptNumber)
  obtain ⟨hs₂, hsrc₂⟩ :=
    createChild_numbered (event_numbered hs hevent) hsrc hsuffix hreleased
  have hs₃ := (createChild_numbered hs₂ hsrc₂ hsuffix' hremaining).1
  exact updateReceipt_numbered hs₃ hupdate supersede_samePlace

theorem seize_numbered {input : SeizeInput} {result : SeizeResult} (hs : Numbered s.receipts)
    (h : seize num uuids input s = .ok (result, s')) : Numbered s'.receipts := by
  apply runIdempotent_numbered hs ?_ h
  intro hwork
  simp only [Tx.bind_ok, Tx.query_ok, Tx.throwIf_ok, Ledger.loadOrThrow_ok] at hwork
  obtain ⟨src, _, ⟨⟨hfind, -⟩, rfl⟩, _, _, ⟨-, rfl⟩, _, s₁, hevent, hwork⟩ := hwork
  have hs₁ := event_numbered hs hevent
  have hsrc : src ∈ s₁.receipts := by
    rw [(event_ok hevent).2.1]
    exact Table.mem_of_find hfind
  cases hpart : input.partialQuantity with
  | some pq =>
      simp only [hpart, Tx.bind_ok, Tx.throwIf_ok] at hwork
      obtain ⟨_, _, ⟨-, rfl⟩, _, s₂, hpartition, hresult⟩ := hwork
      obtain ⟨-, rfl⟩ := Tx.pure_ok.mp hresult
      exact partition_numbered hs₁ hsrc hpartition
  | none =>
      simp only [hpart] at hwork
      obtain ⟨_, s₂, hupdate, hresult⟩ := Tx.bind_ok.mp hwork
      obtain ⟨-, rfl⟩ := Tx.pure_ok.mp hresult
      exact updateReceipt_numbered hs₁ hupdate fun _ => ⟨rfl, rfl, rfl⟩

theorem transferAndRelease_numbered {ctx : ActorCtx} {id newOwnerId txnId : Id} {txnType : TxnType}
    {withinTx : Receipt → Except ApiError Unit} {result : Receipt} (hs : Numbered s.receipts)
    (h : transferAndRelease num uuids ctx id newOwnerId txnType txnId withinTx s =
      .ok (result, s')) : Numbered s'.receipts := by
  apply runIdempotent_numbered hs ?_ h
  intro hwork
  obtain ⟨_, hdone, -⟩ := Tx.map_ok.mp hwork
  simp only [transferAndReleaseWork, Tx.bind_ok, Tx.query_ok] at hdone
  obtain ⟨_, _, ⟨-, rfl⟩, _, _, ⟨-, rfl⟩, _, s₁, hevent, _, s₂, hevent', _, s₃, hupdate, _, _,
    ⟨-, rfl⟩, hresult⟩ := hdone
  obtain ⟨-, rfl⟩ := Tx.pure_ok.mp hresult
  exact updateReceipt_numbered (event_numbered (event_numbered hs hevent) hevent')
    hupdate fun _ => ⟨rfl, rfl, rfl⟩

/-- A deposit without a number of its own, or any other operation. -/
def LedgerOp.NumbersRoots : LedgerOp → Prop
  | .deposit input => input.receiptNumber = none
  | _ => True

instance (op : LedgerOp) : Decidable op.NumbersRoots := by
  unfold LedgerOp.NumbersRoots
  split <;> infer_instance

theorem call_numbered {op : LedgerOp} {result : LedgerResult} (hs : Numbered s.receipts)
    (hop : op.NumbersRoots) (h : op.call num uuids s = .ok (result, s')) :
    Numbered s'.receipts := by
  -- an operation that amends one receipt keeps its number and its place
  have amends : ∀ {key : IdempotencyKey} {tenantId receiptId : Id}
      {check : Receipt → Except ApiError Unit} {entry : Receipt → InventoryEvent}
      {update : Receipt → Receipt} {hf : ∀ r, Keyed.key (update r) = Keyed.key r},
      (LedgerResult.node <$> runIdempotent key Ledger.affected
        (amendReceipt num tenantId receiptId check entry update hf)) s = .ok (result, s') →
      (∀ r, SamePlace r (update r)) → Numbered s'.receipts := by
    intro key tenantId receiptId check entry update hf hcall hsame
    obtain ⟨_, hrun, -⟩ := Tx.map_ok.mp hcall
    exact runIdempotent_numbered hs (fun hwork => amendReceipt_numbered hs hwork hsame) hrun
  cases op with
  | deposit input =>
      obtain ⟨_, hrun, -⟩ := Tx.map_ok.mp h
      exact deposit_numbered hs hop hrun
  | hold input =>
      obtain ⟨_, hrun, -⟩ := Tx.map_ok.mp h
      exact hold_numbered hs hrun
  | releasePartial input =>
      obtain ⟨_, hrun, -⟩ := Tx.map_ok.mp h
      exact releasePartial_numbered hs hrun
  | seize input =>
      obtain ⟨_, hrun, -⟩ := Tx.map_ok.mp h
      exact seize_numbered hs hrun
  | transferAndRelease ctx id newOwnerId txnType txnId withinTx =>
      obtain ⟨_, hrun, -⟩ := Tx.map_ok.mp h
      exact transferAndRelease_numbered hs hrun
  | approveReceipt => exact amends h fun _ => ⟨rfl, rfl, rfl⟩
  | rejectReceipt => exact amends h fun _ => ⟨rfl, rfl, rfl⟩
  | approveHold => exact amends h fun _ => ⟨rfl, rfl, rfl⟩
  | release => exact amends h fun _ => ⟨rfl, rfl, rfl⟩
  | consume => exact amends h fun _ => ⟨rfl, rfl, rfl⟩
  | transitionPledgeToLien => exact amends h fun _ => ⟨rfl, rfl, rfl⟩
  | transferOwnership => exact amends h fun _ => ⟨rfl, rfl, rfl⟩
  | expire => exact amends h fun _ => ⟨rfl, rfl, rfl⟩

/-- In every run whose deposits leave the number to the ledger, receipts are numbered by the
law. -/
theorem numbered_run (calls : List LedgerCall) (hs : Numbered s.receipts)
    (hcalls : ∀ c ∈ calls, c.op.NumbersRoots) : Numbered (runCalls num calls s).receipts := by
  induction calls generalizing s with
  | nil => exact hs
  | cons c calls ih =>
      have hafter : Numbered (c.after num s).receipts := by
        unfold LedgerCall.after
        cases hcall : c.op.call num c.uuids s with
        | error e => exact hs
        | ok p => exact call_numbered hs (hcalls c List.mem_cons_self) hcall
      exact ih hafter fun c' hc' => hcalls c' (List.mem_cons_of_mem _ hc')

end Operations

/-! ### The law on the ledger -/

/-- The numbers of the descendants tell their roots. -/
structure NumberedByLineage (s : Ledger) : Prop where
  /-- A descendant has the number of its root and a letter suffix. -/
  extends_root : ∀ r ∈ s.receipts, r.parentReceiptId ≠ none →
    ∀ root ∈ s.receipts, root.id = r.rootReceiptId →
      ∃ suffix, IsSuffix suffix ∧ r.receiptNumber = root.receiptNumber ++ '-' :: suffix
  /-- Two descendants of one root have two suffixes. -/
  distinct : ∀ r ∈ s.receipts, ∀ r' ∈ s.receipts, r.parentReceiptId ≠ none →
    r'.parentReceiptId ≠ none → r.rootReceiptId = r'.rootReceiptId → r ≠ r' →
      ∀ root ∈ s.receipts, root.id = r.rootReceiptId → ∀ suffix suffix',
        r.receiptNumber = root.receiptNumber ++ '-' :: suffix →
          r'.receiptNumber = root.receiptNumber ++ '-' :: suffix' → suffix ≠ suffix'
  /-- The number of a descendant is not the number of another root, of any year. -/
  disjoint : ∀ r ∈ s.receipts, r.parentReceiptId ≠ none → ∀ year id, id ≠ r.rootReceiptId →
    r.receiptNumber ≠ rootNumber year id

section Lineage

variable {t : Table Receipt} {s : Ledger} {r root : Receipt} {suffix : List Char}

/-- The number of a descendant, from the number of its root. -/
theorem Numbered.descendant (h : Numbered t) (hr : r ∈ t) (hparent : r.parentReceiptId ≠ none)
    (hroot : root ∈ t) (hid : root.id = r.rootReceiptId) :
    (∃ year, root.receiptNumber = rootNumber year r.rootReceiptId) ∧
      ∃ suffix, IsSuffix suffix ∧ r.receiptNumber = childNumber root suffix := by
  obtain ⟨root', hroot', hnone, hid', suffix, hsuffix, hnumber⟩ :=
    (numberedIn_child hparent).mp (h.numberedIn r hr)
  have hsame : root' = root := Table.eq_of_key_eq hroot' hroot (hid'.trans hid.symm)
  subst hsame
  obtain ⟨-, year, hyear⟩ := (numberedIn_root hnone).mp (h.numberedIn root' hroot')
  rw [hid'] at hyear
  exact ⟨⟨year, hyear⟩, suffix, hsuffix, hnumber⟩

/-- Below a root without a digit in its head the number does not extend the number of the
root: it has two dashes, like the root itself. -/
theorem headless_breaks (hnumber : r.receiptNumber = childNumber root suffix)
    (hroot : ∃ year, root.receiptNumber = rootNumber year r.rootReceiptId)
    (hsuffix : IsSuffix suffix) (hhead : ¬ HeadHasDigit r.rootReceiptId) :
    ¬ ∃ suffix', IsSuffix suffix' ∧
      r.receiptNumber = root.receiptNumber ++ '-' :: suffix' := by
  rintro ⟨suffix', hsuffix', hextends⟩
  obtain ⟨year, hyear⟩ := hroot
  have hstem : ("WR-".toList ++ Nat.toDigits 10 year).count '-' = 1 := by
    simp [count_dash_year]
  have htwo : r.receiptNumber.count '-' = 2 := by
    rw [hnumber, childNumber, hyear, baseReceiptNumber_headless hhead, count_dash_child hsuffix,
      hstem]
  have hthree : r.receiptNumber.count '-' = 3 := by
    rw [hextends, hyear, count_dash_child hsuffix', count_dash_root]
  omega

theorem Numbered.numberedByLineage_iff (h : Numbered s.receipts) :
    NumberedByLineage s ↔
      ∀ r ∈ s.receipts, r.parentReceiptId ≠ none → HeadHasDigit r.rootReceiptId := by
  constructor
  · intro hlineage r hr hparent
    by_contra hhead
    obtain ⟨root, hroot, -, hid, -⟩ := (numberedIn_child hparent).mp (h.numberedIn r hr)
    obtain ⟨hyear, suffix, hsuffix, hnumber⟩ := h.descendant hr hparent hroot hid
    exact headless_breaks hnumber hyear hsuffix hhead
      (hlineage.extends_root r hr hparent root hroot hid)
  · intro hheads
    have extending : ∀ r ∈ s.receipts, r.parentReceiptId ≠ none →
        ∀ root ∈ s.receipts, root.id = r.rootReceiptId →
          (∃ year, root.receiptNumber = rootNumber year r.rootReceiptId) ∧
            ∃ suffix, IsSuffix suffix ∧
              r.receiptNumber = root.receiptNumber ++ '-' :: suffix := by
      intro r hr hparent root hroot hid
      obtain ⟨⟨year, hyear⟩, suffix, hsuffix, hnumber⟩ := h.descendant hr hparent hroot hid
      refine ⟨⟨year, hyear⟩, suffix, hsuffix, ?_⟩
      rw [hnumber, childNumber, hyear, baseReceiptNumber_root (hheads r hr hparent)]
    constructor
    · intro r hr hparent root hroot hid
      exact (extending r hr hparent root hroot hid).2
    · intro r hr r' hr' _ _ _ hne root _ _ suffix suffix' hnumber hnumber' hsame
      apply hne
      apply h.unique r hr r' hr'
      rw [hnumber, hnumber', hsame]
    · intro r hr hparent year id _ hsame
      obtain ⟨root, hroot, -, hid, -⟩ := (numberedIn_child hparent).mp (h.numberedIn r hr)
      obtain ⟨⟨year', hyear⟩, suffix, hsuffix, hnumber⟩ :=
        extending r hr hparent root hroot hid
      have hthree : r.receiptNumber.count '-' = 3 := by
        rw [hnumber, hyear, count_dash_child hsuffix, count_dash_root]
      rw [hsame, count_dash_root] at hthree
      exact absurd hthree (by decide)

end Lineage

/-- In every run whose deposits leave the number to the ledger, the numbers tell the lineage if
and only if every root with descendants has a decimal digit in the head of its id. -/
theorem numbered_by_lineage_iff (num : Numeric) (calls : List LedgerCall)
    (hcalls : ∀ c ∈ calls, c.op.NumbersRoots) :
    NumberedByLineage (runCalls num calls Ledger.empty) ↔
      ∀ r ∈ (runCalls num calls Ledger.empty).receipts, r.parentReceiptId ≠ none →
        HeadHasDigit r.rootReceiptId := by
  apply Numbered.numberedByLineage_iff
  exact numbered_run calls numbered_empty hcalls

/-- Ten units deposited in 2026 under a root id, approved, and split by a hold of four. -/
def sampleSplit (root : Id) : List LedgerCall :=
  [⟨⟨101, 0, root, 0, .stored⟩, .deposit
      { tenantId := 7, clientId := 8, commodityId := 9, warehouseId := 5, quantity := 10
        grade := none, dateOfDeposit := 0, expiryDate := none, receiptNumber := none
        actorUserId := none, idempotencyKey := [.text "deposit"], currentYear := 2026 }⟩,
    ⟨⟨102, 0, 0, 0, .stored⟩, .approveReceipt ⟨7, none, [.text "approve"]⟩ root⟩,
    ⟨⟨103, 0, 2, 3, .stored⟩, .hold
      { tenantId := 7, sourceReceiptId := root, quantity := 4, heldStatus := .heldWithdrawal
        txnType := .withdrawal, txnId := 50, actorUserId := none
        idempotencyKey := [.text "hold"] }⟩]

/-- The theorem at the split of root `1ABCDEFA-…`. -/
theorem numbered_by_lineage_iff_sample :
    NumberedByLineage (runCalls .postgres (sampleSplit (0x1ABCDEFA * 16 ^ 24)) Ledger.empty) ↔
      ∀ r ∈ (runCalls .postgres (sampleSplit (0x1ABCDEFA * 16 ^ 24)) Ledger.empty).receipts,
        r.parentReceiptId ≠ none → HeadHasDigit r.rootReceiptId := by
  apply numbered_by_lineage_iff
  decide

/-- The first child of root `FABCDEFA-…` has the number of root `FABCDEFB-…`. -/
theorem child_takes_root_number :
    ¬ ∀ (num : Numeric) (calls : List LedgerCall), (∀ c ∈ calls, c.op.NumbersRoots) →
        NumberedByLineage (runCalls num calls Ledger.empty) := by
  intro hclaim
  have hlineage := hclaim .postgres (sampleSplit (0xFABCDEFA * 16 ^ 24)) (by decide)
  have hheld : ∃ r ∈ (runCalls .postgres (sampleSplit (0xFABCDEFA * 16 ^ 24))
      Ledger.empty).receipts.rows, r.parentReceiptId ≠ none ∧
        r.rootReceiptId = 0xFABCDEFA * 16 ^ 24 ∧
          r.receiptNumber = rootNumber 2026 (0xFABCDEFB * 16 ^ 24) := by
    decide +kernel
  obtain ⟨r, hr, hparent, hrootid, hnumber⟩ := hheld
  have hother : 0xFABCDEFB * 16 ^ 24 ≠ r.rootReceiptId := by
    rw [hrootid]
    decide
  exact hlineage.disjoint r hr hparent 2026 (0xFABCDEFB * 16 ^ 24) hother hnumber

end SecureStore.Inventory
