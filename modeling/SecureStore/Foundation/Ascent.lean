/-
# Climbing a forest by a recursive query

A recursive query from one row adds the parents of the rows it found last, and counts the
rounds. On a forest it finds the line of ancestors, one in each round, and stops behind the
root. Ordered by the round, deepest first, the line reads from the root down to the row.
-/

import Mathlib.Data.List.Sort
import SecureStore.Foundation.Forest

namespace SecureStore.Foundation

universe u v

variable {ρ : Type u} {κ : Type v} [DecidableEq κ]

namespace Lineage

variable (l : Lineage ρ κ) (rows : List ρ)

/-- The rows one level above a working table. -/
def above (level : List ρ) : List ρ :=
  level.flatMap fun t => rows.filter fun r => decide (l.parent t = some (l.key r))

/-- The recursive query upwards from a working table, each row with the depth it is found at;
none when it has not stopped within so many rounds. -/
def ascend : ℕ → ℕ → List ρ → Option (List (ρ × ℕ))
  | _, _, [] => some []
  | 0, _, _ :: _ => none
  | n + 1, depth, t :: level =>
      (ascend n (depth + 1) (l.above rows (t :: level))).map fun rest =>
        (t :: level).map (fun r => (r, depth)) ++ rest

/-- A list that leads from a row to its parent, to the parent of that one, and on to a row
without a parent. -/
inductive Line : ρ → List ρ → Prop
  | root {x : ρ} (top : l.parent x = none) : Line x [x]
  | step {x p : ρ} {line : List ρ} (row : p ∈ rows) (parent : l.parent x = some (l.key p))
      (rest : Line p line) : Line x (x :: line)

variable {l rows}

omit [DecidableEq κ] in
theorem Line.head {x : ρ} {line : List ρ} (h : l.Line rows x line) : ∃ rest, line = x :: rest := by
  cases h with
  | root top => exact ⟨[], rfl⟩
  | step row parent rest => exact ⟨_, rfl⟩

omit [DecidableEq κ] in
/-- A line ends at a row without a parent, and up to there each row is followed by its parent. -/
theorem Line.chain {x : ρ} {line : List ρ} (h : l.Line rows x line) :
    line.IsChain (fun c p => l.parent c = some (l.key p)) ∧
      ∃ root, line.getLast? = some root ∧ l.parent root = none := by
  induction h with
  | root top => exact ⟨.singleton _, _, rfl, top⟩
  | step row parent rest ih =>
      obtain ⟨tail, rfl⟩ := rest.head
      obtain ⟨hchain, root, hlast, htop⟩ := ih
      refine ⟨List.isChain_cons_cons.mpr ⟨parent, hchain⟩, root, ?_, htop⟩
      rw [List.getLast?_cons_cons]
      exact hlast

omit [DecidableEq κ] in
/-- What holds of the first row and passes to parents holds along the line. -/
theorem Line.induct {P : ρ → Prop} {x : ρ} {line : List ρ} (h : l.Line rows x line) (hx : P x)
    (hparent : ∀ c p, p ∈ rows → l.parent c = some (l.key p) → P c → P p) : ∀ y ∈ line, P y := by
  induction h with
  | root top =>
      intro y hy
      exact List.mem_singleton.mp hy ▸ hx
  | step row parent rest ih =>
      intro y hy
      rcases List.mem_cons.mp hy with rfl | hy
      · exact hx
      · exact ih (hparent _ _ row parent hx) y hy

omit [DecidableEq κ] in
/-- Behind the first row, every row of the line is the parent of a row. -/
theorem Line.parents {x : ρ} {line : List ρ} (h : l.Line rows x line) (hx : x ∈ rows) :
    ∀ y ∈ line.tail, y ∈ rows ∧ ∃ c ∈ rows, l.parent c = some (l.key y) := by
  induction h with
  | root top => exact fun y hy => absurd hy List.not_mem_nil
  | step row parent rest ih =>
      obtain ⟨tail, rfl⟩ := rest.head
      intro y hy
      rcases List.mem_cons.mp hy with rfl | hy
      · exact ⟨row, _, hx, parent⟩
      · exact ih row y hy

omit [DecidableEq κ] in
/-- No row of a forest comes twice on a line. -/
theorem IsForest.line_nodup (h : l.IsForest rows) {x : ρ} {line : List ρ}
    (hline : l.Line rows x line) (hx : x ∈ rows) : (line.map l.key).Nodup := by
  obtain ⟨rank, hrank⟩ := h.increases
  have hdrops : ∀ {x line}, l.Line rows x line → x ∈ rows →
      (∀ y ∈ line.tail, rank (l.key y) < rank (l.key x)) ∧ (line.map l.key).Nodup := by
    intro x line hline
    induction hline with
    | root top => exact fun _ => ⟨fun y hy => absurd hy List.not_mem_nil, List.nodup_singleton _⟩
    | @step x p line row parent rest ih =>
        intro hx
        obtain ⟨hbelow, hnodup⟩ := ih row
        have hstep := hrank x hx _ parent
        have hall : ∀ y ∈ line, rank (l.key y) < rank (l.key x) := by
          obtain ⟨tail, rfl⟩ := rest.head
          intro y hy
          rcases List.mem_cons.mp hy with rfl | hy
          · exact hstep
          · exact (hbelow y hy).trans hstep
        refine ⟨hall, List.nodup_cons.mpr ⟨?_, hnodup⟩⟩
        intro hmem
        obtain ⟨y, hy, hkey⟩ := List.mem_map.mp hmem
        exact absurd (hall y hy) (by rw [hkey]; exact lt_irrefl _)
  exact (hdrops hline hx).2

section Query

variable (hkeys : (rows.map l.key).Nodup)

include hkeys

/-- Above a row there is its parent alone. -/
theorem above_singleton {x p : ρ} (hp : p ∈ rows) (hparent : l.parent x = some (l.key p)) :
    l.above rows [x] = [p] := by
  have honly : (rows.filter fun r => decide (l.parent x = some (l.key r))) = [p] := by
    apply List.perm_singleton.mp
    apply (List.perm_ext_iff_of_nodup ((List.Nodup.of_map _ hkeys).filter _)
      (List.nodup_singleton p)).mpr
    intro r
    rw [List.mem_filter, decide_eq_true_eq, List.mem_singleton, hparent, Option.some_inj]
    constructor
    · rintro ⟨hr, hkey⟩
      exact (key_inj hkeys hp hr hkey).symm
    · rintro rfl
      exact ⟨hp, rfl⟩
  simp only [above, List.flatMap_cons, List.flatMap_nil, List.append_nil]
  exact honly

/-- On a forest the query from a row finds its line, within as many rounds as there are rows. -/
theorem IsForest.ascends (h : l.IsForest rows) {x : ρ} (hx : x ∈ rows) (depth : ℕ) :
    ∃ line, l.Line rows x line ∧
      l.ascend rows rows.length depth [x] = some (line.zipIdx depth) := by
  obtain ⟨rank, hincreases, hbounded⟩ := h.ranked
  have hrounds : ∀ n x, x ∈ rows → rank (l.key x) < n → ∀ depth, ∃ line, l.Line rows x line ∧
      l.ascend rows n depth [x] = some (line.zipIdx depth) := by
    intro n
    induction n with
    | zero => exact fun x _ hlt => absurd hlt (Nat.not_lt_zero _)
    | succ n ih =>
        intro x hx hlt depth
        cases hparent : l.parent x with
        | none =>
            have hnothing : l.above rows [x] = [] := by simp [above, hparent]
            refine ⟨[x], .root hparent, ?_⟩
            rw [ascend, hnothing, ascend.eq_1]
            rfl
        | some k =>
            obtain ⟨p, hp, rfl⟩ := h.closed x hx k hparent
            have hlower := hincreases x hx _ hparent
            obtain ⟨line, hline, hfound⟩ := ih p hp (by omega) (depth + 1)
            refine ⟨x :: line, .step hp hparent hline, ?_⟩
            rw [ascend, above_singleton hkeys hp hparent, hfound]
            rfl
  exact hrounds rows.length x hx (hbounded x hx) depth

end Query

/-- Rows numbered upwards, ordered by their number downwards, come in reverse. -/
theorem insertionSort_zipIdx (line : List ρ) (depth : ℕ) :
    (line.zipIdx depth).insertionSort (fun a b => b.2 ≤ a.2) = (line.zipIdx depth).reverse := by
  have hsame : ∀ a ∈ line.zipIdx depth, ∀ b ∈ line.zipIdx depth, a.2 = b.2 → a = b := by
    rintro ⟨x, i⟩ ha ⟨y, j⟩ hb hij
    obtain rfl : i = j := hij
    have hx := (List.mem_zipIdx ha).2.2
    have hy := (List.mem_zipIdx hb).2.2
    rw [hx, hy]
  have hperm : ((line.zipIdx depth).insertionSort fun a b => b.2 ≤ a.2).Perm
      (line.zipIdx depth).reverse :=
    (List.perm_insertionSort _ _).trans (List.reverse_perm _).symm
  have hdown : (line.zipIdx depth).reverse.Pairwise fun a b => b.2 ≤ a.2 := by
    rw [List.pairwise_reverse]
    have hincreasing : ((line.zipIdx depth).map Prod.snd).Pairwise (· < ·) := by
      rw [List.zipIdx_map_snd]
      exact List.pairwise_lt_range'
    exact (List.pairwise_map.mp hincreasing).imp fun hlt => hlt.le
  refine hperm.eq_of_pairwise ?_ (List.pairwise_insertionSort _ _) hdown
  intro a b ha hb hle hge
  exact hsame a ((List.mem_insertionSort _).mp ha) b (List.mem_reverse.mp hb)
    (le_antisymm hge hle)

end Lineage

end SecureStore.Foundation
