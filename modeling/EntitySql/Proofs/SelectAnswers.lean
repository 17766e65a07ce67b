import EntitySql.Proofs.SelectRows
import EntitySql.Query
import Mathlib.Order.RelIso.Basic

/-!
# Answers to a select

`Select.rows` gives one list of rows for a select. A database has more freedom: it may leave rows
that are equal in the ordering in any order (`SelectBody.MayGive`), it draws the keys of a random
order, for single rows and anew for every select (`Select.MayGive`), and it answers a count with a
number (`Select.number?`).

Keys are drawn for single rows, so two rows that look alike have keys of their own, and no
`Evaluator` can give them. `Select.MayGive` takes the draws of every select of a statement as a
parameter instead.
-/

namespace EntitySql

/-! ### Arrangements -/

namespace SelectBody

variable {V : Type} {E : Evaluator V} {b : SelectBody} {source : List (Tuple V)}

/-- Bounds count rows, and do not look at them. -/
theorem map_window (f : Tuple V → Tuple V) (rows : List (Tuple V)) :
    (b.window rows).map f = b.window (rows.map f) := by
  rw [window, window, ← List.map_drop]
  split
  · exact List.map_take
  · rfl

variable [DecidableEq V]

/-- A database may give this answer: some arrangement of the rows that are kept agrees with the
ordering, and the answer is what the bounds leave of it. -/
def MayGive (E : Evaluator V) (b : SelectBody) (source answer : List (Tuple V)) : Prop :=
  ∃ arranged : List (Tuple V), arranged.Perm (b.kept E source) ∧
    arranged.Pairwise (E.Before b.order) ∧
    answer = (b.window arranged).map (projectBy E b.columns)

/-- The rows of a select are an answer. -/
theorem mayGive_rows : b.MayGive E source (b.rows E source) :=
  ⟨b.sorted E source, List.perm_insertionSort _ _, pairwise_sorted, rfl⟩

end SelectBody

/-! ### Counts -/

namespace SelectBody

variable {V : Type} (E : Evaluator V) (b : SelectBody)

/-- The rows of the source that the filter accepts. -/
def accepted (rows : List (Tuple V)) : List (Tuple V) :=
  match b.filter with
  | some condition => rows.filter (E.accepts condition)
  | none => rows

/-- The number of rows that are read, if the select list is a count, and there is nothing else but
a filter. -/
def number? (rows : List (Tuple V)) : Option Nat :=
  if b = { columns := [.expr Query.countColumn none], filter := b.filter } then
    some (b.accepted E rows).length
  else none

/-- A count gives the number of rows that its filter accepts. -/
theorem number?_count (filter : Option String) (rows : List (Tuple V)) :
    ({ columns := [.expr Query.countColumn none], filter } : SelectBody).number? E rows
      = some (({ filter } : SelectBody).accepted E rows).length :=
  if_pos rfl

theorem kept_eq [DecidableEq V] (rows : List (Tuple V)) :
    b.kept E rows = if b.distinct then firstOfEach (projectBy E b.columns) (b.accepted E rows)
      else b.accepted E rows := rfl

end SelectBody

/-- The answer of a count. -/
def Select.number? {V : Type} [DecidableEq V] (E : Evaluator V) (tables : String → Table V) :
    Select → Option Nat
  | .table source body => body.number? E (tables source).rows
  | .derived inner _ body => body.number? E (inner.rows E tables)

/-! ### Drawn keys -/

section Draws

variable {V : Type} (E : Evaluator V) (random : String) (draw : Nat → V)

/-- The values that a numbered row is sorted by. The random key of a row is the one that is drawn
for its number, and any other expression is evaluated on the row. -/
def Evaluator.sortKeys (order : List OrderItem) (row : Tuple V × Nat) : Tuple V :=
  order.map fun i => (i.expr, if i.expr = random then draw row.2 else E.value row.1 i.expr)

variable [DecidableEq V]

namespace SelectBody

/-- A database that draws these keys may give this answer: some arrangement of the rows that are
kept agrees with the ordering, and the answer is what the bounds leave of it. -/
def MayGiveDrawn (b : SelectBody) (source answer : List (Tuple V)) : Prop :=
  ∃ arranged : List (Tuple V × Nat), arranged.Perm (b.kept E source).zipIdx ∧
    arranged.Pairwise (Order.Preimage (E.sortKeys random draw b.order) (E.Before b.order)) ∧
    answer = (b.window (arranged.map Prod.fst)).map (projectBy E b.columns)

variable {E random draw} {b : SelectBody} {source answer : List (Tuple V)}

/-- Whatever is drawn, there is an answer. -/
theorem exists_mayGiveDrawn : ∃ answer, b.MayGiveDrawn E random draw source answer :=
  ⟨_, (b.kept E source).zipIdx.insertionSort
      (Order.Preimage (E.sortKeys random draw b.order) (E.Before b.order)),
    List.perm_insertionSort _ _, List.pairwise_insertionSort _ _, rfl⟩

/-- An answer is what the bounds leave of the rows that are kept, in some order. -/
theorem MayGiveDrawn.exists_whole (h : b.MayGiveDrawn E random draw source answer) :
    ∃ whole, whole.Perm ((b.kept E source).map (projectBy E b.columns)) ∧
      answer = b.window whole := by
  obtain ⟨arranged, hperm, -, rfl⟩ := h
  have hrows : (arranged.map Prod.fst).Perm (b.kept E source) := by
    have hfst := hperm.map Prod.fst
    rwa [List.zipIdx_map_fst] at hfst
  exact ⟨_, hrows.map _, b.map_window _ _⟩

/-- So is an answer of a database that draws no keys. -/
theorem MayGive.exists_whole (h : b.MayGive E source answer) :
    ∃ whole, whole.Perm ((b.kept E source).map (projectBy E b.columns)) ∧
      answer = b.window whole := by
  obtain ⟨arranged, hperm, -, rfl⟩ := h
  exact ⟨_, hperm.map _, b.map_window _ _⟩

end SelectBody

/-- The answers that a database may give to a select. Every select of a statement draws keys of its
own, the outermost one the first. -/
def Select.MayGive (tables : String → Table V) (draws : Nat → Nat → V) :
    Select → List (Tuple V) → Prop
  | .table source body, answer =>
    body.MayGiveDrawn E random (draws 0) (tables source).rows answer
  | .derived inner _ body, answer =>
    ∃ rows, inner.MayGive tables (fun n => draws (n + 1)) rows ∧
      body.MayGiveDrawn E random (draws 0) rows answer

/-- Whatever is drawn, there is an answer to every select. -/
theorem Select.exists_mayGive (tables : String → Table V) (draws : Nat → Nat → V) (s : Select) :
    ∃ answer, s.MayGive E random tables draws answer := by
  induction s generalizing draws with
  | table source body => exact SelectBody.exists_mayGiveDrawn
  | derived inner label body ih =>
    obtain ⟨rows, hrows⟩ := ih fun n => draws (n + 1)
    obtain ⟨answer, hanswer⟩ : ∃ answer, body.MayGiveDrawn E random (draws 0) rows answer :=
      SelectBody.exists_mayGiveDrawn
    exact ⟨answer, rows, hrows, hanswer⟩

end Draws

end EntitySql
