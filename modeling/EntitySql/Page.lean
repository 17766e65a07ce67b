import EntitySql.Select
import EntitySql.SqlError
import EntitySql.Word

/-!
# Pages

A page is a window of an ordered result. The first page is a bounded select without an offset
under every method. For a later page,

* `PageSpec.byOffset` skips the rows before the page and bounds the rest;
* `PageSpec.byReversal` serves databases that can only bound the start of a result. Its innermost
  select takes the rows up to the end of the page, the next one reads these in reverse and keeps
  a page of them, and the outermost restores the requested order. Order columns that are not
  selected are carried through under their output names.

Row counts that do not fit 64 bits are refused.
-/

namespace EntitySql

/-- What a page is cut from, and which page is asked for, from 1. -/
structure PageSpec where
  source : String
  distinct : Bool
  items : List SelectItem
  filter : Option String
  order : List OrderItem
  size : Nat
  index : Nat
deriving DecidableEq, Repr

namespace PageSpec

/-- The whole result. -/
def body (p : PageSpec) : SelectBody where
  distinct := p.distinct
  columns := p.items.map (·.column)
  filter := p.filter
  order := p.order

/-- The number of rows on a number of pages. -/
def rowsOn (p : PageSpec) (pages : Nat) : Except SqlError Nat :=
  if p.size * pages < wordCount then .ok (p.size * pages)
  else .error (.pageOutOfRange p.index p.size)

theorem rowsOn_eq_ok_iff (p : PageSpec) (pages n : Nat) :
    p.rowsOn pages = .ok n ↔ p.size * pages = n ∧ n < wordCount := by
  by_cases h : p.size * pages < wordCount
  · simp only [rowsOn, h, if_true, Except.ok.injEq]
    exact ⟨fun e => ⟨e, e ▸ h⟩, fun e => e.1⟩
  · simp only [rowsOn, h, if_false, reduceCtorEq, false_iff]
    exact fun e => h (e.1 ▸ e.2)

/-- The first page. -/
def first (p : PageSpec) : Select :=
  .table p.source { p.body with limit := some p.size }

/-- A page cut by an offset. -/
def byOffset (p : PageSpec) : Except SqlError Select :=
  if p.index ≤ 1 then .ok p.first
  else do
    let skipped ← p.rowsOn (p.index - 1)
    return .table p.source { p.body with limit := some p.size, offset := some skipped }

/-- A page that is cut by an offset is the first one, or skips the rows before it. -/
theorem byOffset_cases {p : PageSpec} {s : Select} (h : p.byOffset = .ok s) :
    (p.index ≤ 1 ∧ s = p.first) ∨ (1 < p.index ∧ ∃ skipped, p.rowsOn (p.index - 1) = .ok skipped ∧
      s = .table p.source { p.body with limit := some p.size, offset := some skipped }) := by
  rw [byOffset] at h
  split at h
  · next hfirst =>
    cases h
    exact .inl ⟨hfirst, rfl⟩
  · next hlater =>
    cases hskipped : p.rowsOn (p.index - 1) with
    | error e =>
      rw [hskipped] at h
      cases h
    | ok skipped =>
      rw [hskipped] at h
      cases h
      exact .inr ⟨Nat.lt_of_not_le hlater, skipped, rfl, rfl⟩

/-! ### Reversal -/

/-- The columns that carry order columns through derived tables, given the names that are carried
already. With every column selected only computed columns need one. A distinct select list cannot
be extended without changing what is distinct. -/
def carried (p : PageSpec) : List OrderItem → List String → Except SqlError (List SelectColumn)
  | [], _ => .ok []
  | i :: is, outputs =>
    if (p.items.isEmpty && i.expr == i.output) || outputs.contains i.output then
      p.carried is outputs
    else if p.distinct && !p.items.isEmpty then .error (.orderNotSelected i.expr)
    else do return i.carriedColumn :: (← p.carried is (outputs ++ [i.output]))

/-- Carried columns are those of items of the ordering. -/
theorem exists_of_mem_carried {p : PageSpec} {order : List OrderItem} {outputs : List String}
    {columns : List SelectColumn} (h : p.carried order outputs = .ok columns) :
    ∀ column ∈ columns, ∃ i ∈ order, column = i.carriedColumn := by
  fun_induction carried p order outputs generalizing columns with
  | case1 outputs =>
    obtain rfl := Except.ok.inj h
    nofun
  | case2 i is outputs hhas ih =>
    intro column hcolumn
    obtain ⟨j, hj, rfl⟩ := ih h column hcolumn
    exact ⟨j, List.mem_cons_of_mem _ hj, rfl⟩
  | case3 i is outputs hhas hdistinct => cases h
  | case4 i is outputs hhas hdistinct ih =>
    cases hrest : p.carried is (outputs ++ [i.output]) with
    | error e =>
      rw [hrest] at h
      cases h
    | ok rest =>
      rw [hrest] at h
      obtain rfl := Except.ok.inj h
      intro column hcolumn
      obtain rfl | hcolumn := List.mem_cons.mp hcolumn
      · exact ⟨i, List.mem_cons_self, rfl⟩
      · obtain ⟨j, hj, rfl⟩ := ih hrest column hcolumn
        exact ⟨j, List.mem_cons_of_mem _ hj, rfl⟩

/-- The select list of the innermost select, extended by carried columns. -/
def innerColumns (p : PageSpec) (carried : List SelectColumn) : List SelectColumn :=
  if p.items.isEmpty then
    if carried.isEmpty then [] else .every :: carried
  else p.items.map (·.column) ++ carried

theorem mem_innerColumns {p : PageSpec} {carried : List SelectColumn} {column : SelectColumn}
    (h : column ∈ p.innerColumns carried) :
    column = .every ∨ (∃ i ∈ p.items, column = i.column) ∨ column ∈ carried := by
  rw [innerColumns] at h
  split at h
  · split at h
    · cases h
    · exact (List.mem_cons.mp h).imp_right .inr
  · obtain h | h := List.mem_append.mp h
    · obtain ⟨i, hi, rfl⟩ := List.mem_map.mp h
      exact .inr (.inl ⟨i, hi, rfl⟩)
    · exact .inr (.inr h)

/-- The rows up to the end of the page, in the requested order. -/
def innermost (p : PageSpec) (carried : List SelectColumn) (window : Nat) : Select :=
  .table p.source { p.body with columns := p.innerColumns carried, limit := some window }

/-- The last rows of a window, in reverse. -/
def reversed (p : PageSpec) (window : Select) : Select :=
  .derived window "a" { order := p.order.map fun i => i.onOutput.flipped, limit := some p.size }

/-- The selected columns of reversed rows, in the requested order. -/
def restored (p : PageSpec) (reversed : Select) : Select :=
  .derived reversed "b"
    { columns := p.items.map fun i => .expr i.output none, order := p.order.map (·.onOutput) }

/-- A page cut by reversing a bounded result twice. -/
def byReversal (p : PageSpec) : Except SqlError Select :=
  if p.index ≤ 1 then .ok p.first
  else do
    let window ← p.rowsOn p.index
    let carried ← p.carried p.order (p.items.map (·.output))
    return p.restored (p.reversed (p.innermost carried window))

/-- A page that is cut by reversal is the first one, or is restored from the window before its
end. -/
theorem byReversal_cases {p : PageSpec} {s : Select} (h : p.byReversal = .ok s) :
    (p.index ≤ 1 ∧ s = p.first) ∨ (1 < p.index ∧ ∃ window columns, p.rowsOn p.index = .ok window ∧
      p.carried p.order (p.items.map (·.output)) = .ok columns ∧
      s = p.restored (p.reversed (p.innermost columns window))) := by
  rw [byReversal] at h
  split at h
  · next hfirst =>
    cases h
    exact .inl ⟨hfirst, rfl⟩
  · next hlater =>
    cases hwindow : p.rowsOn p.index with
    | error e =>
      rw [hwindow] at h
      cases h
    | ok window =>
      cases hcarried : p.carried p.order (p.items.map (·.output)) with
      | error e =>
        rw [hwindow, hcarried] at h
        cases h
      | ok columns =>
        rw [hwindow, hcarried] at h
        cases h
        exact .inr ⟨Nat.lt_of_not_le hlater, window, columns, rfl, rfl, rfl⟩

end PageSpec

/-- A page cut by a method. -/
def PageMethod.page : PageMethod → PageSpec → Except SqlError Select
  | .offset, p => p.byOffset
  | .reversal, p => p.byReversal

end EntitySql
