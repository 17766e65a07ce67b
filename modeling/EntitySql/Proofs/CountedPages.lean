import EntitySql.Proofs.Reading.Statement
import Mathlib.Data.List.Dedup

/-!
# Counted pages

A page and its count are drafted apart, in different orders: the page with its select list, its
filter and its ordering, the count with the filter alone or over a derived table of the distinct
rows. They agree all the same. Select lists and orderings bind nothing, so the filter is written
over the same bind table in both, and comes to the same text and the same slots
(`filterText_of_binds`).

The main statement, `countedPage_counts`, says that where a page can be made its count can be made
too, with the same binds over the same rows, and that it gives the number of rows of the whole list
(`Select.number?`). Both selects are read back from their texts.
-/

namespace EntitySql

/-! ### Distinct rows -/

section FirstOfEach

variable {α κ : Type} [DecidableEq κ] (key : α → κ) (l : List α)

theorem mem_map_firstOfEach {k : κ} : k ∈ (firstOfEach key l).map key ↔ k ∈ l.map key := by
  induction l with
  | nil => rfl
  | cons a l ih =>
    rw [firstOfEach, List.map_cons, List.map_cons, List.mem_cons, List.mem_cons, ← ih]
    by_cases hk : k = key a
    · exact iff_of_true (.inl hk) (.inl hk)
    · refine or_congr_right ⟨fun h => ?_, fun h => ?_⟩
      · exact (List.filter_sublist.map key).subset h
      · obtain ⟨b, hb, rfl⟩ := List.mem_map.mp h
        exact List.mem_map_of_mem (List.mem_filter.mpr ⟨hb, decide_eq_true hk⟩)

theorem nodup_map_firstOfEach : ((firstOfEach key l).map key).Nodup := by
  induction l with
  | nil => exact List.nodup_nil
  | cons a l ih =>
    rw [firstOfEach, List.map_cons, List.nodup_cons]
    constructor
    · intro h
      obtain ⟨b, hb, hkey⟩ := List.mem_map.mp h
      exact of_decide_eq_true (List.mem_filter.mp hb).2 hkey
    · exact ih.sublist (List.filter_sublist.map key)

/-- The keys of the items that are kept are all keys, once each. -/
theorem map_firstOfEach_perm : ((firstOfEach key l).map key).Perm (l.map key).dedup := by
  refine (List.perm_ext_iff_of_nodup (nodup_map_firstOfEach key l) (List.nodup_dedup _)).mpr ?_
  intro k
  rw [mem_map_firstOfEach, List.mem_dedup]

end FirstOfEach

/-! ### Rows without bounds -/

namespace SelectBody

/-- The rows of a select without bounds, in some order. -/
theorem rows_perm {V : Type} [DecidableEq V] (E : Evaluator V) (b : SelectBody)
    (hlimit : b.limit = none) (hoffset : b.offset = none) (rows : List (Tuple V)) :
    (b.rows E rows).Perm (if b.distinct then
        ((b.accepted E rows).map (projectBy E b.columns)).dedup
      else (b.accepted E rows).map (projectBy E b.columns)) := by
  have hwindow : b.window (b.sorted E rows) = b.sorted E rows := by
    rw [window, hlimit, hoffset]
    rfl
  have hsorted : (b.sorted E rows).Perm (b.kept E rows) := List.perm_insertionSort _ _
  rw [SelectBody.rows, hwindow]
  refine (hsorted.map _).trans ?_
  rw [kept_eq]
  split
  · exact map_firstOfEach_perm _ _
  · exact .refl _

end SelectBody

/-! ### Pages -/

/-- The source and the condition of the innermost select. -/
def Select.base : Select → String × Option String
  | .table source body => (source, body.filter)
  | .derived inner _ _ => inner.base

/-- A page reads what it is cut from. -/
theorem PageMethod.base_page {method : PageMethod} {p : PageSpec} {s : Select}
    (h : method.page p = .ok s) : s.base = (p.source, p.filter) := by
  cases method with
  | offset =>
    obtain ⟨-, rfl⟩ | ⟨-, -, -, rfl⟩ := PageSpec.byOffset_cases h <;> rfl
  | reversal =>
    obtain ⟨-, rfl⟩ | ⟨-, -, -, -, -, rfl⟩ := PageSpec.byReversal_cases h <;> rfl

namespace Query

open Drafting

variable {q : Query} {c : Scope} {d d' : Draft}

/-- The clauses that a page, a count and a list are made of, written one after another. -/
structure ClauseRun (q : Query) (c : Scope) (d : Draft) where
  items : List SelectItem
  filter : Option String
  order : List OrderItem
  selected : Draft
  filtered : Draft
  ordered : Draft
  run_items : c.selectItems q.selection d = .ok items selected
  run_filter : q.filterText c selected = .ok filter filtered
  run_order : c.orderItems q.order filtered = .ok order ordered

namespace ClauseRun

variable (r : ClauseRun q c d) (distinct : Bool)

/-- The body of the whole list. -/
def body : SelectBody where
  distinct := distinct
  columns := r.items.map (·.column)
  filter := r.filter
  order := r.order

theorem binds_selected : r.selected.binds = d.binds :=
  binds_of_result (c.selectItems_result q.selection d) r.run_items

theorem binds_ordered : r.ordered.binds = r.filtered.binds :=
  binds_of_result (c.orderItems_result q.order r.filtered) r.run_order

/-- The whole list can be made. -/
theorem listSelect : q.listSelect 0 distinct false c d
    = .ok (.table (q.source c) (r.body distinct)) r.ordered :=
  bind_eq_ok.mpr ⟨r.items, r.selected, r.run_items, bind_eq_ok.mpr
    ⟨r.filter, r.filtered, r.run_filter, bind_eq_ok.mpr ⟨r.order, r.ordered, r.run_order, rfl⟩⟩⟩

/-- The count can be made. It reads what the list reads, and gives the number of its rows. -/
theorem countSelect : ∃ counted e, q.countSelect distinct c d = .ok counted e ∧
    e.binds = r.filtered.binds ∧ counted.base = (q.source c, r.filter) ∧
    ∀ {V : Type} [DecidableEq V] (E : Evaluator V) (tables : String → Table V),
      counted.number? E tables
        = some ((Select.table (q.source c) (r.body distinct)).rows E tables).length := by
  rcases distinct with _ | _
  -- the filter is written over the table that the select list left as it was
  · obtain ⟨e, hfilter, hbinds⟩ := filterText_of_binds r.binds_selected.symm r.run_filter
    refine ⟨_, e, bind_eq_ok.mpr ⟨r.filter, e, hfilter, rfl⟩, hbinds, rfl, ?_⟩
    intro V _ E tables
    have hrows := (r.body false).rows_perm E rfl rfl (tables (q.source c)).rows
    rw [Select.number?, SelectBody.number?_count, Select.rows, hrows.length_eq]
    exact congrArg some (List.length_map _).symm
  · refine ⟨_, r.filtered, bind_eq_ok.mpr ⟨r.items, r.selected, r.run_items, bind_eq_ok.mpr
      ⟨r.filter, r.filtered, r.run_filter, rfl⟩⟩, rfl, rfl, ?_⟩
    intro V _ E tables
    have hrows := (r.body true).rows_perm E rfl rfl (tables (q.source c)).rows
    have hinner := ({ r.body true with order := [] } : SelectBody).rows_perm E rfl rfl
      (tables (q.source c)).rows
    rw [Select.number?, SelectBody.number?_count]
    exact congrArg some (hinner.trans hrows.symm).length_eq

end ClauseRun

/-- A page is made of the clauses of the whole list, binds no more than these, and reads the same
rows. -/
theorem exists_clauseRun {size index : Nat} {distinct : Bool} {select : Select}
    (h : q.pageBody size index distinct c d = .ok select d') :
    ∃ r : ClauseRun q c d, d'.binds = r.filtered.binds ∧
      select.base = (q.source c, r.filter) := by
  rw [pageBody] at h
  split at h
  · obtain ⟨items, d₁, hitems, h⟩ := bind_eq_ok.mp h
    obtain ⟨filter, d₂, hfilter, h⟩ := bind_eq_ok.mp h
    obtain ⟨order, d₃, horder, h⟩ := bind_eq_ok.mp h
    obtain ⟨rfl, rfl⟩ := pure_eq_ok.mp h
    let r : ClauseRun q c d := ⟨items, filter, order, d₁, d₂, d₃, hitems, hfilter, horder⟩
    exact ⟨r, r.binds_ordered, rfl⟩
  · obtain ⟨items, d₁, hitems, h⟩ := bind_eq_ok.mp h
    obtain ⟨filter, d₂, hfilter, h⟩ := bind_eq_ok.mp h
    obtain ⟨total, d₃, htotal, h⟩ := bind_eq_ok.mp h
    obtain ⟨hbinds, order, e, horder⟩ := orderItems_of_pageOrder htotal
    let spec : PageSpec :=
      { source := q.source c, distinct, items, filter, order := total, size
        index := if index = 0 then 1 else index }
    rcases hpage : q.dialect.pageMethod.page spec with error | s
    · rw [hpage] at h
      cases h
    · rw [hpage] at h
      obtain ⟨rfl, rfl⟩ := pure_eq_ok.mp h
      have hbase : s.base = (q.source c, filter) := PageMethod.base_page hpage
      exact ⟨⟨items, filter, order, d₁, d₂, e, hitems, hfilter, horder⟩, hbinds, hbase⟩

/-- **A page and its count.** Where a page can be made, its count and the whole list can be made
too, with the same binds over the same rows. Whatever the tables hold, the count gives the number
of rows of the whole list: these are the rows that the filter accepts, projected, and if the page
is distinct, once each. Both selects are read back from their texts if computed columns are
fragments. -/
theorem countedPage_counts {q : Query} {size index : Nat} {distinct : Bool} {page : Statement}
    (hpage : q.page size index distinct = .ok page) :
    ∃ paged counted source body binds,
      q.draft (q.pageBody size index distinct) = .ok (paged, binds) ∧
      q.draft (q.countSelect distinct) = .ok (counted, binds) ∧
      q.draft (q.listSelect 0 distinct false) = .ok (.table source body, binds) ∧
      page = ⟨paged.toSql q.dialect.boundStyle, binds⟩ ∧
      q.countedPage size index distinct
        = .ok ⟨page, ⟨counted.toSql q.dialect.boundStyle, binds⟩⟩ ∧
      paged.base = (source, body.filter) ∧ counted.base = (source, body.filter) ∧
      (∀ {V : Type} [DecidableEq V] (E : Evaluator V) (tables : String → Table V),
        let accepted := body.accepted E (tables source).rows
        let listed := (Select.table source body).rows E tables
        counted.number? E tables = some listed.length ∧
          listed.Perm (if distinct then (accepted.map (projectBy E body.columns)).dedup
            else accepted.map (projectBy E body.columns))) ∧
      ∀ k, q.IsLegible k →
        paged.IsReadFrom k q.dialect.boundStyle (paged.toSql q.dialect.boundStyle) ∧
          counted.IsReadFrom k q.dialect.boundStyle (counted.toSql q.dialect.boundStyle) := by
  rw [page_eq] at hpage
  obtain ⟨paged, binds, hpaged, rfl⟩ := selectStatement_eq_ok.mp hpage
  obtain ⟨m, d, hmap, hrun, rfl⟩ := draft_eq_ok.mp hpaged
  obtain ⟨r, hbinds, hbase⟩ := exists_clauseRun hrun
  obtain ⟨counted, e, hcount, hcountBinds, hcountBase, hnumber⟩ := r.countSelect distinct
  have hlisted := draft_eq_ok.mpr ⟨m, r.ordered, hmap, r.listSelect distinct,
    congrArg BindTable.slots (r.binds_ordered.trans hbinds.symm)⟩
  have hcounted := draft_eq_ok.mpr ⟨m, e, hmap, hcount,
    congrArg BindTable.slots (hcountBinds.trans hbinds.symm)⟩
  have hboth : q.countedPage size index distinct
      = .ok ⟨⟨paged.toSql q.dialect.boundStyle, d.binds.slots⟩,
          ⟨counted.toSql q.dialect.boundStyle, d.binds.slots⟩⟩ := by
    have hcountStatement := selectStatement_eq_ok.mpr ⟨counted, d.binds.slots, hcounted, rfl⟩
    rw [countedPage, page_eq, hpage, countOf, hcountStatement]
    rfl
  refine ⟨paged, counted, _, _, _, hpaged, hcounted, hlisted, rfl, hboth, hbase, hcountBase, ?_,
    fun k hlegible => ⟨hlegible.isReadFrom_pageBody hpaged, hlegible.isReadFrom_count hcounted⟩⟩
  intro V _ E tables accepted listed
  exact ⟨hnumber E tables, SelectBody.rows_perm E _ rfl rfl _⟩

end Query

/-- The sensors with readings above three. -/
def loudSensors : Query where
  dialect := .sqlServer2000
  entity :=
    { typeName := "Reading", table := "readings"
      members := [.key "Id", .column "Sensor" "sensor", .column "Level" "level"] }
  selection := [.ofMember "Sensor"]
  filter := some (.binary .gt (.ofMember "Level") (.constant (.number (.int 3 rfl))))

/-- Levels above three are accepted. -/
def loudLevels : Evaluator Nat where
  computed _ _ := 0
  accepts _ row := 3 < (row.lookup "[level]").getD 0
  compare := compare

/-- Four readings of three sensors, of which two were loud. -/
def readings : Table Nat where
  columns := ["[sensor]", "[level]"]
  rows := [[("[sensor]", 1), ("[level]", 5)], [("[sensor]", 2), ("[level]", 4)],
    [("[sensor]", 1), ("[level]", 9)], [("[sensor]", 3), ("[level]", 2)]]
  nodup := by decide
  shape := by decide

/-- The second distinct page is cut by reversal, and its count gives two sensors, and is read back
from its text. -/
theorem countedPage_counts_loudSensors :
    ∃ page counted, loudSensors.page 2 2 true = .ok page ∧
      loudSensors.draft (loudSensors.countSelect true) = .ok (counted, page.binds) ∧
      loudSensors.countedPage 2 2 true = .ok ⟨page, ⟨counted.toSql .top, page.binds⟩⟩ ∧
      counted.number? loudLevels (fun _ => readings) = some 2 ∧
      counted.IsReadFrom BuiltinDialect.sqlServer2000.marks .top (counted.toSql .top) := by
  obtain ⟨page, hpage⟩ : ∃ page, loudSensors.page 2 2 true = .ok page := ⟨_, rfl⟩
  obtain ⟨paged, counted, source, body, binds, -, hcounted, hlisted, rfl, hboth, -, -, hrows,
    hread⟩ := Query.countedPage_counts hpage
  obtain ⟨hnumber, hperm⟩ := hrows loudLevels fun _ => readings
  obtain ⟨slots, hlist⟩ : ∃ slots, loudSensors.draft (loudSensors.listSelect 0 true false)
      = .ok (.table "[readings]"
          { distinct := true, columns := [.expr "[sensor]" none]
            filter := some "[level] > @p0_level" }, slots) := ⟨_, rfl⟩
  have hselect := (Prod.mk.inj (Except.ok.inj (hlisted.symm.trans hlist))).1
  obtain ⟨rfl, rfl⟩ := Select.table.inj hselect
  rw [hperm.length_eq] at hnumber
  have hlegible : loudSensors.IsLegible BuiltinDialect.sqlServer2000.marks :=
    Query.isLegible_builtin rfl (EntityDecl.hasLegibleColumns_of_isPlain (by decide))
  exact ⟨_, counted, hpage, hcounted, hboth, hnumber, (hread _ hlegible).2⟩

end EntitySql
