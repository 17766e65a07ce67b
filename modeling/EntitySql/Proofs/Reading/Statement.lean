import EntitySql.Proofs.Exports
import EntitySql.Proofs.Reading.Filter
import EntitySql.Proofs.Slots.Statement

/-!
# Statements from their text

Lists, pages and counts are read back from their text (`Query.IsLegible.isReadFrom_list`,
`isReadFrom_pageSelect`, `isReadFrom_count`). The texts of which their selects are made come from
three places: names are quoted, expressions are columns of stored members (`Scope.IsColumn`), and a
condition is what a filter writes. All of these are fragments if computed columns are
(`EntityDecl.HasLegibleColumns`).
-/

namespace EntitySql

open Condition Drafting

/-! ### Columns of stored members -/

/-- Computed columns are fragments of a statement, and none stands for every column. -/
def EntityDecl.HasLegibleColumns (e : EntityDecl) (d : Dialect) (k : Marks) : Prop :=
  ∀ member ∈ e.members, member.isPersisted = true → d.isPlain member.columnName = false →
    IsFragment k member.columnName ∧ member.columnName ≠ "*"

/-- Without computed columns there is nothing to read. -/
theorem EntityDecl.hasLegibleColumns_of_isPlain {e : EntityDecl} {d : Dialect} {k : Marks}
    (h : ∀ member ∈ e.members, d.isPlain member.columnName = true) : e.HasLegibleColumns d k :=
  fun member hmember _ hcomputed => absurd ((h member hmember).symm.trans hcomputed) nofun

theorem EntityDecl.HasLegibleColumns.map {e : EntityDecl} {d : Dialect} {k : Marks}
    (h : e.HasLegibleColumns d k) {m : EntityMap} (hm : EntityMap.ofDecl e = .ok m) :
    m.HasLegibleColumns d k := by
  intro f hf
  obtain rfl := EntityMap.eq_of_ofDecl hm
  obtain ⟨member, hmember, rfl⟩ := List.mem_map.mp hf
  exact h member hmember

section Columns

variable {k : Marks} {c : Scope}

theorem Scope.IsColumn.isLegible (hd : IsScannable c.dialect k)
    (hm : c.map.HasLegibleColumns c.dialect k) {expr output : String}
    (h : c.IsColumn expr output) : IsLegibleColumn k expr output := by
  obtain ⟨f, hf, rfl, rfl⟩ := h
  obtain ⟨hmem, hpersisted⟩ := List.mem_filter.mp hf
  obtain ⟨hexpr, hsingle⟩ := isFragment_columnSql hd hm hmem hpersisted
  exact ⟨hexpr, hsingle, isName_quote hd _⟩

end Columns

/-- The random keys of the built-in dialects are fragments. -/
theorem BuiltinDialect.isFragment_random (b : BuiltinDialect) :
    IsFragment b.marks b.dialect.random := by
  cases b with
  | sqlServer => exact ⟨["NEWID()"], by decide, by decide⟩
  | sqlServer2000 => exact ⟨["NEWID()"], by decide, by decide⟩
  | sqlite => exact ⟨["RANDOM()"], by decide, by decide⟩
  | postgres => exact ⟨["RANDOM()"], by decide, by decide⟩

/-! ### Drafted selects -/

namespace Query

variable {q : Query} {m : EntityMap} {k : Marks} {d d' : Draft} {select : Select}

section Drafts

variable (hd : IsScannable q.dialect k) (hm : m.HasLegibleColumns q.dialect k)

include hd hm

theorem isFragment_filterText {filter : Option String} (hsound : d.binds.Sound q.dialect)
    (h : q.filterText (q.scope m) d = .ok filter d') : ∀ text ∈ filter, IsFragment k text := by
  rw [filterText] at h
  cases hfilter : q.filter with
  | none =>
    rw [hfilter] at h
    obtain ⟨rfl, -⟩ := pure_eq_ok.mp h
    intro text htext
    cases htext
  | some e =>
    rw [hfilter] at h
    exact Scope.isFragment_filterSql hd hm hsound h

/-- The items of a select list and the filter after them are made of fragments: the select list
binds nothing. -/
theorem isLegible_clauses {items : List SelectItem} {d₁ : Draft} {filter : Option String}
    (hsound : d.binds.Sound q.dialect)
    (hitems : (q.scope m).selectItems q.selection d = .ok items d₁)
    (hfilter : q.filterText (q.scope m) d₁ = .ok filter d') :
    (∀ i ∈ items, IsLegibleColumn k i.expr i.output) ∧ ∀ text ∈ filter, IsFragment k text := by
  have hbinds : d₁.binds = d.binds :=
    binds_of_result ((q.scope m).selectItems_result q.selection d) hitems
  exact ⟨fun i hi => (Scope.isColumn_selectItems hitems i hi).isLegible hd hm,
    isFragment_filterText hd hm (hbinds ▸ hsound) hfilter⟩

theorem isLegible_listSelect (hrandom : IsFragment k q.dialect.random)
    (hsound : d.binds.Sound q.dialect) {top : Nat} {distinct random : Bool}
    (h : q.listSelect top distinct random (q.scope m) d = .ok select d') : select.IsLegible k := by
  obtain ⟨items, d₁, hitems, h⟩ := bind_eq_ok.mp h
  obtain ⟨filter, d₂, hfilter, h⟩ := bind_eq_ok.mp h
  obtain ⟨hcolumns, hfiltered⟩ := isLegible_clauses hd hm hsound hitems hfilter
  have hlist : ∀ column ∈ items.map (·.column), column.IsLegible k := by
    intro column hcolumn
    obtain ⟨i, hi, rfl⟩ := List.mem_map.mp hcolumn
    exact SelectItem.isLegible_column (hcolumns i hi)
  have hsource : IsName k (q.source (q.scope m)) := isName_quote hd _
  cases random with
  | true =>
    have hkey : ∀ i ∈ [randomItem q.dialect], IsFragment k i.expr :=
      List.forall_mem_singleton.mpr hrandom
    cases distinct with
    | true =>
      obtain ⟨rfl, -⟩ := pure_eq_ok.mp h
      exact .derived (.table hsource ⟨hlist, hfiltered, nofun⟩)
        (isName_of_isOrdinary hd.quotesWords rfl rfl (by decide)) ⟨nofun, nofun, hkey⟩
    | false =>
      obtain ⟨rfl, -⟩ := pure_eq_ok.mp h
      exact .table hsource ⟨hlist, hfiltered, hkey⟩
  | false =>
    obtain ⟨order, d₃, horder, h⟩ := bind_eq_ok.mp h
    obtain ⟨rfl, -⟩ := pure_eq_ok.mp h
    refine .table hsource ⟨hlist, hfiltered, fun i hi => ?_⟩
    exact ((Scope.isColumn_orderItems horder i hi).isLegible hd hm).fragment

theorem isLegible_pageSelect (hsound : d.binds.Sound q.dialect) {size index : Nat}
    {distinct : Bool} (h : q.pageSelect size index distinct (q.scope m) d = .ok select d') :
    select.IsLegible k := by
  obtain ⟨items, d₁, hitems, h⟩ := bind_eq_ok.mp h
  obtain ⟨filter, d₂, hfilter, h⟩ := bind_eq_ok.mp h
  obtain ⟨order, d₃, horder, h⟩ := bind_eq_ok.mp h
  obtain ⟨hcolumns, hfiltered⟩ := isLegible_clauses hd hm hsound hitems hfilter
  have hordered := isColumn_pageOrder (Scope.isColumn_selectItems hitems) horder
  let spec : PageSpec :=
    { source := q.source (q.scope m), distinct, items, filter, order, size
      index := if index = 0 then 1 else index }
  have hspec : spec.IsLegible k :=
    ⟨isName_quote hd _, hcolumns, hfiltered, fun i hi => (hordered i hi).isLegible hd hm⟩
  cases hpage : q.dialect.pageMethod.page spec with
  | error e =>
    rw [hpage] at h
    cases h
  | ok s =>
    rw [hpage] at h
    obtain ⟨rfl, -⟩ := pure_eq_ok.mp h
    exact hspec.page hd.quotesWords hpage

theorem isLegible_countSelect (hsound : d.binds.Sound q.dialect) {distinct : Bool}
    (h : q.countSelect distinct (q.scope m) d = .ok select d') : select.IsLegible k := by
  have hsource : IsName k (q.source (q.scope m)) := isName_quote hd _
  have hcount : ∀ column ∈ [SelectColumn.expr countColumn none], column.IsLegible k := by
    have hzero : HasWords k (" " ++ "0") ["0"] :=
      .word hd.quotesWords (isWord_of_isOrdinary hd.quotesWords rfl)
    have hcall : IsWord k countColumn := hzero.isWord_call hd.quotesWords (f := "COUNT") rfl
    have hfragment : IsFragment k countColumn :=
      ⟨[countColumn], .word hd.quotesWords hcall, by decide⟩
    exact List.forall_mem_singleton.mpr (SelectColumn.isLegible_unlabeled hfragment (by decide))
  rw [countSelect] at h
  split at h
  · obtain ⟨items, d₁, hitems, h⟩ := bind_eq_ok.mp h
    obtain ⟨filter, d₂, hfilter, h⟩ := bind_eq_ok.mp h
    obtain ⟨rfl, -⟩ := pure_eq_ok.mp h
    obtain ⟨hcolumns, hfiltered⟩ := isLegible_clauses hd hm hsound hitems hfilter
    refine .derived (.table hsource ⟨fun column hcolumn => ?_, hfiltered, List.forall_mem_nil _⟩)
      (isName_of_isOrdinary hd.quotesWords rfl rfl (by decide))
      (SelectBody.isLegible_of_columns hcount)
    obtain ⟨i, hi, rfl⟩ := List.mem_map.mp hcolumn
    exact SelectItem.isLegible_column (hcolumns i hi)
  · obtain ⟨filter, d₂, hfilter, h⟩ := bind_eq_ok.mp h
    obtain ⟨rfl, -⟩ := pure_eq_ok.mp h
    exact .table hsource
      ⟨hcount, isFragment_filterText hd hm hsound hfilter, List.forall_mem_nil _⟩

end Drafts

/-! ### Legible queries -/

/-- The dialect can be scanned, and computed columns and the random key are fragments of a
statement. -/
structure IsLegible (q : Query) (k : Marks) : Prop where
  scannable : IsScannable q.dialect k
  columns : q.entity.HasLegibleColumns q.dialect k
  random : IsFragment k q.dialect.random

/-- Under a built-in dialect it is enough that computed columns are fragments. -/
theorem isLegible_builtin {b : BuiltinDialect} (hq : q.dialect = b.dialect)
    (hentity : q.entity.HasLegibleColumns q.dialect b.marks) : q.IsLegible b.marks where
  scannable := hq ▸ isScannable_builtin b
  columns := hentity
  random := hq ▸ b.isFragment_random

namespace IsLegible

variable {binds : List BindSlot} (h : q.IsLegible k)

include h

theorem isReadFrom_of_draft {body : Scope → Drafting Select}
    (hbody : ∀ m d d', m.HasLegibleColumns q.dialect k → d.binds.Sound q.dialect →
      body (q.scope m) d = .ok select d' → select.IsLegible k)
    (hdraft : q.draft body = .ok (select, binds)) :
    select.IsReadFrom k q.dialect.boundStyle (select.toSql q.dialect.boundStyle) := by
  obtain ⟨m, d, hm, hrun, -⟩ := draft_eq_ok.mp hdraft
  have hlegible := hbody m _ d (h.columns.map hm) (BindTable.sound_empty q.dialect q.index) hrun
  exact hlegible.isReadFrom h.scannable.quotesWords q.dialect.boundStyle

/-- **Lists are read back from their text.** -/
theorem isReadFrom_list {top : Nat} {distinct random : Bool}
    (hdraft : q.draft (q.listSelect top distinct random) = .ok (select, binds)) :
    select.IsReadFrom k q.dialect.boundStyle (select.toSql q.dialect.boundStyle) :=
  h.isReadFrom_of_draft (fun _ _ _ hm hsound hrun =>
    isLegible_listSelect h.scannable hm h.random hsound hrun) hdraft

/-- **Pages are read back from their text.** -/
theorem isReadFrom_pageSelect {size index : Nat} {distinct : Bool}
    (hdraft : q.draft (q.pageSelect size index distinct) = .ok (select, binds)) :
    select.IsReadFrom k q.dialect.boundStyle (select.toSql q.dialect.boundStyle) :=
  h.isReadFrom_of_draft (fun _ _ _ hm hsound hrun =>
    isLegible_pageSelect h.scannable hm hsound hrun) hdraft

/-- So is a page of no rows, which is the whole list. -/
theorem isReadFrom_pageBody {size index : Nat} {distinct : Bool}
    (hdraft : q.draft (q.pageBody size index distinct) = .ok (select, binds)) :
    select.IsReadFrom k q.dialect.boundStyle (select.toSql q.dialect.boundStyle) := by
  by_cases hsize : size = 0
  · rw [pageBody, if_pos hsize] at hdraft
    exact h.isReadFrom_list hdraft
  · rw [pageBody, if_neg hsize] at hdraft
    exact h.isReadFrom_pageSelect hdraft

/-- **Counts are read back from their text.** -/
theorem isReadFrom_count {distinct : Bool}
    (hdraft : q.draft (q.countSelect distinct) = .ok (select, binds)) :
    select.IsReadFrom k q.dialect.boundStyle (select.toSql q.dialect.boundStyle) :=
  h.isReadFrom_of_draft (fun _ _ _ hm hsound hrun =>
    isLegible_countSelect h.scannable hm hsound hrun) hdraft

end IsLegible

end Query

end EntitySql
