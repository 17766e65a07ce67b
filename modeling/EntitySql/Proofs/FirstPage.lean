import EntitySql.Proofs.PageOrder

/-!
# The first page as a list

The first page is a bounded list: under every method it comes to the text and the binds of the
list of as many rows, for the query that orders by the tie-break as well. The main statement,
`firstPage_eq_list`, adds the tie-break with the same calls that a caller has: `orderingBy` for each
member, ascending, unless its column is ordered by already.

A page and a list are drafted along different ways, and the tie-break of distinct rows is made from
the items of the select list, while the list reads members from scratch. Both come to the same
items, because a column has one expression and one output whether it is selected or ordered by
(`selectedItem_eq`).
-/

namespace EntitySql

/-! ### Members that are missing -/

namespace EntityMap

/-- The fields that break the ties of a page: the selected ones if distinct rows of a select list
are read, or else the key. -/
def tieBreakFields (m : EntityMap) (distinct : Bool) (selected : List MappedField) :
    List MappedField :=
  if distinct = true ∧ selected ≠ [] then selected else m.key.toList

/-- The fields that break ties are stored, if the selected ones are. -/
theorem stored_of_tieBreakFields {e : EntityDecl} (m : EntityMap) (hm : ofDecl e = .ok m)
    {distinct : Bool} {selected : List MappedField}
    (hselected : ∀ f ∈ selected, f ∈ m.fields.filter (·.column.isPersisted)) :
    ∀ f ∈ m.tieBreakFields distinct selected, f ∈ m.fields.filter (·.column.isPersisted) := by
  rw [tieBreakFields]
  split
  · exact hselected
  · exact fun f hf => key_mem_stored hm (Option.mem_toList.mp hf)

end EntityMap

namespace Scope

/-- The fields whose columns are not ordered by yet, the first one for each column. -/
def missingFields (c : Scope) (ordered : List String) (fs : List MappedField) :
    List MappedField :=
  firstOfEach c.columnSql (fs.filter fun f => c.columnSql f ∉ ordered)

variable {c : Scope}

theorem missingFields_sublist {ordered : List String} {fs : List MappedField} :
    (c.missingFields ordered fs).Sublist fs :=
  (firstOfEach_sublist _ _).trans List.filter_sublist

/-- A selected column is ordered by as its member is. -/
theorem selectedItem_eq (f : MappedField) :
    Query.selectedItem (c.selectItem true f) = c.orderItemOf (f, true) := by
  rw [Query.selectedItem, expr_selectItem, output_selectItem, ← output_orderItemOf (f, true)]
  rfl

/-- The new items of fields are the items of the missing fields. -/
theorem newItems_map (order : List OrderItem) (fs : List MappedField) :
    newItems order (fs.map fun f => c.orderItemOf (f, true))
      = (c.missingFields (order.map (·.expr)) fs).map fun f => c.orderItemOf (f, true) := by
  rw [newItems, List.filter_map, firstOfEach_map]
  rfl

theorem tieBreak_eq (distinct : Bool) (selected : List MappedField) :
    c.tieBreak distinct (selected.map (c.selectItem true))
      = (c.map.tieBreakFields distinct selected).map fun f => c.orderItemOf (f, true) := by
  have hcollapsed : IsCollapsed distinct (selected.map (c.selectItem true)) ↔
      distinct = true ∧ selected ≠ [] := by
    rw [isCollapsed_iff, ne_eq, ne_eq, List.map_eq_nil_iff]
  rw [tieBreak, EntityMap.tieBreakFields]
  by_cases h : distinct = true ∧ selected ≠ []
  · rw [if_pos (hcollapsed.mpr h), if_pos h, List.map_map]
    exact List.map_congr_left fun f _ => selectedItem_eq f
  · rw [if_neg (hcollapsed.not.mpr h), if_neg h]

/-- The entries of two orderings one after the other have the fields of both. -/
theorem orderFields_append {ks ls : List SortKey} {fs gs : List (MappedField × Bool)}
    (hks : c.orderFields ks = .ok fs) (hls : c.orderFields ls = .ok gs) :
    c.orderFields (ks ++ ls) = .ok (fs ++ gs) := by
  induction ks generalizing fs with
  | nil =>
    cases hks
    exact hls
  | cons k ks ih =>
    obtain ⟨first, rest, hfirst, hrest, rfl⟩ := both_eq_ok.mp hks
    rw [List.cons_append, List.append_assoc]
    exact both_eq_ok.mpr ⟨first, rest ++ gs, hfirst, ih hrest, rfl⟩

end Scope

namespace Query

open Drafting

variable {q : Query}

/-- Adds members to the ordering, each of them ascending. -/
def orderingByMembers (q : Query) (fs : List MappedField) : Query :=
  fs.foldl (fun q f => q.orderingBy (.ofMember f.member) true) q

theorem orderingByMembers_eq (q : Query) (fs : List MappedField) :
    q.orderingByMembers fs
      = { q with order := q.order ++ fs.map fun f => ⟨.ofMember f.member, true⟩ } := by
  induction fs generalizing q with
  | nil => rw [orderingByMembers, List.foldl_nil, List.map_nil, List.append_nil]
  | cons f fs ih =>
    rw [orderingByMembers, List.foldl_cons, ← orderingByMembers, ih, orderingBy, List.map_cons]
    simp only [List.append_assoc, List.singleton_append]

/-! ### Bounded lists -/

/-- A bounded list is the select of its clauses with the bound. -/
theorem ClauseRun.listSelect_bounded {c : Scope} {d : Draft} (r : ClauseRun q c d) {size : Nat}
    (hsize : 1 ≤ size) (distinct : Bool) :
    q.listSelect size distinct false c d
      = .ok (.table (q.source c) { r.body distinct with limit := some size }) r.ordered := by
  have hlimit : (if size = 0 then none else some size) = some size := if_neg (by omega)
  refine bind_eq_ok.mpr ⟨r.items, r.selected, r.run_items, bind_eq_ok.mpr
    ⟨r.filter, r.filtered, r.run_filter, bind_eq_ok.mpr ⟨r.order, r.ordered, r.run_order, ?_⟩⟩⟩
  rw [hlimit]
  rfl

/-- The statement of a bounded list. -/
theorem list_of_clauseRun {m : EntityMap} (r : ClauseRun q ⟨m, q.dialect⟩ (Draft.fresh q.index))
    (hm : EntityMap.ofDecl q.entity = .ok m) {size : Nat} (hsize : 1 ≤ size) (distinct : Bool) :
    q.list size distinct false = .ok
      ⟨(Select.table (q.source ⟨m, q.dialect⟩)
          { r.body distinct with limit := some size }).toSql q.dialect.boundStyle,
        r.filtered.binds.slots⟩ := by
  refine selectStatement_eq_ok.mpr ⟨_, _, draft_eq_ok.mpr ⟨m, r.ordered, hm,
    r.listSelect_bounded hsize distinct, rfl⟩, ?_⟩
  rw [r.binds_ordered]

/-- The clauses of a query that orders by more members. -/
theorem ClauseRun.exists_append {m : EntityMap} (hm : EntityMap.ofDecl q.entity = .ok m)
    (r : ClauseRun q ⟨m, q.dialect⟩ (Draft.fresh q.index)) {fs : List MappedField}
    (hfs : ∀ f ∈ fs, f ∈ m.fields.filter (·.column.isPersisted)) :
    ∃ r' : ClauseRun { q with order := q.order ++ fs.map fun f => ⟨.ofMember f.member, true⟩ }
        ⟨m, q.dialect⟩ (Draft.fresh q.index),
      r'.items = r.items ∧ r'.filter = r.filter ∧ r'.filtered = r.filtered ∧
      r'.order = r.order ++ fs.map fun f => Scope.orderItemOf ⟨m, q.dialect⟩ (f, true) := by
  obtain ⟨gs, hgs, horder⟩ := Scope.orderItems_eq_ok r.run_order
  have hfields := Scope.orderFields_append hgs (Scope.orderFields_ofMember hm hfs)
  have hordered : Scope.orderedItems ⟨m, q.dialect⟩
      (q.order ++ fs.map fun f => ⟨.ofMember f.member, true⟩)
        = .ok (r.order ++ fs.map fun f => Scope.orderItemOf ⟨m, q.dialect⟩ (f, true)) := by
    rw [Scope.orderedItems, hfields, Except.map, List.map_append, horder, List.map_map]
    rfl
  obtain ⟨ordered, hrun, -⟩ := (Scope.orderedItems_eq_ok r.filtered).mp hordered
  exact ⟨⟨r.items, r.filter, _, r.selected, r.filtered, ordered, r.run_items, r.run_filter, hrun⟩,
    rfl, rfl, rfl, rfl⟩

/-- **The first page is a list.** Wherever the first page can be made, its text and its binds are
those of the bounded list of the same query, ordered by the members of the tie-break as well: the
key, or, if distinct rows of a select list are read, each selected member in turn, always
ascending, and only if the column is not ordered by yet. -/
theorem firstPage_eq_list {size index : Nat} {distinct : Bool} {statement : Statement}
    (hsize : 1 ≤ size) (hindex : index ≤ 1)
    (hpage : q.page size index distinct = .ok statement) :
    ∃ m selected requested,
      let c : Scope := ⟨m, q.dialect⟩
      EntityMap.ofDecl q.entity = .ok m ∧
      c.allLeafFields .projection q.selection = .ok selected ∧
      q.draft (·.orderItems q.order) = .ok (requested, []) ∧
      let added := c.missingFields (requested.map (·.expr))
        (m.tieBreakFields distinct selected)
      (q.orderingByMembers added).list size distinct false = .ok statement := by
  obtain ⟨m, select, r, hm, -, hselect, -, rfl⟩ := exists_paged hsize hpage
  obtain ⟨selected, hselected, hitems⟩ := Scope.selectItems_eq_ok r.run_items
  refine ⟨m, selected, r.order, hm, hselected, r.draft_order hm, ?_⟩
  intro added
  have hstored : ∀ f ∈ added, f ∈ m.fields.filter (·.column.isPersisted) := fun f hf =>
    m.stored_of_tieBreakFields hm (Scope.stored_of_allLeafFields q.selection hselected) f
      (Scope.missingFields_sublist.subset hf)
  obtain ⟨r', hitems', hfilter', hfiltered', horder'⟩ := r.exists_append hm hstored
  have hfirst : select = (r.spec size index distinct).first :=
    Except.ok.inj (hselect.symm.trans (PageMethod.page_first _
      (Nat.max_le.mpr ⟨hindex, Nat.le_refl 1⟩)))
  have hbody : r'.body distinct = (r.spec size index distinct).body := by
    rw [ClauseRun.body, hitems', hfilter', horder', PageSpec.body, ClauseRun.spec]
    dsimp only
    rw [← hitems, Scope.tieBreak_eq, Scope.newItems_map]
  have hlist := list_of_clauseRun r' hm hsize distinct
  rw [orderingByMembers_eq, hlist, hbody, hfiltered', hfirst]
  rfl

end Query

/-- The dearest items by name, with the totals that occur. -/
def namedTotals : Query :=
  { dearestFirst with
    selection := [.ofMembers ["Item", "Total"], .ofMember "Name"]
    order := [⟨.ofMember "Name", false⟩] }

/-- The first page of them is the list that is ordered by the total as well, a computed column. -/
theorem firstPage_eq_list_namedTotals : ∃ statement,
    namedTotals.page 5 1 true = .ok statement ∧
      (namedTotals.orderingBy (.ofMember "Total") true).list 5 true false = .ok statement := by
  obtain ⟨statement, hpage⟩ : ∃ statement, namedTotals.page 5 1 true = .ok statement := ⟨_, rfl⟩
  obtain ⟨m, selected, requested, hm, hselected, horder, hlist⟩ :=
    Query.firstPage_eq_list (by decide) (by decide) hpage
  obtain rfl := EntityMap.eq_of_ofDecl hm
  obtain rfl := Except.ok.inj (hselected.symm.trans rfl)
  obtain ⟨rfl, -⟩ := Prod.mk.inj (Except.ok.inj (horder.symm.trans rfl))
  exact ⟨statement, hpage, hlist⟩

end EntitySql
