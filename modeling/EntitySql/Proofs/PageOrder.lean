import EntitySql.Proofs.CountedPages
import EntitySql.Proofs.Exports
import EntitySql.Proofs.Restriction

/-!
# The ordering of a page

A page is only determined if its ordering is total, so a tie-break is appended to the requested
ordering: the key, or, for a page of distinct rows over a select list, the selected columns. Items
whose expression is there already are left out.

`Scope.pageOrdering` gives the whole ordering, or the error for which there is none, from the items
of the clauses alone; the drafted ordering comes to it (`pageOrder_result`), and from this the
whole page is what its method makes of the clauses (`page_of_clauseRun`). The main statement,
`page_ordered`, says that every page is ordered by the requested items with a tie-break after
them, and that rows which agree in this ordering agree in the key, or in everything that is
selected. The text of a page says all of this.
-/

namespace EntitySql

/-! ### Appending new items -/

section FirstOfEach

variable {α β κ : Type} [DecidableEq κ]

/-- Leaving out some keys commutes with keeping the first item for each key. -/
theorem firstOfEach_filter {key : α → κ} {P : α → Bool} (hP : ∀ a b, key a = key b → P a = P b)
    (l : List α) : firstOfEach key (l.filter P) = (firstOfEach key l).filter P := by
  induction l with
  | nil => rfl
  | cons a l ih =>
    by_cases ha : P a = true
    · rw [List.filter_cons_of_pos ha, firstOfEach, firstOfEach, List.filter_cons_of_pos ha, ih,
        List.filter_comm]
    · -- an item with the key of `a` is left out in any case
      have hkey : ∀ b, (P b && decide (key b ≠ key a)) = P b := by
        intro b
        by_cases hb : key b = key a
        · simp [hb, hP b a hb, ha]
        · simp [hb]
      rw [List.filter_cons_of_neg ha, firstOfEach, List.filter_cons_of_neg ha, ih,
        List.filter_filter]
      simp only [hkey]

theorem firstOfEach_map (key : β → κ) (f : α → β) (l : List α) :
    firstOfEach key (l.map f) = (firstOfEach (fun a => key (f a)) l).map f := by
  induction l with
  | nil => rfl
  | cons a l ih =>
    rw [List.map_cons, firstOfEach, firstOfEach, List.map_cons, ih, List.filter_map]
    rfl

end FirstOfEach

/-- Of some items those whose expression an ordering does not have, the first one for each
expression. -/
def newItems (order items : List OrderItem) : List OrderItem :=
  firstOfEach (·.expr) (items.filter fun i => i.expr ∉ order.map (·.expr))

section NewItems

variable {order items : List OrderItem}

theorem newItems_sublist : (newItems order items).Sublist items :=
  (firstOfEach_sublist _ _).trans List.filter_sublist

theorem nodup_newItems : ((newItems order items).map (·.expr)).Nodup :=
  nodup_map_firstOfEach _ _

theorem notMem_of_mem_newItems {o : OrderItem} (h : o ∈ newItems order items) :
    o.expr ∉ order.map (·.expr) :=
  of_decide_eq_true (List.mem_filter.mp ((firstOfEach_sublist _ _).subset h)).2

/-- With the new items after it, an ordering has the expressions of all items. -/
theorem expr_mem_append_newItems {i : OrderItem} (h : i ∈ items) :
    i.expr ∈ (order ++ newItems order items).map (·.expr) := by
  rw [List.map_append, List.mem_append]
  by_cases hi : i.expr ∈ order.map (·.expr)
  · exact .inl hi
  · refine .inr ((mem_map_firstOfEach _ _).mpr (List.mem_map_of_mem ?_))
    exact List.mem_filter.mpr ⟨h, decide_eq_true hi⟩

theorem newItems_cons_of_mem {i : OrderItem} (h : i.expr ∈ order.map (·.expr)) :
    newItems order (i :: items) = newItems order items := by
  rw [newItems, List.filter_cons_of_neg (by simpa using h), newItems]

theorem newItems_cons_of_notMem {i : OrderItem} (h : i.expr ∉ order.map (·.expr)) :
    newItems order (i :: items) = i :: newItems (order ++ [i]) items := by
  have hfilter : (items.filter fun j => j.expr ∉ (order ++ [i]).map (·.expr))
      = (items.filter fun j => j.expr ∉ order.map (·.expr)).filter fun j => j.expr ≠ i.expr := by
    rw [List.filter_filter]
    refine List.filter_congr fun j _ => ?_
    simp only [List.map_append, List.mem_append, List.map_singleton, List.mem_singleton]
    simpa using Bool.and_comm _ _
  have hexpr : ∀ j k : OrderItem, j.expr = k.expr →
      decide (j.expr ≠ i.expr) = decide (k.expr ≠ i.expr) := fun j k hjk => by rw [hjk]
  rw [newItems, List.filter_cons_of_pos (by simpa using h), firstOfEach, newItems, hfilter,
    firstOfEach_filter hexpr]

end NewItems

/-- Appending items one by one, each if it is new, appends the new ones. -/
theorem Query.appendNew_eq (order items : List OrderItem) :
    appendNew order items = order ++ newItems order items := by
  fun_induction appendNew order items with
  | case1 order => exact (List.append_nil order).symm
  | case2 order i is hhas ih =>
    rw [ih, newItems_cons_of_mem]
    obtain ⟨o, ho, heq⟩ := List.any_eq_true.mp hhas
    exact beq_iff_eq.mp heq ▸ List.mem_map_of_mem ho
  | case3 order i is hhas ih =>
    rw [ih, newItems_cons_of_notMem, List.append_assoc, List.singleton_append]
    intro hmem
    obtain ⟨o, ho, heq⟩ := List.mem_map.mp hmem
    exact hhas (List.any_eq_true.mpr ⟨o, ho, beq_iff_eq.mpr heq⟩)

/-! ### The tie-break -/

/-- The key of a map is a stored field. -/
theorem EntityMap.key_mem_stored {e : EntityDecl} {m : EntityMap} {key : MappedField}
    (hm : ofDecl e = .ok m) (hkey : m.key = some key) :
    key ∈ m.fields.filter (·.column.isPersisted) := by
  refine List.mem_filter.mpr ⟨key_mem_fields hm hkey, ?_⟩
  obtain rfl := eq_of_ofDecl hm
  obtain ⟨decl, hdecl, rfl⟩ := Option.map_eq_some_iff.mp hkey
  have hisKey : decl.isKey = true := List.find?_some hdecl
  cases decl with
  | key _ | naturalKey _ => rfl
  | field _ | column _ _ | transient _ | relatedSet _ => cases hisKey

/-- A page of distinct rows over a select list. It may be ordered by selected columns only. -/
abbrev IsCollapsed (distinct : Bool) (items : List SelectItem) : Prop :=
  (distinct && !items.isEmpty) = true

theorem isCollapsed_iff {distinct : Bool} {items : List SelectItem} :
    IsCollapsed distinct items ↔ distinct = true ∧ items ≠ [] := by
  simp

namespace Scope

variable {c : Scope}

/-- What breaks the ties of a page. -/
def tieBreak (c : Scope) (distinct : Bool) (items : List SelectItem) : List OrderItem :=
  if IsCollapsed distinct items then items.map Query.selectedItem
  else c.map.key.toList.map fun key => c.orderItemOf (key, true)

/-- Why a page cannot be ordered: it orders by a column that is not selected, or by nothing. -/
def orderRefusal? (c : Scope) (distinct : Bool) (items : List SelectItem)
    (requested : List OrderItem) : Option SqlError :=
  if IsCollapsed distinct items then
    (requested.find? fun o => !(items.any fun i => i.output == o.output)).map fun o =>
      .orderNotSelected o.expr
  else if c.map.key = none ∧ requested = [] then some (.noPageOrder c.map.entity)
  else none

/-- The ordering of a page: the requested one with what is new in the tie-break. -/
def pageOrdering (c : Scope) (distinct : Bool) (items : List SelectItem)
    (requested : List OrderItem) : Except SqlError (List OrderItem) :=
  match c.orderRefusal? distinct items requested with
  | some e => .error e
  | none => .ok (requested ++ newItems requested (c.tieBreak distinct items))

/-- Stored members that are ordered by, ascending, are the fields that they name. -/
theorem orderFields_ofMember {e : EntityDecl} (hm : EntityMap.ofDecl e = .ok c.map)
    {fs : List MappedField} (hfs : ∀ f ∈ fs, f ∈ c.map.fields.filter (·.column.isPersisted)) :
    c.orderFields (fs.map fun f => ⟨.ofMember f.member, true⟩) = .ok (fs.map (·, true)) := by
  induction fs with
  | nil => rfl
  | cons f fs ih =>
    obtain ⟨hf, hrest⟩ := List.forall_mem_cons.mp hfs
    obtain ⟨hmem, hpersisted⟩ := List.mem_filter.mp hf
    have hleaf : c.leafFields .ordering (.ofMember f.member) = .ok [f] := by
      rw [Expr.ofMember, leafFields, ← Expr.ofMember, resolve_ofMember hm hmem hpersisted]
      rfl
    exact both_eq_ok.mpr ⟨[f], fs.map (·, true), hleaf, ih hrest, rfl⟩

/-- The ordering by the key is the item of the key. -/
theorem orderedItems_key {e : EntityDecl} (hm : EntityMap.ofDecl e = .ok c.map)
    {key : MappedField} (hkey : c.map.key = some key) :
    c.orderedItems [⟨.ofMember key.member, true⟩] = .ok [c.orderItemOf (key, true)] := by
  have hstored := EntityMap.key_mem_stored hm hkey
  have hfields := orderFields_ofMember hm (List.forall_mem_singleton.mpr hstored)
  exact congrArg (Except.map (·.map c.orderItemOf)) hfields

end Scope

namespace Drafting

variable {α β : Type} {p : Drafting α} {k : α → Drafting β} {a : α} {e : SqlError} {d d' : Draft}
  {t : BindTable}

/-- A program that goes on after another one has the result of what comes after it. -/
theorem result_bind_of_ok (h : p d = .ok a d') : (p >>= k).result d = (k a).result d' := by
  simp only [result, bind, EStateM.bind, h]

/-- A program that does not go on has the result of the one that failed. -/
theorem result_bind_of_error (h : p.result d = (.error e, t)) :
    (p >>= k).result d = (.error e, t) := by
  rw [result] at h
  cases hrun : p d with
  | ok a d' =>
    rw [hrun] at h
    cases h
  | error e' d' =>
    rw [hrun] at h
    obtain ⟨herror, rfl⟩ := Prod.mk.inj h
    obtain rfl := Except.error.inj herror
    simp only [result, bind, EStateM.bind, hrun]

end Drafting

/-- An ordering is written in the same way over every draft. -/
theorem Scope.orderedItems_eq_ok {c : Scope} {keys : List SortKey} {order : List OrderItem}
    (d : Draft) : c.orderedItems keys = .ok order ↔
      ∃ d', c.orderItems keys d = .ok order d' ∧ d'.binds = d.binds := by
  rw [← Drafting.result_eq_ok, orderItems_result, Prod.mk.injEq, and_iff_left rfl]

namespace Query

open Drafting

variable {q : Query} {c : Scope} {d : Draft}

/-- The drafted ordering of a page is that of the requested items, and binds nothing. -/
theorem pageOrder_result (hm : EntityMap.ofDecl q.entity = .ok c.map) {requested : List OrderItem}
    (h : c.orderedItems q.order = .ok requested) (distinct : Bool) (items : List SelectItem) :
    (q.pageOrder distinct items c).result d
      = (c.pageOrdering distinct items requested, d.binds) := by
  obtain ⟨e, hrun, hbinds⟩ := (Scope.orderedItems_eq_ok d).mp h
  rw [pageOrder, result_bind_of_ok hrun, ← hbinds, Scope.pageOrdering, Scope.orderRefusal?,
    Scope.tieBreak]
  by_cases hcollapsed : IsCollapsed distinct items
  · rw [if_pos hcollapsed, if_pos hcollapsed, if_pos hcollapsed]
    cases hfind : requested.find? fun o => !(items.any fun i => i.output == o.output) with
    | some o => rfl
    | none =>
      rw [← appendNew_eq]
      rfl
  · rw [if_neg hcollapsed, if_neg hcollapsed, if_neg hcollapsed]
    cases hkey : c.map.key with
    | some key =>
      obtain ⟨u, htie, hu⟩ := (Scope.orderedItems_eq_ok e).mp (Scope.orderedItems_key hm hkey)
      dsimp only
      rw [result_bind_of_ok htie, ← hu, ← appendNew_eq]
      rfl
    | none =>
      cases requested with
      | nil => rfl
      | cons o os =>
        rw [if_neg (by simp), ← appendNew_eq]
        rfl

/-! ### Pages from their clauses -/

/-- What a query drafts is the result of the program over its map. -/
theorem draft_of_result {α : Type} {m : EntityMap} (hm : EntityMap.ofDecl q.entity = .ok m)
    (body : Scope → Drafting α) {x : Except SqlError α} {t : BindTable}
    (h : (body ⟨m, q.dialect⟩).result (Draft.fresh q.index) = (x, t)) :
    q.draft body = x.map (·, t.slots) := by
  rw [result] at h
  rw [draft, hm]
  dsimp only
  rw [EStateM.run]
  cases hrun : body ⟨m, q.dialect⟩ (Draft.fresh q.index) with
  | ok a d =>
    rw [hrun] at h
    obtain ⟨rfl, rfl⟩ := Prod.mk.inj h
    rfl
  | error e d =>
    rw [hrun] at h
    obtain ⟨rfl, rfl⟩ := Prod.mk.inj h
    rfl

/-- The statement of a select is written from what is drafted. -/
theorem selectStatement_eq (q : Query) (body : Scope → Drafting Select) :
    q.selectStatement body
      = (q.draft body).map fun (s, slots) => ⟨s.toSql q.dialect.boundStyle, slots⟩ := by
  rw [selectStatement, statement, draft, draft]
  cases EntityMap.ofDecl q.entity with
  | error e => rfl
  | ok m =>
    dsimp only
    rw [EStateM.run, EStateM.run]
    simp only [Functor.map, EStateM.map]
    cases body ⟨m, q.dialect⟩ (Draft.fresh q.index) <;> rfl

namespace ClauseRun

variable (r : ClauseRun q c d) (size index : Nat) (distinct : Bool)

theorem selectedItems_eq : c.selectedItems q.selection = .ok r.items :=
  (Prod.mk.inj ((c.selectItems_result q.selection d).symm.trans
    (result_eq_ok.mpr ⟨_, r.run_items, rfl⟩))).1

theorem orderedItems_eq : c.orderedItems q.order = .ok r.order :=
  (Scope.orderedItems_eq_ok r.filtered).mpr ⟨r.ordered, r.run_order, r.binds_ordered⟩

/-- What a page with these clauses is cut from; page 0 is page 1. -/
def spec : PageSpec where
  source := q.source c
  distinct := distinct
  items := r.items
  filter := r.filter
  order := r.order ++ newItems r.order (c.tieBreak distinct r.items)
  size := size
  index := max index 1

/-- The page with these clauses, or why there is none. -/
def paged : Except SqlError Select :=
  match c.orderRefusal? distinct r.items r.order with
  | some e => .error e
  | none => q.dialect.pageMethod.page (r.spec size index distinct)

/-- A page that is drafted is the page with the clauses of the query, and has their binds. -/
theorem pageSelect_result (hm : EntityMap.ofDecl q.entity = .ok c.map) :
    (q.pageSelect size index distinct c).result d
      = (r.paged size index distinct, r.filtered.binds) := by
  have hindex : (if index = 0 then 1 else index) = max index 1 := by
    split <;> omega
  have horder := pageOrder_result (d := r.filtered) hm r.orderedItems_eq distinct r.items
  rw [pageSelect, result_bind_of_ok r.run_items, result_bind_of_ok r.run_filter, paged]
  rw [Scope.pageOrdering] at horder
  cases hrefusal : c.orderRefusal? distinct r.items r.order with
  | some e =>
    rw [hrefusal] at horder
    exact result_bind_of_error horder
  | none =>
    rw [hrefusal] at horder
    obtain ⟨e, hrun, hbinds⟩ := result_eq_ok.mp horder
    rw [result_bind_of_ok hrun, hindex, ← hbinds]
    dsimp only
    rw [spec]
    cases q.dialect.pageMethod.page _ <;> rfl

end ClauseRun

section Drafts

variable {m : EntityMap} (r : ClauseRun q ⟨m, q.dialect⟩ (Draft.fresh q.index))
  (hm : EntityMap.ofDecl q.entity = .ok m)

include hm

/-- The select list is what can be drafted of it alone. -/
theorem ClauseRun.draft_items : q.draft (·.selectItems q.selection) = .ok (r.items, []) :=
  draft_of_result hm (·.selectItems q.selection) ((Scope.selectItems_result _ _ _).trans
    (congrArg (·, (Draft.fresh q.index).binds) r.selectedItems_eq))

/-- So is the requested ordering. -/
theorem ClauseRun.draft_order : q.draft (·.orderItems q.order) = .ok (r.order, []) :=
  draft_of_result hm (·.orderItems q.order) ((Scope.orderItems_result _ _ _).trans
    (congrArg (·, (Draft.fresh q.index).binds) r.orderedItems_eq))

/-- A page is written from the page with its clauses. -/
theorem draft_pageSelect (size index : Nat) (distinct : Bool) :
    q.draft (q.pageSelect size index distinct)
      = (r.paged size index distinct).map (·, r.filtered.binds.slots) :=
  draft_of_result hm _ (r.pageSelect_result size index distinct hm)

/-- The statement of a page, or why there is none. -/
theorem page_of_clauseRun {size : Nat} (hsize : 1 ≤ size) (index : Nat) (distinct : Bool) :
    q.page size index distinct = (r.paged size index distinct).map fun select =>
      ⟨select.toSql q.dialect.boundStyle, r.filtered.binds.slots⟩ := by
  rw [page, if_neg (by omega), selectStatement_eq, draft_pageSelect r hm]
  cases r.paged size index distinct <;> rfl

end Drafts

/-- A page that can be made has the clauses of the query, no refusal, and the select that its
method makes of them. -/
theorem exists_paged {size index : Nat} {distinct : Bool} {statement : Statement}
    (hsize : 1 ≤ size) (h : q.page size index distinct = .ok statement) :
    ∃ m select, ∃ r : ClauseRun q ⟨m, q.dialect⟩ (Draft.fresh q.index),
      EntityMap.ofDecl q.entity = .ok m ∧
      Scope.orderRefusal? ⟨m, q.dialect⟩ distinct r.items r.order = none ∧
      q.dialect.pageMethod.page (r.spec size index distinct) = .ok select ∧
      q.draft (q.pageSelect size index distinct) = .ok (select, r.filtered.binds.slots) ∧
      statement = ⟨select.toSql q.dialect.boundStyle, r.filtered.binds.slots⟩ := by
  have hbody : q.pageBody size index distinct = q.pageSelect size index distinct :=
    if_neg (by omega)
  rw [page_eq] at h
  obtain ⟨select, slots, hdraft, rfl⟩ := selectStatement_eq_ok.mp h
  obtain ⟨m, d, hm, hrun, rfl⟩ := draft_eq_ok.mp hdraft
  obtain ⟨r, hbinds, -⟩ := exists_clauseRun hrun
  rw [hbody] at hrun hdraft
  have hpaged : r.paged size index distinct = .ok select :=
    (Prod.mk.inj ((r.pageSelect_result size index distinct hm).symm.trans
      (result_eq_ok.mpr ⟨d, hrun, rfl⟩))).1
  rw [ClauseRun.paged] at hpaged
  cases hrefusal : Scope.orderRefusal? ⟨m, q.dialect⟩ distinct r.items r.order with
  | some e =>
    rw [hrefusal] at hpaged
    cases hpaged
  | none =>
    rw [hrefusal] at hpaged
    exact ⟨m, select, r, hm, hrefusal, hpaged, hbinds ▸ hdraft, by rw [hbinds]⟩

end Query

/-! ### Total orderings -/

/-- The orderings of a select, those of inner selects first. -/
def Select.orders : Select → List (List OrderItem)
  | .table _ body => [body.order]
  | .derived inner _ body => inner.orders ++ [body.order]

/-- The select is ordered in this way, or it is ordered so, then in reverse, and then in the
same way again, on the outputs of what it was ordered by first. -/
def Select.IsOrderedBy (order : List OrderItem) (s : Select) : Prop :=
  s.orders = [order] ∨
    s.orders = [order, order.map fun i => i.onOutput.flipped, order.map (·.onOutput)]

/-- Every method makes the first page in the same way. -/
theorem PageMethod.page_first (method : PageMethod) {p : PageSpec} (h : p.index ≤ 1) :
    method.page p = .ok p.first := by
  cases method with
  | offset => exact if_pos h
  | reversal => exact if_pos h

/-- A page is ordered in the way that it is asked for. -/
theorem PageMethod.isOrderedBy_page {method : PageMethod} {p : PageSpec} {s : Select}
    (h : method.page p = .ok s) : s.IsOrderedBy p.order := by
  cases method with
  | offset =>
    obtain ⟨-, rfl⟩ | ⟨-, -, -, rfl⟩ := PageSpec.byOffset_cases h <;> exact .inl rfl
  | reversal =>
    obtain ⟨-, rfl⟩ | ⟨-, -, -, -, -, rfl⟩ := PageSpec.byReversal_cases h
    · exact .inl rfl
    · exact .inr rfl

/-- What is appended to the requested ordering of a page. -/
structure BreaksTies (c : Scope) (distinct : Bool) (items : List SelectItem)
    (requested added : List OrderItem) : Prop where
  /-- Only the key is appended, or selected columns. -/
  drawn : added.Sublist (c.tieBreak distinct items)
  ascending : ∀ o ∈ added, o.ascending = true
  /-- No expression is ordered by that is ordered by before. -/
  fresh : ∀ o ∈ added, o.expr ∉ requested.map (·.expr)
  nodup : (added.map (·.expr)).Nodup
  nonempty : requested ++ added ≠ []
  key : ¬ IsCollapsed distinct items → ∀ key, c.map.key = some key →
    c.columnSql key ∈ (requested ++ added).map (·.expr)
  selected : IsCollapsed distinct items → ∀ i ∈ items,
    i.expr ∈ (requested ++ added).map (·.expr)

namespace Scope

variable {c : Scope} {distinct : Bool} {items : List SelectItem} {requested : List OrderItem}

theorem ascending_of_mem_tieBreak {o : OrderItem} (h : o ∈ c.tieBreak distinct items) :
    o.ascending = true := by
  rw [tieBreak] at h
  split at h
  · obtain ⟨i, -, rfl⟩ := List.mem_map.mp h
    rfl
  · obtain ⟨key, -, rfl⟩ := List.mem_map.mp h
    rfl

theorem columnSql_mem_order (hcollapsed : ¬ IsCollapsed distinct items) {key : MappedField}
    (hkey : c.map.key = some key) :
    c.columnSql key
      ∈ (requested ++ newItems requested (c.tieBreak distinct items)).map (·.expr) := by
  refine expr_mem_append_newItems (i := c.orderItemOf (key, true)) ?_
  rw [tieBreak, if_neg hcollapsed, hkey]
  exact List.mem_singleton.mpr rfl

theorem expr_mem_order (hcollapsed : IsCollapsed distinct items) {i : SelectItem}
    (hi : i ∈ items) :
    i.expr ∈ (requested ++ newItems requested (c.tieBreak distinct items)).map (·.expr) := by
  refine expr_mem_append_newItems (i := Query.selectedItem i) ?_
  rw [tieBreak, if_pos hcollapsed]
  exact List.mem_map_of_mem hi

/-- An ordering that is not refused is not empty. -/
theorem order_ne_nil (h : c.orderRefusal? distinct items requested = none) :
    requested ++ newItems requested (c.tieBreak distinct items) ≠ [] := by
  intro hempty
  have hnone : ∀ expr, expr
      ∉ (requested ++ newItems requested (c.tieBreak distinct items)).map (·.expr) := fun expr => by
    rw [hempty]
    exact List.not_mem_nil
  by_cases hcollapsed : IsCollapsed distinct items
  · obtain ⟨i, hi⟩ := List.exists_mem_of_ne_nil items (isCollapsed_iff.mp hcollapsed).2
    exact hnone _ (expr_mem_order hcollapsed hi)
  · cases hkey : c.map.key with
    | some key => exact hnone _ (columnSql_mem_order hcollapsed hkey)
    | none =>
      have hrequested : requested = [] := (List.append_eq_nil_iff.mp hempty).1
      rw [orderRefusal?, if_neg hcollapsed, if_pos ⟨hkey, hrequested⟩] at h
      cases h

/-- The new items of the tie-break break the ties of an ordering that is not refused. -/
theorem breaksTies (h : c.orderRefusal? distinct items requested = none) :
    BreaksTies c distinct items requested (newItems requested (c.tieBreak distinct items)) where
  drawn := newItems_sublist
  ascending _ ho := ascending_of_mem_tieBreak (newItems_sublist.subset ho)
  fresh _ ho := notMem_of_mem_newItems ho
  nodup := nodup_newItems
  nonempty := order_ne_nil h
  key hcollapsed _ hkey := columnSql_mem_order hcollapsed hkey
  selected hcollapsed _ hi := expr_mem_order hcollapsed hi

end Scope

/-! ### Rows that agree -/

section Agree

variable {V : Type} {E : Evaluator V} {r r' : Tuple V}

/-- Rows that agree in the expressions of a select list look alike. -/
theorem projectBy_congr {items : List SelectItem} (hitems : items ≠ [])
    (h : ∀ i ∈ items, E.value r i.expr = E.value r' i.expr) :
    projectBy E (items.map (·.column)) r = projectBy E (items.map (·.column)) r' := by
  have hcolumn : (fun i : SelectItem => i.column)
      = fun i => SelectColumn.expr i.expr i.label := rfl
  rw [hcolumn, projectBy_map_expr hitems, projectBy_map_expr hitems]
  exact List.map_congr_left fun i hi => by rw [h i hi]

theorem value_eq_of_mem_exprs {order : List OrderItem} {expr : String}
    (h : ∀ o ∈ order, E.value r o.expr = E.value r' o.expr) (hmem : expr ∈ order.map (·.expr)) :
    E.value r expr = E.value r' expr := by
  obtain ⟨o, ho, rfl⟩ := List.mem_map.mp hmem
  exact h o ho

end Agree

/-- **The ordering of a page** is total. Every page is ordered by the requested items, in the
requested order and directions, with new ascending items of the tie-break after them: the key of
the map, or, if distinct rows of a select list are read, the selected columns. So rows that agree
in everything that is ordered by agree in the key, or in all that is selected. The page is read back
from its text if computed columns are fragments. -/
theorem Query.page_ordered {q : Query} {size index : Nat} {distinct : Bool}
    {statement : Statement} (hsize : 1 ≤ size)
    (hpage : q.page size index distinct = .ok statement) :
    ∃ m items fields requested added select binds,
      let c : Scope := ⟨m, q.dialect⟩
      EntityMap.ofDecl q.entity = .ok m ∧
      q.draft (·.selectItems q.selection) = .ok (items, []) ∧
      c.orderFields q.order = .ok fields ∧
      q.draft (·.orderItems q.order) = .ok (requested, []) ∧
      requested.map (fun o => (o.expr, o.ascending))
        = fields.map (fun f => (c.columnSql f.1, f.2)) ∧
      q.draft (q.pageSelect size index distinct) = .ok (select, binds) ∧
      statement = ⟨select.toSql q.dialect.boundStyle, binds⟩ ∧
      select.IsOrderedBy (requested ++ added) ∧
      BreaksTies c distinct items requested added ∧
      (∀ {V : Type} (E : Evaluator V) (r r' : Tuple V),
        (∀ o ∈ requested ++ added, E.value r o.expr = E.value r' o.expr) →
          (¬ IsCollapsed distinct items → ∀ key, m.key = some key →
            E.value r (c.columnSql key) = E.value r' (c.columnSql key)) ∧
          (IsCollapsed distinct items →
            projectBy E (items.map (·.column)) r = projectBy E (items.map (·.column)) r')) ∧
      ∀ k, q.IsLegible k → select.IsReadFrom k q.dialect.boundStyle statement.sql := by
  obtain ⟨m, select, r, hm, hrefusal, hselect, hdraft, hstatement⟩ := exists_paged hsize hpage
  obtain ⟨fields, hfields, hrequested⟩ := Scope.orderItems_eq_ok r.run_order
  have hdirections : r.order.map (fun o => (o.expr, o.ascending))
      = fields.map (fun f => (Scope.columnSql ⟨m, q.dialect⟩ f.1, f.2)) := by
    rw [← hrequested, List.map_map]
    rfl
  have hbreaks := Scope.breaksTies hrefusal
  refine ⟨m, r.items, fields, r.order, _, select, _, hm, r.draft_items hm, hfields,
    r.draft_order hm, hdirections, hdraft, hstatement, PageMethod.isOrderedBy_page hselect,
    hbreaks, ?_, ?_⟩
  · intro V E row row' hagree
    constructor
    · intro hcollapsed key hkey
      exact value_eq_of_mem_exprs hagree (hbreaks.key hcollapsed key hkey)
    · intro hcollapsed
      exact projectBy_congr (isCollapsed_iff.mp hcollapsed).2 fun i hi =>
        value_eq_of_mem_exprs hagree (hbreaks.selected hcollapsed i hi)
  · intro k hlegible
    rw [hstatement]
    exact hlegible.isReadFrom_pageSelect hdraft

/-- The dearest items of an order first. -/
def dearestFirst : Query where
  dialect := .sqlServer2000
  entity :=
    { typeName := "Item", table := "items"
      members := [.field "Name", .column "Total" "price * amount", .key "Id"] }
  order := [⟨.ofMember "Total", false⟩]

/-- The computed total is a fragment. -/
theorem isLegible_dearestFirst :
    dearestFirst.IsLegible BuiltinDialect.sqlServer2000.marks := by
  refine Query.isLegible_builtin rfl fun member hmember _ hcomputed => ?_
  have htotal : ∀ member ∈ dearestFirst.entity.members,
      dearestFirst.dialect.isPlain member.columnName = false →
        member.columnName = "price * amount" := by decide
  rw [htotal member hmember hcomputed]
  exact ⟨⟨["price", "*", "amount"], by decide, by decide⟩, by decide⟩

/-- The second page of two is ordered by the computed total, and then by the key. -/
theorem page_ordered_dearestFirst :
    ∃ (statement : Statement) (added : List OrderItem) (select : Select) (binds : List BindSlot),
      dearestFirst.page 2 2 false = .ok statement ∧
      statement = ⟨select.toSql .top, binds⟩ ∧
      select.IsOrderedBy (⟨"price * amount", "[Total]", false⟩ :: added) ∧
      "[Id]" ∈ added.map (·.expr) ∧
      select.IsReadFrom BuiltinDialect.sqlServer2000.marks .top statement.sql := by
  obtain ⟨statement, hpage⟩ : ∃ statement, dearestFirst.page 2 2 false = .ok statement := ⟨_, rfl⟩
  obtain ⟨m, items, fields, requested, added, select, binds, hm, -, -, horder, -, -, hstatement,
    hordered, hbreaks, -, hread⟩ := Query.page_ordered (by decide) hpage
  obtain rfl := EntityMap.eq_of_ofDecl hm
  have hrequested : dearestFirst.draft (·.orderItems dearestFirst.order)
      = .ok ([⟨"price * amount", "[Total]", false⟩], []) := rfl
  obtain ⟨rfl, -⟩ := Prod.mk.inj (Except.ok.inj (horder.symm.trans hrequested))
  have hkey := hbreaks.key (by simp) _ rfl
  rw [List.map_append, List.mem_append] at hkey
  exact ⟨statement, added, select, binds, hpage, hstatement, hordered,
    hkey.resolve_left (by decide), hread _ isLegible_dearestFirst⟩

end EntitySql
