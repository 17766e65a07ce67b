import EntitySql.Proofs.Drafts
import EntitySql.Proofs.Marks
import EntitySql.Proofs.PageRows

/-!
# What the innermost select of a page exports

A page that is cut by reversal reads its columns through two derived tables, by the names under
which the innermost select exports them. A plain column is exported under its own name, and a
computed one under the name of its member; which order columns have to be carried is decided by
these names alone.

`HandsOn` says that this works: no name is exported twice, and whatever the two outer selects
select or order by has the expression that it stands for. It does so exactly if no two columns that
meet in the page share a name (`OutputsApart`). Maps in which every stored member is exported under
a name of its own (`EntityMap.ExportsApart`) see to this, but a map may store two members in one
column, or have a computed member that is named like the column of another one.
-/

namespace EntitySql

/-! ### Names -/

/-- The name under which the column of a field is exported. -/
def MappedField.exportName (d : Dialect) (f : MappedField) : String :=
  if d.isPlain f.column.name then f.column.name else f.member

/-- No two stored members are exported under one name. -/
def EntityMap.ExportsApart (m : EntityMap) (d : Dialect) : Prop :=
  ((m.fields.filter (·.column.isPersisted)).map (·.exportName d)).Nodup

instance (m : EntityMap) (d : Dialect) : Decidable (m.ExportsApart d) :=
  inferInstanceAs (Decidable (List.Nodup _))

/-! ### Carried columns -/

namespace PageSpec

variable {p : PageSpec} {carried : List SelectColumn} {columns : List String}

theorem exports_carriedColumn (i : OrderItem) :
    i.carriedColumn.exports columns = [(i.output, i.expr)] := by
  rw [OrderItem.carriedColumn, SelectColumn.exports]
  split
  · next h => rw [Option.getD_none, h]
  · rw [Option.getD_some]

/-- The items of an ordering whose columns are carried beside columns with these outputs. -/
structure Carries (order : List OrderItem) (outputs : List String) (is : List OrderItem) :
    Prop where
  ordered : ∀ i ∈ is, i ∈ order
  names : (is.map (·.output)).Nodup
  fresh : ∀ i ∈ is, i.output ∉ outputs
  /-- Every item has its name among the outputs or is carried under it. -/
  covered : ∀ o ∈ order, o.output ∈ outputs ∨ o.output ∈ is.map (·.output)

section Carries

variable {i : OrderItem} {order is : List OrderItem} {outputs : List String}

theorem Carries.skip (h : Carries order outputs is) (hmem : i.output ∈ outputs) :
    Carries (i :: order) outputs is where
  ordered j hj := List.mem_cons_of_mem i (h.ordered j hj)
  names := h.names
  fresh := h.fresh
  covered := List.forall_mem_cons.mpr ⟨.inl hmem, h.covered⟩

theorem Carries.carry (h : Carries order (outputs ++ [i.output]) is) (hmem : i.output ∉ outputs) :
    Carries (i :: order) outputs (i :: is) where
  ordered := List.forall_mem_cons.mpr ⟨List.mem_cons_self,
    fun j hj => List.mem_cons_of_mem i (h.ordered j hj)⟩
  names := by
    refine List.nodup_cons.mpr ⟨fun hi => ?_, h.names⟩
    obtain ⟨j, hj, hji⟩ := List.mem_map.mp hi
    exact h.fresh j hj (by simp [hji])
  fresh := List.forall_mem_cons.mpr ⟨hmem,
    fun j hj hout => h.fresh j hj (List.mem_append_left _ hout)⟩
  covered := by
    refine List.forall_mem_cons.mpr ⟨.inr List.mem_cons_self, fun o ho => ?_⟩
    obtain hout | hcarried := h.covered o ho
    · obtain hout | hsame := List.mem_append.mp hout
      · exact .inl hout
      · exact .inr (List.mem_singleton.mp hsame ▸ List.mem_cons_self)
    · exact .inr (List.mem_cons_of_mem _ hcarried)

end Carries

/-- Over a select list, whatever is carried is the columns of order items. -/
theorem carried_eq_ok (hitems : p.items ≠ []) {order : List OrderItem} {outputs : List String}
    (h : p.carried order outputs = .ok carried) :
    ∃ is : List OrderItem, carried = is.map (·.carriedColumn) ∧ Carries order outputs is := by
  induction order generalizing outputs carried with
  | nil =>
    cases h
    exact ⟨[], rfl, nofun, List.nodup_nil, nofun, nofun⟩
  | cons i rest ih =>
    have hempty : p.items.isEmpty = false := by simpa using hitems
    rw [PageSpec.carried, hempty, Bool.false_and, Bool.false_or] at h
    split at h
    · next hmem =>
      obtain ⟨is, rfl, hcarries⟩ := ih h
      exact ⟨is, rfl, hcarries.skip (by simpa using hmem)⟩
    · next hmem =>
      split at h
      · cases h
      · cases hrest : p.carried rest (outputs ++ [i.output]) with
        | error e =>
          rw [hrest] at h
          cases h
        | ok columns =>
          rw [hrest] at h
          cases h
          obtain ⟨is, rfl, hcarries⟩ := ih hrest
          exact ⟨i :: is, rfl, hcarries.carry (by simpa using hmem)⟩

end PageSpec

/-! ### Handing on -/

/-- What the two outer selects of a page take from the innermost one is what it exports. -/
structure HandsOn (columns : List String) (items : List SelectItem)
    (inner middle outer : SelectBody) : Prop where
  /-- No name is exported twice. -/
  names : ((exportsOf columns inner.columns).map Prod.fst).Nodup
  /-- The middle select passes every column on. -/
  passed : middle.columns = []
  /-- Both order by names of what the innermost select orders by. -/
  reversed : List.Forall₂ (fun o i => (o.expr, i.expr) ∈ exportsOf columns inner.columns)
    middle.order inner.order
  restored : List.Forall₂ (fun o i => (o.expr, i.expr) ∈ exportsOf columns inner.columns)
    outer.order inner.order
  /-- The outermost select selects names of what is selected. -/
  selected : List.Forall₂ (fun column i => ∃ name, column = SelectColumn.expr name none ∧
    (name, i.expr) ∈ exportsOf columns inner.columns) outer.columns items

/-- No two columns that meet in a page share a name: neither two selected ones, nor two different
expressions of which one is ordered by. -/
structure OutputsApart (items : List SelectItem) (order : List OrderItem) : Prop where
  selected : (items.map (·.output)).Nodup
  between : ∀ i ∈ items, ∀ o ∈ order, i.output = o.output → i.expr = o.expr
  ordered : ∀ o ∈ order, ∀ o' ∈ order, o.output = o'.output → o.expr = o'.expr

namespace PageSpec

variable {p : PageSpec} {columns : List String} {carried : List SelectColumn}

section Exports

variable (hitems : p.items ≠ []) (is : List OrderItem)

include hitems

/-- The exports of a select list with the columns of some order items after it. -/
theorem exportsOf_innerColumns_map :
    exportsOf columns (p.innerColumns (is.map (·.carriedColumn)))
      = p.items.map (fun i => (i.output, i.expr)) ++ is.map fun i => (i.output, i.expr) := by
  have hne : p.body.columns.isEmpty = false := by
    simpa [body] using hitems
  rw [exportsOf_innerColumns, exportsOf, hne, body, List.flatMap_map, List.flatMap_map]
  simp only [exports_carriedColumn, Bool.false_eq_true, if_false]
  exact congrArg₂ (· ++ ·) List.map_eq_flatMap.symm List.map_eq_flatMap.symm

theorem names_innerColumns_map :
    (exportsOf columns (p.innerColumns (is.map (·.carriedColumn)))).map Prod.fst
      = p.items.map (·.output) ++ is.map (·.output) := by
  rw [exportsOf_innerColumns_map hitems, List.map_append, List.map_map, List.map_map]
  rfl

theorem mem_exports_of_mem_items {i : SelectItem} (hi : i ∈ p.items) :
    (i.output, i.expr) ∈ exportsOf columns (p.innerColumns (is.map (·.carriedColumn))) := by
  rw [exportsOf_innerColumns_map hitems]
  exact List.mem_append_left _ (List.mem_map_of_mem hi)

variable {is} (hcarries : Carries p.order (p.items.map (·.output)) is)

include hcarries

/-- If no two columns share a name, every item of the ordering is exported under its name. -/
theorem mem_exports_of_mem_order (hapart : OutputsApart p.items p.order) {o : OrderItem}
    (ho : o ∈ p.order) :
    (o.output, o.expr) ∈ exportsOf columns (p.innerColumns (is.map (·.carriedColumn))) := by
  rw [exportsOf_innerColumns_map hitems]
  -- the name of the item belongs to a selected column or to a carried one
  obtain hname | hname := hcarries.covered o ho
  · obtain ⟨i, hi, hio⟩ := List.mem_map.mp hname
    refine List.mem_append_left _ (List.mem_map.mpr ⟨i, hi, ?_⟩)
    rw [hio, hapart.between i hi o ho hio]
  · obtain ⟨o', ho', hoo⟩ := List.mem_map.mp hname
    refine List.mem_append_right _ (List.mem_map.mpr ⟨o', ho', ?_⟩)
    rw [hoo, hapart.ordered o' (hcarries.ordered o' ho') o ho hoo]

theorem nodup_names (hapart : OutputsApart p.items p.order) :
    ((exportsOf columns (p.innerColumns (is.map (·.carriedColumn)))).map Prod.fst).Nodup := by
  rw [names_innerColumns_map hitems]
  refine List.nodup_append.mpr ⟨hapart.selected, hcarries.names, fun a ha b hb => ?_⟩
  rintro rfl
  obtain ⟨i, hi, rfl⟩ := List.mem_map.mp hb
  exact hcarries.fresh i hi ha

end Exports

/-- The outer selects take what they stand for exactly if no two columns share a name. -/
theorem handsOn_iff (hitems : p.items ≠ [])
    (h : p.carried p.order (p.items.map (·.output)) = .ok carried) (window : Nat) :
    HandsOn columns p.items
        { p.body with columns := p.innerColumns carried, limit := some window }
        { order := p.order.map fun i => i.onOutput.flipped, limit := some p.size }
        { columns := p.items.map fun i => .expr i.output none, order := p.order.map (·.onOutput) }
      ↔ OutputsApart p.items p.order := by
  obtain ⟨is, rfl, hcarries⟩ := carried_eq_ok hitems h
  set exports := exportsOf columns (p.innerColumns (is.map (·.carriedColumn))) with hdef
  have hselected : ∀ i ∈ p.items, (i.output, i.expr) ∈ exports := fun i hi =>
    mem_exports_of_mem_items hitems is hi
  have horder : ∀ f : OrderItem → OrderItem,
      List.Forall₂ (fun o i => (o.expr, i.expr) ∈ exports) (p.order.map f) p.order
        ↔ ∀ i ∈ p.order, ((f i).expr, i.expr) ∈ exports := fun f => by
    rw [List.forall₂_map_left_iff, List.forall₂_same]
  constructor
  · intro hands
    have hnodup : (exports.map Prod.fst).Nodup := hands.names
    have hordered : ∀ o ∈ p.order, (o.output, o.expr) ∈ exports :=
      (horder (·.onOutput)).mp hands.restored
    -- names determine expressions
    have hunique : ∀ n e e', (n, e) ∈ exports → (n, e') ∈ exports → e = e' := fun n e e' he he' =>
      congrArg Prod.snd (List.inj_on_of_nodup_map hnodup he he' rfl)
    refine ⟨?_, fun i hi o ho hio => ?_, fun o ho o' ho' hoo => ?_⟩
    · rw [hdef, names_innerColumns_map hitems] at hnodup
      exact hnodup.of_append_left
    · exact hunique _ _ _ (hselected i hi) (hio ▸ hordered o ho)
    · exact hunique _ _ _ (hordered o ho) (hoo ▸ hordered o' ho')
  · intro hapart
    have hordered : ∀ o ∈ p.order, (o.output, o.expr) ∈ exports := fun o ho =>
      mem_exports_of_mem_order hitems hcarries hapart ho
    refine ⟨nodup_names hitems hcarries hapart, rfl, (horder _).mpr hordered,
      (horder _).mpr hordered, ?_⟩
    refine List.forall₂_map_left_iff.mpr (List.forall₂_same.mpr fun i hi => ?_)
    exact ⟨i.output, rfl, hselected i hi⟩

end PageSpec

/-! ### Columns of stored members -/

namespace Scope

variable {c : Scope}

/-- The expression and the output are those of the column of a stored member. -/
def IsColumn (c : Scope) (expr output : String) : Prop :=
  ∃ f ∈ c.map.fields.filter (·.column.isPersisted), expr = c.columnSql f ∧
    output = c.dialect.quote (f.exportName c.dialect)

mutual

/-- Leaves stand for stored members. -/
theorem stored_of_leafFields {clause : ClauseKind} : ∀ (e : Expr) {fs : List MappedField},
    c.leafFields clause e = .ok fs → ∀ f ∈ fs, f ∈ c.map.fields.filter (·.column.isPersisted)
  | .lambda _ body, fs, h => stored_of_leafFields body h
  | .convert inner, fs, h => stored_of_leafFields inner h
  | .record items, fs, h => stored_of_allLeafFields items h
  | .member owner name, fs, h => by
    rw [leafFields] at h
    cases hresolve : c.resolve (.member owner name) with
    | error e =>
      rw [hresolve] at h
      cases h
    | ok f =>
      rw [hresolve] at h
      cases h
      exact List.forall_mem_singleton.mpr (List.mem_filter.mpr (mem_fields_of_resolve hresolve))

theorem stored_of_allLeafFields {clause : ClauseKind} : ∀ (es : List Expr) {fs : List MappedField},
    c.allLeafFields clause es = .ok fs → ∀ f ∈ fs, f ∈ c.map.fields.filter (·.column.isPersisted)
  | [], fs, h => by
    cases h
    exact nofun
  | e :: es, fs, h => by
    obtain ⟨first, rest, hfirst, hrest, rfl⟩ := both_eq_ok.mp h
    intro f hf
    exact (List.mem_append.mp hf).elim (stored_of_leafFields e hfirst f)
      (stored_of_allLeafFields es hrest f)

end

theorem stored_of_orderFields {keys : List SortKey} {fs : List (MappedField × Bool)}
    (h : c.orderFields keys = .ok fs) :
    ∀ f ∈ fs, f.1 ∈ c.map.fields.filter (·.column.isPersisted) := by
  induction keys generalizing fs with
  | nil =>
    cases h
    exact nofun
  | cons k ks ih =>
    obtain ⟨first, rest, hfirst, hrest, rfl⟩ := both_eq_ok.mp h
    intro f hf
    obtain hf | hf := List.mem_append.mp hf
    · obtain ⟨g, hg, rfl⟩ := List.mem_map.mp hf
      exact stored_of_leafFields k.expr hfirst g hg
    · exact ih hrest f hf

theorem output_selectItem (f : MappedField) :
    (c.selectItem true f).output = c.dialect.quote (f.exportName c.dialect) := by
  cases hplain : c.dialect.isPlain f.column.name <;>
    simp [selectItem, SelectItem.output, MappedField.exportName, hplain]

theorem expr_selectItem (aliasing : Bool) (f : MappedField) :
    (c.selectItem aliasing f).expr = c.columnSql f := by
  cases hplain : c.dialect.isPlain f.column.name <;> simp [columnSql, selectItem, hplain]

theorem output_orderItemOf (entry : MappedField × Bool) :
    (c.orderItemOf entry).output = c.dialect.quote (entry.1.exportName c.dialect) := by
  cases hplain : c.dialect.isPlain entry.1.column.name <;>
    simp [orderItemOf, orderItem, selectItem, MappedField.exportName, hplain]

theorem isColumn_orderItems {keys : List SortKey} {d d' : Draft} {order : List OrderItem}
    (h : c.orderItems keys d = .ok order d') : ∀ o ∈ order, c.IsColumn o.expr o.output := by
  obtain ⟨fs, hfs, rfl⟩ := orderItems_eq_ok h
  intro o ho
  obtain ⟨entry, hentry, rfl⟩ := List.mem_map.mp ho
  exact ⟨entry.1, stored_of_orderFields hfs entry hentry, expr_selectItem false entry.1,
    output_orderItemOf entry⟩

theorem isColumn_selectItems {exprs : List Expr} {d d' : Draft} {items : List SelectItem}
    (h : c.selectItems exprs d = .ok items d') : ∀ i ∈ items, c.IsColumn i.expr i.output := by
  obtain ⟨fs, hfs, rfl⟩ := selectItems_eq_ok h
  intro i hi
  obtain ⟨f, hf, rfl⟩ := List.mem_map.mp hi
  exact ⟨f, stored_of_allLeafFields exprs hfs f hf, expr_selectItem true f, output_selectItem f⟩

section Apart

variable (hquote : Function.Injective c.dialect.quote) (hm : c.map.ExportsApart c.dialect)

include hquote hm

/-- If stored members are exported under names of their own, columns with one name have one
expression. -/
theorem expr_eq_of_output_eq {expr expr' output : String}
    (h : c.IsColumn expr output) (h' : c.IsColumn expr' output) : expr = expr' := by
  obtain ⟨f, hf, rfl, rfl⟩ := h
  obtain ⟨g, hg, rfl, hname⟩ := h'
  have hfg : f = g := List.inj_on_of_nodup_map hm hf hg (hquote hname)
  rw [hfg]

/-- The outputs of members that are selected once differ, if stored members are exported under
names of their own. -/
theorem nodup_outputs {exprs : List Expr} {d d' : Draft}
    {items : List SelectItem} (h : c.selectItems exprs d = .ok items d')
    (hmembers : (items.map (·.member)).Nodup) : (items.map (·.output)).Nodup := by
  obtain ⟨fs, hfs, rfl⟩ := selectItems_eq_ok h
  have hstored := stored_of_allLeafFields exprs hfs
  have hnodup : fs.Nodup := by
    rw [List.map_map] at hmembers
    exact hmembers.of_map
  have hnames : (fs.map (·.exportName c.dialect)).Nodup :=
    List.Nodup.map_on (fun f hf g hg => List.inj_on_of_nodup_map hm (hstored f hf) (hstored g hg))
      hnodup
  have houtputs : (fs.map (c.selectItem true)).map (·.output)
      = (fs.map (·.exportName c.dialect)).map c.dialect.quote := by
    rw [List.map_map, List.map_map]
    exact List.map_congr_left fun f _ => output_selectItem f
  rw [houtputs]
  exact hnames.map hquote

end Apart

end Scope

/-! ### Pages -/

namespace Query

variable {q : Query} {c : Scope}

/-- The items of the ordering of a page are columns of stored members, if the selected ones are. -/
theorem isColumn_pageOrder {distinct : Bool} {items : List SelectItem} {d d' : Draft}
    {order : List OrderItem} (hitems : ∀ i ∈ items, c.IsColumn i.expr i.output)
    (h : q.pageOrder distinct items c d = .ok order d') :
    ∀ o ∈ order, c.IsColumn o.expr o.output := by
  obtain ⟨requested, d₁, hrequested, h⟩ := bind_eq_ok.mp h
  have hcolumns := Scope.isColumn_orderItems hrequested
  by_cases hdistinct : (distinct && !items.isEmpty) = true
  -- a distinct page over a select list is ordered by selected columns only
  · rw [if_pos hdistinct] at h
    cases hfind : requested.find? fun o => !(items.any fun i => i.output == o.output) with
    | some o =>
      rw [hfind] at h
      cases h
    | none =>
      rw [hfind] at h
      obtain ⟨rfl, -⟩ := pure_eq_ok.mp h
      intro o ho
      obtain ho | ho := mem_appendNew ho
      · exact hcolumns o ho
      · obtain ⟨i, hi, rfl⟩ := List.mem_map.mp ho
        exact hitems i hi
  · rw [if_neg hdistinct] at h
    cases hkey : c.map.key with
    | some key =>
      rw [hkey] at h
      obtain ⟨tieBreak, d₂, htieBreak, h⟩ := bind_eq_ok.mp h
      obtain ⟨rfl, -⟩ := pure_eq_ok.mp h
      exact fun o ho => (mem_appendNew ho).elim (hcolumns o)
        (Scope.isColumn_orderItems htieBreak o)
    | none =>
      rw [hkey] at h
      dsimp only at h
      by_cases hempty : requested.isEmpty = true
      · rw [if_pos hempty] at h
        cases h
      · rw [if_neg hempty] at h
        obtain ⟨rfl, -⟩ := pure_eq_ok.mp h
        exact hcolumns

/-- A page after the first, under a dialect that cuts pages by reversal, is restored from the
window before its end. -/
theorem pageSelect_reversal (hmethod : q.dialect.pageMethod = .reversal) {size index : Nat}
    (hindex : 2 ≤ index) {distinct : Bool} {d d' : Draft} {select : Select}
    (h : q.pageSelect size index distinct c d = .ok select d') :
    ∃ (p : PageSpec) (d₁ d₂ d₃ : Draft) (window : Nat) (carried : List SelectColumn),
      c.selectItems q.selection d = .ok p.items d₁ ∧
      q.pageOrder distinct p.items c d₂ = .ok p.order d₃ ∧
      p.carried p.order (p.items.map (·.output)) = .ok carried ∧
      select = p.restored (p.reversed (p.innermost carried window)) := by
  obtain ⟨items, d₁, hitems, h⟩ := bind_eq_ok.mp h
  obtain ⟨filter, d₂, hfilter, h⟩ := bind_eq_ok.mp h
  obtain ⟨order, d₃, horder, h⟩ := bind_eq_ok.mp h
  let spec : PageSpec :=
    { source := q.source c, distinct, items, filter, order, size
      index := if index = 0 then 1 else index }
  cases hsel : q.dialect.pageMethod.page spec with
  | error e =>
    rw [hsel] at h
    cases h
  | ok s =>
    rw [hsel] at h
    obtain ⟨rfl, -⟩ := pure_eq_ok.mp h
    rw [hmethod] at hsel
    have hlater : ¬ spec.index ≤ 1 := by
      have hspec : spec.index = index := if_neg (by omega)
      omega
    obtain ⟨hfirst, -⟩ | ⟨-, window, carried, -, hcarried, rfl⟩ := PageSpec.byReversal_cases hsel
    · exact absurd hfirst hlater
    · exact ⟨spec, d₁, d₂, d₃, window, carried, hitems, horder, hcarried, rfl⟩

/-- **What a page hands on.** A page after the first that is cut by reversal, over a select list in
which no member is selected twice: the two outer selects take what they stand for, under names that
are exported once, exactly if no two columns that meet in the page share a name. This is so for
every such page over a map that exports each stored member under a name of its own, if different
names are quoted differently. -/
theorem page_handsOn (q : Query) {size index : Nat} {distinct : Bool} {statement : Statement}
    {items : List SelectItem} {slots : List BindSlot}
    (hmethod : q.dialect.pageMethod = .reversal) (hsize : 1 ≤ size) (hindex : 2 ≤ index)
    (hpage : q.page size index distinct = .ok statement)
    (hitems : q.draft (·.selectItems q.selection) = .ok (items, slots)) (hne : items ≠ [])
    (hmembers : (items.map (·.member)).Nodup) :
    ∃ source inner middle outer binds,
      let select := Select.derived (.derived (.table source inner) "a" middle) "b" outer
      q.draft (q.pageSelect size index distinct) = .ok (select, binds) ∧
      statement = ⟨select.toSql q.dialect.boundStyle, binds⟩ ∧
      ∀ columns, (HandsOn columns items inner middle outer ↔ OutputsApart items inner.order) ∧
        (Function.Injective q.dialect.quote →
          ∀ m, EntityMap.ofDecl q.entity = .ok m → m.ExportsApart q.dialect →
            HandsOn columns items inner middle outer) := by
  rw [page, if_neg (by omega)] at hpage
  obtain ⟨select, binds, hdraft, rfl⟩ := selectStatement_eq_ok.mp hpage
  obtain ⟨m, d', hmap, hrun, -⟩ := draft_eq_ok.mp hdraft
  obtain ⟨m', d₀, hmap', hselect, -⟩ := draft_eq_ok.mp hitems
  obtain rfl : m' = m := Except.ok.inj (hmap'.symm.trans hmap)
  obtain ⟨p, d₁, d₂, d₃, window, carried, hpitems, horder, hcarried, rfl⟩ :=
    pageSelect_reversal hmethod hindex hrun
  obtain rfl : p.items = items := (EStateM.Result.ok.inj (hpitems.symm.trans hselect)).1
  have hiff := fun columns => @PageSpec.handsOn_iff p columns carried hne hcarried window
  refine ⟨_, _, _, _, binds, hdraft, rfl, fun columns =>
    ⟨hiff columns, fun hquote m hm hapart => ?_⟩⟩
  obtain rfl : m' = m := Except.ok.inj (hmap'.symm.trans hm)
  refine (hiff columns).mpr ?_
  have hcolumns := Scope.isColumn_selectItems hselect
  have hordered := isColumn_pageOrder hcolumns horder
  exact {
    selected := Scope.nodup_outputs hquote hapart hselect hmembers
    between := fun i hi o ho hio =>
      Scope.expr_eq_of_output_eq hquote hapart (hcolumns i hi) (hio ▸ hordered o ho)
    ordered := fun o ho o' ho' hoo =>
      Scope.expr_eq_of_output_eq hquote hapart (hordered o ho) (hoo ▸ hordered o' ho') }

end Query

/-- Titles, the loudest first. What is ordered by is computed, and not selected. -/
def loudestFirst : Query where
  dialect := .sqlServer2000
  entity :=
    { typeName := "Book", table := "books"
      members := [.key "Id", .column "Title" "title", .column "Shout" "UPPER(title)"] }
  selection := [.ofMember "Title"]
  order := [⟨.ofMember "Shout", false⟩]

/-- The computed column and the key are carried to the outer selects. -/
theorem page_handsOn_loudestFirst :
    ∃ source inner middle outer binds,
      loudestFirst.draft (loudestFirst.pageSelect 2 2 false)
        = .ok (.derived (.derived (.table source inner) "a" middle) "b" outer, binds) ∧
      ∀ columns, HandsOn columns [⟨"[title]", none, "Title", true⟩] inner middle outer := by
  obtain ⟨m, hmap⟩ : ∃ m, EntityMap.ofDecl loudestFirst.entity = .ok m := ⟨_, rfl⟩
  have hapart : m.ExportsApart loudestFirst.dialect := by
    cases hmap
    decide
  obtain ⟨source, inner, middle, outer, binds, hselect, -, hhands⟩ :=
    loudestFirst.page_handsOn rfl (by decide : 1 ≤ 2) (by decide : 2 ≤ 2)
      (rfl : loudestFirst.page 2 2 false = .ok _)
      (rfl : loudestFirst.draft (·.selectItems loudestFirst.selection)
        = .ok ([⟨"[title]", none, "Title", true⟩], [])) (by decide) (by decide)
  exact ⟨source, inner, middle, outer, binds, hselect,
    fun columns =>
    (hhands columns).2 (BuiltinDialect.quote_injective .sqlServer2000) m hmap hapart⟩

/-- The members `X` and `Y` are stored in one column. -/
def sharedColumn : Query where
  dialect := .sqlServer2000
  entity :=
    { typeName := "Multi", table := "multi"
      members := [.field "First", .naturalKey "B", .key "A", .key "C", .column "X" "shared",
        .column "Y" "shared", .column "Z" "B"] }
  selection := [.ofMember "X", .ofMember "Y"]

/-- Different members are selected, and the innermost select exports their column twice. -/
theorem page_sharedColumn :
    sharedColumn.page 2 2 false = .ok
        { sql := "SELECT [shared], [shared] FROM (SELECT TOP 2 * FROM (SELECT TOP 4 [shared], "
            ++ "[shared], [B] FROM [multi] ORDER BY [B] ASC) a ORDER BY [B] DESC) b "
            ++ "ORDER BY [B] ASC" } ∧
      sharedColumn.draft (·.selectItems sharedColumn.selection)
        = .ok ([⟨"[shared]", none, "X", true⟩, ⟨"[shared]", none, "Y", true⟩], []) ∧
      ∃ source inner middle outer,
        sharedColumn.draft (sharedColumn.pageSelect 2 2 false)
          = .ok (.derived (.derived (.table source inner) "a" middle) "b" outer, []) ∧
        ∀ columns, ¬ ((exportsOf columns inner.columns).map Prod.fst).Nodup := by
  refine ⟨rfl, rfl, _, _, _, _, rfl, fun columns => ?_⟩
  have hexports : (exportsOf columns
      [.expr "[shared]" none, .expr "[shared]" none, .expr "[B]" none]).map Prod.fst
        = ["[shared]", "[shared]", "[B]"] := rfl
  exact fun hnodup => absurd (hexports ▸ hnodup) (by decide)

/-- Rounded totals in the order of the totals: a computed member is named like the column of
another one. -/
def roundedTotals : Query where
  dialect := .sqlServer2000
  entity :=
    { typeName := "Order", table := "orders"
      members := [.key "Id", .column "Amount" "Total", .column "Total" "ROUND(Total, 0)"] }
  selection := [.ofMember "Total"]
  order := [⟨.ofMember "Amount", true⟩]

/-- The total is not carried, since its name is taken: the outer selects order by what is
rounded. -/
example : ∃ source inner middle outer,
    roundedTotals.draft (roundedTotals.pageSelect 2 2 false)
      = .ok (.derived (.derived (.table source inner) "a" middle) "b" outer, []) ∧
    inner.columns = [.expr "ROUND(Total, 0)" (some "[Total]"), .expr "[Id]" none] ∧
    inner.order.map (·.expr) = ["[Total]", "[Id]"] ∧
    outer.order.map (·.expr) = ["[Total]", "[Id]"] :=
  ⟨_, _, _, _, rfl, rfl, rfl, rfl⟩

end EntitySql
