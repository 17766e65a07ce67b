import EntitySql.Clause.Assignment
import EntitySql.Clause.Columns
import EntitySql.Page

/-!
# Queries over a table

A `Query` holds the expressions of a query over the table of one entity type. Each operation
that ends it writes a statement of its own from them, starting from an empty bind table.

The operations that read are made as a `Select` first (`listSelect`, `pageSelect`, `countSelect`)
and written in the dialect last. A page always has a total ordering: the key is appended as the
last item, or, for a distinct page over a select list, the selected columns.
-/

namespace EntitySql

/-- A SQL text with its bind values, in the order of their positions. -/
structure Statement where
  sql : String
  binds : List BindSlot := []
deriving Repr

/-- A page and the count of the rows that it is cut from. -/
structure CountedPage where
  page : Statement
  count : Statement
deriving Repr

/-- A query over the table of an entity type. -/
structure Query where
  dialect : Dialect
  entity : EntityDecl
  /-- The index of the statement, which goes into the names of its slots. -/
  index : Nat := 0
  /-- A table to use in place of the mapped one. -/
  table : Option String := none
  selection : List Expr := []
  filter : Option Expr := none
  order : List SortKey := []

namespace Query

/-! ### Building queries -/

/-- Adds an item to the select list. -/
def selecting (q : Query) (e : Expr) : Query :=
  { q with selection := q.selection ++ [e] }

/-- Replaces the filter. -/
def filterBy (q : Query) (e : Expr) : Query :=
  { q with filter := some e }

/-- Narrows the filter. -/
def andFilter (q : Query) (e : Expr) : Query :=
  { q with filter := some (match q.filter with | some f => f.conj e | none => e) }

/-- Widens the filter. -/
def orFilter (q : Query) (e : Expr) : Query :=
  { q with filter := some (match q.filter with | some f => f.disj e | none => e) }

/-- Adds an entry to the ordering. -/
def orderingBy (q : Query) (e : Expr) (ascending : Bool) : Query :=
  { q with order := q.order ++ [⟨e, ascending⟩] }

/-! ### Statements -/

/-- The result of a program on a fresh draft, with the slots that it bound. -/
def draft {α : Type} (q : Query) (body : Scope → Drafting α) :
    Except SqlError (α × List BindSlot) :=
  match EntityMap.ofDecl q.entity with
  | .error e => .error e
  | .ok m =>
    match (body ⟨m, q.dialect⟩).run (Draft.fresh q.index) with
    | .ok a d => .ok (a, d.binds.slots)
    | .error e _ => .error e

/-- The statement of a program that gives its text. -/
def statement (q : Query) (body : Scope → Drafting String) :
    Except SqlError Statement :=
  (q.draft body).map fun (sql, binds) => ⟨sql, binds⟩

/-- The statement of a program that gives a select. -/
def selectStatement (q : Query) (body : Scope → Drafting Select) :
    Except SqlError Statement :=
  q.statement fun c => (fun s => s.toSql q.dialect.boundStyle) <$> body c

/-- The quoted table. -/
def source (q : Query) (c : Scope) : String :=
  q.dialect.quote (q.table.getD c.map.table)

/-- The text of the filter, if the query has one. -/
def filterText (q : Query) (c : Scope) : Drafting (Option String) :=
  match q.filter with
  | some e => c.filterSql e
  | none => pure none

/-- A condition after a statement that may have one. -/
def whereText : Option String → String
  | some filter => " WHERE " ++ filter
  | none => ""

/-! ### Lists -/

/-- The order item of the random key. -/
def randomItem (d : Dialect) : OrderItem :=
  ⟨d.random, d.random, true⟩

/-- The list of all rows, or of the first `top` if that is not zero. In a random list the random
key takes the place of the ordering; the rows of a distinct list are collapsed before it is
drawn. -/
def listSelect (q : Query) (top : Nat) (distinct random : Bool) (c : Scope) :
    Drafting Select := do
  let columns := (← c.selectItems q.selection).map (·.column)
  let filter ← q.filterText c
  let limit := if top = 0 then none else some top
  if random then
    let order := [randomItem q.dialect]
    if distinct then
      return .derived (.table (q.source c) { distinct, columns, filter }) "r" { order, limit }
    else return .table (q.source c) { columns, filter, order, limit }
  else
    let order ← c.orderItems q.order
    return .table (q.source c) { distinct, columns, filter, order, limit }

/-- The statement of a list. -/
def list (q : Query) (top : Nat) (distinct random : Bool) : Except SqlError Statement :=
  q.selectStatement (q.listSelect top distinct random)

/-- The statement that reads a single row. -/
def single (q : Query) : Except SqlError Statement :=
  q.list 1 false false

/-! ### Pages -/

/-- Appends the items whose expression the ordering does not have yet. -/
def appendNew (order : List OrderItem) : List OrderItem → List OrderItem
  | [] => order
  | i :: is =>
    if order.any fun o => o.expr == i.expr then appendNew order is
    else appendNew (order ++ [i]) is

theorem mem_appendNew {order items : List OrderItem} {i : OrderItem}
    (h : i ∈ appendNew order items) : i ∈ order ∨ i ∈ items := by
  fun_induction appendNew order items with
  | case1 order => exact .inl h
  | case2 order j js hhas ih => exact (ih h).imp_right (List.mem_cons_of_mem _)
  | case3 order j js hhas ih =>
    obtain hi | hi := ih h
    · obtain hi | hi := List.mem_append.mp hi
      · exact .inl hi
      · exact .inr (List.mem_singleton.mp hi ▸ List.mem_cons_self)
    · exact .inr (List.mem_cons_of_mem _ hi)

/-- The ascending order item of a selected column. -/
def selectedItem (i : SelectItem) : OrderItem :=
  ⟨i.expr, i.output, true⟩

/-- The ordering of a page: the requested items and a tie-break. A distinct page over a select
list may order by selected columns only. -/
def pageOrder (q : Query) (distinct : Bool) (items : List SelectItem) (c : Scope) :
    Drafting (List OrderItem) := do
  let order ← c.orderItems q.order
  if distinct && !items.isEmpty then
    match order.find? fun o => !(items.any fun i => i.output == o.output) with
    | some o => throw (.orderNotSelected o.expr)
    | none => return appendNew order (items.map selectedItem)
  else
    match c.map.key with
    | some key =>
      let tieBreak ← c.orderItems [⟨.ofMember key.member, true⟩]
      return appendNew order tieBreak
    | none => if order.isEmpty then throw (.noPageOrder c.map.entity) else return order

/-- A page of at least one row; page 0 is taken as page 1. -/
def pageSelect (q : Query) (size index : Nat) (distinct : Bool) (c : Scope) :
    Drafting Select := do
  let items ← c.selectItems q.selection
  let filter ← q.filterText c
  let order ← q.pageOrder distinct items c
  let spec : PageSpec :=
    { source := q.source c, distinct, items, filter, order, size
      index := if index = 0 then 1 else index }
  match q.dialect.pageMethod.page spec with
  | .ok s => return s
  | .error e => throw e

/-- The statement of a page; a page of size 0 is the whole list. -/
def page (q : Query) (size index : Nat) (distinct : Bool) : Except SqlError Statement :=
  if size = 0 then q.list 0 distinct false
  else q.selectStatement (q.pageSelect size index distinct)

/-! ### Counts -/

/-- The select list of a count. -/
def countColumn : String := "COUNT(0)"

/-- The count of the rows, or of the distinct selected rows. -/
def countSelect (q : Query) (distinct : Bool) (c : Scope) : Drafting Select := do
  if distinct then
    let columns := (← c.selectItems q.selection).map (·.column)
    let filter ← q.filterText c
    return .derived (.table (q.source c) { distinct, columns, filter }) "c"
      { columns := [.expr countColumn none] }
  else
    let filter ← q.filterText c
    return .table (q.source c) { columns := [.expr countColumn none], filter }

/-- The statement of a count. -/
def countOf (q : Query) (distinct : Bool) : Except SqlError Statement :=
  q.selectStatement (q.countSelect distinct)

/-- The statement that counts all rows of the query. -/
def count (q : Query) : Except SqlError Statement :=
  q.countOf false

/-- A page together with the count of the rows it is cut from. -/
def countedPage (q : Query) (size index : Nat) (distinct : Bool) :
    Except SqlError CountedPage := do
  let page ← q.page size index distinct
  let count ← q.countOf distinct
  return { page, count }

/-! ### Mutations -/

/-- The statement that inserts an entity. -/
def insert (q : Query) (entity : Record) : Except SqlError Statement :=
  q.statement fun c => do
    let lists ← c.insertLists entity
    if lists.isEmpty then throw .emptyInsert
    return "INSERT INTO " ++ q.source c ++ " " ++ lists.toSql

/-- The condition of an update: the filter if there is one, or else the key of the entity. -/
def updateFilter (q : Query) (entity : Record) (c : Scope) :
    Drafting (Option String) :=
  match q.filter with
  | some e => c.filterSql e
  | none =>
    match c.map.key.bind fun key => (key.value? entity).map fun v => (key.member, v) with
    | some (member, v) => c.filterSql (.binary .eq (.ofMember member) (.constant v))
    | none => throw .unboundedUpdate

/-- The statement that sets every writable column for which the entity has a value. -/
def update (q : Query) (entity : Record) : Except SqlError Statement :=
  q.statement fun c => do
    let assignments ← c.entityAssignmentSql entity
    if assignments.isEmpty then throw .emptyUpdate
    let filter ← q.updateFilter entity c
    return "UPDATE " ++ q.source c ++ " SET " ++ assignments ++ whereText filter

/-- The statement of a partial update. -/
def updateBy (q : Query) (assignment : Expr) : Except SqlError Statement :=
  q.statement fun c => do
    match ← c.assignmentSql assignment with
    | none => throw .emptyUpdate
    | some assignments =>
      let filter ← q.filterText c
      return "UPDATE " ++ q.source c ++ " SET " ++ assignments ++ whereText filter

/-- The statement that deletes the rows of the query. -/
def delete (q : Query) : Except SqlError Statement :=
  q.statement fun c => do
    let filter ← q.filterText c
    return "DELETE FROM " ++ q.source c ++ whereText filter

end Query

/-- The table of an entity type. -/
def mappedTable (d : EntityDecl) : Except SqlError String :=
  (EntityMap.ofDecl d).map (·.table)

end EntitySql
