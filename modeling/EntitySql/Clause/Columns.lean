import EntitySql.Clause.Draft

/-!
# Select lists and orderings

A select list is written with lambdas, conversions and records over member chains. Its columns
are the member chains from left to right; every other node is refused. An ordering is read in the
same way, entry by entry, and each of its items has the direction of its entry.
-/

namespace EntitySql

/-- One entry of an ordering: what to order by, and the direction. -/
structure SortKey where
  expr : Expr
  ascending : Bool

namespace Scope

open Drafting

mutual

/-- Emits the columns of a tree. -/
def emitColumns (c : Scope) (clause : ClauseKind) : Expr → Drafting Unit
  | .lambda _ body => c.emitColumns clause body
  | .convert inner => c.emitColumns clause inner
  | .record items => c.emitAllColumns clause items
  | .member owner name => do
    let f ← c.fieldOf (.member owner name)
    let d ← get
    pushItem (c.selectItem d.aliasing f)
  | e => throw (.unsupported e.kind clause)

/-- Emits the columns of several trees in turn. -/
def emitAllColumns (c : Scope) (clause : ClauseKind) : List Expr → Drafting Unit
  | [] => pure ()
  | e :: es => do
    c.emitColumns clause e
    c.emitAllColumns clause es

end

/-! ### Select lists -/

/-- The items of a select list. -/
def selectItems (c : Scope) (exprs : List Expr) : Drafting (List SelectItem) := do
  reset
  setAliasing true
  c.emitAllColumns .projection exprs
  takeItems

/-- The text of a select list; without columns there is none. -/
def selectSql (c : Scope) (exprs : List Expr) : Drafting (Option String) := do
  match ← c.selectItems exprs with
  | [] => return none
  | items => return some (String.intercalate ", " (items.map (·.toSql)))

/-! ### Orderings -/

/-- The order item of a column. A computed column is carried under its member's name. -/
def orderItem (c : Scope) (ascending : Bool) (item : SelectItem) : OrderItem where
  expr := item.expr
  output := if item.plain then item.expr else c.dialect.quote item.member
  ascending := ascending

/-- The items of one entry after another. -/
def orderItemsOf (c : Scope) : List SortKey → Drafting (List OrderItem)
  | [] => pure []
  | k :: ks => do
    dropItems
    c.emitColumns .ordering k.expr
    let items ← takeItems
    let rest ← c.orderItemsOf ks
    return items.map (c.orderItem k.ascending) ++ rest

/-- The items of an ordering. -/
def orderItems (c : Scope) (keys : List SortKey) : Drafting (List OrderItem) := do
  reset
  setAliasing false
  c.orderItemsOf keys

/-- The text of an ordering; without items there is none. -/
def orderSql (c : Scope) (keys : List SortKey) : Drafting (Option String) := do
  match ← c.orderItems keys with
  | [] => return none
  | items => return some (String.intercalate ", " (items.map (·.toSql)))

end Scope

end EntitySql
