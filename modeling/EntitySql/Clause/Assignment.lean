import EntitySql.Clause.Filter

/-!
# Assignments and inserts

A partial update lists its assignments in a tree of lambdas and records; each sets one writable
column to an operand. An update or an insert of a whole entity covers the writable columns for
which the entity has a value, in declaration order: both are made of the same cells.
-/

namespace EntitySql

namespace Scope

open Drafting

/-! ### Partial updates -/

/-- Emits one assignment. -/
def emitSet (c : Scope) (target value : Expr) : Drafting Unit := do
  let f ← c.fieldOf target
  if c.isWritable f then
    c.emitOperand f.column.name .assignment value
    let text ← popText
    pushText (c.dialect.quote f.column.name ++ " = " ++ text)
  else throw (.notWritable f.column.name c.map.entity)

mutual

/-- Emits the assignments of a tree. -/
def emitAssignments (c : Scope) : Expr → Drafting Unit
  | .lambda _ body => c.emitAssignments body
  | .record items => c.emitAllAssignments items
  | .assign target value => c.emitSet target value
  | e => throw (.unsupported e.kind .assignment)

/-- Emits the assignments of several trees in turn. -/
def emitAllAssignments (c : Scope) : List Expr → Drafting Unit
  | [] => pure ()
  | e :: es => do
    c.emitAssignments e
    c.emitAllAssignments es

end

/-- The text of a partial update; without assignments there is none. -/
def assignmentSql (c : Scope) (e : Expr) : Drafting (Option String) := do
  reset
  setAliasing false
  c.emitAssignments e
  match ← takeTexts with
  | [] => return none
  | parts => return some (String.intercalate ", " parts)

/-! ### Whole entities -/

/-- The writable columns for which an entity has a value, with these values. -/
def writableValues (c : Scope) (entity : Record) : List (String × Value) :=
  c.map.storedFields.filterMap fun f =>
    if c.isWritable f then (f.value? entity).map fun v => (f.column.name, v) else none

/-- A quoted column with the slot of its value, for each writable column with a value. -/
def cells (c : Scope) (entity : Record) : Drafting (List (String × String)) :=
  (c.writableValues entity).mapM fun (column, value) => do
    let slot ← c.bindValue column value
    return (c.dialect.quote column, slot)

/-- The text that sets every writable column for which an entity has a value. -/
def entityAssignmentSql (c : Scope) (entity : Record) : Drafting String := do
  reset
  let cells ← c.cells entity
  return String.intercalate ", " (cells.map fun cell => cell.1 ++ " = " ++ cell.2)

/-- The columns and values that insert an entity. -/
def insertLists (c : Scope) (entity : Record) : Drafting InsertLists := do
  reset
  let cells ← c.cells entity
  return { columns := cells.map (·.1), values := cells.map (·.2) }

end Scope

end EntitySql
