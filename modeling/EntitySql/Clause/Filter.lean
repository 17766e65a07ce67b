import EntitySql.Clause.Draft

/-!
# Filters

A filter becomes one condition. Lambdas and conversions leave no trace; the connectives and
negation combine the texts of their operands; a bare member is a test for true and a negated one
a test for false. Every constant is bound to a slot, under the column that the comparison is
about.

`emitOperand` writes the operands of comparisons and the values of assignments: columns,
constants, and parenthesised arithmetic over them.
-/

namespace EntitySql

namespace Scope

open Drafting

/-! ### Operands -/

/-- The column that an operand is about: the first that a member chain in it resolves to. -/
def subjectColumn? (c : Scope) : Expr → Option String
  | .member owner name =>
    match c.resolve (.member owner name) with
    | .ok f => some f.column.name
    | .error _ => none
  | .convert inner => c.subjectColumn? inner
  | .binary op left right =>
    if op.isArithmetic then
      match c.subjectColumn? left with
      | some column => some column
      | none => c.subjectColumn? right
    else none
  | _ => none

/-- The column under which the constants of a comparison are bound. -/
def comparisonColumn (c : Scope) (left right : Expr) : String :=
  match c.subjectColumn? left with
  | some column => column
  | none => (c.subjectColumn? right).getD "p"

/-- Emits the text of an operand, with its constants bound for a column. -/
def emitOperand (c : Scope) (column : String) (clause : ClauseKind) : Expr → Drafting Unit
  | .member owner name => do
    let f ← c.fieldOf (.member owner name)
    pushText (c.columnSql f)
  | .constant value => do
    let slot ← c.bindValue column value
    pushText slot
  | .convert inner => c.emitOperand column clause inner
  | .binary op left right =>
    if op.isArithmetic then do
      c.emitOperand column clause left
      c.emitOperand column clause right
      let rightText ← popText
      let leftText ← popText
      pushText ("(" ++ leftText ++ " " ++ op.text ++ " " ++ rightText ++ ")")
    else throw (.unsupported .binary clause)
  | e => throw (.unsupported e.kind clause)

/-! ### Comparisons -/

/-- Emits a test of an operand for null or for not null. -/
def emitNullTest (c : Scope) (op : Operator) (column : String) (subject : Expr) :
    Drafting Unit := do
  c.emitOperand column .predicate subject
  let text ← popText
  pushText (text ++ if op = .eq then " IS NULL" else " IS NOT NULL")

/-- Emits a comparison. Equality and inequality with a constant null are tests for null. -/
def emitComparison (c : Scope) (op : Operator) (left right : Expr) : Drafting Unit :=
  let column := c.comparisonColumn left right
  if (op = .eq ∨ op = .ne) ∧ (left.isNullLiteral || right.isNullLiteral) then
    c.emitNullTest op column (if right.isNullLiteral then left else right)
  else do
    c.emitOperand column .predicate left
    c.emitOperand column .predicate right
    let rightText ← popText
    let leftText ← popText
    pushText (leftText ++ " " ++ op.text ++ " " ++ rightText)

/-- Emits a test of a boolean member. -/
def emitFlag (c : Scope) (member : Expr) (expected : Bool) : Drafting Unit := do
  let f ← c.fieldOf member
  let slot ← c.bindValue f.column.name (.bool expected)
  pushText (c.columnSql f ++ " = " ++ slot)

/-! ### Calls -/

/-- Puts a backslash before the characters that a pattern does not take literally. -/
def escapePattern : List Char → List Char
  | [] => []
  | ch :: rest =>
    if ch = '\\' ∨ ch = '%' ∨ ch = '_' ∨ ch = '[' then '\\' :: ch :: escapePattern rest
    else ch :: escapePattern rest

/-- The pattern that matches the texts which start with, end with or contain a text. -/
def matchPattern (method : Callee) (text : String) : String :=
  let literal := escapePattern text.toList
  match method with
  | .startsWith => String.ofList (literal ++ ['%'])
  | .endsWith => String.ofList ('%' :: literal)
  | _ => String.ofList ('%' :: literal ++ ['%'])

/-- Emits list membership of a member. No value is in an empty list. -/
def emitMembership (c : Scope) (member : Expr) (values : List Value) : Drafting Unit := do
  let f ← c.fieldOf member
  match values with
  | [] => pushText "1 = 0"
  | values =>
    let slots ← values.mapM (c.bindValue f.column.name)
    pushText (c.columnSql f ++ " IN (" ++ String.intercalate ", " slots ++ ")")

/-- Emits a text match of a member. -/
def emitMatch (c : Scope) (method : Callee) (member : Expr) (text : String) :
    Drafting Unit := do
  let f ← c.fieldOf member
  let slot ← c.bindValue f.column.name (.text (matchPattern method text))
  pushText (c.columnSql f ++ " LIKE " ++ slot ++ " ESCAPE '\\'")

/-- Emits a call on its first argument. -/
def emitCall (c : Scope) (method : Callee) (target : Expr) (args : List Expr) :
    Drafting Unit :=
  match args with
  | [] => throw (.unsupported .call .predicate)
  | arg :: _ =>
    match method, target.unconverted with
    | .equals, _ => c.emitComparison .eq target arg
    | .contains, .constant (.array values) => c.emitMembership arg.unconverted values
    | _, .member owner name =>
      match arg.unconverted with
      | .constant (.text text) => c.emitMatch method (.member owner name) text
      | _ => throw (.unsupported arg.kind .predicate)
    | _, _ => throw (.unsupported .call .predicate)

/-! ### Conditions -/

/-- Emits the condition of a filter. -/
def emitFilter (c : Scope) : Expr → Drafting Unit
  | .lambda _ body => c.emitFilter body
  | .convert inner => c.emitFilter inner
  | .binary op left right =>
    if op.isLogical then do
      c.emitFilter left
      c.emitFilter right
      let rightText ← popText
      let leftText ← popText
      pushText ("(" ++ leftText ++ " " ++ op.text ++ " " ++ rightText ++ ")")
    else if op.isComparison then c.emitComparison op left right
    else throw (.unsupported .binary .predicate)
  | .member owner name => c.emitFlag (.member owner name) true
  | .not (.member owner name) => c.emitFlag (.member owner name) false
  | .not inner => do
    c.emitFilter inner
    let text ← popText
    pushText ("NOT (" ++ text ++ ")")
  | .call method target args => c.emitCall method target args
  | .constant (.bool true) => pushText "1 = 1"
  | .constant (.bool false) => pushText "1 = 0"
  | e => throw (.unsupported e.kind .predicate)

/-- The text of a filter. -/
def filterSql (c : Scope) (e : Expr) : Drafting (Option String) := do
  reset
  setAliasing false
  c.emitFilter e
  match ← takeTexts with
  | [] => return none
  | parts => return some (String.intercalate " AND " parts)

end Scope

end EntitySql
