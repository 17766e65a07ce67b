import EntitySql.Proofs.Condition.Grammar
import EntitySql.Proofs.FilterText

/-!
# What filters and conditions mean

Conditions are true, false or unknown on a row. An `Interpretation` fixes the comparisons, the
arithmetic and the text match of a database on values; nothing is asked of it except that it does
not tell equal values apart.

Two meanings are given for the same interpretation and row. `Reading.truth?` evaluates what the
text of a condition says, given the values of the slots. `Scope.filterTruth?` evaluates a filter
as it is written, with its constants in place. Neither is defined on trees that are no condition,
or no filter.
-/

namespace EntitySql

/-! ### Truth values -/

/-- The truth values of conditions. -/
inductive Truth where
  | no | unknown | yes
deriving DecidableEq, Repr

namespace Truth

/-- The truth value of a decided condition. -/
def ofBool (b : Bool) : Truth :=
  if b then .yes else .no

/-- Negation. -/
def not : Truth → Truth
  | .no => .yes
  | .unknown => .unknown
  | .yes => .no

/-- Conjunction. -/
def and : Truth → Truth → Truth
  | .no, _ | _, .no => .no
  | .yes, t | t, .yes => t
  | .unknown, .unknown => .unknown

/-- Disjunction. -/
def or : Truth → Truth → Truth
  | .yes, _ | _, .yes => .yes
  | .no, t | t, .no => t
  | .unknown, .unknown => .unknown

end Truth

/-! ### Interpretations -/

/-- What comparisons, arithmetic and text matches give on values. Equal values are treated
alike. -/
structure Interpretation where
  compare : Operator → Value → Value → Truth
  compute : Operator → Value → Value → Value
  /-- The first value matches the pattern that is the second, with a backslash for escape. -/
  like : Value → Value → Truth
  compare_same : ∀ op {v v' w w' : Value}, v.same v' = true → w.same w' = true →
    compare op v w = compare op v' w'
  compute_same : ∀ op {v v' w w' : Value}, v.same v' = true → w.same w' = true →
    (compute op v w).same (compute op v' w') = true
  like_same : ∀ {v v' w w' : Value}, v.same v' = true → w.same w' = true →
    like v w = like v' w'

/-- The value is equal to one of a list. -/
def Interpretation.among (I : Interpretation) (v : Value) : List Value → Truth
  | [] => .no
  | w :: ws => (I.compare .eq v w).or (I.among v ws)

/-- The value is null, or not null. -/
def Truth.ofNullTest (v : Value) (negated : Bool) : Truth :=
  .ofBool (v.isNull != negated)

/-- A row: the value of each column. -/
abbrev ColumnValues := String → Value

/-! ### The meaning of a reading -/

namespace Condition.Reading

variable (I : Interpretation) (row : ColumnValues) (slots : String → Option Value)

/-- The value of an operand. -/
def value? : Reading → Option Value
  | .column name => some (row name)
  | .slot text => slots text
  | .binary op l r =>
    if op.isArithmetic then do return I.compute op (← l.value?) (← r.value?) else none
  | _ => none

/-- The values of a list of operands. -/
def values? : Reading → Option (List Value)
  | .list items last => do return (← items.values?) ++ [← last.value? I row slots]
  | r => do return [← r.value? I row slots]

/-- The truth value of a condition. -/
def truth? : Reading → Option Truth
  | .settled b => some (.ofBool b)
  | .not inner => do return (← inner.truth?).not
  | .binary .and l r => do return (← l.truth?).and (← r.truth?)
  | .binary .or l r => do return (← l.truth?).or (← r.truth?)
  | .binary op l r =>
    if op.isComparison then do
      return I.compare op (← l.value? I row slots) (← r.value? I row slots)
    else none
  | .nullTest subject negated => do
    return .ofNullTest (← subject.value? I row slots) negated
  | .among subject items => do
    return I.among (← subject.value? I row slots) (← items.values? I row slots)
  | .like subject pattern => do
    return I.like (← subject.value? I row slots) (← pattern.value? I row slots)
  | _ => none

theorem truth?_comparison {op : Operator} (hop : op.isComparison = true) (l r : Reading) :
    truth? I row slots (.binary op l r) = do
      return I.compare op (← l.value? I row slots) (← r.value? I row slots) := by
  rw [truth?, if_pos hop]
  · rintro rfl
    cases hop
  · rintro rfl
    cases hop

end Condition.Reading

/-! ### Patterns -/

/-- A part of a pattern: any run of characters, or one character. -/
inductive PatternPart where
  | anything
  | character (c : Char)

/-- The text of a part. A character that has a meaning in patterns stands after a backslash. -/
def PatternPart.chars : PatternPart → List Char
  | .anything => ['%']
  | .character c => if c ∈ ['\\', '%', '_', '['] then ['\\', c] else [c]

/-- The pattern of a text match: the characters of the text, with anything on the open sides. -/
def patternOf (method : Callee) (text : String) : String :=
  let literal := text.toList.map PatternPart.character
  let parts : List PatternPart := match method with
    | .startsWith => literal ++ [.anything]
    | .endsWith => .anything :: literal
    | _ => .anything :: literal ++ [.anything]
  String.ofList (parts.flatMap PatternPart.chars)

/-! ### The meaning of a filter -/

namespace Scope

variable (c : Scope) (I : Interpretation) (row : ColumnValues)

/-- The value of a member chain. -/
def memberValue? (e : Expr) : Option Value :=
  match c.resolve e with
  | .ok f => some (row f.column.name)
  | .error _ => none

/-- The value of an operand. -/
def operandValue? : Expr → Option Value
  | .member owner name => c.memberValue? row (.member owner name)
  | .constant v => some v
  | .convert inner => operandValue? inner
  | .binary op l r =>
    if op.isArithmetic then do return I.compute op (← operandValue? l) (← operandValue? r)
    else none
  | _ => none

/-- The truth value of a comparison. An equality or inequality with a null constant on one side
asks whether the other side is null. -/
def comparisonTruth? (op : Operator) (l r : Expr) : Option Truth :=
  match op, l, r with
  | .eq, subject, .constant .null | .eq, .constant .null, subject => do
    return .ofNullTest (← c.operandValue? I row subject) false
  | .ne, subject, .constant .null | .ne, .constant .null, subject => do
    return .ofNullTest (← c.operandValue? I row subject) true
  | op, l, r => do return I.compare op (← c.operandValue? I row l) (← c.operandValue? I row r)

/-- The truth value of a call on its first argument. -/
def callTruth? (method : Callee) (target : Expr) : List Expr → Option Truth
  | [] => none
  | arg :: _ =>
    match CallForm.of method target arg with
    | .comparison => c.comparisonTruth? I row .eq target arg
    | .membership values => do return I.among (← c.memberValue? row arg.unconverted) values
    | .textMatch owner name text => do
      return I.like (← c.memberValue? row (.member owner name)) (.text (patternOf method text))
    | .badArgument | .refused => none

/-- The truth value of a filter. -/
def filterTruth? : Expr → Option Truth
  | .lambda _ body => filterTruth? body
  | .convert inner => filterTruth? inner
  | .binary .and l r => do return (← filterTruth? l).and (← filterTruth? r)
  | .binary .or l r => do return (← filterTruth? l).or (← filterTruth? r)
  | .binary op l r => if op.isComparison then c.comparisonTruth? I row op l r else none
  | .member owner name => do
    return I.compare .eq (← c.memberValue? row (.member owner name)) (.bool true)
  | .not (.member owner name) => do
    return I.compare .eq (← c.memberValue? row (.member owner name)) (.bool false)
  | .not inner => do return (← filterTruth? inner).not
  | .call method target args => c.callTruth? I row method target args
  | .constant (.bool b) => some (.ofBool b)
  | _ => none

theorem filterTruth?_comparison {op : Operator} (hop : op.isComparison = true) (l r : Expr) :
    c.filterTruth? I row (.binary op l r) = c.comparisonTruth? I row op l r := by
  rw [filterTruth?, if_pos hop]
  · rintro rfl
    cases hop
  · rintro rfl
    cases hop

theorem filterTruth?_not {e : Expr} (he : ∀ owner name, e ≠ .member owner name) :
    c.filterTruth? I row (.not e) = do return (← c.filterTruth? I row e).not := by
  rw [filterTruth?]
  exact he

end Scope

end EntitySql
