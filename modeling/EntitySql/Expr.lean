import EntitySql.Value.Basic

/-!
# Expression trees

Filters, select lists, orderings and assignments are written in one closed tree, `Expr`. What a
tree may hold at which place is not fixed by the type: each kind of clause accepts the nodes it
has a meaning for, and reports a node that it refuses by its kind (`Expr.kind`).

A member chain hangs on a root, usually a lambda parameter; `Expr.ofMember` and `Expr.ofMembers`
build chains on the parameter `o`.
-/

namespace EntitySql

/-! ### Operators and methods -/

/-- The binary operators: comparisons, the two connectives, and arithmetic. -/
inductive Operator where
  | eq | ne | lt | le | gt | ge
  | and | or
  | add | sub | mul | div
deriving DecidableEq, Repr

namespace Operator

/-- The six comparisons. -/
def isComparison : Operator → Bool
  | .eq | .ne | .lt | .le | .gt | .ge => true
  | _ => false

/-- The two connectives. -/
def isLogical : Operator → Bool
  | .and | .or => true
  | _ => false

/-- The four arithmetic operators. -/
def isArithmetic : Operator → Bool
  | .add | .sub | .mul | .div => true
  | _ => false

/-- The operator in SQL. -/
def text : Operator → String
  | .eq => "="
  | .ne => "<>"
  | .lt => "<"
  | .le => "<="
  | .gt => ">"
  | .ge => ">="
  | .and => "AND"
  | .or => "OR"
  | .add => "+"
  | .sub => "-"
  | .mul => "*"
  | .div => "/"

end Operator

/-- The methods a filter may call. `contains` is text containment on a member, and list
membership on a constant array. -/
inductive Callee where
  | contains | startsWith | endsWith | equals
deriving DecidableEq, Repr

/-- The name of a method. -/
def Callee.name : Callee → String
  | .contains => "Contains"
  | .startsWith => "StartsWith"
  | .endsWith => "EndsWith"
  | .equals => "Equals"

/-! ### Trees -/

/-- An expression tree. -/
inductive Expr where
  /-- A lambda parameter. -/
  | parameter (name : String)
  /-- The member `name` of `owner`. -/
  | member (owner : Expr) (name : String)
  | constant (value : Value)
  /-- A conversion, which has no effect on the SQL. -/
  | convert (inner : Expr)
  | not (inner : Expr)
  | binary (op : Operator) (left right : Expr)
  | call (method : Callee) (target : Expr) (args : List Expr)
  /-- A new record of several items. -/
  | record (items : List Expr)
  | lambda (params : List String) (body : Expr)
  /-- The assignment of one member in a partial update. -/
  | assign (target value : Expr)
  | conditional (test whenTrue whenFalse : Expr)
deriving Inhabited

/-- The kinds of nodes, by which a refused node is reported. -/
inductive NodeKind where
  | parameter | memberAccess | constant | convert | not | binary | call | record | lambda
  | assign | conditional
deriving DecidableEq, Repr

/-- The name of a node kind. -/
def NodeKind.name : NodeKind → String
  | .parameter => "Parameter"
  | .memberAccess => "MemberAccess"
  | .constant => "Constant"
  | .convert => "Convert"
  | .not => "Not"
  | .binary => "Binary"
  | .call => "Call"
  | .record => "New"
  | .lambda => "Lambda"
  | .assign => "Assign"
  | .conditional => "Conditional"

namespace Expr

/-- The kind of the root node. -/
def kind : Expr → NodeKind
  | .parameter _ => .parameter
  | .member _ _ => .memberAccess
  | .constant _ => .constant
  | .convert _ => .convert
  | .not _ => .not
  | .binary _ _ _ => .binary
  | .call _ _ _ => .call
  | .record _ => .record
  | .lambda _ _ => .lambda
  | .assign _ _ => .assign
  | .conditional _ _ _ => .conditional

/-- A constant null, written as such. -/
def isNullLiteral : Expr → Bool
  | .constant .null => true
  | _ => false

theorem eq_null_of_isNullLiteral {e : Expr} (h : e.isNullLiteral = true) :
    e = .constant .null := by
  unfold isNullLiteral at h
  split at h
  · rfl
  · cases h

/-- The tree below any conversions at its root. -/
def unconverted : Expr → Expr
  | .convert inner => inner.unconverted
  | e => e

/-! ### Building trees -/

/-- The root of the chains that are built here. -/
def root : Expr := .parameter "o"

/-- The member `name` of the root. -/
def ofMember (name : String) : Expr :=
  root.member name

/-- The chain of members on the root, the first name next to it. -/
def ofMembers (names : List String) : Expr :=
  names.foldl .member root

/-- Both conditions hold. -/
def conj (left right : Expr) : Expr :=
  .binary .and left right

/-- One of two conditions holds. -/
def disj (left right : Expr) : Expr :=
  .binary .or left right

/-- The value of the expression is one of a list. -/
def oneOf (e : Expr) (values : List Value) : Expr :=
  .call .contains (.constant (.array values)) [e]

/-! ### Member chains -/

/-- The names of a member chain, the one next to the root first. -/
def segments : Expr → List String
  | .member owner name => owner.segments ++ [name]
  | _ => []

/-- A member chain in dotted form; any other tree by the name of its kind. -/
def chainText (e : Expr) : String :=
  match e.segments with
  | [] => e.kind.name
  | names => String.intercalate "." names

end Expr

end EntitySql
