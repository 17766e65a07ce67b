import EntitySql.Clause.Fragment
import EntitySql.Dialect

/-!
# Select statements

A `Select` reads a table, or the rows of another select under an alias. Its expressions and its
condition are finished texts; what is left to the dialect is how a row bound is written.
`Select.toSql` is the text of a select.

Where the bound comes first (`BoundStyle.top`), a bound alone is written before the select list,
and a bound with an offset at the end.
-/

namespace EntitySql

/-- The body of a select, apart from what it reads. -/
structure SelectBody where
  distinct : Bool := false
  /-- The select list; empty, it stands for every column. -/
  columns : List SelectColumn := []
  filter : Option String := none
  order : List OrderItem := []
  limit : Option Nat := none
  offset : Option Nat := none
deriving DecidableEq, Repr

/-- A select from a table, or from a select under an alias. -/
inductive Select where
  | table (source : String) (body : SelectBody)
  | derived (inner : Select) (label : String) (body : SelectBody)
deriving DecidableEq, Repr

namespace SelectBody

/-- A bound before the select list. -/
def topText (style : BoundStyle) (b : SelectBody) : String :=
  match style, b.limit, b.offset with
  | .top, some n, none => "TOP " ++ toString n ++ " "
  | _, _, _ => ""

/-- The select list. -/
def columnsText (b : SelectBody) : String :=
  if b.columns.isEmpty then "*" else String.intercalate ", " (b.columns.map (·.toSql))

/-- The condition. -/
def filterText (b : SelectBody) : String :=
  match b.filter with
  | some filter => " WHERE " ++ filter
  | none => ""

/-- The ordering. -/
def orderText (b : SelectBody) : String :=
  if b.order.isEmpty then ""
  else " ORDER BY " ++ String.intercalate ", " (b.order.map (·.toSql))

/-- Bounds after everything else. -/
def boundsText (style : BoundStyle) (b : SelectBody) : String :=
  match style, b.limit, b.offset with
  | .top, _, none => ""
  | .top, none, some m => " OFFSET " ++ toString m ++ " ROWS"
  | .top, some n, some m =>
    " OFFSET " ++ toString m ++ " ROWS FETCH NEXT " ++ toString n ++ " ROWS ONLY"
  | .atEnd, limit, offset =>
    (match limit with
      | some n => " LIMIT " ++ toString n
      | none => "")
    ++ (match offset with
      | some m => " OFFSET " ++ toString m
      | none => "")

/-- The text of a select from a source. -/
def toSql (style : BoundStyle) (source : String) (b : SelectBody) : String :=
  "SELECT " ++ (if b.distinct then "DISTINCT " else "") ++ b.topText style ++ b.columnsText
    ++ " FROM " ++ source ++ b.filterText ++ b.orderText ++ b.boundsText style

end SelectBody

namespace Select

/-- The text of a select. -/
def toSql (style : BoundStyle) : Select → String
  | .table source body => body.toSql style source
  | .derived inner label body =>
    body.toSql style ("(" ++ inner.toSql style ++ ") " ++ label)

end Select

end EntitySql
