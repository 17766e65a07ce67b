import EntitySql.Store.Token

/-!
# Commands of the embedded database

The database understands one table, `t`, with a unique key column `k` and a value column `v`,
and selects of computed items. `Command.ofTokens?` matches the tokens of a SQL text against the
forms of these commands. A text may hold several commands with semicolons between them, and
`Command.ofText` gives them in order, with `none` for a part that has none of the forms.
-/

namespace EntitySql

/-- An item of a select without a table. -/
inductive RowItem where
  | slot (number : Nat)
  | constant (value : Stored)
deriving DecidableEq

/-- What a part of a SQL text asks for. -/
inductive Command where
  /-- One row of named items. -/
  | select (items : List (String × RowItem))
  | createTable
  /-- A new row from two slots, which hold the key and the value. -/
  | insert (key value : Nat)
  /-- Sets the value of every row. -/
  | updateAll (value : Nat)
  /-- Sets the value of the row with a key. -/
  | updateKey (value key : Nat)
  | deleteAll
  | deleteKey (key : Nat)
  /-- All rows in the order of their keys. -/
  | readAll
  /-- The number of rows, under a name. -/
  | count (name : String)
deriving DecidableEq

namespace Command

/-! ### Items -/

/-- The words that name no column unless they are quoted. -/
def reservedWords : List String :=
  ["ADD", "ALL", "ALTER", "AND", "AS", "AUTOINCREMENT", "BETWEEN", "CASE", "CHECK", "COLLATE",
    "COMMIT", "CONSTRAINT", "CREATE", "DEFAULT", "DEFERRABLE", "DELETE", "DISTINCT", "DROP",
    "ELSE", "ESCAPE", "EXCEPT", "EXISTS", "FOREIGN", "FROM", "GROUP", "HAVING", "IN", "INDEX",
    "INSERT", "INTERSECT", "INTO", "IS", "ISNULL", "JOIN", "LIMIT", "NOT", "NOTHING", "NOTNULL",
    "NULL", "ON", "OR", "ORDER", "PRIMARY", "REFERENCES", "RETURNING", "SELECT", "SET", "TABLE",
    "THEN", "TO", "TRANSACTION", "UNION", "UNIQUE", "UPDATE", "USING", "VALUES", "WHEN", "WHERE"]

/-- The column name that a token stands for. -/
def columnName? : SqlToken → Option String
  | .word capitals text => if reservedWords.contains capitals then none else some text
  | .name text => some text
  | .text text => some text
  | _ => none

/-- The item at the start of the input. -/
def item? : List SqlToken → Option (RowItem × List SqlToken)
  | .slot n :: rest => some (.slot n, rest)
  | .numeral n :: rest => (n.stored? false).map fun v => (.constant v, rest)
  | .mark '+' :: .numeral n :: rest => (n.stored? false).map fun v => (.constant v, rest)
  | .mark '-' :: .numeral n :: rest => (n.stored? true).map fun v => (.constant v, rest)
  | .word "NULL" _ :: rest => some (.constant .null, rest)
  | .word "TRUE" _ :: rest => some (.constant (.integer 1), rest)
  | .word "FALSE" _ :: rest => some (.constant (.integer 0), rest)
  | .text text :: rest => some (.constant (.ofText text), rest)
  | .blob bytes :: rest => some (.constant (.blob bytes), rest)
  | .word "CAST" _ :: .mark '(' :: .blob bytes :: .word "AS" _ :: .word "TEXT" _ :: .mark ')' ::
      rest => some (.constant (.text bytes), rest)
  | _ => none

/-- Items with their names, separated by commas; at most `fuel` of them. -/
def items? : Nat → List SqlToken → Option (List (String × RowItem))
  | 0, _ => none
  | fuel + 1, tokens => do
    match ← item? tokens with
    | (item, .word "AS" _ :: token :: rest) =>
      let name ← columnName? token
      match rest with
      | [] => return [(name, item)]
      | .mark ',' :: rest => return (name, item) :: (← items? fuel rest)
      | _ => none
    | _ => none

/-! ### Forms -/

/-- The command of a list of tokens. -/
def ofTokens? : List SqlToken → Option Command
  | [.word "CREATE" _, .word "TABLE" _, .word "T" _, .mark '(', .word "K" _, .word "UNIQUE" _,
      .mark ',', .word "V" _, .mark ')'] => some .createTable
  | [.word "INSERT" _, .word "INTO" _, .word "T" _, .mark '(', .word "K" _, .mark ',',
      .word "V" _, .mark ')', .word "VALUES" _, .mark '(', .slot key, .mark ',', .slot value,
      .mark ')'] => some (.insert key value)
  | [.word "UPDATE" _, .word "T" _, .word "SET" _, .word "V" _, .mark '=', .slot value] =>
    some (.updateAll value)
  | [.word "UPDATE" _, .word "T" _, .word "SET" _, .word "V" _, .mark '=', .slot value,
      .word "WHERE" _, .word "K" _, .mark '=', .slot key] => some (.updateKey value key)
  | [.word "DELETE" _, .word "FROM" _, .word "T" _] => some .deleteAll
  | [.word "DELETE" _, .word "FROM" _, .word "T" _, .word "WHERE" _, .word "K" _, .mark '=',
      .slot key] => some (.deleteKey key)
  | [.word "SELECT" _, .word "K" _, .mark ',', .word "V" _, .word "FROM" _, .word "T" _,
      .word "ORDER" _, .word "BY" _, .word "K" _] => some .readAll
  | [.word "SELECT" _, .word "COUNT" _, .mark '(', .mark '*', .mark ')', .word "AS" _, token,
      .word "FROM" _, .word "T" _] => (columnName? token).map .count
  | .word "SELECT" _ :: rest => (items? (rest.length + 1) rest).map .select
  | _ => none

/-- The parts of a list of tokens between its semicolons. -/
def parts : List SqlToken → List (List SqlToken)
  | [] => [[]]
  | .mark ';' :: rest => [] :: parts rest
  | token :: rest =>
    match parts rest with
    | part :: more => (token :: part) :: more
    | [] => [[token]]

/-- The commands of a SQL text, one for each part that is not empty. -/
def ofText (sql : String) : List (Option Command) :=
  ((parts (SqlToken.ofText sql)).filter fun part => !part.isEmpty).map ofTokens?

end Command

end EntitySql
