import EntitySql.Store.Command

/-!
# The embedded database

A `Database` holds the table, once it is created, as a list of keys with their values, in the
order of the keys. `Database.run` carries out one command: it gives the rows that the command
reads, the number of rows that it changes, and the database after it. Keys are equal when their
stored values are (`Stored.equals`), so the integer 1 and the real 1.0 are one key, and any number
of rows may have a null for theirs. A command that fails changes nothing, and a `CommandFault` says
why it does.
-/

namespace EntitySql

/-! ### Rows of the table -/

/-- The rows of the table, in the order of their keys. -/
abbrev TableRows := List (Stored × Stored)

namespace TableRows

/-- Puts a row in its place, after those with a null key if its own is null; a key that is taken
is refused. -/
def insert? (key value : Stored) : TableRows → Option TableRows
  | [] => some [(key, value)]
  | (k, v) :: rest =>
    if key.equals k then none
    else if key.compare k == .lt then some ((key, value) :: (k, v) :: rest)
    else (insert? key value rest).map ((k, v) :: ·)

/-- The number of rows with a key. -/
def countOf (key : Stored) (rows : TableRows) : Nat :=
  rows.countP fun row => row.1.equals key

/-- Sets the value of the rows with a key. -/
def update (key value : Stored) (rows : TableRows) : TableRows :=
  rows.map fun row => if row.1.equals key then (row.1, value) else row

/-- Sets the value of every row. -/
def updateAll (value : Stored) (rows : TableRows) : TableRows :=
  rows.map fun row => (row.1, value)

/-- Drops the rows with a key. -/
def delete (key : Stored) (rows : TableRows) : TableRows :=
  rows.filter fun row => !row.1.equals key

/-- The rows with the names of their columns. -/
def toRows (rows : TableRows) : List StoredRow :=
  rows.map fun row => [("k", row.1), ("v", row.2)]

end TableRows

/-! ### Commands -/

/-- The embedded database: its table, if it has been created. -/
structure Database where
  table : Option TableRows := none

/-- What a command gives. -/
structure CommandResult where
  rows : List StoredRow := []
  /-- The number of rows that are inserted, updated or deleted, for a command that does so. -/
  affected : Option Nat := none
  database : Database

/-- Why a command fails. -/
inductive CommandFault where
  /-- The text has none of the forms. -/
  | notUnderstood
  | readOnly
  | noTable
  | tableExists
  | keyTaken
deriving DecidableEq, Repr

namespace Database

/-- The value of a slot; a slot without a bind value is null. -/
def slotValue (binds : List Stored) (number : Nat) : Stored :=
  binds[number - 1]?.getD .null

/-- The value of a select item. -/
def itemValue (binds : List Stored) : RowItem → Stored
  | .slot n => slotValue binds n
  | .constant v => v

/-- The table, which must have been created. -/
def rows (db : Database) : Except CommandFault TableRows :=
  match db.table with
  | some rows => .ok rows
  | none => .error .noTable

/-- The command changes the database. -/
def changes : Command → Bool
  | .select _ | .readAll | .count _ => false
  | _ => true

/-- Carries out a command with its bind values. -/
def run (db : Database) (binds : List Stored) : Command → Except CommandFault CommandResult
  | .select items =>
    .ok { rows := [items.map fun item => (item.1, itemValue binds item.2)], database := db }
  | .createTable =>
    match db.table with
    | some _ => .error .tableExists
    | none => .ok { database := ⟨some []⟩ }
  | .insert key value => do
    let rows ← db.rows
    match TableRows.insert? (slotValue binds key) (slotValue binds value) rows with
    | some rows => return { affected := some 1, database := ⟨some rows⟩ }
    | none => .error .keyTaken
  | .updateAll value => do
    let rows ← db.rows
    return { affected := some rows.length
             database := ⟨some (TableRows.updateAll (slotValue binds value) rows)⟩ }
  | .updateKey value key => do
    let rows ← db.rows
    let k := slotValue binds key
    return { affected := some (TableRows.countOf k rows)
             database := ⟨some (TableRows.update k (slotValue binds value) rows)⟩ }
  | .deleteAll => do
    let rows ← db.rows
    return { affected := some rows.length, database := ⟨some []⟩ }
  | .deleteKey key => do
    let rows ← db.rows
    let k := slotValue binds key
    return { affected := some (TableRows.countOf k rows)
             database := ⟨some (TableRows.delete k rows)⟩ }
  | .readAll => do
    let rows ← db.rows
    return { rows := TableRows.toRows rows, database := db }
  | .count name => do
    let rows ← db.rows
    return { rows := [[(name, .integer (Int64.ofNat rows.length))]], database := db }

end Database

end EntitySql
