import EntitySql.SqlError
import EntitySql.Store.Address
import EntitySql.Store.Database
import EntitySql.Work.Engine

/-!
# Connections to the embedded database

A statement is handed to the database with its bind values in storage classes
(`Statement.toStored`), and the rows that it gives are lists of columns, which are read one by one
(`StatementResult.toRows`).

A `Connection` holds the data that its statements see and, while a transaction is open, the data
as they were when it began. A commit forgets these and a rollback returns to them; closing a
connection rolls an open transaction back.

A connection also counts the rows of the last insert, update or delete. Every command reports this
count, its own one if it is such a command, and that of an earlier one if it is not. An insert that
is refused because its key is taken leaves zero; no other failure and no end of a transaction
touches the count.
-/

namespace EntitySql

/-! ### Statements and results -/

/-- A SQL text with the values of its slots, as a database takes them. -/
structure StoredStatement where
  sql : String
  binds : List Stored := []

/-- The statement with its bind values in storage classes. -/
def Statement.toStored (s : Statement) : StoredStatement where
  sql := s.sql
  binds := s.binds.map fun slot => Stored.ofValue slot.value

/-- The rows that a statement reads, and the number of rows that it reports as changed. -/
structure StatementResult where
  rows : List StoredRow := []
  affected : Nat := 0

/-- The rows as they are read. -/
def StatementResult.toRows (r : StatementResult) : List Row :=
  r.rows.map Row.ofStored

/-! ### Connections -/

/-- A connection to an embedded database. -/
structure Connection where
  data : Database := {}
  /-- The data at the beginning of the open transaction. -/
  atBegin : Option Database := none
  /-- Commands that change the database are refused. -/
  readOnly : Bool := false
  /-- The number of rows of the last insert, update or delete. -/
  changed : Nat := 0

namespace Connection

/-! ### Opening and closing -/

/-- A new connection on an address. -/
def connect? (address : String) : Except SqlError Connection :=
  let a := Address.ofText address
  if a.canOpen then .ok { readOnly := a.isReadOnly } else .error .engine

/-- The connection has an open transaction. -/
def inTransaction (c : Connection) : Bool :=
  c.atBegin.isSome

/-- The database after closing the connection and opening it again. -/
def reopen (c : Connection) : Connection :=
  { data := c.atBegin.getD c.data, readOnly := c.readOnly }

/-! ### Statements -/

/-- The connection after a command that failed. -/
def afterFault (c : Connection) : CommandFault → Connection
  | .keyTaken => { c with changed := 0 }
  | _ => c

/-- The connection after a command that succeeded. -/
def afterCommand (c : Connection) (r : CommandResult) : Connection :=
  { c with data := r.database, changed := r.affected.getD c.changed }

/-- Carries out a command. -/
def runCommand (c : Connection) (binds : List Stored) (command : Command) :
    Except CommandFault CommandResult :=
  if c.readOnly && Database.changes command then .error .readOnly else c.data.run binds command

/-- Carries out commands in order up to the first failure. What ran before it stays. -/
def runAll (c : Connection) (binds : List Stored) :
    List (Option Command) → Except CommandFault StatementResult × Connection
  | [] => (.ok {}, c)
  | none :: _ => (.error .notUnderstood, c)
  | some command :: rest =>
    match c.runCommand binds command with
    | .error fault => (.error fault, c.afterFault fault)
    | .ok r =>
      let next := c.afterCommand r
      match runAll next binds rest with
      | (.ok more, last) =>
        (.ok { rows := r.rows ++ more.rows, affected := next.changed + more.affected }, last)
      | (.error fault, last) => (.error fault, last)

/-- Carries out the commands of a statement. The engine gives no reason for a failure. -/
def run (c : Connection) (s : StoredStatement) : Except SqlError StatementResult × Connection :=
  match c.runAll s.binds (Command.ofText s.sql) with
  | (.ok r, c) => (.ok r, c)
  | (.error _, c) => (.error .engine, c)

/-! ### Transactions -/

/-- Begins a transaction. The isolation level has no effect. -/
def begin? (c : Connection) : Except SqlError Connection :=
  if c.inTransaction then .error .alreadyInTransaction else .ok { c with atBegin := some c.data }

/-- Makes what the open transaction did permanent. -/
def commit? (c : Connection) : Except SqlError Connection :=
  if c.inTransaction then .ok { c with atBegin := none } else .error .notInTransaction

/-- Undoes what the open transaction did. -/
def rollback? (c : Connection) : Except SqlError Connection :=
  match c.atBegin with
  | some data => .ok { c with data, atBegin := none }
  | none => .error .notInTransaction

/-- The outcome of an operation with the connection after it; after a failure it is as before. -/
def after {α : Type} (c : Connection) (give : α) :
    Except SqlError Connection → Except SqlError α × Connection
  | .ok c' => (.ok give, c')
  | .error e => (.error e, c)

instance : Engine Connection where
  openTransaction _ c := c.after () c.begin?
  execute s c :=
    let (outcome, c) := c.run s.toStored
    { outcome := outcome.map fun r => UInt64.ofNat r.affected, engine := c }
  query s c :=
    let (outcome, c) := c.run s.toStored
    (outcome.map (·.toRows), c)
  commit c := c.after () c.commit?
  rollback c := c.after () c.rollback?
  isOpen _ := true

end Connection

end EntitySql
