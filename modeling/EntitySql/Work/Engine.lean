import EntitySql.Work.Pending
import EntitySql.Work.Settings

/-!
# Engines

An `Engine` runs statements and transactions. Its methods are functions on the state of the
engine, and each call may fail. While a statement executes, other clients of the same unit of
work may be active; what they do is part of the outcome of the call (`Execution.arrivals`).

A program over an engine is written in `Session`. It records every call with its outcome, in
order, whether the call fails or not: what a program asked of its engine can be read off
`Journal.calls`.
-/

namespace EntitySql

/-! ### Engines -/

/-- What another client does while a statement executes: it queues a mutation, or it looks at
the state. -/
inductive Arrival where
  | queue (mutation : Mutation)
  | look

/-- The outcome of executing a statement, with the number of affected rows. -/
structure Execution (β : Type) where
  outcome : Except SqlError UInt64
  arrivals : List Arrival := []
  engine : β

/-- What a unit of work needs of a database. -/
class Engine (β : Type) where
  openTransaction : Isolation → β → Except SqlError Unit × β
  execute : Statement → β → Execution β
  query : Statement → β → Except SqlError (List Row) × β
  commit : β → Except SqlError Unit × β
  rollback : β → Except SqlError Unit × β
  isOpen : β → Bool

/-! ### Sessions -/

/-- One call of an engine with its outcome. -/
inductive Call where
  | openTransaction (isolation : Isolation) (outcome : Except SqlError Unit)
  | execute (statement : Statement) (outcome : Except SqlError UInt64)
    (arrivals : List Arrival)
  | query (statement : Statement) (outcome : Except SqlError (List Row))
  | commit (outcome : Except SqlError Unit)
  | rollback (outcome : Except SqlError Unit)

/-- An engine and the calls made so far, in order. -/
structure Journal (β : Type) where
  engine : β
  calls : List Call := []

/-- Programs over an engine. A failure keeps the journal. -/
abbrev Session (β : Type) := EStateM SqlError (Journal β)

namespace Session

variable {β : Type} [Engine β]

/-- Goes on after a call with its outcome. -/
def record {α : Type} (call : Call) (outcome : Except SqlError α) (engine : β) :
    Session β α := fun j =>
  match outcome with
  | .ok a => .ok a ⟨engine, j.calls ++ [call]⟩
  | .error e => .error e ⟨engine, j.calls ++ [call]⟩

/-- Begins a transaction. -/
def openTransaction (isolation : Isolation) : Session β Unit := do
  let (outcome, engine) := Engine.openTransaction isolation (← get).engine
  record (.openTransaction isolation outcome) outcome engine

/-- Executes a statement and gives the number of affected rows. -/
def execute (s : Statement) : Session β UInt64 := do
  let e := Engine.execute s (← get).engine
  record (.execute s e.outcome e.arrivals) e.outcome e.engine

/-- Runs a query. -/
def query (s : Statement) : Session β (List Row) := do
  let (outcome, engine) := Engine.query s (← get).engine
  record (.query s outcome) outcome engine

/-- Commits the open transaction. -/
def commit : Session β Unit := do
  let (outcome, engine) := Engine.commit (← get).engine
  record (.commit outcome) outcome engine

/-- Rolls the open transaction back. -/
def rollback : Session β Unit := do
  let (outcome, engine) := Engine.rollback (← get).engine
  record (.rollback outcome) outcome engine

/-- Executes statements in order up to the first failure, and sums the affected rows. -/
def executeAll : List Statement → Session β UInt64
  | [] => pure 0
  | s :: ss => do
    let affected ← execute s
    let rest ← executeAll ss
    return affected + rest

/-! ### Sending -/

/-- Executes statements inside a transaction that is open, then commits it; after a failing
statement it is rolled back, and the failure of the rollback is passed over. -/
def sendAndClose (statements : List Statement) : Session β UInt64 := fun j =>
  match executeAll statements j with
  | .ok affected j =>
    match (commit : Session β Unit) j with
    | .ok _ j => .ok affected j
    | .error e j => .error e j
  | .error e j =>
    match (rollback : Session β Unit) j with
    | .ok _ j => .error e j
    | .error _ j => .error e j

/-- Sends statements, in a transaction of their own if the settings ask for one. -/
def send (settings : Settings) (statements : List Statement) : Session β UInt64 :=
  if settings.transactional then do
    openTransaction settings.isolation
    sendAndClose statements
  else executeAll statements

end Session

end EntitySql
