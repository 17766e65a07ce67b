import EntitySql.Work.Engine

/-!
# Units of work

A `UnitOfWork` is the fixed part of a unit of work, its dialect and its settings; the `WorkState`
is what changes: the engine, the pending mutations, and the trace of what happened. Mutations are
queued, and `save` takes the queue, sends it, and settles the phase, whatever the outcome of the
sending: a statement that was sent never stays in the queue.

Mutations that other clients queue while statements are being sent wait for the next save. The
sending does not read the queue, so they are entered from the journal after it, in the order in
which they arrived.
-/

namespace EntitySql

/-- The fixed part of a unit of work. -/
structure UnitOfWork where
  dialect : Dialect
  settings : Settings := {}

/-- What happened to a unit of work: a call of its engine, or an arrival, with the phase and the
number of pending mutations after it. An arrival that only looks has no number of rows. -/
inductive Event where
  | call (call : Call)
  | arrival (outcome : Except SqlError (Option UInt64)) (phase : Phase) (pending : Nat)

/-- The changing part of a unit of work. -/
structure WorkState (β : Type) where
  engine : β
  pending : Pending := {}
  trace : List Event := []

/-- What an operation on a unit of work gives: its outcome and the new state. -/
abbrev Step (β α : Type) := WorkState β → Except SqlError α × WorkState β

namespace UnitOfWork

variable {β : Type}

/-- A query over a table, in the dialect of the unit of work. -/
def table (u : UnitOfWork) (entity : EntityDecl) : Query :=
  { dialect := u.dialect, entity }

/-! ### Arrivals -/

/-- Enters what another client did. -/
def arrive (u : UnitOfWork) (p : Pending) : Arrival → Pending × Event
  | .look => (p, .arrival (.ok none) p.phase p.size)
  | .queue m =>
    match p.add u.dialect m with
    | .ok q => (q, .arrival (.ok (some 0)) q.phase q.size)
    | .error e => (p, .arrival (.error e) p.phase p.size)

/-- Enters several arrivals in turn. -/
def arriveAll (u : UnitOfWork) (p : Pending) : List Arrival → Pending × List Event
  | [] => (p, [])
  | a :: as =>
    let (p, event) := u.arrive p a
    let (p, events) := u.arriveAll p as
    (p, event :: events)

/-- What other clients did during a call. -/
def arrivals : Call → List Arrival
  | .execute _ _ arrivals => arrivals
  | _ => []

/-- Enters the calls of a journal with their arrivals. -/
def absorb (u : UnitOfWork) (p : Pending) : List Call → Pending × List Event
  | [] => (p, [])
  | call :: calls =>
    let (p, arrived) := u.arriveAll p (arrivals call)
    let (p, events) := u.absorb p calls
    (p, .call call :: arrived ++ events)

/-- Runs a program on the engine and enters its calls. -/
def run {α : Type} (u : UnitOfWork) (program : Session β α) : Step β α := fun w =>
  let (outcome, journal) : Except SqlError α × Journal β :=
    match program { engine := w.engine } with
    | .ok a j => (.ok a, j)
    | .error e j => (.error e, j)
  let (pending, events) := u.absorb w.pending journal.calls
  (outcome, { engine := journal.engine, pending, trace := w.trace ++ events })

variable [Engine β]

/-! ### Saving -/

/-- Sends the queued mutations and gives the number of affected rows. Afterwards none of them is
queued, whether the sending succeeds or fails. -/
def save (u : UnitOfWork) : Step β UInt64 := fun w =>
  match w.pending.takeAll? with
  | none => (.ok 0, w)
  | some (statements, pending) =>
    let (outcome, w) := u.run (Session.send u.settings statements) { w with pending }
    (outcome.mapError .flush, { w with pending := w.pending.settle })

/-- Queues a mutation. Unless mutations are merged it is saved at once. -/
def mutate (u : UnitOfWork) (m : Mutation) : Step β UInt64 := fun w =>
  match w.pending.add u.dialect m with
  | .error e => (.error e, w)
  | .ok pending =>
    if u.settings.merging then (.ok 0, { w with pending })
    else u.save { w with pending }

/-! ### Reading -/

/-- Runs a query at once. -/
def query (u : UnitOfWork) (s : Statement) : Step β (List Row) :=
  u.run (Session.query s)

/-- Executes a statement at once, past the queue. -/
def execute (u : UnitOfWork) (s : Statement) : Step β UInt64 :=
  u.run (Session.execute s)

/-- The number that a count gave: the value of the first column of the first row. -/
def countOf? (rows : List Row) : Option Nat := do
  let row ← rows.head?
  let (_, value) ← row.columns.head?
  (value.uint64?).map Int.toNat

/-- Reads a page and the number of rows that it is cut from, the number first. -/
def readCounted (counted : CountedPage) : Session β (List Row × Nat) := do
  match countOf? (← Session.query counted.count) with
  | none => throw .noCount
  | some total =>
    let rows ← Session.query counted.page
    return (rows, total)

/-- Reads one page of a query and the number of rows that it is cut from. -/
def readCountedPage (u : UnitOfWork) (q : Query) (size index : Nat) (distinct : Bool) :
    Step β (List Row × Nat) := fun w =>
  match q.countedPage size index distinct with
  | .error e => (.error e, w)
  | .ok counted => u.run (readCounted counted) w

end UnitOfWork

end EntitySql
