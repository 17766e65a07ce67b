import EntitySql.Query

/-!
# Pending mutations

A mutation becomes a statement when it is queued, and the statement waits in a `Pending` for the
next save. The queue is touched in three short sections, each a function here: `add` makes the
statement under the next index and appends it, `takeAll?` hands over what is queued, and `settle`
puts the phase right after sending. More mutations may be queued while statements are being sent;
they belong to the next save.

The index of a statement goes into the names of its bind slots. It starts again at 0 when the
queue is taken, so the statements that are sent together have different indices.
-/

namespace EntitySql

/-! ### Mutations -/

/-- What a mutation does to the rows of a table. -/
inductive Verb where
  | insert | update | delete
deriving DecidableEq, Repr

/-- A mutation in terms of entities. Whole entities go to the table of their type; a partial
update and a delete concern the rows of a query. -/
inductive Mutation where
  | insert (entity : EntityDecl) (values : Record)
  | update (entity : EntityDecl) (values : Record)
  | updateBy (query : Query) (assignment : Expr)
  | delete (query : Query)

namespace Mutation

/-- What the mutation does. -/
def verb : Mutation → Verb
  | .insert _ _ => .insert
  | .update _ _ | .updateBy _ _ => .update
  | .delete _ => .delete

/-- The entity type of a mutation. -/
def entity : Mutation → EntityDecl
  | .insert entity _ | .update entity _ => entity
  | .updateBy query _ | .delete query => query.entity

/-- The statement of a mutation under an index, which replaces an index of the query's own. -/
def statement (dialect : Dialect) (index : Nat) : Mutation → Except SqlError Statement
  | .insert entity values => ({ dialect, entity, index } : Query).insert values
  | .update entity values => ({ dialect, entity, index } : Query).update values
  | .updateBy query assignment => { query with index }.updateBy assignment
  | .delete query => { query with index }.delete

end Mutation

/-! ### The queue -/

/-- The mapped table of a queued mutation, and what it does there. -/
structure MutationTarget where
  table : String
  verb : Verb
deriving DecidableEq, Repr

/-- A mutation in the queue. -/
structure Queued where
  target : MutationTarget
  statement : Statement
deriving Repr

/-- What a unit of work is doing. -/
inductive Phase where
  | idle | accumulating | flushing
deriving DecidableEq, Repr

/-- The name of a phase. -/
def Phase.name : Phase → String
  | .idle => "Idle"
  | .accumulating => "Accumulating"
  | .flushing => "Flushing"

/-- The mutations that no save has taken yet. -/
structure Pending where
  phase : Phase := .idle
  nextIndex : Nat := 0
  queued : List Queued := []
deriving Repr

namespace Pending

/-- The number of queued mutations. -/
def size (p : Pending) : Nat :=
  p.queued.length

/-- Nothing is queued. -/
def isEmpty (p : Pending) : Bool :=
  p.queued.isEmpty

/-- Appends a mutation. Sending that is under way stays visible in the phase. -/
def append (p : Pending) (q : Queued) : Pending where
  phase := if p.phase = .idle then .accumulating else p.phase
  nextIndex := p.nextIndex + 1
  queued := p.queued ++ [q]

/-- Makes the statement of a mutation under the next index and appends it. A mutation without a
statement leaves the queue as it is. -/
def add (dialect : Dialect) (m : Mutation) (p : Pending) : Except SqlError Pending := do
  let statement ← m.statement dialect p.nextIndex
  let table ← mappedTable m.entity
  return p.append ⟨⟨table, m.verb⟩, statement⟩

/-- Takes the queued statements for sending, if there are any. -/
def takeAll? (p : Pending) : Option (List Statement × Pending) :=
  if p.isEmpty then none
  else some (p.queued.map (·.statement), { phase := .flushing, nextIndex := 0, queued := [] })

/-- The queue after sending, which may have gained mutations in the meantime. -/
def settle (p : Pending) : Pending :=
  { p with phase := if p.isEmpty then .idle else .accumulating }

@[simp]
theorem queued_append (p : Pending) (q : Queued) : (p.append q).queued = p.queued ++ [q] := rfl

@[simp]
theorem size_append (p : Pending) (q : Queued) : (p.append q).size = p.size + 1 := by
  simp [size]

theorem takeAll?_eq_none_iff (p : Pending) : p.takeAll? = none ↔ p.queued = [] := by
  simp [takeAll?, isEmpty]

@[simp]
theorem queued_settle (p : Pending) : p.settle.queued = p.queued := rfl

@[simp]
theorem nextIndex_settle (p : Pending) : p.settle.nextIndex = p.nextIndex := rfl

@[simp]
theorem settle_settle (p : Pending) : p.settle.settle = p.settle := rfl

end Pending

end EntitySql
