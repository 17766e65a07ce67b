import EntitySql.Work.Engine

/-!
# Scripted engines

A `Script` is an engine whose answers are laid down in advance: which call of which kind fails
and how, how many rows each execution affects, what each query gives, and what other clients do
during each execution. Calls are counted from 1, kind by kind, failing ones included.
-/

namespace EntitySql

/-- The kinds of calls. -/
inductive CallKind where
  | openTransaction | execute | query | commit | rollback
deriving DecidableEq, Repr

/-- The `number`-th call of a kind fails. -/
structure ScriptedFailure where
  kind : CallKind
  number : Nat
  error : SqlError

/-- An engine with answers laid down in advance. -/
structure Script where
  failures : List ScriptedFailure := []
  /-- The rows that each execution affects; 1 beyond the list. -/
  affected : List UInt64 := []
  /-- The result of each query; empty beyond the list. -/
  results : List (List Row) := []
  connected : Bool := true
  /-- What happens during the execution with a given number. -/
  during : List (Nat × Arrival) := []
  /-- The kinds of the calls made so far. -/
  made : List CallKind := []

namespace Script

/-- The number of the next call of a kind. -/
def nextNumber (s : Script) (kind : CallKind) : Nat :=
  s.made.count kind + 1

/-- The state after one more call of a kind. -/
def advance (s : Script) (kind : CallKind) : Script :=
  { s with made := s.made ++ [kind] }

/-- How the next call of a kind fails, if it does. -/
def failure? (s : Script) (kind : CallKind) : Option SqlError :=
  (s.failures.find? fun f => f.kind == kind && f.number == s.nextNumber kind).map (·.error)

/-- A call that gives a fixed answer unless it fails. -/
def answer {α : Type} (s : Script) (kind : CallKind) (a : α) : Except SqlError α × Script :=
  match s.failure? kind with
  | some e => (.error e, s.advance kind)
  | none => (.ok a, s.advance kind)

instance : Engine Script where
  openTransaction _ s := s.answer .openTransaction ()
  execute _ s :=
    let number := s.nextNumber .execute
    match s.answer .execute (s.affected.getD (number - 1) 1) with
    | (.ok rows, s') =>
      { outcome := .ok rows
        arrivals := (s.during.filter fun d => d.1 == number).map (·.2)
        engine := s' }
    | (.error e, s') => { outcome := .error e, engine := s' }
  query _ s := s.answer .query (s.results.getD (s.nextNumber .query - 1) [])
  commit s := s.answer .commit ()
  rollback s := s.answer .rollback ()
  isOpen s := s.connected

end Script

end EntitySql
