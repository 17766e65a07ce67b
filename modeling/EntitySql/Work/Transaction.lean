import EntitySql.Work.Engine

/-!
# Transactions

A transaction is opened, and steps are run in it. A failing step does not end the transaction; a
commit and a rollback do, and no step after them is run. If the transaction cannot be opened, no
step is run.
-/

namespace EntitySql

/-- One step inside a transaction. -/
inductive TransactionStep where
  | execute (statement : Statement)
  | query (statement : Statement)
  | batch (statements : List Statement)
  | commit
  | rollback

/-- What a step gives when it succeeds. -/
inductive TransactionReply where
  | affected (rows : UInt64)
  | rows (rows : List Row)
  | done

namespace TransactionStep

variable {β : Type} [Engine β]

/-- The step ends the transaction. -/
def isLast : TransactionStep → Bool
  | .commit | .rollback => true
  | _ => false

/-- Runs one step. -/
def run : TransactionStep → Session β TransactionReply
  | .execute s => .affected <$> Session.execute s
  | .query s => .rows <$> Session.query s
  | .batch ss => .affected <$> Session.executeAll ss
  | .commit => (fun _ => .done) <$> Session.commit
  | .rollback => (fun _ => .done) <$> Session.rollback

end TransactionStep

/-- The outcomes of the steps of a transaction. -/
abbrev TransactionOutcomes := List (Except SqlError TransactionReply)

namespace Session

variable {β : Type} [Engine β]

/-- Runs steps inside an open transaction up to the one that ends it. -/
def runSteps : List TransactionStep → Journal β → TransactionOutcomes × Journal β
  | [], j => ([], j)
  | step :: steps, j =>
    let (outcome, j) : Except SqlError TransactionReply × Journal β :=
      match step.run j with
      | .ok reply j => (.ok reply, j)
      | .error e j => (.error e, j)
    if step.isLast then ([outcome], j)
    else
      let (outcomes, j) := runSteps steps j
      (outcome :: outcomes, j)

/-- Opens a transaction and runs steps in it. If it cannot be opened, that is the only
outcome. -/
def runTransaction (isolation : Isolation) (steps : List TransactionStep) (j : Journal β) :
    TransactionOutcomes × Journal β :=
  match openTransaction isolation j with
  | .ok _ j => runSteps steps j
  | .error e j => ([.error e], j)

end Session

end EntitySql
