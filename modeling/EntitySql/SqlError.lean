import EntitySql.Expr

/-!
# Errors

`SqlError` is the one error type of the library. Three of its causes are permanent: they depend
on the expression and the map alone, so that a second attempt fails again. The texts of the
errors that the library raises by itself stand here, beside the one function that words every
error.
-/

namespace EntitySql

/-- The kinds of clauses that are made of expressions, by which a refused node is reported. -/
inductive ClauseKind where
  | projection | ordering | predicate | assignment
deriving DecidableEq, Repr

/-- The name of a clause kind. -/
def ClauseKind.name : ClauseKind → String
  | .projection => "projection"
  | .ordering => "ordering"
  | .predicate => "predicate"
  | .assignment => "assignment"

/-- What can go wrong. -/
inductive SqlError where
  /-- The entity type has no usable map. -/
  | mapping (text : String)
  /-- A member chain does not lead to a persisted field. -/
  | unmapped (entity member : String)
  /-- The clause does not accept a node of this kind. -/
  | unsupported (node : NodeKind) (clause : ClauseKind)
  /-- Sending the pending mutations failed. -/
  | flush (cause : SqlError)
  | database (text : String)
  | query (text : String)
  | connection (text : String)
  | transaction (text : String)
  | io (text : String)
  /-- A JSON text is malformed or does not fit. -/
  | json
  /-- The database driver or engine refused. -/
  | engine
deriving DecidableEq, Repr, Inhabited

namespace SqlError

/-! ### Wording -/

/-- The message of an error. The text of the two foreign causes is not fixed. -/
def message : SqlError → String
  | .mapping text => "Mapping error: " ++ text
  | .unmapped entity member => "Unmapped field: " ++ member ++ " on " ++ entity
  | .unsupported node clause =>
    "Unsupported expression: " ++ node.name ++ " in " ++ clause.name ++ " mode"
  | .flush cause => "Flush failed: " ++ cause.message
  | .database text => "Database error: " ++ text
  | .query text => "Query error: " ++ text
  | .connection text => "Connection error: " ++ text
  | .transaction text => "Transaction error: " ++ text
  | .io text => "IO error: " ++ text
  | .json => "JSON error"
  | .engine => "Engine error"

/-- The message of the cause below an error, if there is one. -/
def causeMessage? : SqlError → Option String
  | .flush cause => some cause.message
  | .io text => some text
  | _ => none

/-- The error depends on the expression and the map alone. -/
def isPermanent : SqlError → Bool
  | .mapping _ | .unmapped _ _ | .unsupported _ _ => true
  | _ => false

/-! ### Errors of the mapping -/

/-- The table name is blank. -/
def noTable (entity : String) : SqlError :=
  .mapping (entity ++ " declares no table identity")

/-- The description lists no field. -/
def noFields (entity : String) : SqlError :=
  .mapping (entity ++ " declares no fields")

/-- Two declarations have the same member. -/
def fieldTwice (entity member : String) : SqlError :=
  .mapping (entity ++ " declares field " ++ member ++ " twice")

/-- A page needs an ordering, and neither the map nor the query gives one. -/
def noPageOrder (entity : String) : SqlError :=
  .mapping (entity ++ " has no key to page by and no ordering was given")

/-! ### Errors of statements -/

/-- An assignment to a generated or computed column. -/
def notWritable (column entity : String) : SqlError :=
  .query ("column " ++ column ++ " of " ++ entity ++ " is not writable")

/-- A fragment was expected on the stack. -/
def underflow : SqlError :=
  .query "predicate fragment stack underflow"

/-- The rows up to the end of a page cannot be counted in 64 bits. -/
def pageOutOfRange (index size : Nat) : SqlError :=
  .query ("page " ++ toString index ++ " of size " ++ toString size ++ " is out of range")

/-- A distinct page orders by a column that is not selected. -/
def orderNotSelected (expr : String) : SqlError :=
  .query ("DISTINCT page cannot order by " ++ expr ++ ", which is not selected")

/-- An insert has no column to fill. -/
def emptyInsert : SqlError :=
  .query "INSERT must have at least one value"

/-- An update has nothing to set. -/
def emptyUpdate : SqlError :=
  .query "UPDATE must have at least one SET value"

/-- An update has neither a filter nor a key value. -/
def unboundedUpdate : SqlError :=
  .query "UPDATE requires a filter or a key value"

/-- A count came back without a number. -/
def noCount : SqlError :=
  .query "count returned no value"

/-! ### Errors of transactions -/

/-- A transaction is open already. -/
def alreadyInTransaction : SqlError :=
  .transaction "Already in transaction"

/-- No transaction is open. -/
def notInTransaction : SqlError :=
  .transaction "Not in transaction"

end SqlError

end EntitySql
