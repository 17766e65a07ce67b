import EntitySql.Json.Document

/-!
# Settings of a unit of work

`Settings` are read from a JSON document: an object, in which every setting may be left out and
unknown members are ignored, or an array with the settings in order, of which the last ones may
be left out. A setting of the wrong type, a setting given twice and an array that is too long are
refused.
-/

namespace EntitySql

/-- How strictly concurrent transactions are kept apart. -/
inductive Isolation where
  | readUncommitted | readCommitted | repeatableRead | serializable
deriving DecidableEq, Repr

instance : Inhabited Isolation := ⟨.serializable⟩

namespace Isolation

/-- The level in SQL. -/
def toSql : Isolation → String
  | .readUncommitted => "READ UNCOMMITTED"
  | .readCommitted => "READ COMMITTED"
  | .repeatableRead => "REPEATABLE READ"
  | .serializable => "SERIALIZABLE"

/-- The level with a given name in a document. -/
def ofName? : String → Option Isolation
  | "read_uncommitted" => some .readUncommitted
  | "read_committed" => some .readCommitted
  | "repeatable_read" => some .repeatableRead
  | "serializable" => some .serializable
  | _ => none

/-- The level that a document chooses. -/
def ofDocument? (d : Document) : Option Isolation :=
  d.choice?.bind ofName?

end Isolation

/-- The settings of a unit of work. -/
structure Settings where
  /-- Mutations wait for the next save; otherwise each is saved at once. -/
  merging : Bool := true
  /-- Each save is a transaction. -/
  transactional : Bool := true
  isolation : Isolation := .serializable
deriving DecidableEq, Repr

namespace Settings

/-- Reads a setting that may be left out. -/
def setting? {α : Type} (read : Document → Option α) (default : α) : Option Document → Option α
  | none => some default
  | some d => read d

/-- Three settings that may be left out. -/
def ofSettings? (merge transactional isolation : Option Document) : Option Settings := do
  let merging ← setting? Document.bool? true merge
  let transactional ← setting? Document.bool? true transactional
  let isolation ← setting? Isolation.ofDocument? .serializable isolation
  return { merging, transactional, isolation }

/-- The only member of a given name, if there is one; there must not be two. -/
def only? (members : List (String × Document)) (name : String) : Option (Option Document) :=
  match members.filter fun m => m.1 == name with
  | [] => some none
  | [m] => some (some m.2)
  | _ => none

/-- The settings that a document holds. -/
def ofDocument? : Document → Option Settings
  | .object members => do
    let members ← members.mapM fun m => (TextUnit.decode? m.1).map fun key => (key, m.2)
    ofSettings? (← only? members "merge_commands") (← only? members "transactional")
      (← only? members "isolation")
  | .array items =>
    if items.length ≤ 3 then ofSettings? items[0]? items[1]? items[2]? else none
  | _ => none

/-- The settings that a JSON text holds. -/
def parse? (text : String) : Option Settings :=
  (Document.parse? text).bind ofDocument?

end Settings

end EntitySql
