import EntitySql.Json.Compact
import EntitySql.Json.Document

/-!
# Dialects

A `Dialect` is a record of the decisions in which databases differ: how a name is quoted, which
names stand for columns, the text of a bind slot, how a row bound is written, the random sort key,
and how a page is cut. Statements are made with these decisions and nothing else of a database.
Names and slots may be written by any function.

* `quoteWith` puts a name between quotes and writes a closing quote in it twice.
* `isPlainName` tells the names that stand for a column from computed expressions; a dialect uses it
  unless it has a rule of its own.
* `BuiltinDialect` names the four built-in dialects.
-/

namespace EntitySql

/-- How a row bound is written: before the select list, or after everything else. -/
inductive BoundStyle where
  | top | atEnd
deriving DecidableEq, Repr

/-- How a page is cut out of an ordered result: by an offset of its own, or by reading the end
of a bounded result in reverse. -/
inductive PageMethod where
  | offset | reversal
deriving DecidableEq, Repr

/-! ### Identifiers -/

/-- Writes the closing quote twice and every other character once. -/
def doubleQuotes (closeQuote : Char) : List Char → List Char
  | [] => []
  | c :: cs =>
    if c = closeQuote then c :: c :: doubleQuotes closeQuote cs
    else c :: doubleQuotes closeQuote cs

/-- The name between quotes. -/
def quoteWith (openQuote closeQuote : Char) (name : String) : String :=
  String.ofList (openQuote :: doubleQuotes closeQuote name.toList ++ [closeQuote])

/-- A character that may begin a plain name: an ASCII letter or an underscore. -/
def isNameStart (c : Char) : Bool :=
  c.isAlpha || c == '_'

/-- A character that may continue a plain name: an ASCII letter, a digit or an underscore. -/
def isNameRest (c : Char) : Bool :=
  c.isAlphanum || c == '_'

/-- A name that stands for a column. Any other text is a computed expression. -/
def isPlainName (name : String) : Bool :=
  match name.toList with
  | [] => false
  | c :: cs => isNameStart c && cs.all isNameRest

/-! ### Bind slots -/

/-- A slot by its name. -/
def namedSlot (mark : Char) (name : String) (_ordinal : Nat) : String :=
  String.singleton mark ++ name

/-- A slot by its position. -/
def numberedSlot (mark : Char) (_name : String) (ordinal : Nat) : String :=
  String.singleton mark ++ toString ordinal

/-! ### Dialects -/

/-- The decisions in which databases differ. -/
structure Dialect where
  name : String
  /-- A name as a quoted identifier. -/
  quote : String → String
  /-- The name stands for a column. -/
  isPlain : String → Bool := isPlainName
  /-- The text of the slot with a given name at a given position, from 1. -/
  slotText : String → Nat → String
  boundStyle : BoundStyle
  /-- An expression that gives every row a fresh random key. -/
  random : String := "RANDOM()"
  pageMethod : PageMethod := .offset

/-! ### The built-in dialects -/

/-- SQL Server from 2012 on. -/
def Dialect.sqlServer : Dialect where
  name := "sqlserver"
  quote := quoteWith '[' ']'
  slotText := namedSlot '@'
  boundStyle := .top
  random := "NEWID()"

/-- SQL Server 2000, which has no offsets. -/
def Dialect.sqlServer2000 : Dialect :=
  { Dialect.sqlServer with name := "sqlserver2000", pageMethod := .reversal }

/-- SQLite. -/
def Dialect.sqlite : Dialect where
  name := "sqlite"
  quote := quoteWith '"' '"'
  slotText := numberedSlot '?'
  boundStyle := .atEnd

/-- PostgreSQL. -/
def Dialect.postgres : Dialect :=
  { Dialect.sqlite with name := "postgres", slotText := numberedSlot '$' }

/-- The names of the built-in dialects. -/
inductive BuiltinDialect where
  | sqlServer | sqlServer2000 | sqlite | postgres
deriving DecidableEq, Repr

/-- SQLite is the default. -/
instance : Inhabited BuiltinDialect := ⟨.sqlite⟩

namespace BuiltinDialect

/-- The dialect with a name. -/
def dialect : BuiltinDialect → Dialect
  | .sqlServer => .sqlServer
  | .sqlServer2000 => .sqlServer2000
  | .sqlite => .sqlite
  | .postgres => .postgres

/-- The built-in dialects have one rule for plain names. -/
theorem isPlain_dialect (d : BuiltinDialect) : d.dialect.isPlain = isPlainName := by
  cases d <;> rfl

/-- The name in a configuration. -/
def name : BuiltinDialect → String
  | .sqlServer => "sql_server"
  | .sqlServer2000 => "sql_server2000"
  | .sqlite => "sqlite"
  | .postgres => "postgres"

/-- Every built-in dialect. -/
def all : List BuiltinDialect :=
  [.sqlServer, .sqlServer2000, .sqlite, .postgres]

/-- The dialect with a given name in a configuration. -/
def ofName? (s : String) : Option BuiltinDialect :=
  all.find? fun d => d.name == s

/-- The dialect that a document chooses. -/
def ofDocument? (d : Document) : Option BuiltinDialect :=
  d.choice?.bind ofName?

/-- The dialect that a JSON text chooses. -/
def parse? (text : String) : Option BuiltinDialect :=
  (Document.parse? text).bind ofDocument?

/-- The JSON text that chooses a dialect. -/
def toJson (d : BuiltinDialect) : String :=
  Value.quoted d.name

end BuiltinDialect

end EntitySql
