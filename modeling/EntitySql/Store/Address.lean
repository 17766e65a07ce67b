import EntitySql.Text.Percent

/-!
# Addresses of databases

An `Address` names the place of a database and, after a question mark, options as pairs of a key
and a value with `&` between them. Keys and values are percent-encoded. The database is in memory
when the place is `:memory:` or an option asks for it; an address with an unknown option, or of a
file in a directory that does not exist, cannot be opened.
-/

namespace EntitySql

/-- The address of a database. -/
structure Address where
  place : String
  /-- The decoded options, with `none` for one that is no text. -/
  options : List (Option (String × String))
deriving Repr

namespace Address

/-! ### Reading -/

/-- The part of a text before a separator, and the part after it. -/
def cutAt (separator : Char) (cs : List Char) : List Char × List Char :=
  (cs.takeWhile (· != separator), (cs.dropWhile (· != separator)).drop 1)

/-- The parts of a text between separators. -/
def splitAt (separator : Char) : List Char → List (List Char)
  | [] => [[]]
  | c :: rest =>
    if c = separator then [] :: splitAt separator rest
    else
      match splitAt separator rest with
      | part :: more => (c :: part) :: more
      | [] => [[c]]

/-- The option that a part of an address stands for: the key ends at the first `=`. -/
def option? (part : List Char) : Option (String × String) := do
  let (key, value) := cutAt '=' part
  return (← Percent.decode? (String.ofList key), ← Percent.decode? (String.ofList value))

/-- The input without the repetitions of a text at its start, at most `fuel` of them. -/
def dropRepeated (text : List Char) : Nat → List Char → List Char
  | 0, cs => cs
  | fuel + 1, cs =>
    if text.isPrefixOf cs then dropRepeated text fuel (cs.drop text.length) else cs

/-- The address without its scheme, `sqlite://` or `sqlite:`. -/
def dropScheme (cs : List Char) : List Char :=
  dropRepeated "sqlite:".toList cs.length (dropRepeated "sqlite://".toList cs.length cs)

/-- The address that a text stands for. Empty options are left out. -/
def ofText (text : String) : Address :=
  let (place, options) := cutAt '?' (dropScheme text.toList)
  { place := String.ofList place
    options := ((splitAt '&' options).filter fun part => !part.isEmpty).map option? }

/-! ### Options -/

/-- The values that each option may have. -/
def allowedOptions : List (String × List String) :=
  [("mode", ["ro", "rw", "rwc", "memory"]),
    ("cache", ["private", "shared"]),
    ("immutable", ["true", "1", "false", "0"])]

/-- The option is known and has an allowed value. -/
def isAllowed : Option (String × String) → Bool
  | some (key, value) => ((allowedOptions.lookup key).getD []).contains value
  | none => false

/-- The database is in memory. -/
def inMemory (a : Address) : Bool :=
  a.place == ":memory:" || a.options.contains (some ("mode", "memory"))

/-- Commands that change the database are refused. -/
def isReadOnly (a : Address) : Bool :=
  a.options.contains (some ("mode", "ro"))

/-- A database can be opened on the address. -/
def canOpen (a : Address) : Bool :=
  a.inMemory && a.options.all isAllowed

end Address

end EntitySql
