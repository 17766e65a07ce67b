import EntitySql.Json.Literal

/-!
# JSON documents

A `Document` is the tree of one JSON text. Members keep their order and their repetitions, and
literals stay as they are written, so that a part nobody asks for cannot fail: `Document.parse?`
accepts exactly one document with blanks around it, and `Document.toValue?` then fails on a
number above the range of doubles or on half of a surrogate pair. Of the values of a repeated
key the last one counts.
-/

namespace EntitySql

/-- The tree of a JSON text. -/
inductive Document where
  | null
  | bool (b : Bool)
  | number (literal : NumberLiteral)
  | text (body : List TextUnit)
  | array (items : List Document)
  | object (members : List (List TextUnit × Document))
deriving Repr, Inhabited

namespace Document

/-! ### Tokens -/

/-- Space, tab, line feed and carriage return. -/
def isBlank (c : Char) : Bool :=
  c == ' ' || c == '\t' || c == '\n' || c == '\r'

/-- The input after leading blanks. -/
def skipBlanks (cs : List Char) : List Char :=
  cs.dropWhile isBlank

/-- The value of a decimal digit. -/
def digit? (c : Char) : Option Nat :=
  if c.isDigit then some (c.toNat - '0'.toNat) else none

/-- The value of a hexadecimal digit of either case. -/
def hexDigit? (c : Char) : Option Nat :=
  if c.isDigit then some (c.toNat - '0'.toNat)
  else if 'a' ≤ c ∧ c ≤ 'f' then some (c.toNat - 'a'.toNat + 10)
  else if 'A' ≤ c ∧ c ≤ 'F' then some (c.toNat - 'A'.toNat + 10)
  else none

/-- The digits at the start of the input, and the input after them. -/
def digits (cs : List Char) : List Nat × List Char :=
  ((cs.takeWhile Char.isDigit).filterMap digit?, cs.dropWhile Char.isDigit)

/-- An optional fraction: a point with at least one digit. -/
def fraction? : List Char → Option (Option (List Nat) × List Char)
  | '.' :: cs =>
    match digits cs with
    | ([], _) => none
    | (ds, rest) => some (some ds, rest)
  | cs => some (none, cs)

/-- The digits of an exponent with a given sign. -/
def exponentDigits? (negative : Bool) (cs : List Char) : Option (Option Int × List Char) :=
  match digits cs with
  | ([], _) => none
  | (ds, rest) =>
    let n : Int := NumberLiteral.natOfDigits ds
    some (some (if negative then -n else n), rest)

/-- An optional exponent: `e` or `E`, an optional sign, and at least one digit. -/
def exponent? : List Char → Option (Option Int × List Char)
  | c :: cs =>
    if c = 'e' ∨ c = 'E' then
      match cs with
      | '+' :: rest => exponentDigits? false rest
      | '-' :: rest => exponentDigits? true rest
      | rest => exponentDigits? false rest
    else some (none, c :: cs)
  | [] => some (none, [])

/-- A number after its sign. A leading zero stands alone before the point. -/
def unsigned? (negative : Bool) (cs : List Char) : Option (NumberLiteral × List Char) := do
  let (whole, rest) := digits cs
  match whole with
  | [] => none
  | 0 :: _ :: _ => none
  | _ =>
    let (fraction, rest) ← fraction? rest
    let (exponent, rest) ← exponent? rest
    return (⟨negative, whole, fraction, exponent⟩, rest)

/-- A number at the start of the input. -/
def number? : List Char → Option (NumberLiteral × List Char)
  | '-' :: cs => unsigned? true cs
  | cs => unsigned? false cs

/-- The character of a short escape. -/
def shortEscape? : Char → Option Char
  | '"' => some '"'
  | '\\' => some '\\'
  | '/' => some '/'
  | 'b' => some '\x08'
  | 'f' => some '\x0c'
  | 'n' => some '\n'
  | 'r' => some '\r'
  | 't' => some '\t'
  | _ => none

/-- A string body up to its closing quote. Control characters must be escaped. -/
def body? : List Char → Option (List TextUnit × List Char)
  | [] => none
  | '"' :: rest => some ([], rest)
  | '\\' :: 'u' :: a :: b :: c :: d :: rest => do
    let unit := (((← hexDigit? a) * 16 + (← hexDigit? b)) * 16 + (← hexDigit? c)) * 16
      + (← hexDigit? d)
    let (units, rest) ← body? rest
    return (.code unit :: units, rest)
  | '\\' :: c :: rest => do
    let e ← shortEscape? c
    let (units, rest) ← body? rest
    return (.char e :: units, rest)
  | c :: rest =>
    if c.toNat < 0x20 ∨ c = '\\' then none
    else do
      let (units, rest) ← body? rest
      return (.char c :: units, rest)

/-- The input after a word that it starts with. -/
def word? (word : String) (cs : List Char) : Option (List Char) :=
  if word.toList.isPrefixOf cs then some (cs.drop word.length) else none

/-! ### Documents -/

mutual

/-- One document at the start of the input, which may be nested `fuel` deep. -/
def read? : Nat → List Char → Option (Document × List Char)
  | 0, _ => none
  | fuel + 1, cs =>
    match skipBlanks cs with
    | '"' :: rest => do
      let (units, rest) ← body? rest
      return (.text units, rest)
    | '[' :: rest =>
      match skipBlanks rest with
      | ']' :: rest => some (.array [], rest)
      | rest => do
        let (items, rest) ← readItems? fuel rest
        return (.array items, rest)
    | '{' :: rest =>
      match skipBlanks rest with
      | '}' :: rest => some (.object [], rest)
      | rest => do
        let (members, rest) ← readMembers? fuel rest
        return (.object members, rest)
    | 'n' :: rest => (word? "ull" rest).map fun rest => (.null, rest)
    | 't' :: rest => (word? "rue" rest).map fun rest => (.bool true, rest)
    | 'f' :: rest => (word? "alse" rest).map fun rest => (.bool false, rest)
    | cs => do
      let (literal, rest) ← number? cs
      return (.number literal, rest)

/-- The items of a nonempty array up to its closing bracket. -/
def readItems? : Nat → List Char → Option (List Document × List Char)
  | 0, _ => none
  | fuel + 1, cs => do
    let (item, rest) ← read? fuel cs
    match skipBlanks rest with
    | ']' :: rest => return ([item], rest)
    | ',' :: rest =>
      let (items, rest) ← readItems? fuel rest
      return (item :: items, rest)
    | _ => none

/-- The members of a nonempty object up to its closing bracket. -/
def readMembers? : Nat → List Char → Option (List (List TextUnit × Document) × List Char)
  | 0, _ => none
  | fuel + 1, cs =>
    match skipBlanks cs with
    | '"' :: rest => do
      let (key, rest) ← body? rest
      match skipBlanks rest with
      | ':' :: rest =>
        let (item, rest) ← read? fuel rest
        match skipBlanks rest with
        | '}' :: rest => return ([(key, item)], rest)
        | ',' :: rest =>
          let (members, rest) ← readMembers? fuel rest
          return ((key, item) :: members, rest)
        | _ => none
      | _ => none
    | _ => none

end

/-- The document that a text holds, with nothing but blanks around it. Every nested document and
every further item takes at least one character, so the length of the text bounds the search. -/
def parse? (s : String) : Option Document :=
  match read? (s.length + 1) s.toList with
  | some (d, rest) => if (skipBlanks rest).isEmpty then some d else none
  | none => none

/-! ### Documents and values -/

mutual

/-- The value a document stands for. -/
def toValue? : Document → Option Value
  | .null => some .null
  | .bool b => some (.bool b)
  | .number l => l.toNumber?.map .number
  | .text body => (TextUnit.decode? body).map .text
  | .array items => (toValues? items).map .array
  | .object members => (toEntries? members).map Value.ofEntries

/-- The values of the items of an array. -/
def toValues? : List Document → Option (List Value)
  | [] => some []
  | d :: ds => do return (← toValue? d) :: (← toValues? ds)

/-- The members of an object with their keys read. -/
def toEntries? : List (List TextUnit × Document) → Option (List (String × Value))
  | [] => some []
  | (key, d) :: ds => do return (← TextUnit.decode? key, ← toValue? d) :: (← toEntries? ds)

end

mutual

/-- A document of a value. -/
def ofValue : Value → Document
  | .null => .null
  | .bool b => .bool b
  | .number n => .number (NumberLiteral.ofNumber n)
  | .text s => .text (TextUnit.ofText s)
  | .array items => .array (ofValues items)
  | .object entries => .object (ofEntries entries)

/-- Documents of the items of an array. -/
def ofValues : List Value → List Document
  | [] => []
  | v :: vs => ofValue v :: ofValues vs

/-- Documents of the entries of an object. -/
def ofEntries : List (String × Value) → List (List TextUnit × Document)
  | [] => []
  | (key, v) :: rest => (TextUnit.ofText key, ofValue v) :: ofEntries rest

end

/-- The text of a document that is a string. -/
def text? : Document → Option String
  | .text body => TextUnit.decode? body
  | _ => none

/-- The boolean of a document that is one. -/
def bool? : Document → Option Bool
  | .bool b => some b
  | _ => none

/-- The name of a choice without arguments: a string, or an object with the name as its only key
and a null under it. -/
def choice? : Document → Option String
  | .text body => TextUnit.decode? body
  | .object [(key, .null)] => TextUnit.decode? key
  | _ => none

end Document

end EntitySql
