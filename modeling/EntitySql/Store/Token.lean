import EntitySql.Store.Numeral
import EntitySql.Text.Blank

/-!
# Tokens of SQL texts

A SQL text is cut into words, names in quotes, slots, numerals, texts, blobs and single characters.
A word is kept in capitals beside the way it is written, because the letters of ASCII do not differ
by case in a command, while they do in a name. Where no token can be read the last one is
`SqlToken.unreadable`; it belongs to no command.

Blanks stand between tokens. A vertical tab goes on with a run of blanks but does not begin one,
and white space of any kind may surround the text.
-/

namespace EntitySql

/-- A token of a SQL text. -/
inductive SqlToken where
  /-- A word in capitals, and as it is written. -/
  | word (capitals text : String)
  /-- A name in quotes. -/
  | name (text : String)
  | slot (number : Nat)
  | numeral (value : Numeral)
  | text (text : String)
  | blob (bytes : ByteArray)
  | mark (c : Char)
  | unreadable

namespace SqlToken

/-! ### Quotes -/

/-- The characters up to a closing quote, which is written twice inside. No NUL stands in a SQL
text. -/
def quoted? (quote : Char) : List Char → Option (List Char × List Char)
  | [] => none
  | c :: rest =>
    if c = quote then
      match rest with
      | d :: rest =>
        if d = quote then (quoted? quote rest).map fun (chars, rest) => (c :: chars, rest)
        else some ([], d :: rest)
      | [] => some ([], [])
    else if c = '\x00' then none
    else (quoted? quote rest).map fun (chars, rest) => (c :: chars, rest)

/-- The characters up to a closing bracket. -/
def bracketed? : List Char → Option (List Char × List Char)
  | [] => none
  | ']' :: rest => some ([], rest)
  | c :: rest =>
    if c = '\x00' then none
    else (bracketed? rest).map fun (chars, rest) => (c :: chars, rest)

/-- The bytes of an even number of hexadecimal digits. -/
def hexBytes? : List Char → Option (List UInt8)
  | [] => some []
  | [_] => none
  | a :: b :: rest => do
    let high ← Document.hexDigit? a
    let low ← Document.hexDigit? b
    return UInt8.ofNat (high * 16 + low) :: (← hexBytes? rest)

/-! ### Reading -/

/-- The highest slot number. -/
def maxSlot : Nat := 32766

/-- The slot of a number. -/
def slot? (number : Nat) : Option SqlToken :=
  if 1 ≤ number ∧ number ≤ maxSlot then some (.slot number) else none

/-- The word at the start of the input. -/
def wordAt (cs : List Char) : SqlToken × List Char :=
  let text := String.ofList (cs.takeWhile Numeral.isWordChar)
  (.word text.toUpper text, cs.dropWhile Numeral.isWordChar)

/-- The input starts with a numeral. -/
def startsNumeral : List Char → Bool
  | '.' :: c :: _ => c.isDigit
  | c :: _ => c.isDigit
  | [] => false

/-- The token at the start of a nonempty input, and the input after it. -/
def next? : List Char → Option (SqlToken × List Char)
  | [] => none
  | '?' :: rest =>
    match Document.digits rest with
    | ([], _) => none
    | (ds, rest) => (slot? (NumberLiteral.natOfDigits ds)).map fun token => (token, rest)
  | '\'' :: rest =>
    (quoted? '\'' rest).map fun (chars, rest) => (.text (String.ofList chars), rest)
  | '"' :: rest =>
    (quoted? '"' rest).map fun (chars, rest) => (.name (String.ofList chars), rest)
  | '\x60' :: rest =>
    (quoted? '\x60' rest).map fun (chars, rest) => (.name (String.ofList chars), rest)
  | '[' :: rest =>
    (bracketed? rest).map fun (chars, rest) => (.name (String.ofList chars), rest)
  | 'X' :: '\'' :: rest => blob? rest
  | 'x' :: '\'' :: rest => blob? rest
  | c :: rest =>
    if startsNumeral (c :: rest) then
      (Numeral.read? (c :: rest)).map fun (value, rest) => (.numeral value, rest)
    else if Numeral.isWordChar c && c != '$' then some (wordAt (c :: rest))
    else some (.mark c, rest)
where
  /-- The blob after its opening quote. -/
  blob? (cs : List Char) : Option (SqlToken × List Char) := do
    let (chars, rest) ← quoted? '\'' cs
    return (.blob ⟨(← hexBytes? chars).toArray⟩, rest)

/-! ### Blanks -/

/-- The input after leading blanks. A byte order mark between tokens is passed over too. -/
def skipBlanks (inRun : Bool) : List Char → List Char
  | [] => []
  | c :: rest =>
    if Document.isBlank c || c == '\x0c' || inRun && c == '\x0b' then skipBlanks true rest
    else if c == '\ufeff' then skipBlanks false rest
    else c :: rest

/-- The characters without white space at both ends. -/
def trim (cs : List Char) : List Char :=
  ((cs.dropWhile isWhiteSpace).reverse.dropWhile isWhiteSpace).reverse

/-- The tokens of an input of at most `fuel` tokens. -/
def cut : Nat → List Char → List SqlToken
  | 0, _ => []
  | fuel + 1, cs =>
    match skipBlanks false cs with
    | [] => []
    | cs =>
      match next? cs with
      | some (token, rest) => token :: cut fuel rest
      | none => [.unreadable]

/-- The tokens of a SQL text. Each takes at least one character. -/
def ofText (sql : String) : List SqlToken :=
  cut (sql.length + 1) (trim sql.toList)

end SqlToken

end EntitySql
