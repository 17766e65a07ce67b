import EntitySql.Double.Shortest
import EntitySql.Value.Basic

/-!
# Compact JSON text of a value

The text has no blanks, the keys of an object in their sorted order, doubles in their shortest
form, and escapes only where a string needs them: before a quote and a backslash, and for the
control characters below the space, which have a short escape or four hexadecimal digits.
-/

namespace EntitySql

namespace Value

/-- A character inside a quoted string. -/
def escapeChar (c : Char) : List Char :=
  match c with
  | '"' => ['\\', '"']
  | '\\' => ['\\', '\\']
  | '\x08' => ['\\', 'b']
  | '\x0c' => ['\\', 'f']
  | '\n' => ['\\', 'n']
  | '\r' => ['\\', 'r']
  | '\t' => ['\\', 't']
  | c =>
    if c.toNat < 0x20 then
      let digits := Nat.toDigits 16 c.toNat
      ['\\', 'u'] ++ List.replicate (4 - digits.length) '0' ++ digits
    else [c]

/-- A string in quotes. -/
def quoted (s : String) : String :=
  String.ofList ('"' :: s.toList.flatMap escapeChar ++ ['"'])

mutual

/-- The compact text of a value. -/
def compact : Value → String
  | .null => "null"
  | .bool b => if b then "true" else "false"
  | .number (.int i _) => toString i
  | .number (.float x _) => x.text
  | .text s => quoted s
  | .array items => "[" ++ String.intercalate "," (compactItems items) ++ "]"
  | .object entries => "\x7b" ++ String.intercalate "," (compactEntries entries) ++ "\x7d"

/-- The compact texts of the items of an array. -/
def compactItems : List Value → List String
  | [] => []
  | v :: vs => compact v :: compactItems vs

/-- The compact texts of the entries of an object. -/
def compactEntries : List (String × Value) → List String
  | [] => []
  | (key, v) :: rest => (quoted key ++ ":" ++ compact v) :: compactEntries rest

end

end Value

end EntitySql
