import EntitySql.Json.Document

/-!
# Percent-encoded texts

In a percent-encoded text `%` and two hexadecimal digits stand for a byte, and `+` for a blank. A
`%` that is not followed by two such digits stands for itself.
-/

namespace EntitySql

namespace Percent

/-- The value of a hexadecimal digit, given by its byte. -/
def hexDigit? (b : UInt8) : Option Nat :=
  Document.hexDigit? (Char.ofNat b.toNat)

/-- The bytes that a percent-encoded list of bytes stands for. -/
def decodeBytes : List UInt8 → List UInt8
  | 0x25 :: a :: b :: rest =>
    match hexDigit? a, hexDigit? b with
    | some high, some low => UInt8.ofNat (high * 16 + low) :: decodeBytes rest
    | _, _ => 0x25 :: decodeBytes (a :: b :: rest)
  | 0x2B :: rest => 0x20 :: decodeBytes rest
  | b :: rest => b :: decodeBytes rest
  | [] => []

/-- The text that a percent-encoded one stands for, unless its bytes are not valid UTF-8. -/
def decode? (s : String) : Option String :=
  String.fromUTF8? ⟨(decodeBytes s.toUTF8.toList).toArray⟩

end Percent

end EntitySql
