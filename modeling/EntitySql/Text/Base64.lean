/-!
# Base64

Bytes are written three at a time as four characters of the standard alphabet; a last group of
one or two bytes is padded with `=`.
-/

namespace EntitySql

namespace Base64

/-- The standard alphabet, in the order of the six-bit values. -/
def alphabet : List Char :=
  "ABCDEFGHIJKLMNOPQRSTUVWXYZabcdefghijklmnopqrstuvwxyz0123456789+/".toList

/-- The character of a six-bit value. -/
def digit (n : Nat) : Char :=
  alphabet.getD (n % 64) 'A'

/-- The characters of a list of bytes. -/
def encodeChars : List UInt8 → List Char
  | [] => []
  | [a] =>
    let n := a.toNat * 16
    [digit (n / 64), digit n, '=', '=']
  | [a, b] =>
    let n := (a.toNat * 256 + b.toNat) * 4
    [digit (n / 4096), digit (n / 64), digit n, '=']
  | a :: b :: c :: rest =>
    let n := (a.toNat * 256 + b.toNat) * 256 + c.toNat
    digit (n / 262144) :: digit (n / 4096) :: digit (n / 64) :: digit n :: encodeChars rest

/-- The Base64 text of a byte array. -/
def encode (bytes : ByteArray) : String :=
  String.ofList (encodeChars bytes.toList)

end Base64

end EntitySql
