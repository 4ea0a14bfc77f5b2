/-! # Byte strings

Every text that is read or written is a list of bytes: sources, names, generated C, messages and
paths need not be valid Unicode, so none of them is a `String`. Fixed wording is ASCII and is
written as a literal through `ascii`. -/
namespace LuaToC

/-- A byte string. -/
abbrev Bytes := List UInt8

/-- The bytes of an ASCII literal, one per character. -/
def ascii (s : String) : Bytes := s.toList.map fun c => c.toNat.toUInt8

/-- The byte of an ASCII character. -/
def byte (c : Char) : UInt8 := c.toNat.toUInt8

namespace Bytes

/-- The line feed that ends a line. -/
def newline : UInt8 := 10

/-- The byte of the decimal or hexadecimal digit `d`, lower case, for `d < 16`. -/
def digit (d : Nat) : UInt8 := if d < 10 then (48 + d).toUInt8 else (87 + d).toUInt8

/-- The digits of `n` in base `b + 2`, most significant first, at least one. -/
def digits (b n : Nat) : Bytes :=
  if n < b + 2 then [digit n] else digits b (n / (b + 2)) ++ [digit (n % (b + 2))]
termination_by n
decreasing_by exact Nat.div_lt_self (by omega) (by omega)

/-- Decimal notation of a natural number. -/
def ofNat (n : Nat) : Bytes := digits 8 n

/-- Decimal notation of an integer, with a minus sign when it is negative. -/
def ofInt (n : Int) : Bytes :=
  if n < 0 then 45 :: ofNat n.natAbs else ofNat n.natAbs

/-- Hexadecimal notation of a natural number. -/
def hex (n : Nat) : Bytes := digits 14 n

/-- Octal notation of a natural number. -/
def octal (n : Nat) : Bytes := digits 6 n

/-- `s` with `fill` in front of it up to `width` bytes. -/
def padLeft (fill : UInt8) (width : Nat) (s : Bytes) : Bytes :=
  List.replicate (width - s.length) fill ++ s

/-- `s` with blanks after it up to `width` bytes. -/
def padRight (width : Nat) (s : Bytes) : Bytes :=
  s ++ List.replicate (width - s.length) 32

/-- A number in decimal, with at least two digits. -/
def twoDigits (n : Nat) : Bytes := padLeft 48 2 (ofNat n)

/-- A byte in hexadecimal, always two digits. -/
def hexByte (b : UInt8) : Bytes := padLeft 48 2 (hex b.toNat)

/-- The parts with `sep` between them. -/
def join (sep : Bytes) : List Bytes → Bytes
  | [] => []
  | [p] => p
  | p :: q :: ps => p ++ sep ++ join sep (q :: ps)

/-- Every line followed by a line feed. -/
def unlines (lines : List Bytes) : Bytes := lines.flatMap (· ++ [newline])

/-- The pieces of `s` between the separators; there is always one more piece than
separators. -/
def splitOn (sep : UInt8) : Bytes → List Bytes
  | [] => [[]]
  | c :: cs =>
    if c = sep then [] :: splitOn sep cs
    else
      match splitOn sep cs with
      | [] => [[c]]
      | p :: ps => (c :: p) :: ps

/-- The part after the last separator, or all of `s` when there is none. -/
def afterLast (sep : UInt8) : Bytes → Bytes
  | [] => []
  | c :: cs => if sep ∈ cs then afterLast sep cs else if c = sep then cs else c :: cs

/-- What follows `start` in `s`, if `s` begins with it. -/
def stripPrefix? (start s : Bytes) : Option Bytes :=
  if start.isPrefixOf s then some (s.drop start.length) else none

/-- The eight bytes of a 64-bit word, least significant first. -/
def ofUInt64 (x : UInt64) : Bytes :=
  (List.range 8).map fun i => (x.toNat / Nat.pow 256 i).toUInt8

/-- The four bytes of a 32-bit word, least significant first. -/
def ofUInt32 (x : UInt32) : Bytes :=
  (List.range 4).map fun i => (x.toNat / Nat.pow 256 i).toUInt8

/-- The number whose base-256 digits are the bytes, least significant first. -/
def toNatLE (s : Bytes) : Nat := s.foldr (fun b n => b.toNat + 256 * n) 0

/-- The number whose base-256 digits are the bytes, most significant first. -/
def toNatBE (s : Bytes) : Nat := s.foldl (fun n b => 256 * n + b.toNat) 0

end Bytes
end LuaToC
