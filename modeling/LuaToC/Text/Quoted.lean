import LuaToC.Text.Utf8
import LuaToC.Text.Printable

/-! # Quoted text

Messages show names, keys and paths as quoted text: the text between double quotes, printable
characters as they are, and everything else as an escape that shows the exact bytes. -/
namespace LuaToC.Text

/-- The escapes of one letter. -/
def letterEscape : Nat → Option UInt8
  | 7 => some 97   -- \a
  | 8 => some 98   -- \b
  | 9 => some 116  -- \t
  | 10 => some 110 -- \n
  | 11 => some 118 -- \v
  | 12 => some 102 -- \f
  | 13 => some 114 -- \r
  | _ => none

/-- A character inside quoted text. Quotes and backslashes get a backslash; a character
that is not printable is written by its letter or by its number, in the shortest of the
forms `\xNN`, `\uNNNN` and `\UNNNNNNNN` that applies. -/
def quotedScalar (c : Nat) : Bytes :=
  if c = 34 ∨ c = 92 then [92, c.toUInt8]
  else if isPrintable c then Utf8.encode c
  else
    match letterEscape c with
    | some l => [92, l]
    | none =>
      if c < 0x20 ∨ c = 0x7F then ascii "\\x" ++ Bytes.padLeft 48 2 (Bytes.hex c)
      else if c < 0x10000 then ascii "\\u" ++ Bytes.padLeft 48 4 (Bytes.hex c)
      else ascii "\\U" ++ Bytes.padLeft 48 8 (Bytes.hex c)

/-- The text between double quotes; a byte that belongs to no character is `\xNN`. -/
def quoted (s : Bytes) : Bytes :=
  let body := (Utf8.pieces s).flatMap fun
    | .scalar c => quotedScalar c
    | .stray b => ascii "\\x" ++ Bytes.hexByte b
  [34] ++ body ++ [34]

end LuaToC.Text
