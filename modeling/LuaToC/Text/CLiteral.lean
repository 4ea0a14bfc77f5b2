import LuaToC.Text.Bytes

/-! # C string literals

A literal is plain printable ASCII whatever bytes it stands for: the escapes of one letter where
C has one, and three octal digits for every other byte outside the printable range. Three digits
are the most an octal escape can take, so an escape never runs into the digit after it. -/
namespace LuaToC.CLiteral

/-- One byte inside a string literal. -/
def escape (b : UInt8) : Bytes :=
  if b = 34 then ascii "\\\""
  else if b = 92 then ascii "\\\\"
  else if b = 7 then ascii "\\a"
  else if b = 8 then ascii "\\b"
  else if b = 12 then ascii "\\f"
  else if b = 10 then ascii "\\n"
  else if b = 13 then ascii "\\r"
  else if b = 9 then ascii "\\t"
  else if b = 11 then ascii "\\v"
  else if 0x20 ≤ b ∧ b ≤ 0x7E then [b]
  else 92 :: Bytes.padLeft 48 3 (Bytes.octal b.toNat)

/-- The string literal for a byte string. -/
def ofString (s : Bytes) : Bytes := [34] ++ s.flatMap escape ++ [34]

end LuaToC.CLiteral
