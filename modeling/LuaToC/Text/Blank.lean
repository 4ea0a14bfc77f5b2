import LuaToC.Text.Utf8

/-! # White space

What counts as white space, at the ends of a text. -/
namespace LuaToC.Text

/-- The characters that Unicode calls white space. -/
def isSpace (c : Nat) : Bool :=
  (9 ≤ c && c ≤ 13) || c = 0x20 || c = 0x85 || c = 0xA0 || c = 0x1680 ||
    (0x2000 ≤ c && c ≤ 0x200A) || c = 0x2028 || c = 0x2029 || c = 0x202F || c = 0x205F ||
    c = 0x3000

/-- The bytes of a piece of text. -/
def pieceBytes : Utf8.Piece → Bytes
  | .scalar c => Utf8.encode c
  | .stray b => [b]

/-- A piece that is white space. -/
def isSpacePiece : Utf8.Piece → Bool
  | .scalar c => isSpace c
  | .stray _ => false

/-- The text without the white space at both ends. -/
def trim (s : Bytes) : Bytes :=
  let front := (Utf8.pieces s).dropWhile isSpacePiece
  let both := (front.reverse.dropWhile isSpacePiece).reverse
  both.flatMap pieceBytes

end LuaToC.Text
