import LuaToC.Text.CLiteral
import LuaToC.Decimal.FloatText

/-! # Constants

A function has a list of constants. A float is kept as its bits, so that NaNs and signed zeros
stay apart. -/
namespace LuaToC

/-- A constant. Kinds are numbered from `nil` on; a number past the last kind can occur in
a constant that was not read from a chunk, and then it has no value. -/
inductive Constant where
  | nil
  | bool (value : Bool)
  | int (value : Int64)
  | float (value : Binary64)
  | str (value : Bytes) (long : Bool)
  | unassigned (kind : { k : UInt8 // 5 ≤ k })
  deriving DecidableEq

namespace Constant

/-- The longest string that is kept as a short string. -/
def maxShort : Nat := 40

/-- A string constant, long when it does not fit a short string. -/
def ofString (s : Bytes) : Constant := .str s (decide (maxShort < s.length))

/-- The number of the kind. -/
def kind : Constant → UInt8
  | .nil => 0
  | .bool _ => 1
  | .int _ => 2
  | .float _ => 3
  | .str _ _ => 4
  | .unassigned k => k.val

/-- The name of a kind, and a placeholder for numbers without one. -/
def kindName (k : UInt8) : Bytes :=
  match k.toNat with
  | 0 => ascii "nil"
  | 1 => ascii "boolean"
  | 2 => ascii "integer"
  | 3 => ascii "float"
  | 4 => ascii "string"
  | n => ascii "ConstantKind(" ++ Bytes.ofNat n ++ ascii ")"

/-- The constant as a literal. -/
def text : Constant → Bytes
  | .nil => ascii "nil"
  | .bool true => ascii "true"
  | .bool false => ascii "false"
  | .int n => Bytes.ofInt n.toInt
  | .float x => x.text
  | .str s _ => CLiteral.ofString s
  | .unassigned k => 63 :: Bytes.ofNat k.val.toNat

end Constant
end LuaToC
