import LuaToC.Text.Bytes

/-! # Names of modules

The module that a unit belongs to is told by the path of the unit. -/
namespace LuaToC.Command

/-- The part of a text before the first occurrence of a byte and the part after it. -/
def cut? (sep : UInt8) : Bytes → Option (Bytes × Bytes)
  | [] => none
  | b :: rest =>
    if b = sep then some ([], rest) else (cut? sep rest).map fun (s, t) => (b :: s, t)

/-- The name of the module whose unit is written to a path: the last name of the path up to
its first dot. What follows the dot has to be `c`. -/
def moduleOf? (output : Bytes) : Option Bytes :=
  match cut? 46 (Bytes.afterLast 47 output) with
  | some (name, extension) => if extension = ascii "c" then some name else none
  | none => none

end LuaToC.Command
