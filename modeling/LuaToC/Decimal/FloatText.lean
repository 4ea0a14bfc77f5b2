import LuaToC.Decimal.Binary64
import LuaToC.Decimal.Shortest

/-! # Texts of float constants

A float constant is written as C and Lua read it. Numbers below `10^6` and from `10^-4` on are
written positionally and all others with an exponent; a text that would read as a whole number
gets `.0`, and the values without a literal get an expression that evaluates to them. -/
namespace LuaToC.Decimal

/-- `d.ddde±XX`, the exponent with at least two digits. -/
def scientific (ds : Bytes) (x : Int) : Bytes :=
  let mantissa := match ds with
    | [] => []
    | [d] => [d]
    | d :: rest => d :: 46 :: rest
  mantissa ++ [101, if x < 0 then 45 else 43] ++ Bytes.twoDigits x.natAbs

/-- The digits with the decimal point after the first `point` of them. -/
def positional (ds : Bytes) (point : Int) : Bytes :=
  if point ≤ 0 then ascii "0." ++ List.replicate (-point).toNat 48 ++ ds
  else if ds.length ≤ point.toNat then ds ++ List.replicate (point.toNat - ds.length) 48
  else ds.take point.toNat ++ [46] ++ ds.drop point.toNat

/-- The text of a non-negative decimal. -/
def text (d : Decimal) : Bytes :=
  if d.digits = 0 then [48]
  else
    let ds := Bytes.ofNat d.digits
    let x := ds.length + d.exponent - 1
    if x < -4 ∨ 6 ≤ x then scientific ds x else positional ds (x + 1)

end LuaToC.Decimal

namespace LuaToC.Binary64

/-- The text would read as a whole number. -/
def looksWhole (s : Bytes) : Bool := s.all fun b => b = 45 || (48 ≤ b && b ≤ 57)

/-- The literal of a float. -/
def text (x : Binary64) : Bytes :=
  if x.isNaN then ascii "(0.0/0.0)"
  else if x.isInfinite then if x.isNegative then ascii "-1e9999" else ascii "1e9999"
  else
    let magnitude :=
      if x.significand = 0 then ⟨0, 0⟩ else Decimal.shortest x.significand x.exponent
    let s := (if x.isNegative then [45] else []) ++ magnitude.text
    if looksWhole s then s ++ ascii ".0" else s

end LuaToC.Binary64
