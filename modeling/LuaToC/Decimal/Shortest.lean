import LuaToC.Text.Bytes

/-! # Shortest decimals

A number is written as the shortest decimal that reads back. A positive double `m · 2^q` is the
nearest double to every real of an interval around it; of the decimals in that interval the one
with the fewest digits is taken, of two such the nearer, and of two equally near ones the even
one. All comparisons are between whole numbers, cross-multiplied, so nothing is rounded. -/
namespace LuaToC

/-- The decimal number `digits · 10^exponent`. -/
structure Decimal where
  digits : Nat
  exponent : Int
  deriving DecidableEq, Repr

namespace Decimal

/-- `d · 10^k` over the common scale of `d · 10^k` and `x · 2^e`. -/
def decimalSide (d : Nat) (k e : Int) : Nat := d * Nat.pow 10 k.toNat * Nat.pow 2 (-e).toNat

/-- `x · 2^e` over the same scale. -/
def binarySide (x : Nat) (k e : Int) : Nat := x * Nat.pow 2 e.toNat * Nat.pow 10 (-k).toNat

/-- The lower end of the interval of `m · 2^q`, in quarters of the last place. It is
nearer below a power of two, where the doubles lie closer together. -/
def lowerQuarters (m : Nat) (q : Int) : Nat :=
  if m = 0x10000000000000 ∧ -1074 < q then 4 * m - 1 else 4 * m - 2

/-- The upper end of the interval, in quarters of the last place. -/
def upperQuarters (m : Nat) : Nat := 4 * m + 2

/-- `d · 10^k` is read as `m · 2^q`: it lies between the two ends, and on an end only
when the significand is even, since ties are read as the even neighbour. -/
def readsBack (m : Nat) (q : Int) (d : Nat) (k : Int) : Bool :=
  let x := decimalSide d k (q - 2)
  let lo := binarySide (lowerQuarters m q) k (q - 2)
  let hi := binarySide (upperQuarters m) k (q - 2)
  (lo < x && x < hi) || (m % 2 = 0 && (x = lo || x = hi))

/-- The multiple of `10^k` that reads back as `m · 2^q`: one of its two neighbours on that
grid, the nearer if both do, and the even one if they are equally near. -/
def onGrid (m : Nat) (q : Int) (k : Int) : Option Nat :=
  let num := binarySide (4 * m) k (q - 2)
  let den := decimalSide 1 k (q - 2)
  let d := num / den
  match readsBack m q d k, readsBack m q (d + 1) k with
  | true, false => some d
  | false, true => some (d + 1)
  | false, false => none
  | true, true =>
    if 2 * num < (2 * d + 1) * den then some d
    else if (2 * d + 1) * den < 2 * num then some (d + 1)
    else some (d + d % 2)

/-- The exponent of the first decimal digit of `m · 2^q`, for a number above `10^-400`. -/
def leadingExponent (m : Nat) (q : Int) : Int :=
  ((Bytes.ofNat (m * Nat.pow 10 400 * Nat.pow 2 q.toNat / Nat.pow 2 (-q).toNat)).length : Int) - 401

/-- All digits of `m · 2^q`. -/
def exact (m : Nat) (q : Int) : Decimal :=
  if 0 ≤ q then ⟨m * Nat.pow 2 q.toNat, 0⟩ else ⟨m * Nat.pow 5 (-q).toNat, q⟩

/-- The same number without trailing zeros. -/
def strip (d : Nat) (k : Int) : Decimal :=
  if h : d ≠ 0 ∧ d % 10 = 0 then strip (d / 10) (k + 1) else ⟨d, k⟩
termination_by d
decreasing_by exact Nat.div_lt_self (by omega) (by omega)

/-- The shortest decimal that reads back as `m · 2^q`, found by trying one digit, two
digits and so on up to seventeen, which always suffice. -/
def shortest (m : Nat) (q : Int) : Decimal :=
  let x := leadingExponent m q
  let found := (List.range 17).findSome? fun (i : Nat) =>
    (onGrid m q (x - i)).map fun d => strip d (x - i)
  found.getD (exact m q)

end Decimal
end LuaToC
