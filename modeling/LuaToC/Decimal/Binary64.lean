/-! # Double-precision numbers

A double-precision number is a word of 64 bits. A finite one is a whole significand times a power
of two, read off the word by division and remainder; no floating-point operation takes part, so
the value is exact. -/
namespace LuaToC

/-- The bits of a double-precision number. -/
structure Binary64 where
  bits : UInt64
  deriving DecidableEq, Repr

namespace Binary64

/-- The sign bit is set. -/
def isNegative (x : Binary64) : Bool := 0x8000000000000000 ≤ x.bits.toNat

/-- The 52 fraction bits. -/
def fraction (x : Binary64) : Nat := x.bits.toNat % 0x10000000000000

/-- The 11 exponent bits; all ones mark the infinities and the NaNs. -/
def exponentBits (x : Binary64) : Nat := x.bits.toNat / 0x10000000000000 % 0x800

def isNaN (x : Binary64) : Bool := x.exponentBits = 2047 && x.fraction ≠ 0

def isInfinite (x : Binary64) : Bool := x.exponentBits = 2047 && x.fraction = 0

/-- The significand of a finite number; a subnormal number has no leading one. -/
def significand (x : Binary64) : Nat :=
  if x.exponentBits = 0 then x.fraction else x.fraction + 0x10000000000000

/-- The power of two that scales the significand of a finite number. -/
def exponent (x : Binary64) : Int :=
  if x.exponentBits = 0 then -1074 else (x.exponentBits : Int) - 1075

end Binary64
end LuaToC
