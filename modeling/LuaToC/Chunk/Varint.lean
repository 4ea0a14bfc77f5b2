import LuaToC.Text.Bytes

/-! # Variable-length numbers

The variable-length numbers of binary chunks: groups of seven bits, most significant first, and
the top bit set on the last byte only. -/
namespace LuaToC.Varint

/-- The seven-bit groups of a positive number, most significant first; zero has none. -/
def leading (n : Nat) : Bytes :=
  if n = 0 then [] else leading (n / 128) ++ [(n % 128).toUInt8]
termination_by n
decreasing_by exact Nat.div_lt_self (by omega) (by omega)

/-- The bytes of a number. -/
def encode (x : UInt64) : Bytes :=
  leading (x.toNat / 128) ++ [(x.toNat % 128 + 128).toUInt8]

/-- Why no number can be read. -/
inductive Fault where
  | truncated
  | overflow
  deriving DecidableEq

/-- Reads on with `x` read so far. A byte is taken first; then `x` has to be below `bound`,
so that one more group still fits. -/
def decodeFrom (bound x : Nat) : Bytes → Except Fault (Nat × Bytes)
  | [] => .error .truncated
  | b :: rest =>
    if bound ≤ x then .error .overflow
    else
      let y := x * 128 + b.toNat % 128
      if 128 ≤ b then .ok (y, rest) else decodeFrom bound y rest

/-- Reads a number up to about `limit`, with what follows it. -/
def decode (limit : Nat) (s : Bytes) : Except Fault (Nat × Bytes) :=
  decodeFrom (limit / 128) 0 s

end LuaToC.Varint
