import LuaToC.Bytecode.Opcode

/-! # Instruction words

A 32-bit word holds a seven-bit operation number and operands in one of five layouts over the
same bits:

    iABC     C (8) | B (8) | k (1) | A (8) | operation (7)
    iABx           Bx (17)         | A (8) | operation (7)
    iAsBx         sBx (17)         | A (8) | operation (7)
    iAx                    Ax (25)         | operation (7)
    isJ                    sJ (25)         | operation (7)

Signed operands are stored with an offset that makes them non-negative. Reading a word is
arithmetic on its number; writing one shifts the operands into place without cutting them to
their fields, so an operand that is too large spills into its neighbours. -/
namespace LuaToC

/-- An instruction word. -/
structure Instruction where
  word : UInt32
  deriving DecidableEq

namespace Instruction

/-- The offset of the signed seventeen-bit operand. -/
def offsetSBx : Nat := 65535

/-- The offset of the signed jump. -/
def offsetSJ : Nat := 16777215

/-- The offset of the signed eight-bit operands. -/
def offsetSC : Nat := 127

/-- The field of `size` bits from bit `pos` on. -/
def field (i : Instruction) (pos size : Nat) : Nat := i.word.toNat / Nat.pow 2 pos % Nat.pow 2 size

def tag (i : Instruction) : OpTag := ⟨(i.field 0 7).toUInt8⟩

def a (i : Instruction) : Nat := i.field 7 8

def k (i : Instruction) : Nat := i.field 15 1

def b (i : Instruction) : Nat := i.field 16 8

def c (i : Instruction) : Nat := i.field 24 8

def bx (i : Instruction) : Nat := i.field 15 17

def ax (i : Instruction) : Nat := i.field 7 25

def sB (i : Instruction) : Int := (i.b : Int) - offsetSC

def sC (i : Instruction) : Int := (i.c : Int) - offsetSC

def sBx (i : Instruction) : Int := (i.bx : Int) - offsetSBx

def sJ (i : Instruction) : Int := (i.field 7 25 : Int) - offsetSJ

/-- The operation of the word, when its number names one. -/
def opcode? (i : Instruction) : Option Opcode := i.tag.opcode?

/-- The operation is a jump. -/
def isJump (i : Instruction) : Bool := i.opcode? = some .jmp

/-- An operand moved to bit `pos`, its bits past the word lost. -/
def shifted (x : Int64) (pos : UInt32) : UInt32 := x.toUInt64.toUInt32 <<< pos

def ofABC (op : OpTag) (a b c k : Int64) : Instruction :=
  ⟨op.val.toUInt32 ||| shifted a 7 ||| shifted b 16 ||| shifted c 24 ||| shifted k 15⟩

def ofABx (op : OpTag) (a bx : Int64) : Instruction :=
  ⟨op.val.toUInt32 ||| shifted a 7 ||| shifted bx 15⟩

def ofAsBx (op : OpTag) (a sbx : Int64) : Instruction :=
  ofABx op a (sbx + Int64.ofNat offsetSBx)

def ofAx (op : OpTag) (ax : Int64) : Instruction := ⟨op.val.toUInt32 ||| shifted ax 7⟩

def ofSJ (op : OpTag) (sj : Int64) : Instruction :=
  ⟨op.val.toUInt32 ||| shifted (sj + Int64.ofNat offsetSJ) 7⟩

/-- The mnemonic and the operands of the instruction's own layout, with blanks between. -/
def text (i : Instruction) : Bytes :=
  let operands : List Int :=
    match i.tag.format with
    | .abc => [i.a, i.b, i.c, i.k]
    | .abx => [i.a, i.bx]
    | .asbx => [i.a, i.sBx]
    | .ax => [i.ax]
    | .sj => [i.sJ]
  Bytes.join [32] (i.tag.name :: operands.map Bytes.ofInt)

/-- Eight hexadecimal digits, as C writes the word. -/
def hexText (i : Instruction) : Bytes :=
  ascii "0x" ++ Bytes.padLeft 48 8 (Bytes.hex i.word.toNat)

/-- A word whose number names no operation. -/
structure UnknownOpcode where
  instruction : Instruction

/-- The wording of the refusal. -/
def UnknownOpcode.message (e : UnknownOpcode) : Bytes :=
  ascii "unknown opcode " ++ Bytes.ofNat e.instruction.tag.val.toNat ++
    ascii " in instruction " ++ e.instruction.hexText

/-- Accepts a word whose number names an operation. -/
def check (i : Instruction) : Except UnknownOpcode Instruction :=
  if i.tag.isValid then .ok i else .error ⟨i⟩

end Instruction
end LuaToC
