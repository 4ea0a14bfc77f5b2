import LuaToC.Bytecode.Prototype

/-! # The format of binary chunks

What a Lua 5.4 binary chunk looks like: its header, the tags of its constants, the two byte
orders, and the reasons for which a chunk is refused. -/
namespace LuaToC.Chunk

/-- The four bytes that mark a binary chunk. -/
def signature : Bytes := 0x1b :: ascii "Lua"

/-- The version byte. -/
def version : UInt8 := 0x54

/-- The format byte. -/
def format : UInt8 := 0

/-- Bytes that transfers in text mode would change. -/
def check : Bytes := [0x19, 0x93, 0x0d, 0x0a, 0x1a, 0x0a]

/-- The sample integer, whose bytes tell the byte order. -/
def sampleInt : UInt64 := 0x5678

/-- The bits of the sample number, 370.5. -/
def sampleFloat : UInt64 := 0x4077280000000000

/-- The three sizes that the header states, with the type of each. -/
def sizes : List (String × UInt8) := [("Instruction", 4), ("lua_Integer", 8), ("lua_Number", 8)]

/-- The data begin like a binary chunk. -/
def hasSignature (data : Bytes) : Bool := signature.isPrefixOf data

/-- The order of the bytes in a word. -/
inductive ByteOrder where
  | little | big
  deriving DecidableEq

namespace ByteOrder

def putUInt64 : ByteOrder → UInt64 → Bytes
  | .little, x => Bytes.ofUInt64 x
  | .big, x => (Bytes.ofUInt64 x).reverse

def putUInt32 : ByteOrder → UInt32 → Bytes
  | .little, x => Bytes.ofUInt32 x
  | .big, x => (Bytes.ofUInt32 x).reverse

/-- The number that the bytes of a word stand for. -/
def number : ByteOrder → Bytes → Nat
  | .little, s => Bytes.toNatLE s
  | .big, s => Bytes.toNatBE s

end ByteOrder

/-- The tag of a constant; a constant without an assigned kind has none. -/
def tagOf : Constant → Option UInt8
  | .nil => some 0x00
  | .bool false => some 0x01
  | .bool true => some 0x11
  | .int _ => some 0x03
  | .float _ => some 0x13
  | .str _ false => some 0x04
  | .str _ true => some 0x14
  | .unassigned _ => none

/-- Why a chunk cannot be read. `truncatedString` is `truncated` inside the body of a string,
with the offset at which the body starts and the size that is declared for it. `sizeOverflow`
is the one refusal that is not reported but ends the program: a slice or an index lies outside
of what it is taken from. -/
inductive Error where
  | notChunk
  | wrongVersion (found : UInt8)
  | wrongFormat (found : UInt8)
  | corrupted
  | wrongSize (type : String)
  | integerFormat
  | floatFormat
  | truncated
  | truncatedString (start size : Nat)
  | integerOverflow
  | unknownOpcode (pc : Nat) (instruction : Instruction)
  | unknownTag (index : Nat) (tag : UInt8)
  | sizeOverflow
  deriving DecidableEq

/-- The classes of refusals. -/
inductive ErrorClass where
  | notChunk | versionMismatch | formatMismatch | truncated | badChunk | crash
  deriving DecidableEq

namespace Error

def errorClass : Error → ErrorClass
  | .notChunk => .notChunk
  | .wrongVersion _ => .versionMismatch
  | .wrongFormat _ | .wrongSize _ | .integerFormat | .floatFormat => .formatMismatch
  | .truncated | .truncatedString _ _ => .truncated
  | .corrupted | .integerOverflow | .unknownOpcode _ _ | .unknownTag _ _ => .badChunk
  | .sizeOverflow => .crash

/-- What a refusal says beyond its class. -/
def detail : Error → Option Bytes
  | .notChunk | .truncated | .truncatedString _ _ | .sizeOverflow => none
  | .wrongVersion v =>
    some (ascii "expected 0x" ++ Bytes.hexByte version ++ ascii ", got 0x" ++ Bytes.hexByte v)
  | .wrongFormat f => some (ascii "format " ++ Bytes.ofNat f.toNat)
  | .corrupted => some (ascii "corrupted chunk")
  | .wrongSize type => some (ascii type ++ ascii " size mismatch")
  | .integerFormat => some (ascii "integer format mismatch")
  | .floatFormat => some (ascii "float format mismatch")
  | .integerOverflow => some (ascii "integer overflow")
  | .unknownOpcode pc i =>
    some (ascii "pc " ++ Bytes.ofNat pc ++ ascii ": " ++ (Instruction.UnknownOpcode.mk i).message)
  | .unknownTag index tag =>
    some (ascii "constant " ++ Bytes.ofNat index ++ ascii " has unknown tag 0x" ++
      Bytes.hexByte tag)

end Error

/-- The wording of a class. -/
def ErrorClass.text : ErrorClass → Bytes
  | .notChunk => ascii "not a precompiled chunk"
  | .versionMismatch => ascii "version mismatch"
  | .formatMismatch => ascii "format mismatch"
  | .truncated => ascii "truncated precompiled chunk"
  | .badChunk => ascii "bad binary chunk"
  | .crash => ascii "string size out of range"

/-- The message about the chunk called `name`. -/
def Error.message (e : Error) (name : Bytes) : Bytes :=
  Bytes.join (ascii ": ") ([name, e.errorClass.text] ++ e.detail.toList)

end LuaToC.Chunk
