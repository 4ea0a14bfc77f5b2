import LuaToC.Chunk.Varint
import LuaToC.Chunk.Format

/-! # Writing binary chunks

A child leaves its source out when it is that of its parent, and the list of upvalue names ends
at the last upvalue that has one. -/
namespace LuaToC.Chunk

/-- A signed number, as the variable-length form of its 64-bit word. -/
def putInt (n : Int64) : Bytes := Varint.encode n.toUInt64

/-- The length of a list. -/
def putLength (n : Nat) : Bytes := Varint.encode n.toUInt64

/-- A string that is present: its length plus one, then its bytes. -/
def putString (s : Bytes) : Bytes := putLength (s.length + 1) ++ s

/-- A string that is absent. -/
def putAbsent : Bytes := Varint.encode 0

def putBool (b : Bool) : UInt8 := if b then 1 else 0

def header (order : ByteOrder) : Bytes :=
  signature ++ [version, format] ++ check ++ sizes.map (·.2) ++
    order.putUInt64 sampleInt ++ order.putUInt64 sampleFloat

/-- The payload of a constant, after its tag. -/
def putPayload (order : ByteOrder) : Constant → Bytes
  | .int n => order.putUInt64 n.toUInt64
  | .float x => order.putUInt64 x.bits
  | .str s _ => putString s
  | .nil | .bool _ | .unassigned _ => []

def putConstant (order : ByteOrder) (k : Constant) : Bytes :=
  (tagOf k).toList ++ putPayload order k

def putUpvalue (u : Upvalue) : Bytes :=
  [putBool u.inStack, u.index.toUInt64.toUInt8, u.kind]

/-- A list: its length, then its elements. -/
def putList {α : Type} (put : α → Bytes) (xs : List α) : Bytes :=
  putLength xs.length ++ xs.flatMap put

/-- The upvalue names up to the last one that is not empty. -/
def namedUpvalues (us : List Upvalue) : List Bytes :=
  ((us.map (·.name)).reverse.dropWhile (· = [])).reverse

/-- The debug information of a function. -/
def putDebug (f : FunctionBody) : Bytes :=
  putList (fun d => [d.toUInt8]) (f.lineInfo.getD []) ++
    putList (fun c => putInt c.pc ++ putInt c.line) f.checkpoints ++
    putList (fun v => putString v.name ++ putInt v.startPc ++ putInt v.endPc) f.locals ++
    putList putString (namedUpvalues f.upvalues)

/-- The source, unless it is the one that the parent has. -/
def putSource (parentSource source : Bytes) : Bytes :=
  if parentSource ≠ [] ∧ source = parentSource then putAbsent else putString source

/-- The part of a function before its children. -/
def putBody (order : ByteOrder) (parentSource : Bytes) (f : FunctionBody) : Bytes :=
  putSource parentSource f.source ++ putInt f.lineDefined ++ putInt f.lastLineDefined ++
    [f.numParams, putBool f.isVararg, f.maxStack] ++
    putList (fun i => order.putUInt32 i.word) f.code ++
    putList (putConstant order) f.constants ++
    putList putUpvalue f.upvalues

mutual

/-- A function with the functions inside it. -/
def putFunction (order : ByteOrder) (parentSource : Bytes) : Prototype → Bytes
  | ⟨body, children⟩ =>
    putBody order parentSource body ++ putLength children.length ++
      putFunctions order body.source children ++ putDebug body

/-- Several functions with the same parent. -/
def putFunctions (order : ByteOrder) (parentSource : Bytes) : List Prototype → Bytes
  | [] => []
  | p :: ps => putFunction order parentSource p ++ putFunctions order parentSource ps

end

/-- The chunk of a prototype tree. After the header stands the number of upvalues of the
main function, cut to a byte. -/
def encode (order : ByteOrder) (p : Prototype) : Bytes :=
  header order ++ [p.body.upvalues.length.toUInt8] ++ putFunction order [] p

end LuaToC.Chunk
