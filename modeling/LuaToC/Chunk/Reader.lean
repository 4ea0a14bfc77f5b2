import LuaToC.Chunk.Varint
import LuaToC.Chunk.Format

/-! # Reading binary chunks

A reader consumes bytes from the front of the data and either yields a value or names the reason
why it cannot. The end of a block is computed in 64-bit signed numbers, which wrap around; an end
that has wrapped passes the check against the size of the data, and then the slice that it is
used for ends the program (`Error.sizeOverflow`). `Bounds` keeps that apart from the reader whose
sums are exact. -/
namespace LuaToC.Chunk

/-- How the end of a block is computed: in 64-bit signed numbers, or exactly. -/
inductive Bounds where
  | word64 | unbounded
  deriving DecidableEq

/-- The end of the `n` bytes that begin at `start`. -/
def Bounds.stop : Bounds → Nat → Nat → Int
  | .word64, start, n => (Int64.ofNat start + Int64.ofNat n).toInt
  | .unbounded, start, n => start + n

/-- What a reader knows besides the bytes that are left: how many there were at first, and
how ends of blocks are computed. -/
structure Extent where
  size : Nat
  bounds : Bounds

/-- A reader of chunk data; its state is the bytes that are left. -/
abbrev Reader := StateT Bytes (Except Error)

namespace Reader

/-- The next byte. -/
def byte : Reader UInt8 := do
  match ← get with
  | [] => throw .truncated
  | b :: rest =>
    set rest
    return b

/-- How many bytes have been read. -/
def offset (e : Extent) : Reader Nat := do return e.size - (← get).length

/-- The bytes from `start` to `stop`, where those that are left begin at `start`. A range that
is not in the data ends the program. -/
def slice (start : Nat) (stop : Int) : Reader Bytes := do
  let left ← get
  if start ≤ stop ∧ stop ≤ start + left.length then
    let n := (stop - start).toNat
    set (left.drop n)
    return left.take n
  else throw .sizeOverflow

/-- The next `n` bytes, or the refusal `cut` when the data end before them. -/
def blockOr (e : Extent) (cut : Error) (n : Nat) : Reader Bytes := do
  let start ← offset e
  let stop := e.bounds.stop start n
  if e.size < stop then throw cut else slice start stop

/-- The next `n` bytes. -/
def block (e : Extent) (n : Nat) : Reader Bytes := blockOr e .truncated n

/-- A variable-length number. -/
def varint (limit : Nat) : Reader Nat := do
  match Varint.decode limit (← get) with
  | .error .truncated => throw .truncated
  | .error .overflow => throw .integerOverflow
  | .ok (n, rest) =>
    set rest
    return n

/-- A count or a position. -/
def int : Reader Nat := varint 0x7fffffff

/-- A number that is kept as a 64-bit word. -/
def int64 : Reader Int64 := do return Int64.ofNat (← int)

/-- The body of a string whose declared size, one more than its length, is `size`. -/
def stringBody (e : Extent) (size : Nat) : Reader Bytes := do
  blockOr e (.truncatedString (← offset e) size) (size - 1)

/-- A string, or `none` when it is absent. -/
def string? (e : Extent) : Reader (Option Bytes) := do
  let size ← varint 0x7fffffffffffffff
  if size = 0 then return none
  else return some (← stringBody e size)

/-- A string; an absent one is empty. -/
def string (e : Extent) : Reader Bytes := do return (← string? e).getD []

/-- An eight-byte word. -/
def word64 (e : Extent) (order : ByteOrder) : Reader UInt64 := do
  return (order.number (← block e 8)).toUInt64

/-- The same reader `n` times, each time told how often it ran before. -/
def times {α : Type} (r : Nat → Reader α) : Nat → Nat → Reader (List α)
  | _, 0 => return []
  | i, n + 1 => do
    let x ← r i
    return x :: (← times r (i + 1) n)

/-- A list: its length, then its elements, each told its index. -/
def list {α : Type} (r : Nat → Reader α) : Reader (List α) := do
  times r 0 (← int)

/-- Checks the sizes that the header states. -/
def statedSizes : List (String × UInt8) → Reader Unit
  | [] => return ()
  | (type, size) :: rest => do
    if (← byte) = size then statedSizes rest else throw (.wrongSize type)

/-- The byte order in which a sample of the integer is written. -/
def orderOf (sample : Bytes) : Option ByteOrder :=
  if ByteOrder.little.number sample = sampleInt.toNat then some .little
  else if ByteOrder.big.number sample = sampleInt.toNat then some .big
  else none

/-- Checks the header after its signature and finds the byte order. -/
def headerFields (e : Extent) : Reader ByteOrder := do
  let v ← byte
  if v ≠ version then throw (.wrongVersion v)
  let f ← byte
  if f ≠ format then throw (.wrongFormat f)
  if (← block e check.length) ≠ check then throw .corrupted
  statedSizes sizes
  match orderOf (← block e 8) with
  | none => throw .integerFormat
  | some order =>
    if (← word64 e order) ≠ sampleFloat then throw .floatFormat
    return order

/-- Checks the header and finds the byte order. -/
def header (e : Extent) : Reader ByteOrder := do
  let data ← get
  if !hasSignature data then throw .notChunk
  set (data.drop signature.length)
  headerFields e

/-- The instructions in a block, the first of them at position `pc`; each has to name an
operation. -/
def instructions (order : ByteOrder) (pc : Nat) : Bytes → Except Error (List Instruction)
  | a :: b :: c :: d :: rest => do
    let i : Instruction := ⟨(order.number [a, b, c, d]).toUInt32⟩
    if i.tag.isValid then return i :: (← instructions order (pc + 1) rest)
    else throw (.unknownOpcode pc i)
  | [] => return []
  | _ => throw .sizeOverflow

def code (e : Extent) (order : ByteOrder) : Reader (List Instruction) := do
  let n ← int
  let raw ← block e (n * 4)
  instructions order 0 raw

def constant (e : Extent) (order : ByteOrder) (index : Nat) : Reader Constant := do
  let tag ← byte
  match tag.toNat with
  | 0x00 => return .nil
  | 0x01 => return .bool false
  | 0x11 => return .bool true
  | 0x03 => return .int (← word64 e order).toInt64
  | 0x13 => return .float ⟨← word64 e order⟩
  | 0x04 => return .str (← string e) false
  | 0x14 => return .str (← string e) true
  | _ => throw (.unknownTag index tag)

/-- An upvalue; its name comes with the debug information. -/
def upvalue (e : Extent) : Reader Upvalue := do
  match ← block e 3 with
  | [inStack, index, kind] => return ⟨[], inStack ≠ 0, Int64.ofNat index.toNat, kind⟩
  | _ => throw .sizeOverflow

def checkpoint : Reader Checkpoint := do
  let pc ← int64
  return ⟨pc, ← int64⟩

def localVar (e : Extent) : Reader LocalVar := do
  let name ← string e
  let startPc ← int64
  return ⟨name, startPc, ← int64⟩

/-- The line table; a table without entries counts as stripped. -/
def lineInfo (e : Extent) : Reader (Option (List Int8)) := do
  let n ← int
  if n = 0 then return none
  else return some ((← block e n).map UInt8.toInt8)

/-- The upvalues with their names; names past the last upvalue are dropped. -/
def named : List Upvalue → List Bytes → List Upvalue
  | u :: us, n :: ns => { u with name := n } :: named us ns
  | us, _ => us

/-- A function with the functions inside it, at most `depth` levels of them. Every level
takes at least one byte, so a depth past the length of the data is never reached. -/
def function (e : Extent) (order : ByteOrder) : Nat → Bytes → Reader Prototype
  | 0, _ => throw .truncated
  | depth + 1, parentSource => do
    let source := (← string? e).getD parentSource
    let lineDefined ← int64
    let lastLineDefined ← int64
    let numParams ← byte
    let isVararg := (← byte) ≠ 0
    let maxStack ← byte
    let code ← code e order
    let constants ← list (constant e order)
    let upvalues ← list fun _ => upvalue e
    let children ← list fun _ => function e order depth source
    let lineInfo ← lineInfo e
    let checkpoints ← list fun _ => checkpoint
    let locals ← list fun _ => localVar e
    let names ← list fun _ => string e
    let body : FunctionBody :=
      { source, lineDefined, lastLineDefined, numParams, isVararg, maxStack, code, constants
        upvalues := named upvalues names, lineInfo, checkpoints, locals }
    return ⟨body, children⟩

/-- A whole chunk: the header, the number of upvalues of the main function, which is not
used, and the main function. -/
def chunk (e : Extent) : Reader Prototype := do
  let order ← header e
  let _ ← byte
  function e order (e.size + 1) []

end Reader

/-- Reads the main function of a chunk, with block ends computed as `bounds` says. Bytes
after it are not looked at. -/
def decodeWith (bounds : Bounds) (data : Bytes) : Except Error Prototype :=
  (·.1) <$> (Reader.chunk ⟨data.length, bounds⟩).run data

/-- Reads the main function of a chunk. -/
def decode (data : Bytes) : Except Error Prototype := decodeWith .word64 data

end LuaToC.Chunk
