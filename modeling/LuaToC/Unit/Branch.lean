import LuaToC.Bytecode.Prototype

/-! # Branches

Every instruction of a function becomes a labelled block of C, and a branch becomes a `goto`.
This module has the rules for where each branch goes, the names of the labels, and the check that
every branch of a function stays inside it. Positions are 64-bit numbers and count from zero. -/
namespace LuaToC.Branch

/-- Where a jump at `pc` goes. -/
def jump (pc sJ : Int64) : Int64 := pc + 1 + sJ

/-- Where the end of a loop at `pc` goes to run the body once more. -/
def loopBack (pc bx : Int64) : Int64 := pc + 1 - bx

/-- Where the start of a numeric loop at `pc` goes when the body must not run. -/
def loopSkip (pc bx : Int64) : Int64 := pc + 1 + bx + 1

/-- Where the start of a generic loop at `pc` goes to reach its call. -/
def forward (pc bx : Int64) : Int64 := pc + 1 + bx

/-- The label of the instruction at `pc`: its number with at least two digits. -/
def label (pc : Int64) : Bytes :=
  ascii "label_" ++ if pc < 0 then Bytes.ofInt pc.toInt else Bytes.twoDigits pc.toInt.toNat

/-- A position as a 64-bit number. -/
def position (pc : Nat) : Int64 := Int64.ofNat pc

/-- The position lies inside a function of `size` instructions. -/
def isInside (size : Nat) (t : Int64) : Bool := 0 ≤ t && t.toInt < size

/-- Where the jump after the instruction at `pc` goes, or `-1` when no jump follows it. -/
def following (code : List Instruction) (pc : Nat) : Int64 :=
  match code[pc + 1]? with
  | some next => if next.isJump then jump (position (pc + 1)) (Int64.ofInt next.sJ) else -1
  | none => -1

/-- Where the instruction itself may branch to, if it is no test. -/
def target? (pc : Nat) (i : Instruction) : Option Int64 :=
  let here := position pc
  let bx := Int64.ofNat i.bx
  match i.opcode? with
  | some .jmp => some (jump here (Int64.ofInt i.sJ))
  | some .forLoop | some .tforLoop => some (loopBack here bx)
  | some .forPrep => some (loopSkip here bx)
  | some .tforPrep => some (forward here bx)
  | some .lFalseSkip | some .loadKX => some (here + 2)
  | _ => none

/-- What is wrong with a branch. -/
inductive Fault where
  | outOfRange
  | noJumpAfterTest
  deriving DecidableEq

/-- A branch that no label of the function can express. -/
structure Error where
  function : Bytes
  pc : Nat
  tag : OpTag
  target : Int64
  fault : Fault
  deriving DecidableEq

/-- What the error states as its reason; a target out of range has none. -/
def Fault.reason : Fault → Bytes
  | .outOfRange => []
  | .noJumpAfterTest => ascii "test instruction not followed by JMP"

/-- The wording of the error; instructions are counted from one. -/
def Error.message (e : Error) : Bytes :=
  e.function ++ ascii ": instruction " ++ Bytes.ofNat (e.pc + 1) ++ ascii " (" ++ e.tag.name ++
    ascii "): " ++
    match e.fault with
    | .noJumpAfterTest => Fault.noJumpAfterTest.reason
    | .outOfRange => ascii "jump target " ++ Bytes.ofInt e.target.toInt ++ ascii " out of range"

/-- What is wrong with the branch at `pc`, if anything: a test needs a jump after it and an
instruction after that, and any other branch needs its target. -/
def defect? (code : List Instruction) (pc : Nat) (i : Instruction) : Option (Int64 × Fault) :=
  let need (t : Int64) := if isInside code.length t then none else some (t, Fault.outOfRange)
  match target? pc i with
  | some t => need t
  | none =>
    if i.tag.isTest then
      if following code pc < 0 then some (position pc + 1, .noJumpAfterTest)
      else need (position pc + 2)
    else none

/-- Accepts a function all of whose branches stay inside it, and otherwise names the first
that does not. -/
def check (function : Bytes) (code : List Instruction) : Except Error Unit :=
  let first := code.zipIdx.findSome? fun (i, pc) =>
    (defect? code pc i).map fun (target, fault) => ⟨function, pc, i.tag, target, fault⟩
  match first with
  | some e => .error e
  | none => .ok ()

/-- The label that the test at `pc` branches to through the jump after it. -/
def followingJump? (code : List Instruction) (pc : Nat) : Option Bytes :=
  let t := following code pc
  if isInside code.length t then some (label t) else none

/-- The label of the instruction after the next one. -/
def skip? (code : List Instruction) (pc : Nat) : Option Bytes :=
  let t := position pc + 2
  if isInside code.length t then some (label t) else none

end LuaToC.Branch
