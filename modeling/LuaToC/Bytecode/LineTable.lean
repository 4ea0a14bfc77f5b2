import LuaToC.Bytecode.Prototype

/-! # Source lines

A line table holds, for each instruction, the difference of its line from the line before, and
from time to time a checkpoint gives a line outright. The line of an instruction is found from
the last checkpoint at or before it. -/
namespace LuaToC

/-- The line of an instruction was asked for that the line table does not reach. -/
structure UncoveredLine where
  pc : Int64
  deriving DecidableEq

namespace FunctionBody

/-- The longest run of instructions between two checkpoints that a compiler leaves. -/
def checkpointSpacing : Int64 := 128

/-- The last position up to `i` whose checkpoint is not after `pc`, or the first. -/
def stepDown (cs : List Checkpoint) (pc : Int64) : Nat → Nat
  | 0 => 0
  | i + 1 =>
    match cs[i + 1]? with
    | some c => if pc < c.pc then stepDown cs pc i else i + 1
    | none => stepDown cs pc i

/-- Follows the checkpoints after `c` for as long as they are not after `pc`. -/
def stepUp (pc : Int64) (c : Checkpoint) : List Checkpoint → Checkpoint
  | [] => c
  | d :: ds => if d.pc ≤ pc then stepUp pc d ds else c

/-- The checkpoint to count from: a guess from the usual spacing, corrected downwards and
then upwards. Before the first checkpoint counting starts ahead of the first instruction,
at the line of the definition. -/
def base (f : FunctionBody) (pc : Int64) : Checkpoint :=
  match f.checkpoints with
  | [] => ⟨-1, f.lineDefined⟩
  | first :: rest =>
    if pc < first.pc then ⟨-1, f.lineDefined⟩
    else
      let guess := (pc / checkpointSpacing - 1).toInt.toNat
      let i := stepDown (first :: rest) pc (min guess rest.length)
      match (first :: rest).drop i with
      | c :: cs => stepUp pc c cs
      | [] => first

/-- The line of the instruction at `pc`, and `-1` when there is no line table. The
differences from the base on are added up; a position outside the table has none. -/
def lineOf (f : FunctionBody) (pc : Int64) : Except UncoveredLine Int64 :=
  match f.lineInfo with
  | none => .ok (-1)
  | some deltas =>
    let base := f.base pc
    let start := base.pc + 1
    if pc < start then .ok base.line
    else if start < 0 ∨ (deltas.length : Int) ≤ pc.toInt then .error ⟨pc⟩
    else
      let steps := (deltas.drop start.toInt.toNat).take (pc.toInt.toNat - start.toInt.toNat + 1)
      .ok (steps.foldl (fun line d => line + d.toInt64) base.line)

end FunctionBody
end LuaToC
