import LuaToC.Bytecode.LineTable
import LuaToC.Unit.Branch

/-! # Annotations

An annotation is what a listing says about one instruction. The position counts from one, the
line stands in brackets, and after the operands a remark explains them where they name a
constant, an upvalue, a metamethod event, a target, a number of values or a function. -/
namespace LuaToC

/-- The metamethod events, in the order of their numbers. -/
def metamethods : List String :=
  ["__index", "__newindex", "__gc", "__mode", "__len", "__eq", "__add", "__sub", "__mul", "__mod",
   "__pow", "__div", "__idiv", "__band", "__bor", "__bxor", "__shl", "__shr", "__unm", "__bnot",
   "__lt", "__le", "__concat", "__call", "__close"]

/-- The name of an event, and a placeholder for numbers without one. -/
def metamethod (n : Nat) : Bytes :=
  match metamethods[n]? with
  | some s => ascii s
  | none => 63 :: Bytes.ofNat n

/-- The description of one instruction. -/
structure Annotation where
  pc : Nat
  line : Int64
  tag : OpTag
  operands : Bytes
  remark : Option Bytes

namespace Annotation

/-- The source line in brackets; `-` when it is not known. -/
def lineText (a : Annotation) : Bytes :=
  if 0 < a.line then ascii "[" ++ Bytes.ofInt a.line.toInt ++ ascii "]" else ascii "[-]"

/-- The mnemonic in a column of nine. -/
def mnemonicText (a : Annotation) : Bytes := Bytes.padRight 9 a.tag.name

/-- The annotation as a comment line. -/
def text (a : Annotation) : Bytes :=
  ascii "  // " ++ Bytes.join [9] [Bytes.ofNat a.pc, a.lineText, a.mnemonicText, a.operands] ++
    match a.remark with
    | some r => ascii "\t; " ++ r
    | none => []

/-- Operands with blanks between them. -/
def numbers (ns : List Int) : Bytes := Bytes.join [32] (ns.map Bytes.ofInt)

/-- A number of values: `n - 1` of them, or all when `n` is zero. -/
def countText (n : Nat) (direction : String) : Bytes :=
  (if n = 0 then ascii "all" else Bytes.ofNat (n - 1)) ++ ascii " " ++ ascii direction

/-- A constant, and a placeholder for an index without one. -/
def constantText (f : FunctionBody) (i : Nat) : Bytes :=
  match f.constants[i]? with
  | some k => k.text
  | none => 63 :: Bytes.ofNat i

/-- A target as a listing shows it, counted from one. -/
def targetText (t : Int64) : Bytes := ascii "to " ++ Bytes.ofInt (t + 1).toInt

/-- The operands and the remark of the instruction `i` at `pc`; `nameOfChild` names the
function of a child. -/
def describe (f : FunctionBody) (nameOfChild : Nat → Bytes) (pc : Nat) (i : Instruction) :
    Bytes × Option Bytes :=
  let here := Branch.position pc
  let bx := Int64.ofNat i.bx
  let constant := constantText f
  let upvalue (n : Nat) := f.nameOfUpvalue (Int64.ofNat n)
  let words (ws : List Bytes) := some (Bytes.join [32] ws)
  let abc := numbers [i.a, i.b, i.c]
  let abck := abc ++ if i.k ≠ 0 then ascii "k" else []
  match i.opcode? with
  | none => (abc, some (ascii "not handled"))
  | some op =>
    match op with
    | .move => (numbers [i.a, i.b], none)
    | .loadI | .loadF => (numbers [i.a, i.sBx], none)
    | .loadK => (numbers [i.a, i.bx], some (constant i.bx))
    | .loadKX | .loadFalse | .lFalseSkip | .loadTrue => (numbers [i.a], none)
    | .loadNil => (numbers [i.a, i.b], words [Bytes.ofNat (i.b + 1), ascii "out"])
    | .getUpval | .setUpval => (numbers [i.a, i.b], some (upvalue i.b))
    | .getTabUp => (abc, words [upvalue i.b, constant i.c])
    | .getTable | .getI | .newTable => (abc, none)
    | .getField => (abc, some (constant i.c))
    | .setTabUp =>
      (abck, words ([upvalue i.a, constant i.b] ++ if i.k ≠ 0 then [constant i.c] else []))
    | .setTable | .setI | .self => (abck, if i.k ≠ 0 then some (constant i.c) else none)
    | .setField => (abck, words ([constant i.b] ++ if i.k ≠ 0 then [constant i.c] else []))
    | .addI | .shrI | .shlI => (numbers [i.a, i.b, i.sC], none)
    | .addK | .subK | .mulK | .modK | .powK | .divK | .idivK | .bandK | .borK | .bxorK =>
      (abc, some (constant i.c))
    | .add | .sub | .mul | .mod | .pow | .div | .idiv | .band | .bor | .bxor | .shl | .shr =>
      (abc, none)
    | .mmbin => (abc, some (metamethod i.c))
    | .mmbinI => (numbers [i.a, i.sB, i.c], some (metamethod i.c))
    | .mmbinK => (abc, words [metamethod i.c, constant i.b])
    | .unm | .bnot | .lnot | .len | .concat => (numbers [i.a, i.b], none)
    | .close | .tbc | .ret1 | .varargPrep => (numbers [i.a], none)
    | .jmp => (numbers [i.sJ], some (targetText (Branch.jump here (Int64.ofInt i.sJ))))
    | .eq | .lt | .le | .testSet => (numbers [i.a, i.b, i.k], none)
    | .eqK => (numbers [i.a, i.b, i.k], some (constant i.b))
    | .eqI | .ltI | .leI | .gtI | .geI => (numbers [i.a, i.sB, i.k], none)
    | .test => (numbers [i.a, i.k], none)
    | .call => (abc, words [countText i.b "in", countText i.c "out"])
    | .tailCall => (abc, words [Bytes.ofInt ((i.b : Int) - 1), ascii "in"])
    | .ret => (abc, some (countText i.b "out"))
    | .ret0 => ([], none)
    | .forLoop | .tforLoop => (numbers [i.a, i.bx], some (targetText (Branch.loopBack here bx)))
    | .forPrep | .tforPrep => (numbers [i.a, i.bx], some (targetText (Branch.forward here bx)))
    | .tforCall => (numbers [i.a, i.c], none)
    | .setList => (abc, none)
    | .closure => (numbers [i.a, i.bx], some (nameOfChild i.bx))
    | .vararg => (numbers [i.a, i.c], some (countText i.c "out"))
    | .extraArg => (numbers [i.ax], none)

/-- The annotation of the instruction `i` at `pc`. -/
def ofInstruction (f : FunctionBody) (nameOfChild : Nat → Bytes) (pc : Nat) (i : Instruction) :
    Except UncoveredLine Annotation := do
  let line ← f.lineOf (Branch.position pc)
  let (operands, remark) := describe f nameOfChild pc i
  return { pc := pc + 1, line, tag := i.tag, operands, remark }

end Annotation
end LuaToC
