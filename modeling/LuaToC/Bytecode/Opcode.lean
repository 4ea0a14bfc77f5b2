import LuaToC.Text.Bytes

/-! # Operations

An instruction word of Lua 5.4 carries a seven-bit operation number; 83 of the 128 numbers name
an operation, and the others can still occur in a word that was not checked, so both a closed
enumeration (`Opcode`) and a number (`OpTag`) are needed. -/
namespace LuaToC

/-- The operations, in the order of their numbers. -/
inductive Opcode where
  | move | loadI | loadF | loadK | loadKX | loadFalse | lFalseSkip | loadTrue | loadNil
  | getUpval | setUpval | getTabUp | getTable | getI | getField | setTabUp | setTable | setI
  | setField | newTable | self | addI | addK | subK | mulK | modK | powK | divK | idivK | bandK
  | borK | bxorK | shrI | shlI | add | sub | mul | mod | pow | div | idiv | band | bor | bxor
  | shl | shr | mmbin | mmbinI | mmbinK | unm | bnot | lnot | len | concat | close | tbc | jmp
  | eq | lt | le | eqK | eqI | ltI | leI | gtI | geI | test | testSet | call | tailCall | ret
  | ret0 | ret1 | forLoop | forPrep | tforPrep | tforCall | tforLoop | setList | closure | vararg
  | varargPrep | extraArg
  deriving DecidableEq

/-- The layouts of the operands inside an instruction word. -/
inductive Format where
  | abc | abx | asbx | ax | sj
  deriving DecidableEq, Repr

namespace Format

/-- All formats, in the order of their numbers. -/
def all : List Format := [.abc, .abx, .asbx, .ax, .sj]

/-- The usual name of a format. -/
def name : Format → Bytes
  | .abc => ascii "iABC"
  | .abx => ascii "iABx"
  | .asbx => ascii "iAsBx"
  | .ax => ascii "iAx"
  | .sj => ascii "isJ"

/-- The name of the format with a number, and a placeholder for other numbers. -/
def nameOf (n : UInt8) : Bytes :=
  match all[n.toNat]? with
  | some f => f.name
  | none => ascii "OpMode(" ++ Bytes.ofNat n.toNat ++ ascii ")"

end Format

namespace Opcode

/-- All operations, in the order of their numbers. -/
def all : List Opcode :=
  [.move, .loadI, .loadF, .loadK, .loadKX, .loadFalse, .lFalseSkip, .loadTrue, .loadNil,
   .getUpval, .setUpval, .getTabUp, .getTable, .getI, .getField, .setTabUp, .setTable, .setI,
   .setField, .newTable, .self, .addI, .addK, .subK, .mulK, .modK, .powK, .divK, .idivK, .bandK,
   .borK, .bxorK, .shrI, .shlI, .add, .sub, .mul, .mod, .pow, .div, .idiv, .band, .bor, .bxor,
   .shl, .shr, .mmbin, .mmbinI, .mmbinK, .unm, .bnot, .lnot, .len, .concat, .close, .tbc, .jmp,
   .eq, .lt, .le, .eqK, .eqI, .ltI, .leI, .gtI, .geI, .test, .testSet, .call, .tailCall, .ret,
   .ret0, .ret1, .forLoop, .forPrep, .tforPrep, .tforCall, .tforLoop, .setList, .closure,
   .vararg, .varargPrep, .extraArg]

/-- The mnemonic that `luac` lists. -/
def mnemonic : Opcode → String
  | .move => "MOVE"
  | .loadI => "LOADI"
  | .loadF => "LOADF"
  | .loadK => "LOADK"
  | .loadKX => "LOADKX"
  | .loadFalse => "LOADFALSE"
  | .lFalseSkip => "LFALSESKIP"
  | .loadTrue => "LOADTRUE"
  | .loadNil => "LOADNIL"
  | .getUpval => "GETUPVAL"
  | .setUpval => "SETUPVAL"
  | .getTabUp => "GETTABUP"
  | .getTable => "GETTABLE"
  | .getI => "GETI"
  | .getField => "GETFIELD"
  | .setTabUp => "SETTABUP"
  | .setTable => "SETTABLE"
  | .setI => "SETI"
  | .setField => "SETFIELD"
  | .newTable => "NEWTABLE"
  | .self => "SELF"
  | .addI => "ADDI"
  | .addK => "ADDK"
  | .subK => "SUBK"
  | .mulK => "MULK"
  | .modK => "MODK"
  | .powK => "POWK"
  | .divK => "DIVK"
  | .idivK => "IDIVK"
  | .bandK => "BANDK"
  | .borK => "BORK"
  | .bxorK => "BXORK"
  | .shrI => "SHRI"
  | .shlI => "SHLI"
  | .add => "ADD"
  | .sub => "SUB"
  | .mul => "MUL"
  | .mod => "MOD"
  | .pow => "POW"
  | .div => "DIV"
  | .idiv => "IDIV"
  | .band => "BAND"
  | .bor => "BOR"
  | .bxor => "BXOR"
  | .shl => "SHL"
  | .shr => "SHR"
  | .mmbin => "MMBIN"
  | .mmbinI => "MMBINI"
  | .mmbinK => "MMBINK"
  | .unm => "UNM"
  | .bnot => "BNOT"
  | .lnot => "NOT"
  | .len => "LEN"
  | .concat => "CONCAT"
  | .close => "CLOSE"
  | .tbc => "TBC"
  | .jmp => "JMP"
  | .eq => "EQ"
  | .lt => "LT"
  | .le => "LE"
  | .eqK => "EQK"
  | .eqI => "EQI"
  | .ltI => "LTI"
  | .leI => "LEI"
  | .gtI => "GTI"
  | .geI => "GEI"
  | .test => "TEST"
  | .testSet => "TESTSET"
  | .call => "CALL"
  | .tailCall => "TAILCALL"
  | .ret => "RETURN"
  | .ret0 => "RETURN0"
  | .ret1 => "RETURN1"
  | .forLoop => "FORLOOP"
  | .forPrep => "FORPREP"
  | .tforPrep => "TFORPREP"
  | .tforCall => "TFORCALL"
  | .tforLoop => "TFORLOOP"
  | .setList => "SETLIST"
  | .closure => "CLOSURE"
  | .vararg => "VARARG"
  | .varargPrep => "VARARGPREP"
  | .extraArg => "EXTRAARG"

/-- How the operands of an operation are laid out. -/
def format : Opcode → Format
  | .loadI | .loadF => .asbx
  | .loadK | .loadKX | .forLoop | .forPrep | .tforPrep | .tforLoop | .closure => .abx
  | .extraArg => .ax
  | .jmp => .sj
  | _ => .abc

/-- The operation is a test: it does not jump by itself but decides whether the jump after
it is taken. -/
def isTest : Opcode → Bool
  | .eq | .lt | .le | .eqK | .eqI | .ltI | .leI | .gtI | .geI | .test | .testSet => true
  | _ => false

/-- The operation with a mnemonic. -/
def ofMnemonic? (s : Bytes) : Option Opcode := all.find? fun op => ascii op.mnemonic = s

end Opcode

/-- An operation number, as it stands in an instruction word. -/
structure OpTag where
  val : UInt8
  deriving DecidableEq, Repr

namespace OpTag

/-- The operation that the number names. -/
def opcode? (t : OpTag) : Option Opcode := Opcode.all[t.val.toNat]?

/-- The number names an operation. -/
def isValid (t : OpTag) : Bool := t.opcode?.isSome

/-- The mnemonic of the operation, or a name made from the number. -/
def name (t : OpTag) : Bytes :=
  match t.opcode? with
  | some op => ascii op.mnemonic
  | none => ascii "UNKNOWN_" ++ Bytes.ofNat t.val.toNat

/-- The operand layout; a number without an operation is read as `iABC`. -/
def format (t : OpTag) : Format := (t.opcode?.map Opcode.format).getD .abc

/-- The number names a test. -/
def isTest (t : OpTag) : Bool := (t.opcode?.map Opcode.isTest).getD false

end OpTag

namespace Opcode

/-- The number of an operation: its place in the enumeration. -/
def tag (op : Opcode) : OpTag := ⟨(all.idxOf op).toUInt8⟩

end Opcode
end LuaToC
