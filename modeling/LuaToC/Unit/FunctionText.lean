import LuaToC.Unit.Annotation
import LuaToC.Unit.Entry

/-! # The text of a function

The C text of one function: a comment that says where it comes from, the prologue that binds the
frame, and one labelled block per instruction. -/
namespace LuaToC.FunctionText

/-- A source name that stays on its comment line: line ends become blanks. -/
def oneLine (s : Bytes) : Bytes := s.map fun b => if b = 13 ∨ b = 10 then 32 else b

/-- Where the function is defined. -/
def origin (f : FunctionBody) : Bytes :=
  if f.isMain then ascii "// main function"
  else
    ascii "// lines: " ++ Bytes.ofInt f.lineDefined.toInt ++ ascii " - " ++
      Bytes.ofInt f.lastLineDefined.toInt

/-- Binds the state of the frame. Execution comes back to the label `tailcall`, which reads
the trap state once more. -/
def prologue : List Bytes :=
  Statements.code [
    "  LClosure *cl;",
    "  TValue *k;",
    "  StkId base;",
    "  const Instruction *saved_pc;",
    "  int trap;",
    "  ",
    " tailcall:",
    "  trap = L->hookmask;",
    "  cl = clLvalue(s2v(ci->func));",
    "  k = cl->p->k;",
    "  saved_pc = ci->u.l.savedpc;  /*no explicit program counter*/ ",
    "  if (trap) \x7b",
    "    if (cl->p->is_vararg)",
    "      trap = 0;  /* hooks will start after VARARGPREP instruction */",
    "    else if (saved_pc == cl->p->code) /*first instruction (not resuming)?*/",
    "      luaD_hookcall(L, ci);",
    "    ci->u.l.trap = 1;  /* there may be other hooks */",
    "  \x7d",
    "  base = ci->func + 1;",
    "  /* main loop of interpreter */",
    "  Instruction *function_code = cl->p->code;",
    " "]

/-- Gives the macro `name` the given text, or leaves it undefined. -/
def define (name : String) (value : Option Bytes) : List Bytes :=
  [ascii "  #undef  " ++ ascii name] ++
    value.toList.map fun v => ascii "  #define " ++ ascii name ++ ascii " " ++ v

/-- The block of the instruction `i` at `pc`, without its annotation. While an instruction
runs, the saved program counter is at the next one. -/
def block (policy : Policy) (code : List Instruction) (pc : Nat) (i : Instruction) : List Bytes :=
  define "LUA_AOT_PC" (some (ascii "(function_code + " ++ Bytes.ofNat (pc + 1) ++ ascii ")")) ++
    define "LUA_AOT_NEXT_JUMP" (Branch.followingJump? code pc) ++
    define "LUA_AOT_SKIP1" (Branch.skip? code pc) ++
    [ascii "  " ++ Branch.label (Branch.position pc) ++ ascii " : \x7b",
      ascii "    Instruction i = " ++ i.hexText ++ ascii ";"] ++
    Statements.code ["    StkId ra = RA(i);", "    (void) ra;"] ++
    (Statements.supported? pc i).getD (Statements.substitute policy i.tag) ++
    Statements.code ["  \x7d", "  "]

/-- The annotation and the block of every instruction. -/
def blocks (opts : Options) (entries : List Entry) (e : Entry) :
    Except UncoveredLine (List Bytes) := do
  let f := e.proto.body
  let parts ← f.code.zipIdx.mapM fun (i, pc) => do
    let annotation ←
      if opts.comments then do
        let a ← Annotation.ofInstruction f (Entry.nameOfChild entries e.path) pc i
        pure [a.text]
      else pure []
    return annotation ++ block opts.policy f.code pc i
  return parts.flatten

/-- The lines of a function. -/
def lines (opts : Options) (entries : List Entry) (e : Entry) :
    Except UncoveredLine (List Bytes) := do
  let f := e.proto.body
  let body ← blocks opts entries e
  return [ascii "// source = " ++ oneLine f.source, origin f, ascii "static",
      ascii "void " ++ e.name ++ ascii "(lua_State *L, CallInfo *ci)", ascii "\x7b"] ++
    prologue ++ body ++ Statements.code ["\x7d", " "]

end LuaToC.FunctionText
