import LuaToC.Bytecode.Instruction
import LuaToC.Bytecode.Constant

/-! # Prototypes

A prototype is the static description of a Lua function together with the functions defined
inside it. It is a tree whose nodes are function bodies; a path of child indexes from the root
names a node, and `visits` lists all nodes with their paths, each node before its children and
children in order. Everything that numbers functions goes through this one order. -/
namespace LuaToC

/-- How a closure captures one variable: its debug name (empty when stripped), whether it
is a register of the enclosing function, its index there, and its kind. -/
structure Upvalue where
  name : Bytes
  inStack : Bool
  index : Int64
  kind : UInt8
  deriving DecidableEq

/-- An instruction whose source line is given outright. -/
structure Checkpoint where
  pc : Int64
  line : Int64
  deriving DecidableEq

/-- A local variable and the instructions between which it is live. -/
structure LocalVar where
  name : Bytes
  startPc : Int64
  endPc : Int64
  deriving DecidableEq

/-- One function without the functions inside it. `lineInfo` is `none` when the line table
was stripped, which is not the same as a table without entries. -/
structure FunctionBody where
  source : Bytes
  lineDefined : Int64
  lastLineDefined : Int64
  numParams : UInt8
  isVararg : Bool
  maxStack : UInt8
  code : List Instruction
  constants : List Constant
  upvalues : List Upvalue
  lineInfo : Option (List Int8)
  checkpoints : List Checkpoint
  locals : List LocalVar
  deriving DecidableEq, Inhabited

/-- A function and the functions defined inside it. -/
structure Prototype where
  body : FunctionBody
  children : List Prototype
  deriving Inhabited

/-- Child indexes that lead from the root to a node. -/
abbrev TreePath := List Nat

namespace TreePath

/-- A path in dotted form; the path of the root is empty. -/
def text (path : List Int) : Bytes := Bytes.join [46] (path.map Bytes.ofInt)

end TreePath

namespace FunctionBody

/-- The function is the main function of a chunk: it is defined on no line. -/
def isMain (f : FunctionBody) : Bool := f.lineDefined = 0

/-- The name of an upvalue, or `-` when there is none or it has no name. -/
def nameOfUpvalue (f : FunctionBody) (i : Int64) : Bytes :=
  if 0 ≤ i then
    match f.upvalues[i.toInt.toNat]? with
    | some u => if u.name = [] then ascii "-" else u.name
    | none => ascii "-"
  else ascii "-"

end FunctionBody

/-- A node of a prototype tree and its path. -/
structure Visit where
  path : TreePath
  proto : Prototype

namespace Prototype

mutual

/-- The number of functions in the tree. -/
def count : Prototype → Nat
  | ⟨_, children⟩ => 1 + countAll children

/-- The number of functions in several trees. -/
def countAll : List Prototype → Nat
  | [] => 0
  | p :: ps => p.count + countAll ps

end

mutual

/-- The nodes of the tree whose root is at `path`. -/
def visitsFrom (path : TreePath) : Prototype → List Visit
  | ⟨body, children⟩ => ⟨path, ⟨body, children⟩⟩ :: visitsAll path 0 children

/-- The nodes of the children of the node at `path`, the first of them having index `i`. -/
def visitsAll (path : TreePath) (i : Nat) : List Prototype → List Visit
  | [] => []
  | p :: ps => visitsFrom (path ++ [i]) p ++ visitsAll path (i + 1) ps

end

/-- All nodes of the tree: a node before its children, children in order. -/
def visits (p : Prototype) : List Visit := visitsFrom [] p

mutual

/-- Runs `f` on the nodes of the tree whose root is at `path`. -/
def walkFrom {m : Type → Type} [Monad m] (f : Visit → m Unit) (path : TreePath) :
    Prototype → m Unit
  | ⟨body, children⟩ => do
    f ⟨path, ⟨body, children⟩⟩
    walkAll f path 0 children

/-- Runs `f` on the nodes of the children from index `i` on. -/
def walkAll {m : Type → Type} [Monad m] (f : Visit → m Unit) (path : TreePath) (i : Nat) :
    List Prototype → m Unit
  | [] => pure ()
  | p :: ps => do
    walkFrom f (path ++ [i]) p
    walkAll f path (i + 1) ps

end

/-- Runs `f` on every node in the order of `visits`, until it fails for the first time. -/
def traverse {m : Type → Type} [Monad m] (p : Prototype) (f : Visit → m Unit) : m Unit :=
  walkFrom f [] p

end Prototype
end LuaToC
