import LuaToC.Unit.Statements

/-! # Entries

The entries of a unit are its functions. Each prototype of the tree gets a number, its place in
the order of `Prototype.visits`, and a name made from the number; whoever loads the unit numbers
the prototypes in the same order and so finds the function of each. -/
namespace LuaToC

/-- A generated function and the prototype that it is generated from. -/
structure Entry where
  id : Nat
  name : Bytes
  path : TreePath
  proto : Prototype

namespace Entry

/-- The name of function number `id`. -/
def nameOf (functionPrefix : Bytes) (id : Nat) : Bytes := functionPrefix ++ Bytes.twoDigits id

/-- The entries of a tree, in order. -/
def ofTree (functionPrefix : Bytes) (root : Prototype) : List Entry :=
  root.visits.zipIdx.map fun (v, id) => ⟨id, nameOf functionPrefix id, v.path, v.proto⟩

/-- The name of the function of child `i` of the prototype at `path`, and `?` when it has no
such child. -/
def nameOfChild (entries : List Entry) (path : TreePath) (i : Nat) : Bytes :=
  match entries.find? fun e => e.path = path ++ [i] with
  | some e => e.name
  | none => ascii "?"

end Entry

/-- An unsupported instruction. -/
structure Finding where
  function : Bytes
  pc : Nat
  tag : OpTag
  deriving DecidableEq

namespace Finding

/-- The wording of a finding; instructions are counted from one. -/
def message (f : Finding) : Bytes :=
  f.function ++ ascii ": instruction " ++ Bytes.ofNat (f.pc + 1) ++
    ascii ": unsupported opcode " ++ f.tag.name

/-- The wording of several findings: one stands alone, more are listed one per line. -/
def listMessage : List Finding → Bytes
  | [f] => f.message
  | fs =>
    Bytes.ofNat fs.length ++ ascii " unsupported instructions:\n" ++
      Bytes.join [Bytes.newline] (fs.map fun f => ascii "  " ++ f.message)

/-- The unsupported instructions of a function, in order. -/
def ofEntry (e : Entry) : List Finding :=
  e.proto.body.code.zipIdx.filterMap fun (i, pc) =>
    if (Statements.supported? pc i).isNone then some ⟨e.name, pc, i.tag⟩ else none

end Finding
end LuaToC
