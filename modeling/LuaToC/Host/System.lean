import LuaToC.Host.Machine

/-! # Systems

A system has its files on a machine. What programs do there is its own affair, and so is whether an
operation is refused: a write can break off after any part of the text, and every other step can fail
and change nothing. Only removing a file does not fail. -/
namespace LuaToC

/-- An operation that a system can refuse. -/
inductive Operation where
  | looking (path : Bytes)
  | reading (path : Bytes)
  | making (dir : Bytes)
  | opening (path : Bytes)
  | writing (path text : Bytes)
  | permitting (path : Bytes)
  | closing (path : Bytes)
  | renaming (source target : Bytes)

/-- How a system behaves, given all of its files. -/
structure System where
  /-- What a run of a program leaves, and what it makes of the files. -/
  execute : Machine → Invocation → Execution × Machine
  /-- Why an operation is refused, if it is. -/
  refusal? : Machine → Operation → Option Cause
  /-- How many bytes of a text a file takes before the rest is refused. -/
  taken : Machine → Bytes → Bytes → Nat

namespace System

/-- Does something unless the system refuses the operation. -/
def guard {α : Type} (sys : System) (op : Operation) (refused : Cause → FileError) (m : Machine)
    (done : Except FileError α × Machine) : Except FileError α × Machine :=
  match sys.refusal? m op with
  | some cause => (.error (refused cause), m)
  | none => done

/-- Adds a text to a file, or only its beginning if the system refuses the rest. -/
def write (sys : System) (m : Machine) (p s : Bytes) : Except FileError Unit × Machine :=
  match sys.refusal? m (.writing p s) with
  | some cause => (.error (.writing p cause), (m.append p (s.take (sys.taken m p s))).2)
  | none => m.append p s

end System

/-- The monad of steps on a system. -/
def OnSystem (_ : System) (α : Type) : Type := StateM Machine α

namespace OnSystem

variable {sys : System}

instance : Monad (OnSystem sys) := inferInstanceAs (Monad (StateM Machine))

/-- The result of steps from a machine, and the machine after them. -/
def run {α : Type} (x : OnSystem sys α) (m : Machine) : α × Machine := StateT.run x m

/-- Steps that are given by what they do with a machine. -/
def ofRun {α : Type} (f : Machine → α × Machine) : OnSystem sys α := (f : StateM Machine α)

instance : Host (OnSystem sys) where
  workDir := ofRun fun m => (Machine.pathOf m.workDir, m)
  read p := ofRun fun m => sys.guard (.reading p) (.reading p) m (m.read p, m)
  isPresent p := ofRun fun m => ((sys.refusal? m (.looking p)).isNone && m.isPresent p, m)
  createTemporary dir := ofRun fun m =>
    sys.guard (.making dir) (.opening (Host.temporaryPath dir 0)) m (m.createTemporary dir)
  create p := ofRun fun m => sys.guard (.opening p) (.opening p) m (m.create p)
  write p s := ofRun fun m => sys.write m p s
  permit p := ofRun fun m => sys.guard (.permitting p) (.permitting p) m (m.permit p)
  close p := ofRun fun m => sys.guard (.closing p) (.closing p) m (.ok (), m)
  rename p q := ofRun fun m => sys.guard (.renaming p q) (.renaming p q) m (m.rename p q)
  remove p := ofRun fun m => ((), m.remove p)
  execute i := ofRun fun m =>
    let r := sys.execute m i
    (r.1, { r.2 with workDir := m.workDir })

end OnSystem
end LuaToC
