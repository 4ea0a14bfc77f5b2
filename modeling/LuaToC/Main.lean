import LuaToC.Command.Run

/-! # The command line

Files are those of the system; a compiler for source input is not started from here, so inputs
have to be binary chunks. -/
namespace LuaToC.Main

/-- The text that a list of bytes stands for in UTF-8, or in Latin-1 if it is not UTF-8. -/
def textOf (s : Bytes) : String :=
  (String.fromUTF8? ⟨s.toArray⟩).getD (String.ofList (s.map fun b => Char.ofNat b.toNat))

/-- The bytes of a text. -/
def bytesOf (s : String) : Bytes := s.toUTF8.toList

/-- The cause of a refusal by the system. -/
def causeOf : IO.Error → Cause
  | .noFileOrDirectory .. => .missing
  | .alreadyExists .. => .present
  | .permissionDenied .. => .denied
  | .inappropriateType _ 20 _ => .notDirectory
  | .inappropriateType .. => .isDirectory
  | .invalidArgument _ 36 _ => .nameTooLong
  | .invalidArgument .. => .invalid
  | .resourceExhausted _ 28 _ => .noSpace
  | .noSuchThing _ 6 _ => .noDevice
  | e => .other (bytesOf (toString e))

/-- Does something with a path; a refusal is an ordinary result. -/
def attempt {α : Type} (refusal : Cause → FileError) (action : IO α) :
    IO (Except FileError α) := do
  try return .ok (← action)
  catch e => return .error (refusal (causeOf e))

/-- Makes a temporary file with one of the next `fuel` numbers. -/
def createTemporary (dir : Bytes) : Nat → Nat → IO (Except FileError Bytes)
  | 0, n => return .error (.opening (Host.temporaryPath dir n) .present)
  | fuel + 1, n => do
    let p := Host.temporaryPath dir n
    match ← attempt (.opening p) (IO.FS.Handle.mk (textOf p) .writeNew) with
    | .ok _ => return .ok p
    | .error (.opening _ .present) => createTemporary dir fuel (n + 1)
    | .error e => return .error e

instance : Host IO where
  workDir := do return bytesOf (← IO.currentDir).toString
  read p := do
    match ← attempt (.opening p) (IO.FS.Handle.mk (textOf p) .read) with
    | .error e => return .error e
    | .ok h => attempt (.reading p) do return (← h.readBinToEnd).toList
  isPresent p := do
    match ← attempt (.opening p) (IO.FS.Handle.mk (textOf p) .read) with
    | .ok _ => return true
    | .error _ => return false
  createTemporary dir := createTemporary dir 10000 0
  create p := attempt (.opening p) do
    let _ ← IO.FS.Handle.mk (textOf p) .write
  write p s := attempt (.writing p) do
    let h ← IO.FS.Handle.mk (textOf p) .append
    h.write ⟨s.toArray⟩
    h.flush
  permit p :=
    let own : IO.AccessRight := ⟨true, true, false⟩
    let others : IO.AccessRight := ⟨true, false, false⟩
    attempt (.permitting p) (IO.setAccessRights (textOf p) ⟨own, others, others⟩)
  close _ := return .ok ()
  rename p q := attempt (.renaming p q) (IO.FS.rename (textOf p) (textOf q))
  remove p := do
    let _ ← attempt (.opening p) (IO.FS.removeFile (textOf p))
  execute i := return ⟨[], [], some (.notFound i.program)⟩

end LuaToC.Main

open LuaToC in
/-- Runs the command with the arguments of the process. -/
def main (arguments : List String) : IO UInt32 := do
  match ← Command.run .plain (arguments.map Main.bytesOf) .empty with
  | .crashed => return 2
  | .finished status output errorOutput => do
    (← IO.getStdout).write ⟨output.toArray⟩
    (← IO.getStderr).write ⟨errorOutput.toArray⟩
    return status.toUInt32
