import LuaToC.Path
import LuaToC.Text.Quoted

/-! # Hosts

What is needed of the system that the command runs on: files that can be read, written and
renamed, and other programs that can be run. The operations are a class over a monad, so that the
command can run on a real system and also on a `Machine`, whose state is a value. -/
namespace LuaToC

/-- Why the system refuses an operation. -/
inductive Cause where
  | missing
  | notDirectory
  | isDirectory
  | present
  | denied
  | nameTooLong
  | invalid
  | notExecutable
  | noSpace
  | noDevice
  | other (text : Bytes)
  deriving DecidableEq

/-- The wording of a cause. -/
def Cause.message : Cause → Bytes
  | .missing => ascii "no such file or directory"
  | .notDirectory => ascii "not a directory"
  | .isDirectory => ascii "is a directory"
  | .present => ascii "file exists"
  | .denied => ascii "permission denied"
  | .nameTooLong => ascii "file name too long"
  | .invalid => ascii "invalid argument"
  | .notExecutable => ascii "exec format error"
  | .noSpace => ascii "no space left on device"
  | .noDevice => ascii "no such device or address"
  | .other text => text

/-- An operation on files that the system refused. -/
inductive FileError where
  | opening (path : Bytes) (cause : Cause)
  | reading (path : Bytes) (cause : Cause)
  | writing (path : Bytes) (cause : Cause)
  | permitting (path : Bytes) (cause : Cause)
  | closing (path : Bytes) (cause : Cause)
  | renaming (source target : Bytes) (cause : Cause)
  deriving DecidableEq

/-- The wording of a refused operation. -/
def FileError.message (e : FileError) : Bytes :=
  match e with
  | .opening path cause => ascii "open " ++ path ++ ascii ": " ++ cause.message
  | .reading path cause => ascii "read " ++ path ++ ascii ": " ++ cause.message
  | .writing path cause => ascii "write " ++ path ++ ascii ": " ++ cause.message
  | .permitting path cause => ascii "chmod " ++ path ++ ascii ": " ++ cause.message
  | .closing path cause => ascii "close " ++ path ++ ascii ": " ++ cause.message
  | .renaming source target cause =>
    ascii "rename " ++ source ++ ascii " " ++ target ++ ascii ": " ++ cause.message

/-- A program to run, with its arguments. A cancelled run looks for the program but does not
start it. -/
structure Invocation where
  program : Bytes
  arguments : List Bytes
  cancelled : Bool

/-- How a program did not succeed. -/
inductive ExecutionError where
  | notFound (name : Bytes)
  | notUsable (name : Bytes) (cause : Cause)
  | cancelled
  | notStarted (path : Bytes) (cause : Cause)
  | exited (status : Nat)
  | signalled (signal : Nat)
  deriving DecidableEq

/-- The names of the signals that end a program. -/
def signalNames : List (Nat × String) :=
  [(1, "hangup"), (2, "interrupt"), (3, "quit"), (4, "illegal instruction"),
   (5, "trace/breakpoint trap"), (6, "aborted"), (7, "bus error"),
   (8, "floating point exception"), (9, "killed"), (10, "user defined signal 1"),
   (11, "segmentation fault"), (12, "user defined signal 2"), (13, "broken pipe"),
   (14, "alarm clock"), (15, "terminated")]

/-- The wording of a failed run. -/
def ExecutionError.message : ExecutionError → Bytes
  | .notFound name =>
    ascii "exec: " ++ Text.quoted name ++ ascii ": executable file not found in $PATH"
  | .notUsable name cause =>
    ascii "exec: " ++ Text.quoted name ++ ascii ": " ++ cause.message
  | .cancelled => ascii "context canceled"
  | .notStarted path cause => ascii "fork/exec " ++ path ++ ascii ": " ++ cause.message
  | .exited status => ascii "exit status " ++ Bytes.ofNat status
  | .signalled signal =>
    ascii "signal: " ++
      match signalNames.lookup signal with
      | some name => ascii name
      | none => ascii "signal " ++ Bytes.ofNat signal

/-- What a run of a program left: both outputs, and why it failed if it did. -/
structure Execution where
  output : Bytes
  errorOutput : Bytes
  failure : Option ExecutionError

/-- A system to run on. -/
class Host (m : Type → Type) where
  /-- The absolute path of the working directory. -/
  workDir : m Bytes
  /-- The content of a file. -/
  read : Bytes → m (Except FileError Bytes)
  /-- There is a file or directory at the path. -/
  isPresent : Bytes → m Bool
  /-- Makes a new file for a unit in the making, in a directory, opens it and gives its path. -/
  createTemporary : Bytes → m (Except FileError Bytes)
  /-- Opens a file to write it anew, and makes one if there is none. -/
  create : Bytes → m (Except FileError Unit)
  /-- Adds a text to an open file. -/
  write : Bytes → Bytes → m (Except FileError Unit)
  /-- Lets everybody read an open file. -/
  permit : Bytes → m (Except FileError Unit)
  /-- Closes an open file. -/
  close : Bytes → m (Except FileError Unit)
  /-- Gives a file a new path, in place of another file there. -/
  rename : Bytes → Bytes → m (Except FileError Unit)
  /-- Removes a file if it is there. -/
  remove : Bytes → m Unit
  /-- Runs a program. -/
  execute : Invocation → m Execution

namespace Host

section

variable {m : Type → Type} [Monad m] [Host m]

/-- Does something with an open file and closes it in any case. The first failure counts. -/
def closing {ε α : Type} (path : Bytes) (failed : FileError → ε) (x : m (Except ε α)) :
    m (Except ε α) := do
  let result ← x
  let closed ← close path
  match result, closed with
  | .error e, _ => return .error e
  | .ok _, .error e => return .error (failed e)
  | .ok a, .ok () => return .ok a

/-- Gives a file a content. -/
def writeFile (path text : Bytes) : m (Except FileError Unit) := do
  match ← create path with
  | .error e => return .error e
  | .ok () => closing path id (write path text)

end

/-- The name of a temporary file, by number. -/
def temporaryName (n : Nat) : Bytes := ascii ".luaot-" ++ Bytes.ofNat n ++ ascii ".c"

/-- The path of a temporary file in a directory. -/
def temporaryPath (dir : Bytes) (n : Nat) : Bytes :=
  (if Path.endsWithSlash dir then dir else dir ++ [Path.slash]) ++ temporaryName n

end Host
end LuaToC
