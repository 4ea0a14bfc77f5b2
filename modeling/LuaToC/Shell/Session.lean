import LuaToC.Host.Machine
import LuaToC.Shell.Grammar

/-! # Sessions

A session is the state of a running script: the machine, the streams that are open, variables and
functions. Programs run one after the other. What a program writes to a pipe is kept in a stream
until the next program reads it. -/
namespace LuaToC.Shell

/-- What a descriptor is connected with. -/
inductive Channel where
  | stream (n : Nat)
  | file (l : Location)
  | nowhere
  | full
  deriving DecidableEq

/-- Why commands are not run one after the other: the script ends, the process with a number is
ended by a signal, loops are left or begun anew, or a function ends. -/
inductive Stop where
  | finished (status : Nat)
  | signalled (number signal : Nat)
  | broken (levels : Nat)
  | continued (levels : Nat)
  | returned (status : Nat)
  | exhausted
  deriving DecidableEq

/-- The state of a running script. Inside a function, the variables of the function are listed
with the values that they had before. A trap is a script for a signal, or for the end of the
script, whose number is zero; signals wait until the command that is being run is over. The
status of the last command in the background is that of the job. When something could not be
written, the cause is kept until the command that wrote it is over. -/
structure Session where
  machine : Machine
  streams : Array Bytes
  channels : List (Nat × Channel)
  name : Bytes
  arguments : List Bytes
  values : List (Bytes × Bytes)
  exported : List Bytes
  functions : List (Bytes × Command)
  status : Nat
  line : Nat
  number : Nat
  loops : Nat
  locals : Option (List (Bytes × Option Bytes))
  context : Bytes
  traps : List (Nat × Bytes)
  pending : List Nat
  blocked : Option Cause
  job : Nat
  failFast : Bool
  unsetFails : Bool
  traced : Bool
  withoutPatterns : Bool
  pipesFail : Bool
  extended : Bool

/-- The number of the first process. -/
def firstNumber : Nat := 4242

/-- A step of a script. -/
abbrev Act := ExceptT Stop (StateM Session)

/-- The wording of a cause in the messages of programs. -/
def causeText : Cause → Bytes
  | .missing => ascii "No such file or directory"
  | .notDirectory => ascii "Not a directory"
  | .isDirectory => ascii "Is a directory"
  | .present => ascii "File exists"
  | .denied => ascii "Permission denied"
  | .nameTooLong => ascii "File name too long"
  | .invalid => ascii "Invalid argument"
  | .notExecutable => ascii "Exec format error"
  | .noSpace => ascii "No space left on device"
  | .noDevice => ascii "No such device or address"
  | .other text => text

/-- The number of the process in the background. -/
def jobNumber : Nat := 9000

namespace Session

/-- What a descriptor is connected with. -/
def channel? (s : Session) (descriptor : Nat) : Option Channel := s.channels.lookup descriptor

/-- Connects a descriptor. -/
def connect (s : Session) (descriptor : Nat) (c : Channel) : Session :=
  { s with channels := (descriptor, c) :: s.channels.filter (·.1 ≠ descriptor) }

/-- Closes a descriptor. -/
def close (s : Session) (descriptor : Nat) : Session :=
  { s with channels := s.channels.filter (·.1 ≠ descriptor) }

/-- Opens a stream with a text in it. -/
def openStream (s : Session) (text : Bytes) : Nat × Session :=
  (s.streams.size, { s with streams := s.streams.push text })

/-- The text in a stream. -/
def textOf (s : Session) (n : Nat) : Bytes := s.streams.getD n []

/-- Replaces the text in a stream. -/
def setText (s : Session) (n : Nat) (text : Bytes) : Session :=
  { s with streams := s.streams.setIfInBounds n text }

/-- Sets a variable. -/
def assign (s : Session) (name value : Bytes) : Session :=
  { s with values := (name, value) :: s.values.filter (·.1 ≠ name) }

/-- Gives a variable the value that it had, or none. -/
def restore (s : Session) (name : Bytes) (value : Option Bytes) : Session :=
  { s with
    values := (value.map fun v => (name, v)).toList ++ s.values.filter (·.1 ≠ name) }

/-- The options that are set. -/
def flags (s : Session) : Bytes :=
  (if s.failFast then ascii "e" else []) ++ (if s.withoutPatterns then ascii "f" else []) ++
    (if s.unsetFails then ascii "u" else []) ++ (if s.traced then ascii "x" else [])

/-- The value of a parameter that is set. -/
def value? (s : Session) (name : Bytes) : Option Bytes :=
  let is (t : String) : Bool := name = ascii t
  if is "?" then some (Bytes.ofNat s.status)
  else if is "#" then some (Bytes.ofNat s.arguments.length)
  else if is "$" then some (Bytes.ofNat s.number)
  else if is "!" then if s.job = 0 then none else some (Bytes.ofNat jobNumber)
  else if is "-" then some s.flags
  else if is "0" then some s.name
  else if is "@" ∨ is "*" then if s.arguments = [] then none else some (Bytes.join [32] s.arguments)
  else if name.all isDecimal ∧ name ≠ [] then s.arguments[decimal name - 1]?
  else s.values.lookup name

/-- The bytes that separate fields. -/
def separators (s : Session) : Bytes := (s.values.lookup (ascii "IFS")).getD (ascii " \t\n")

end Session

/-- Writes to a descriptor. -/
def emit (descriptor : Nat) (text : Bytes) : Act Unit :=
  modify fun s =>
    match s.channel? descriptor with
    | some (.stream n) => s.setText n (s.textOf n ++ text)
    | some (.file l) =>
      match s.machine.inode? l with
      | some (.file old executable) =>
        { s with machine := s.machine.put l (.file (old ++ text) executable) }
      | _ => s
    | some .nowhere => s
    | some .full => if text = [] then s else { s with blocked := some .noSpace }
    | none =>
      if text = [] then s
      else { s with blocked := some (.other (ascii "Bad file descriptor")) }

/-- Runs a step, and gives with its result the cause why something that it wrote could not be
written, if there is one. -/
def watched {α : Type} (act : Act α) : Act (α × Option Cause) := do
  let before := (← get).blocked
  modify fun s => { s with blocked := none }
  let result ← act
  let cause := (← get).blocked
  modify fun s => { s with blocked := before }
  return (result, cause)

/-- Writes a line to the errors. Nobody is told if that is not possible. -/
def report (text : Bytes) : Act Unit := discard (watched (emit 2 (text ++ [Bytes.newline])))

/-- Reports what is wrong with the command that is being run. -/
def complain (message : Bytes) : Act Unit := do
  let s ← get
  let place := if s.extended then ascii ": line " else ascii ": "
  report (s.name ++ place ++ Bytes.ofNat s.line ++ ascii ": " ++ message)

/-- Ends the script after a report. -/
def refuse {α : Type} (message : Bytes) : Act α := do
  complain message
  throw (.finished (if (← get).extended then 1 else 2))

/-- Takes all that is left of the input. -/
def takeInput : Act Bytes := do
  let s ← get
  match s.channel? 0 with
  | some (.stream n) =>
    set (s.setText n [])
    return s.textOf n
  | _ => return []

/-- Takes a line of the input, without its line feed, and says whether that was there. -/
def takeLine : Act (Bytes × Bool) := do
  let s ← get
  match s.channel? 0 with
  | some (.stream n) =>
    let line := (s.textOf n).takeWhile (· ≠ Bytes.newline)
    set (s.setText n ((s.textOf n).drop (line.length + 1)))
    return (line, line.length < (s.textOf n).length)
  | _ => return ([], false)

/-- The descriptor that a path stands for. -/
def deviceOf? (path : Bytes) : Option Nat :=
  let table : List (String × Nat) :=
    [("/dev/stdin", 0), ("/dev/stdout", 1), ("/dev/stderr", 2), ("/dev/fd/0", 0),
     ("/dev/fd/1", 1), ("/dev/fd/2", 2), ("/proc/self/fd/0", 0), ("/proc/self/fd/1", 1),
     ("/proc/self/fd/2", 2)]
  (table.find? fun (s, _) => ascii s = path).map (·.2)

/-- The content of what a path names. -/
def contentOf (path : Bytes) : Act (Except Cause Bytes) := do
  if deviceOf? path = some 0 then return .ok (← takeInput)
  else return (← get).machine.content path

/-- Opens a path for writing. An old content is kept only if the new one is put after it. -/
def openFile (path : Bytes) (append : Bool) : Act (Except Cause Channel) := do
  let s ← get
  match deviceOf? path with
  | some d => return .ok ((s.channel? d).getD .nowhere)
  | none =>
    match s.machine.locateNew path with
    | .error cause => return .error cause
    | .ok l =>
      match s.machine.inode? l with
      | some .directory => return .error .isDirectory
      | some (.device .terminal) => return .error .noDevice
      | some (.device .full) => return .ok .full
      | some (.device _) => return .ok .nowhere
      | some (.file old executable) =>
        let content := if append then old else []
        set { s with machine := s.machine.put l (.file content executable) }
        return .ok (.file l)
      | none =>
        set { s with machine := s.machine.put l (.file [] false) }
        return .ok (.file l)

end LuaToC.Shell
