import LuaToC.Shell.Session

/-! # Small programs

What small programs have in common: options, inputs and the wording of their errors. A program
gets the name that it was called by and its arguments, and gives its status. -/
namespace LuaToC.Shell

/-- A small program. -/
abbrev Tool := Bytes → List Bytes → Act Nat

namespace Tool

/-- The options and the operands of a program. -/
structure Arguments where
  options : List (UInt8 × Bytes)
  operands : List Bytes

/-- The option is given. -/
def Arguments.has (a : Arguments) (c : Char) : Bool := a.options.any (·.1 = byte c)

/-- The value of an option, the last one if it is given more than once. -/
def Arguments.value? (a : Arguments) (c : Char) : Option Bytes :=
  a.options.reverse.lookup (byte c)

/-- What is wrong with the options. -/
inductive Misuse where
  | unknown (b : UInt8)
  | unknownLong (s : Bytes)
  | incomplete (b : UInt8)

/-- Reads the letters of an argument. The letters in `valued` take a value: the rest of the
argument, or the next one. -/
def cluster (flags valued : Bytes) : Bytes → List Bytes →
    Except Misuse (List (UInt8 × Bytes) × List Bytes)
  | [], args => .ok ([], args)
  | b :: rest, args =>
    if valued.contains b then
      if rest ≠ [] then .ok ([(b, rest)], args)
      else
        match args with
        | [] => .error (.incomplete b)
        | value :: args => .ok ([(b, value)], args)
    else if flags.contains b then do
      let (more, args) ← cluster flags valued rest args
      return ((b, []) :: more, args)
    else .error (.unknown b)

/-- Reads options, which may stand between operands; `fuel` bounds the number of arguments. -/
def arguments (flags valued : String) : Nat → List Bytes → Except Misuse Arguments
  | 0, _ => .ok ⟨[], []⟩
  | _, [] => .ok ⟨[], []⟩
  | fuel + 1, a :: rest =>
    if a = ascii "--" then .ok ⟨[], rest⟩
    else if (ascii "--").isPrefixOf a then .error (.unknownLong a)
    else if a.head? = some (byte '-') ∧ 1 < a.length then do
      let (options, rest) ← cluster (ascii flags) (ascii valued) (a.drop 1) rest
      let more ← arguments flags valued fuel rest
      return ⟨options ++ more.options, more.operands⟩
    else do
      let more ← arguments flags valued fuel rest
      return ⟨more.options, a :: more.operands⟩

/-- A text between marks. -/
def marked (s : Bytes) : Bytes := apostrophe :: s ++ [apostrophe]

/-- The wording of what is wrong with the options. -/
def Misuse.message : Misuse → Bytes
  | .unknown b => ascii "invalid option -- " ++ marked [b]
  | .unknownLong s => ascii "unrecognized option " ++ marked s
  | .incomplete b => ascii "option requires an argument -- " ++ marked [b]

/-- Reports misuse. -/
def misuse (name : Bytes) (m : Misuse) : Act Unit := do
  report (name ++ ascii ": " ++ m.message)
  report (ascii "Try " ++ marked (name ++ ascii " --help") ++ ascii " for more information.")

/-- Runs a program with its options read. -/
def withArguments (flags valued : String) (failed : Nat) (name : Bytes) (args : List Bytes)
    (body : Arguments → Act Nat) : Act Nat := do
  match arguments flags valued (args.length + 1) args with
  | .ok a => body a
  | .error m =>
    misuse name m
    return failed

/-- Reports that an operand is missing. -/
def missingOperand (name : Bytes) : Act Nat := do
  report (name ++ ascii ": missing operand")
  report (ascii "Try " ++ marked (name ++ ascii " --help") ++ ascii " for more information.")
  return 1

/-- The content of an operand; a dash is the input. -/
def content (path : Bytes) : Act (Except Cause Bytes) := do
  if path = ascii "-" then return .ok (← takeInput)
  contentOf path

/-- The contents of the operands that can be read, or the input if there is no operand, and
whether all of them could be read. `wording` reports one that could not. -/
def contents (wording : Bytes → Cause → Bytes) (paths : List Bytes) :
    Act (List (Bytes × Bytes) × Bool) := do
  if paths = [] then return ([([], ← takeInput)], true)
  let found ← paths.filterMapM fun path => do
    match ← content path with
    | .ok text => return some (path, text)
    | .error cause =>
      report (wording path cause)
      return none
  return (found, found.length = paths.length)

/-- The usual wording for an operand that cannot be read. -/
def plainWording (name path : Bytes) (cause : Cause) : Bytes :=
  name ++ ascii ": " ++ path ++ ascii ": " ++ causeText cause

/-- Reports why the output of a program could not be written, and gives the status of that. -/
def reportUnwritten (name : Bytes) (cause : Cause) : Act Nat := do
  let is (s : String) : Bool := Path.afterLastSlash name = ascii s
  let start := name ++ ascii ": "
  let reason := ascii ": " ++ causeText cause
  if is "sed" then
    report (start ++ ascii "couldn't flush stdout" ++ reason)
    return 4
  else if is "sort" then
    report (start ++ ascii "fflush failed: 'standard output'" ++ reason)
    report (start ++ ascii "write error")
    return 2
  else if is "wc" then
    report (start ++ ascii "write error")
    return 1
  else if is "tee" then
    report (start ++ ascii "'standard output'" ++ reason)
    return 1
  else
    report (start ++ ascii "write error" ++ reason)
    return if is "grep" || is "egrep" || is "fgrep" || is "ls" then 2 else 1

/-- Writes a text to a file, and says whether that was possible. The start of the report and the
way in which it shows the path are those of the program. -/
def writeFile (start shown path : Bytes) (append : Bool) (text : Bytes) : Act Bool := do
  match ← openFile path append with
  | .error cause =>
    report (start ++ shown ++ ascii ": " ++ causeText cause)
    return false
  | .ok c =>
    let before := (← get).channels
    modify (·.connect 9 c)
    let (_, cause) ← watched (emit 9 text)
    modify fun s => { s with channels := before }
    match cause with
    | none => return true
    | some cause =>
      report (start ++ shown ++ ascii ": " ++ causeText cause)
      return false

/-- The lines of a text, each with its line feed if it has one. -/
def lines (s : Bytes) : List Bytes :=
  let pieces := Bytes.splitOn Bytes.newline s
  let whole := pieces.dropLast.map (· ++ [Bytes.newline])
  match pieces.getLast? with
  | some [] | none => whole
  | some last => whole ++ [last]

/-- A line without its line feed. -/
def chomp (line : Bytes) : Bytes :=
  if line.getLast? = some Bytes.newline then line.dropLast else line

/-- The status that tells of a failure. -/
def statusOf (succeeded : Bool) : Nat := if succeeded then 0 else 1

end Tool
end LuaToC.Shell
