import LuaToC.Shell.Condition
import LuaToC.Shell.Program

/-! # Commands of the shell

The commands of the shell itself that need no other command. -/
namespace LuaToC.Shell

/-- A command of the shell, which gives its status. -/
abbrev Builtin := List Bytes → Act Nat

namespace Builtin

/-- Prints arguments. -/
def echo : Builtin := fun args => do
  let isExtended := (← get).extended
  Tool.echo (!isExtended) isExtended (ascii "echo") args

/-- Prints arguments with a format. -/
def printf : Builtin := fun args => do
  match args with
  | [] =>
    complain (ascii "printf: usage: printf format [arg ...]")
    return 2
  | format :: args =>
    let (format, args) :=
      if format = ascii "--" then (args.headD [], args.drop 1) else (format, args)
    let p := Format.printed format args
    emit 1 p.text
    p.complaints.forM fun c => complain (ascii "printf: " ++ c)
    return if p.complaints = [] then 0 else if p.ended then 2 else 1

/-- Tests a condition. -/
def test (name : String) : Builtin := fun args => do
  let s ← get
  let m := s.machine
  let args := if s.extended then args.map fun a => if a = ascii "==" then ascii "=" else a
    else args
  match Condition.evaluate (fun p => (m.locate p).toOption.bind m.inode?) args with
  | .ok b => return if b then 0 else 1
  | .error message =>
    complain (ascii name ++ ascii ": " ++ message)
    return 2

/-- Tests a condition in brackets. -/
def bracket : Builtin := fun args => do
  if args.getLast? = some (ascii "]") then test "[" args.dropLast
  else
    complain (ascii "[: missing ]")
    return 2

/-- The number that an argument writes; a command ends the script otherwise. -/
def number (name : String) (s : Bytes) : Act Nat := do
  if s ≠ [] ∧ s.all isDecimal then return decimal s
  refuse (ascii name ++ ascii ": Illegal number: " ++ s)

/-- Ends the script. -/
def exit : Builtin := fun args => do
  match args with
  | [] => throw (.finished (← get).status)
  | s :: _ => throw (.finished ((← number "exit" s) % 256))

/-- Ends a function, or the script. -/
def leaveFunction : Builtin := fun args => do
  match args with
  | [] => throw (.returned (← get).status)
  | s :: _ => throw (.returned ((← number "return" s) % 256))

/-- Leaves loops, or begins the next round of one. -/
def leave (name : String) (stop : Nat → Stop) : Builtin := fun args => do
  let n ← match args with
    | [] => pure 1
    | s :: _ => number name s
  let loops := (← get).loops
  if loops = 0 then return 0
  throw (stop (min n loops))

/-- The signals by name. -/
def signals : List (String × Nat) :=
  [("EXIT", 0), ("HUP", 1), ("INT", 2), ("QUIT", 3), ("ILL", 4), ("TRAP", 5), ("ABRT", 6),
   ("BUS", 7), ("FPE", 8), ("KILL", 9), ("USR1", 10), ("SEGV", 11), ("USR2", 12), ("PIPE", 13),
   ("ALRM", 14), ("TERM", 15), ("CHLD", 17), ("CONT", 18), ("STOP", 19), ("XCPU", 24),
   ("XFSZ", 25), ("SYS", 31)]

/-- The signal that a text names. -/
def signal? (s : Bytes) : Option Nat :=
  if s ≠ [] ∧ s.all isDecimal then some (decimal s)
  else
    let s := (Bytes.stripPrefix? (ascii "SIG") s).getD s
    (signals.find? fun (name, _) => ascii name = s).map (·.2)

/-- Sends a signal. -/
def kill : Builtin := fun args => do
  let (name, targets) := match args with
    | a :: rest =>
      if a = ascii "-s" ∨ a = ascii "-n" then (rest.headD [], rest.drop 1)
      else if a = ascii "--" then (ascii "TERM", rest)
      else if a.head? = some (byte '-') ∧ 1 < a.length then (a.drop 1, rest)
      else (ascii "TERM", args)
    | [] => ([], [])
  let targets := if targets.head? = some (ascii "--") then targets.drop 1 else targets
  match signal? name, targets with
  | some signal, target :: _ =>
    let own := (← get).number
    if target.all isDecimal ∧ decimal target ≤ own ∧ firstNumber ≤ decimal target then
      if signal = 0 ∨ signal = 17 ∨ signal = 18 then return 0
      if decimal target = own ∧ signal ≠ 9 ∧ ((← get).traps.lookup signal).isSome then
        modify fun s => { s with pending := s.pending ++ [signal] }
        return 0
      throw (.signalled (decimal target) signal)
    else
      complain (ascii "kill: No such process\n")
      return 1
  | none, _ :: _ =>
    complain (ascii "kill: Illegal option -" ++ name.take 1)
    return 2
  | _, [] =>
    complain (ascii "kill: Usage: kill [-s sigspec | -signum | -sigspec] [pid | job]... or")
    report (ascii "kill -l [exitstatus]")
    return 2

/-- Sets options, or the arguments. -/
def setOptions : Builtin := fun args => do
  let apply (on : Bool) (b : UInt8) : Act Unit := do
    if b = byte 'e' then modify fun s => { s with failFast := on }
    else if b = byte 'u' then modify fun s => { s with unsetFails := on }
    else if b = byte 'x' then modify fun s => { s with traced := on }
    else if b = byte 'f' then modify fun s => { s with withoutPatterns := on }
    else if (ascii "abCEIimnVvhH").contains b then pure ()
    else refuse (ascii "set: Illegal option -" ++ [b])
  let long : List (String × Char) :=
    [("errexit", 'e'), ("nounset", 'u'), ("xtrace", 'x'), ("noglob", 'f'), ("noclobber", 'C'),
     ("allexport", 'a'), ("verbose", 'v'), ("monitor", 'm')]
  go apply long (args.length + 1) args
  return 0
where
  /-- Goes through the arguments; `fuel` bounds their number. -/
  go (apply : Bool → UInt8 → Act Unit) (long : List (String × Char)) : Nat → List Bytes → Act Unit
    | 0, _ => pure ()
    | _, [] => pure ()
    | fuel + 1, a :: rest => do
      let isOption := 1 < a.length ∧ (a.head? = some (byte '-') ∨ a.head? = some (byte '+'))
      if a = ascii "--" then modify fun s => { s with arguments := rest }
      else if a = ascii "-o" ∨ a = ascii "+o" then
        let name := rest.headD []
        match long.find? fun (s, _) => ascii s = name with
        | some (_, c) => apply (a = ascii "-o") (byte c)
        | none =>
          if (← get).extended ∧ name = ascii "pipefail" then
            modify fun s => { s with pipesFail := a = ascii "-o" }
          else refuse (ascii "set: Illegal option -o " ++ name)
        go apply long fuel (rest.drop 1)
      else if isOption then
        let letters := (a.drop 1).filter (· ≠ byte 'o')
        letters.forM (apply (a.head? = some (byte '-')))
        if letters.length < a.length - 1 then go apply long fuel (ascii "-o" :: rest)
        else go apply long fuel rest
      else modify fun s => { s with arguments := a :: rest }

/-- Drops arguments of the script. -/
def shift : Builtin := fun args => do
  let n ← match args with
    | [] => pure 1
    | s :: _ => number "shift" s
  if (← get).arguments.length < n then refuse (ascii "shift: can't shift that many")
  modify fun s => { s with arguments := s.arguments.drop n }
  return 0

/-- Goes to another directory. -/
def cd : Builtin := fun args => do
  let s ← get
  let args := if args.head? = some (ascii "--") then args.drop 1 else args
  let path := (args.head?.or (s.value? (ascii "HOME"))).getD []
  match s.machine.locate path with
  | .ok l =>
    if s.machine.inode? l = some .directory then
      let s := { s with machine := { s.machine with workDir := l } }
      set (s.assign (ascii "PWD") (Machine.pathOf l))
      return 0
  | .error _ => pure ()
  if s.extended then
    complain (ascii "cd: " ++ path ++ ascii ": No such file or directory")
    return 1
  complain (ascii "cd: can't cd to " ++ path)
  return 2

/-- Prints the directory. -/
def pwd : Builtin := fun _ => do
  emit 1 (Machine.pathOf (← get).machine.workDir ++ [Bytes.newline])
  return 0

/-- Takes the backslashes out of a line that is read. -/
def withoutBackslashes : Bytes → Bytes
  | 92 :: b :: rest => b :: withoutBackslashes rest
  | b :: rest => b :: withoutBackslashes rest
  | [] => []

/-- Reads a line into variables, of which the last gets all that is left. -/
def readLine : Builtin := fun args => do
  let raw := args.contains (ascii "-r")
  let names := args.filter fun a => a.head? ≠ some (byte '-')
  let (line, isComplete) ← takeLine
  let line := if raw then line else withoutBackslashes line
  let s ← get
  let isSeparator (b : UInt8) : Bool := s.separators.contains b
  let isBlank (b : UInt8) : Bool := isSeparator b && (b = 32 || b = 9 || b = 10)
  let trim (t : Bytes) : Bytes := ((t.dropWhile isBlank).reverse.dropWhile isBlank).reverse
  share isSeparator trim names (trim line)
  return if isComplete then 0 else 1
where
  /-- Gives fields to variables. -/
  share (isSeparator : UInt8 → Bool) (trim : Bytes → Bytes) : List Bytes → Bytes → Act Unit
    | [], _ => pure ()
    | [name], text => modify (·.assign name text)
    | name :: names, text => do
      let field := text.takeWhile (!isSeparator ·)
      modify (·.assign name field)
      share isSeparator trim names (trim (text.drop (field.length + 1)))

/-- Cuts a text at the first equals sign. -/
def setting (s : Bytes) : Bytes × Option Bytes :=
  let name := s.takeWhile (· ≠ byte '=')
  if name.length < s.length then (name, some (s.drop (name.length + 1))) else (s, none)

/-- Sets variables that are handed to other programs. -/
def exportNames (name : String) : Builtin := fun args => do
  args.forM fun a => do
    let (key, value) := setting a
    if a.head? = some (byte '-') then pure ()
    else if ¬ isName key then
      refuse (ascii name ++ ascii ": " ++ key ++ ascii ": bad variable name")
    else
      if let some v := value then modify (·.assign key v)
      modify fun s => { s with exported := key :: s.exported }
  return 0

/-- Sets variables of a function. -/
def setLocal : Builtin := fun args => do
  args.forM fun a => do
    let s ← get
    let (name, value) := setting a
    match s.locals with
    | none => refuse (ascii "local: not in a function")
    | some locals => set { s with locals := some ((name, s.values.lookup name) :: locals) }
    if let some v := value then modify (·.assign name v)
  return 0

/-- Takes variables or functions away. -/
def unset : Builtin := fun args => do
  let functions := args.contains (ascii "-f")
  args.forM fun a =>
    if functions then modify fun s => { s with functions := s.functions.filter (·.1 ≠ a) }
    else modify fun s => { s with values := s.values.filter (·.1 ≠ a) }
  return 0

/-- Says what is run when a signal comes, or at the end of the script. -/
def trap : Builtin := fun args => do
  let args := if args.head? = some (ascii "--") then args.drop 1 else args
  match args with
  | action :: names =>
    (names.filterMap signal?).forM fun n => do
      let others := (← get).traps.filter fun t => t.1 ≠ n
      modify fun s =>
        { s with traps := if action = ascii "-" then others else (n, action) :: others }
  | [] => pure ()
  return 0

/-- Waits for a command in the background, which has been run already. -/
def wait : Builtin := fun args => do
  if args = [] then return 0
  return (← get).job - 1

/-- Reads the options of the script one by one. -/
def getopts : Builtin := fun args => do
  match args with
  | letters :: key :: rest =>
    let s ← get
    let given := if rest = [] then s.arguments else rest
    let index := ((s.value? (ascii "OPTIND")).map decimal).getD 1
    let offset := ((s.value? (ascii "OPTOFF")).map decimal).getD 1
    let finish (index offset : Nat) (letter : Bytes) (value : Option Bytes) (status : Nat) :
        Act Nat := do
      modify (·.assign (ascii "OPTIND") (Bytes.ofNat index))
      modify (·.assign (ascii "OPTOFF") (Bytes.ofNat offset))
      modify (·.assign key letter)
      modify fun s => { s with values := s.values.filter (·.1 ≠ ascii "OPTARG") }
      if let some v := value then modify (·.assign (ascii "OPTARG") v)
      return status
    let word := given.getD (index - 1) []
    if word.head? ≠ some (byte '-') ∨ word.length < 2 then finish index 1 (ascii "?") none 1
    else if word = ascii "--" then finish (index + 1) 1 (ascii "?") none 1
    else
      let letter := word.getD offset 0
      let isLast := word.length ≤ offset + 1
      let (next, nextOffset) := if isLast then (index + 1, 1) else (index, offset + 1)
      let quiet := letters.head? = some (byte ':')
      match letters.findIdx? (· = letter) with
      | none =>
        unless quiet do report (ascii "Illegal option -" ++ [letter])
        finish next nextOffset (ascii "?") (if quiet then some [letter] else none) 0
      | some i =>
        if letters[i + 1]? ≠ some (byte ':') then finish next nextOffset [letter] none 0
        else if ¬ isLast then finish (index + 1) 1 [letter] (some (word.drop (offset + 1))) 0
        else
          match given[index]? with
          | some v => finish (index + 2) 1 [letter] (some v) 0
          | none =>
            unless quiet do report (ascii "No arg for -" ++ [letter] ++ ascii " option")
            finish (index + 1) 1 (ascii (if quiet then ":" else "?"))
              (if quiet then some [letter] else none) 0
  | _ =>
    complain (ascii "getopts: Usage: getopts optstring var [arg]")
    return 2

/-- The commands that need no other command, by name. -/
def table : List (String × Builtin) :=
  [("echo", echo), ("printf", printf), ("test", test "test"), ("[", bracket), ("exit", exit),
   ("return", leaveFunction), ("break", leave "break" .broken),
   ("continue", leave "continue" .continued), ("kill", kill), ("set", setOptions),
   ("shift", shift), ("cd", cd), ("pwd", pwd), ("read", readLine),
   ("export", exportNames "export"), ("readonly", exportNames "readonly"), ("local", setLocal),
   ("unset", unset), ("trap", trap), ("getopts", getopts), (":", fun _ => return 0),
   ("true", fun _ => return 0), ("false", fun _ => return 1), ("wait", wait),
   ("umask", fun _ => return 0), ("ulimit", fun _ => return 0), ("hash", fun _ => return 0),
   ("alias", fun _ => return 0), ("jobs", fun _ => return 0)]

/-- The commands whose misuse ends the script. -/
def special : List Bytes :=
  [":", ".", "break", "continue", "eval", "exec", "exit", "export", "readonly", "return", "set",
   "shift", "times", "trap", "unset"].map ascii

/-- The commands that run others. -/
def running : List Bytes := ["eval", ".", "exec", "command", "type"].map ascii

/-- Tests a condition in double brackets. -/
def doubleBracket : Builtin := fun args => do
  if args.getLast? = some (ascii "]]") then test "[[" args.dropLast
  else
    complain (ascii "[[: missing ]]")
    return 2

/-- The command of the shell with a name. -/
def find? (extended : Bool) (name : Bytes) : Option Builtin :=
  if extended ∧ name = ascii "[[" then some doubleBracket
  else (table.find? fun (s, _) => ascii s = name).map (·.2)

end Builtin
end LuaToC.Shell
