import LuaToC.Shell.Condition
import LuaToC.Shell.Editor
import LuaToC.Shell.FileTool
import LuaToC.Shell.Format
import LuaToC.Shell.Search
import LuaToC.Shell.TextTool

/-! # Programs

Some programs of a machine are no scripts, and what they do is told by their names; others are
scripts, whose first line names the program that reads them. -/
namespace LuaToC.Shell

/-- Prints arguments. With `escapes`, backslash escapes are replaced unless an option says
otherwise. -/
def Tool.echo (escapes options : Bool) : Tool := fun _ args => do
  let isOption (a : Bytes) : Bool :=
    if options then
      a.head? = some (byte '-') && 1 < a.length && (a.drop 1).all (ascii "neE").contains
    else a = ascii "-n"
  let given := if options then args.takeWhile isOption else (args.take 1).filter isOption
  let letters := given.flatten.filter fun b => b = byte 'e' || b = byte 'E'
  let escapes := if options && letters ≠ [] then letters.getLast? == some (byte 'e') else escapes
  let text := Bytes.join [32] (args.drop given.length)
  let (text, ended) := if escapes then Format.escaped text else (text, false)
  let withoutEnd := given.any fun a => a.contains (byte 'n')
  emit 1 (if withoutEnd || ended then text else text ++ [Bytes.newline])
  return 0

/-- A program of which only the refusal of options is told. Without options it does nothing. -/
def Tool.refusing (failed : Nat) : Tool := fun name args =>
  Tool.withArguments "" "" failed name args fun _ => return 0

/-- Waits, which takes no time here. -/
def Tool.sleep : Tool := fun name args =>
  Tool.withArguments "" "" 1 name args fun a =>
    if a.operands = [] then Tool.missingOperand name else return 0

/-- Prints arguments with a format. Arguments for which there is no directive are left out. -/
def Tool.printf : Tool := fun name args => do
  match args with
  | [] => Tool.missingOperand name
  | format :: args =>
    let p := Format.printed format args
    emit 1 p.text
    p.complaints.forM fun c => report (name ++ ascii ": " ++ c)
    let extra := if Format.takesArguments format then none else args.head?
    if let some first := extra then
      report (name ++ ascii ": warning: ignoring excess arguments, starting with " ++
        Tool.marked first)
    return if p.complaints = [] then 0 else 1

/-- Prints the name of the system. -/
def Tool.uname : Tool := fun name args =>
  Tool.withArguments "asnrvmpio" "" 1 name args fun a => do
    match a.operands with
    | [] =>
      emit 1 (ascii (if a.has 'o' then "GNU/Linux\n" else "Linux\n"))
      return 0
    | extra :: _ =>
      report (name ++ ascii ": extra operand " ++ Tool.marked extra)
      report (ascii "Try " ++ Tool.marked (name ++ ascii " --help") ++
        ascii " for more information.")
      return 1

/-- Tests a condition on files and texts. -/
def Tool.test : Tool := fun name args => do
  let m := (← get).machine
  match Condition.evaluate (fun p => (m.locate p).toOption.bind m.inode?) args with
  | .ok b => return Tool.statusOf b
  | .error _ =>
    report (name ++ ascii ": " ++ Tool.marked (args.getD 1 []) ++
      ascii ": binary operator expected")
    return 2

/-- Tests a condition in brackets. -/
def Tool.bracket : Tool := fun name args => do
  if args.getLast? = some (ascii "]") then Tool.test name args.dropLast
  else
    report (name ++ ascii ": missing " ++ Tool.marked (ascii "]"))
    return 2

/-- A program for tables of which only the refusal of options is told. -/
def Tool.awk : Tool := fun _ args => do
  match args with
  | (45 :: b :: rest) :: _ =>
    report (ascii "awk: not an option: " ++ 45 :: b :: rest)
    return 2
  | _ => return 0

/-- Prints the directory. -/
def Tool.pwd : Tool := fun name args =>
  Tool.withArguments "LP" "" 1 name args fun _ => do
    emit 1 (Machine.pathOf (← get).machine.workDir ++ [Bytes.newline])
    return 0

/-- The programs of which only the refusal of options is told, with the status of that. -/
def refusingTools : List (String × Tool) :=
  ["arch", "b2sum", "base32", "basenc", "chgrp", "chown", "cksum", "comm", "csplit", "date", "df",
   "dircolors", "du", "expand", "factor", "fmt", "fold", "groups", "hostid", "id", "link", "ln",
   "logname", "md5sum", "mkfifo", "mknod", "mktemp", "nproc", "numfmt", "paste", "pathchk",
   "pinky", "readlink", "realpath", "sha224sum", "sha384sum", "sha512sum", "shred", "split",
   "stat", "sum", "sync", "tsort", "unexpand", "unlink", "users", "who", "whoami",
   "yes"].map (·, Tool.refusing 1) ++
  ["nice", "nohup", "timeout"].map (·, Tool.refusing 125) ++
  ["printenv", "tty"].map (·, Tool.refusing 2)

/-- The tools by name. -/
def tools : List (String × Tool) :=
  [("cat", Tool.cat), ("head", Tool.head), ("tail", Tool.tail), ("wc", Tool.wc), ("tr", Tool.tr),
   ("cut", Tool.cut), ("sort", Tool.sort), ("uniq", Tool.uniq), ("tee", Tool.tee),
   ("seq", Tool.seq), ("base64", Tool.base64), ("sha1sum", Tool.digest Digest.Sha1.digest),
   ("tac", Tool.tac), ("rev", Tool.rev), ("nl", Tool.nl), ("od", Tool.od), ("expr", Tool.expr),
   ("sha256sum", Tool.digest Digest.Sha256.digest), ("grep", Tool.grep false false),
   ("egrep", Tool.grep false true), ("fgrep", Tool.grep true false), ("sed", Tool.sed),
   ("cp", Tool.transfer false), ("mv", Tool.transfer true), ("rm", Tool.rm),
   ("mkdir", Tool.mkdir), ("rmdir", Tool.rmdir), ("touch", Tool.touch), ("chmod", Tool.chmod),
   ("ls", Tool.ls), ("basename", Tool.basename), ("dirname", Tool.dirname), ("dd", Tool.dd),
   ("cmp", Tool.cmp), ("diff", Tool.diff),
   ("awk", Tool.awk), ("mawk", Tool.awk), ("echo", Tool.echo false true), ("sleep", Tool.sleep),
   ("printf", Tool.printf), ("uname", Tool.uname), ("test", Tool.test), ("[", Tool.bracket),
   ("pwd", Tool.pwd), ("true", fun _ _ => return 0), ("false", fun _ _ => return 1)] ++
  refusingTools

/-- A program that is no script. -/
inductive Program where
  | tool (t : Tool)
  | shell (extended : Bool)
  | environment

/-- The programs that are no scripts, by name. -/
def programs : List (String × Program) :=
  [("sh", .shell false), ("dash", .shell false), ("bash", .shell true), ("env", .environment)] ++
    tools.map fun (s, t) => (s, .tool t)

/-- The directories of programs, in the order in which they are searched. -/
def programDirs : List Location := [[ascii "usr", ascii "bin"], [ascii "bin"]]

/-- The content of a file that is a program but no script. -/
def programText : Bytes := 127 :: ascii "ELF"

/-- The program that is no script at a place. -/
def programAt? (l : Location) (content : Bytes) : Option Program :=
  if content = programText ∧ programDirs.contains l.dropLast then
    (programs.find? fun (s, _) => some (ascii s) = l.getLast?).map (·.2)
  else none

/-- The directories that a machine has from the start. -/
def standardDirs : List Location :=
  ["bin", "dev", "etc", "home", "root", "tmp", "usr", "var"].map (fun s => [ascii s]) ++
    [[ascii "usr", ascii "bin"], [ascii "usr", ascii "lib"], [ascii "var", ascii "tmp"]]

/-- The devices of a machine. -/
def devices : List (Location × Inode) :=
  [("null", .null), ("zero", .zero), ("full", .full), ("random", .zero), ("urandom", .zero),
   ("tty", .terminal)].map fun ((s, d) : String × Device) => ([ascii "dev", ascii s], .device d)

/-- The files that a machine has from the start. -/
def standardFiles : List (Location × Inode) :=
  [("passwd", "root:x:0:0:root:/root:/bin/bash\n"), ("group", "root:x:0:\n"),
   ("hosts", "127.0.0.1\tlocalhost\n"), ("hostname", "localhost\n")].map
    fun (s, text) => ([ascii "etc", ascii s], .file (ascii text) false)

/-- A machine with a few files and devices, and the programs that are no scripts. -/
def standardMachine (workDir : Location) : Machine :=
  let files : List (Location × Inode) := programDirs.flatMap fun dir =>
    programs.map fun (s, _) => (dir ++ [ascii s], .file programText true)
  { inodes := standardDirs.map (·, .directory) ++ devices ++ standardFiles ++ files
    workDir := workDir }

/-- There is a program at the path. -/
def isProgram (m : Machine) (p : Bytes) : Bool :=
  match (m.locate p).toOption.bind m.inode? with
  | some (.file _ executable) => executable
  | _ => false

/-- The path of a program; one without a slash is looked for. -/
def programPath? (m : Machine) (name : Bytes) : Option Bytes :=
  if name.contains Path.slash then some name
  else if name = [] then none
  else (programDirs.map fun dir => Machine.pathOf (dir ++ [name])).find? (isProgram m)

/-- A byte that separates the parts of a first line. -/
def isGap (b : UInt8) : Bool := b = 32 || b = 9

/-- What the first line of a program says: the path of an interpreter, and the rest of the
line as one option for it. -/
def interpreter? (s : Bytes) : Option (Bytes × Bytes) := do
  let rest ← Bytes.stripPrefix? (ascii "#!") s
  let line := (rest.takeWhile (· ≠ Bytes.newline)).dropWhile isGap
  let line := (line.reverse.dropWhile isGap).reverse
  let path := line.takeWhile (!isGap ·)
  if path = [] then none else some (path, (line.drop path.length).dropWhile isGap)

/-- A program that is ready to run: the name that it is called by, and its arguments. -/
structure Ready where
  program : Program
  name : Bytes
  arguments : List Bytes

/-- Finds the program that runs what is at a path. An interpreter gets its option and the path
in front of the arguments; `depth` bounds how many interpreters there are. -/
def ready (m : Machine) : Nat → Bytes → Bytes → List Bytes → Except Cause Ready
  | 0, _, _, _ => .error (.other (ascii "too many levels of symbolic links"))
  | depth + 1, path, name, arguments => do
    let l ← m.locate path
    match m.inode? l with
    | some (.file text true) =>
      match programAt? l text with
      | some p => return ⟨p, name, arguments⟩
      | none =>
        match interpreter? text with
        | none => throw .notExecutable
        | some (interpreter, option) =>
          let options := if option = [] then [] else [option]
          ready m depth interpreter interpreter (options ++ path :: arguments)
    | _ => throw .denied

/-- How many programs may stand behind each other's first lines. -/
def maxDepth : Nat := 5

end LuaToC.Shell
