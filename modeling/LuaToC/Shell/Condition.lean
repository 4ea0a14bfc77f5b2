import LuaToC.Shell.Session

/-! # Conditions

The conditions that scripts test: of files, of texts and of numbers. -/
namespace LuaToC.Shell.Condition

/-- A step that reads the arguments of a test, given what is at each path. A refusal says what
is wrong. -/
abbrev Reader := ReaderT (Bytes → Option Inode) (StateT (List Bytes) (Except Bytes))

/-- The tests of one argument. -/
def unary : List Bytes :=
  ["-b", "-c", "-d", "-e", "-f", "-g", "-h", "-k", "-L", "-n", "-O", "-G", "-p", "-r", "-s", "-S",
   "-t", "-u", "-w", "-x", "-z"].map ascii

/-- The tests of two arguments. -/
def binary : List Bytes :=
  ["=", "!=", "<", ">", "-eq", "-ne", "-lt", "-le", "-gt", "-ge", "-nt", "-ot", "-ef"].map ascii

/-- The integer that an argument writes. -/
def integer (s : Bytes) : Except Bytes Int :=
  let t := (s.dropWhile (· = 32)).reverse.dropWhile (· = 32) |>.reverse
  let negative := t.head? = some (byte '-')
  let digits := if negative ∨ t.head? = some (byte '+') then t.drop 1 else t
  if digits ≠ [] ∧ digits.all isDecimal then
    .ok (if negative then -(decimal digits : Int) else decimal digits)
  else .error (ascii "Illegal number: " ++ s)

/-- A test of one argument. -/
def holdsFor (inodeAt : Bytes → Option Inode) (op s : Bytes) : Bool :=
  let is (t : String) : Bool := op = ascii t
  let inode := inodeAt s
  if is "-n" then s ≠ []
  else if is "-z" then s = []
  else if is "-e" ∨ is "-r" ∨ is "-w" ∨ is "-O" ∨ is "-G" then inode.isSome
  else
    match inode with
    | none => false
    | some .directory => is "-d" || is "-x" || is "-s"
    | some (.device _) => is "-c"
    | some (.file content executable) =>
      is "-f" || (is "-s" && content ≠ []) || (is "-x" && executable)

/-- Texts in the order of their bytes. -/
def isBefore : Bytes → Bytes → Bool
  | _, [] => false
  | [], _ :: _ => true
  | a :: s, b :: t => a < b || (a = b && isBefore s t)

/-- A test of two arguments. -/
def holdsBetween (op s t : Bytes) : Except Bytes Bool := do
  let is (u : String) : Bool := op = ascii u
  if is "=" then return s = t
  else if is "!=" then return s ≠ t
  else if is "<" then return isBefore s t
  else if is ">" then return isBefore t s
  else if is "-nt" ∨ is "-ot" then return false
  else if is "-ef" then return s = t
  else
    let x ← integer s
    let y ← integer t
    if is "-eq" then return x = y
    else if is "-ne" then return x ≠ y
    else if is "-lt" then return x < y
    else if is "-le" then return x ≤ y
    else if is "-gt" then return y < x
    else return y ≤ x

/-- Reads a single test. `whole` reads a condition in parentheses. -/
def primary (whole : Reader Bool) : Reader Bool := do
  match ← get with
  | [] => throw (ascii "argument expected")
  | [s] =>
    set ([] : List Bytes)
    return s ≠ []
  | s :: op :: rest =>
    if binary.contains op then
      match rest with
      | t :: rest =>
        set rest
        holdsBetween op s t
      | [] => throw (op ++ ascii ": argument expected")
    else if s = ascii "(" then
      set (op :: rest)
      let b ← whole
      match ← get with
      | [] => throw (ascii "closing paren expected")
      | _ :: rest =>
        set rest
        return b
    else if unary.contains s then
      set rest
      return holdsFor (← read) s op
    else
      set (op :: rest)
      return s ≠ []

/-- Reads a condition; `fuel` bounds the number of its parts. -/
def whole : Nat → Reader Bool
  | 0 => throw (ascii "argument expected")
  | fuel + 1 => do
    let rec negation : Nat → Reader Bool
      | 0 => throw (ascii "argument expected")
      | n + 1 => do
        match ← get with
        | s :: t :: rest =>
          if s = ascii "!" then
            set (t :: rest)
            return !(← negation n)
          else primary (whole fuel)
        | _ => primary (whole fuel)
    let rec conjunction : Nat → Reader Bool
      | 0 => throw (ascii "argument expected")
      | n + 1 => do
        let a ← negation (fuel + 1)
        match ← get with
        | s :: rest =>
          if s = ascii "-a" then
            set rest
            let b ← conjunction n
            return a && b
          else return a
        | [] => return a
    let rec disjunction : Nat → Reader Bool
      | 0 => throw (ascii "argument expected")
      | n + 1 => do
        let a ← conjunction (fuel + 1)
        match ← get with
        | s :: rest =>
          if s = ascii "-o" then
            set rest
            let b ← disjunction n
            return a || b
          else return a
        | [] => return a
    disjunction (fuel + 1)

/-- Whether the condition that the arguments write holds, given what is at each path. -/
def evaluate (inodeAt : Bytes → Option Inode) (args : List Bytes) : Except Bytes Bool := do
  if args = [] then return false
  let (b, rest) ← ((whole (args.length + 1)).run inodeAt).run args
  if rest = [] then return b
  let before := args[args.length - rest.length - 1]?
  throw (before.getD [] ++ ascii ": unexpected operator")

end LuaToC.Shell.Condition
