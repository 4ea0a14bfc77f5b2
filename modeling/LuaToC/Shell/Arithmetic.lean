import LuaToC.Shell.Grammar

/-! # Arithmetic

Scripts compute with integers of 64 bits. -/
namespace LuaToC.Shell.Arithmetic

/-- What is left of an expression, and the variables that it has set. -/
structure State where
  rest : Bytes
  assigned : List (Bytes × Int)

/-- A step that reads an expression. A refusal says what is wrong. -/
abbrev Reader := ReaderT (Bytes → Int) (StateT State (Except Bytes))

/-- The integer of 64 bits that is left of a result. -/
def wrapped (n : Int) : Int := n.bmod 0x10000000000000000

/-- Passes over blanks. -/
def skipBlanks : Reader Unit :=
  modify fun s => { s with rest := s.rest.dropWhile fun b => b = 32 || b = 9 || b = 10 }

/-- Passes over a mark if it comes next. -/
def accept (mark : Bytes) : Reader Bool := do
  skipBlanks
  let s ← get
  if mark.isPrefixOf s.rest then
    set { s with rest := s.rest.drop mark.length }
    return true
  return false

/-- The value of a digit in some base up to sixteen. -/
def digitValue (b : UInt8) : Nat :=
  if isDecimal b then b.toNat - 48 else if b < 97 then b.toNat - 55 else b.toNat - 87

/-- The number that a constant writes: decimal, octal with a zero in front, or hexadecimal. -/
def constant (s : Bytes) : Int :=
  let inBase (base : Nat) (s : Bytes) : Nat := s.foldl (fun n b => base * n + digitValue b) 0
  if (ascii "0x").isPrefixOf s ∨ (ascii "0X").isPrefixOf s then inBase 16 (s.drop 2)
  else if s.head? = some (byte '0') then inBase 8 s
  else inBase 10 s

/-- The operators between two operands, with their ranks, those first that others begin with. -/
def operators : List (Bytes × Nat) :=
  [("||", 1), ("&&", 2), ("==", 6), ("!=", 6), ("<=", 7), (">=", 7), ("<<", 8), (">>", 8),
   ("|", 3), ("^", 4), ("&", 5), ("<", 7), (">", 7), ("+", 9), ("-", 9), ("*", 10), ("/", 10),
   ("%", 10)].map fun (s, rank) => (ascii s, rank)

/-- The number of a truth value. -/
def ofBool (b : Bool) : Int := if b then 1 else 0

/-- The bits of an integer. -/
def bits (n : Int) : Nat := (n % 0x10000000000000000).toNat

/-- The result of an operator. -/
def apply (op : Bytes) (x y : Int) : Except Bytes Int :=
  let is (s : String) : Bool := op = ascii s
  if is "||" then .ok (ofBool (x ≠ 0 || y ≠ 0))
  else if is "&&" then .ok (ofBool (x ≠ 0 && y ≠ 0))
  else if is "==" then .ok (ofBool (x = y))
  else if is "!=" then .ok (ofBool (x ≠ y))
  else if is "<=" then .ok (ofBool (x ≤ y))
  else if is ">=" then .ok (ofBool (y ≤ x))
  else if is "<" then .ok (ofBool (x < y))
  else if is ">" then .ok (ofBool (y < x))
  else if is "<<" then .ok (wrapped (x * Nat.pow 2 (bits y % 64)))
  else if is ">>" then .ok (x.fdiv (Nat.pow 2 (bits y % 64)))
  else if is "|" then .ok (wrapped (Nat.lor (bits x) (bits y)))
  else if is "^" then .ok (wrapped (Nat.xor (bits x) (bits y)))
  else if is "&" then .ok (wrapped (Nat.land (bits x) (bits y)))
  else if is "+" then .ok (wrapped (x + y))
  else if is "-" then .ok (wrapped (x - y))
  else if is "*" then .ok (wrapped (x * y))
  else if y = 0 then .error (ascii "division by zero")
  else if is "/" then .ok (wrapped (x.tdiv y))
  else .ok (x.tmod y)

/-- The value of a variable. -/
def valueOf (name : Bytes) : Reader Int := do
  match (← get).assigned.lookup name with
  | some n => return n
  | none => return (← read) name

/-- The operators that set a variable, with what they do before that. -/
def assignments : List Bytes :=
  ["=", "+=", "-=", "*=", "/=", "%=", "<<=", ">>=", "&=", "|=", "^="].map ascii

/-- The operator that sets a variable here, if one does. -/
def assignment? : Reader (Option Bytes) := do
  skipBlanks
  let s ← get
  match assignments.find? (·.isPrefixOf s.rest) with
  | none => return none
  | some op =>
    if op = ascii "=" ∧ (ascii "==").isPrefixOf s.rest then return none
    set { s with rest := s.rest.drop op.length }
    return some op.dropLast

/-- Reads an operand. `whole` reads an expression of the lowest rank. -/
def operand (whole : Reader Int) : Nat → Reader Int
  | 0 => throw (ascii "expecting primary")
  | fuel + 1 => do
    if ← accept (ascii "(") then
      let n ← whole
      unless ← accept (ascii ")") do throw (ascii "expecting ')'")
      return n
    if ← accept (ascii "!") then return ofBool ((← operand whole fuel) = 0)
    if ← accept (ascii "~") then return -1 - (← operand whole fuel)
    if ← accept (ascii "-") then return wrapped (-(← operand whole fuel))
    if ← accept (ascii "+") then operand whole fuel
    else
      let s ← get
      match s.rest with
      | [] => throw (ascii "expecting primary")
      | b :: _ =>
        if isDecimal b then
          let digits := s.rest.takeWhile isNameByte
          set { s with rest := s.rest.drop digits.length }
          return wrapped (constant digits)
        else if isNameStart b then
          let name := s.rest.takeWhile isNameByte
          set { s with rest := s.rest.drop name.length }
          match ← assignment? with
          | none => valueOf name
          | some op =>
            let n ← whole
            let n ← if op = [] then pure n else apply op (← valueOf name) n
            modify fun s => { s with assigned := (name, n) :: s.assigned }
            return n
        else throw (ascii "expecting primary")

/-- The operator that comes next, if its rank is at least `rank`. -/
def operator? (rank : Nat) : Reader (Option (Bytes × Nat)) := do
  skipBlanks
  let s ← get
  match operators.find? fun (op, _) => op.isPrefixOf s.rest with
  | some (op, r) =>
    if rank ≤ r then
      set { s with rest := s.rest.drop op.length }
      return some (op, r)
    return none
  | none => return none

/-- Reads an expression of a rank, in which `fuel` bounds the number of operators. -/
def ranked : Nat → Nat → Reader Int
  | 0, _ => throw (ascii "expecting primary")
  | fuel + 1, rank => do
    let first ← operand (ranked fuel 0) fuel
    let value ← continued fuel rank first
    if rank = 0 then
      if ← accept (ascii "?") then
        let yes ← ranked fuel 0
        unless ← accept (ascii ":") do throw (ascii "expecting ':'")
        let no ← ranked fuel 0
        return if value ≠ 0 then yes else no
    return value
where
  /-- Goes on with the operators after an operand. -/
  continued : Nat → Nat → Int → Reader Int
    | 0, _, x => return x
    | fuel + 1, rank, x => do
      match ← operator? rank with
      | none => return x
      | some (op, r) =>
        let y ← ranked fuel (r + 1)
        continued fuel rank (← apply op x y)

/-- The value of an expression, and the variables that it sets, the last one first. -/
def evaluate (lookup : Bytes → Int) (s : Bytes) : Except Bytes (Int × List (Bytes × Int)) := do
  let whole : Reader Int := do
    skipBlanks
    if (← get).rest = [] then return 0
    let n ← ranked (2 * s.length + 2) 0
    skipBlanks
    unless (← get).rest = [] do throw (ascii "expecting EOF")
    return n
  let (n, final) ← (whole.run lookup).run ⟨s, []⟩
  return (n, final.assigned)

end LuaToC.Shell.Arithmetic
