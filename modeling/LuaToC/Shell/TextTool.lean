import LuaToC.Digest.Sha1
import LuaToC.Digest.Sha256
import LuaToC.Shell.Expansion
import LuaToC.Shell.Regex
import LuaToC.Shell.Tool

/-! # Programs on texts

Small programs that read texts and print texts. -/
namespace LuaToC.Shell.Tool

/-- Numbers the lines of a text. -/
def numbered (withBlank : Bool) : Nat → List Bytes → Bytes
  | _, [] => []
  | n, line :: rest =>
    if withBlank || line ≠ [Bytes.newline] then
      Bytes.padLeft 32 6 (Bytes.ofNat n) ++ [9] ++ line ++ numbered withBlank (n + 1) rest
    else line ++ numbered withBlank n rest

/-- Prints texts one after the other. -/
def cat : Tool := fun name args =>
  withArguments "bEnsTuv" "" 1 name args fun a => do
    let (found, succeeded) ← contents (plainWording name) a.operands
    let text := (found.map (·.2)).flatten
    let text := if a.has 'T' then text.flatMap fun b => if b = 9 then ascii "^I" else [b] else text
    let text :=
      if a.has 'E' then text.flatMap fun b => if b = Bytes.newline then [byte '$', b] else [b]
      else text
    let text := if a.has 'n' ∨ a.has 'b' then numbered (!a.has 'b') 1 (lines text) else text
    emit 1 text
    return statusOf succeeded

/-- A number of lines or bytes, with the sign in front of it. -/
structure Amount where
  sign : Option UInt8
  size : Nat

/-- The number that a text writes, perhaps with a unit. -/
def amount? (s : Bytes) : Option Amount :=
  let isSign (b : UInt8) : Bool := b = byte '-' || b = byte '+'
  let sign := s.head?.filter isSign
  let s := if sign.isSome then s.drop 1 else s
  let digits := s.takeWhile isDecimal
  let units : List (String × Nat) :=
    [("", 1), ("b", 512), ("k", 1024), ("K", 1024), ("kB", 1000), ("M", 1048576), ("MB", 1000000)]
  match units.find? fun (u, _) => ascii u = s.drop digits.length with
  | some (_, size) => if digits = [] then none else some ⟨sign, decimal digits * size⟩
  | none => none

/-- The first argument in its full form: `-5` is `-n 5`. -/
def withLines (args : List Bytes) : List Bytes :=
  match args with
  | a :: rest =>
    if a.head? = some (byte '-') ∧ 1 < a.length ∧ (a.drop 1).all isDecimal then
      ascii "-n" :: a.drop 1 :: rest
    else args
  | [] => []

/-- Prints texts, with titles if there are several. -/
def printTitled (quiet always : Bool) (found : List (Bytes × Bytes)) : Act Unit := do
  let titled := always || (!quiet && 1 < found.length)
  let title (path : Bytes) : Bytes :=
    ascii "==> " ++ (if path = ascii "-" ∨ path = [] then ascii "standard input" else path) ++
      ascii " <==\n"
  let texts := found.map fun (path, text) => if titled then title path ++ text else text
  emit 1 (if titled then Bytes.join [Bytes.newline] texts else texts.flatten)

/-- The wording for an operand of `head` or `tail` that cannot be read. -/
def endWording (name path : Bytes) (cause : Cause) : Bytes :=
  if cause = .isDirectory then
    name ++ ascii ": error reading " ++ marked path ++ ascii ": " ++ causeText cause
  else
    name ++ ascii ": cannot open " ++ marked path ++ ascii " for reading: " ++ causeText cause

/-- Prints a piece of each text. `cutLines` and `cutBytes` say which. -/
def endTool (cutLines : Amount → List Bytes → List Bytes) (cutBytes : Amount → Bytes → Bytes) :
    Tool := fun name args =>
  withArguments "qvz" "nc" 1 name (withLines args) fun a => do
    let kind := if (a.value? 'c').isSome then ascii "bytes" else ascii "lines"
    let written := ((a.value? 'c').or (a.value? 'n')).getD (ascii "10")
    match amount? written with
    | none =>
      report (name ++ ascii ": invalid number of " ++ kind ++ ascii ": " ++ marked written)
      return 1
    | some n =>
      let (found, succeeded) ← contents (endWording name) a.operands
      let cut (text : Bytes) : Bytes :=
        if (a.value? 'c').isSome then cutBytes n text else (cutLines n (lines text)).flatten
      printTitled (a.has 'q') (a.has 'v') (found.map fun (path, text) => (path, cut text))
      return statusOf succeeded

/-- The first elements; with a minus sign, all but the last ones. -/
def firstOf {α : Type} (n : Amount) (xs : List α) : List α :=
  if n.sign = some (byte '-') then xs.take (xs.length - n.size) else xs.take n.size

/-- The last elements; with a plus sign, those from a number on. -/
def lastOf {α : Type} (n : Amount) (xs : List α) : List α :=
  if n.sign = some (byte '+') then xs.drop (n.size - 1) else xs.drop (xs.length - n.size)

/-- Prints the start of texts. -/
def head : Tool := endTool firstOf firstOf

/-- Prints the end of texts. -/
def tail : Tool := endTool lastOf lastOf

/-- The number of words in a text. -/
def wordCount (s : Bytes) : Nat :=
  let isBlank (b : UInt8) : Bool := (9 ≤ b && b ≤ 13) || b = 32
  ((s.splitBy fun a b => isBlank a == isBlank b).filter fun w => !w.any isBlank).length

/-- Counts lines, words and bytes. -/
def wc : Tool := fun name args =>
  withArguments "clmLw" "" 1 name args fun a => do
    let (found, succeeded) ← contents (plainWording name) a.operands
    let all := a.options.isEmpty
    let counts (s : Bytes) : List Nat :=
      (if all || a.has 'l' then [s.countP (· = Bytes.newline)] else []) ++
        (if all || a.has 'w' then [wordCount s] else []) ++
        (if a.has 'm' then [s.length] else []) ++
        (if all || a.has 'c' then [s.length] else [])
    let rows := found.map fun (path, s) => (path, counts s)
    let total := (found.map (·.2)).flatten
    let rows := if 1 < a.operands.length then rows ++ [(ascii "total", counts total)] else rows
    let isSingle := a.operands.length ≤ 1 && (counts []).length = 1
    let width := if isSingle then 1 else if a.operands.isEmpty then 7
      else (Bytes.ofNat total.length).length
    rows.forM fun (path, ns) =>
      let row := Bytes.join [32] (ns.map fun n => Bytes.padLeft 32 width (Bytes.ofNat n))
      emit 1 (row ++ (if path = [] then [] else 32 :: path) ++ [Bytes.newline])
    return statusOf succeeded

/-- Replaces the escapes of a set of bytes. -/
def setText : Nat → Bytes → Bytes
  | 0, _ => []
  | _, [] => []
  | fuel + 1, b :: rest =>
    if b ≠ backslash then b :: setText fuel rest
    else
      let letters : List (UInt8 × UInt8) :=
        [(byte 'a', 7), (byte 'b', 8), (byte 'f', 12), (byte 'n', 10), (byte 'r', 13),
         (byte 't', 9), (byte 'v', 11)]
      let digits := (rest.take 3).takeWhile fun b => byte '0' ≤ b && b ≤ byte '7'
      if digits ≠ [] then
        digits.foldl (fun n b => 8 * n + (b - 48)) 0 :: setText fuel (rest.drop digits.length)
      else
        match rest with
        | [] => [b]
        | c :: rest => (letters.lookup c).getD c :: setText fuel rest

/-- The bytes from one to another. -/
def rangeOf (a b : UInt8) : Bytes :=
  (List.range (b.toNat + 1 - a.toNat)).map fun i => (a.toNat + i).toUInt8

/-- The bytes that a set lists, in order. -/
def setBytes : Nat → Bytes → Bytes
  | 0, _ => []
  | fuel + 1, s =>
    match Regex.classes.find? fun (name, _) => (ascii name).isPrefixOf s with
    | some (name, ranges) =>
      (ranges.flatMap fun (a, b) => rangeOf a b) ++ setBytes fuel (s.drop name.length)
    | none =>
      match s with
      | [] => []
      | a :: 45 :: b :: rest => rangeOf a b ++ setBytes fuel rest
      | a :: rest => a :: setBytes fuel rest

/-- The bytes of a set. -/
def setOf (s : Bytes) : Bytes :=
  let text := setText (s.length + 1) s
  setBytes (text.length + 1) text

/-- Leaves one of several equal bytes of a set in a row. -/
def squeezed (set : Bytes) : Bytes → Bytes
  | a :: b :: rest =>
    if a = b ∧ set.contains a then squeezed set (b :: rest) else a :: squeezed set (b :: rest)
  | s => s

/-- Replaces or deletes bytes of the input. -/
def tr : Tool := fun name args =>
  withArguments "cCdst" "" 1 name args fun a => do
    match a.operands with
    | [] => missingOperand name
    | first :: others =>
      let written := setOf first
      let isComplement := a.has 'c' || a.has 'C'
      let everything := rangeOf 0 255
      let source := if isComplement then everything.filter (!written.contains ·) else written
      let target := setOf (others.headD [])
      if others = [] ∧ ¬ a.has 'd' ∧ ¬ a.has 's' then
        report (name ++ ascii ": missing operand after " ++ marked first)
        report (ascii "Two strings must be given when translating.")
        report (ascii "Try " ++ marked (name ++ ascii " --help") ++ ascii " for more information.")
        return 1
      let text ← takeInput
      let last := target.getLast?.getD 0
      let table := source.zip (target ++ List.replicate (source.length - target.length) last)
      let text :=
        if a.has 'd' then text.filter (!source.contains ·)
        else if others = [] then text
        else text.map fun b => (table.reverse.lookup b).getD b
      let text :=
        if a.has 's' then squeezed (if others = [] then source else target) text else text
      emit 1 text
      return 0

/-- The positions that a list selects. -/
def selected (list : Bytes) (n : Nat) : Bool :=
  (Bytes.splitOn (byte ',') list).any fun item =>
    match Bytes.splitOn (byte '-') item with
    | [a] => decimal a = n
    | [a, b] => (a = [] || decimal a ≤ n) && (b = [] || n ≤ decimal b)
    | _ => false

/-- The elements at selected positions, counted from one. -/
def pick {α : Type} (list : Bytes) (xs : List α) : List α :=
  (xs.zipIdx 1).filterMap fun (x, n) => if selected list n then some x else none

/-- Prints selected fields or bytes of lines. -/
def cut : Tool := fun name args =>
  withArguments "ns" "bcdf" 1 name args fun a => do
    let (found, succeeded) ← contents (plainWording name) a.operands
    let delimiter := ((a.value? 'd').bind List.head?).getD 9
    let cutLine (line : Bytes) : Option Bytes :=
      match (a.value? 'c').or (a.value? 'b') with
      | some list => some (pick list line)
      | none =>
        if line.contains delimiter then
          let fields := Bytes.splitOn delimiter line
          some (Bytes.join [delimiter] (pick ((a.value? 'f').getD []) fields))
        else if a.has 's' then none
        else some line
    let texts := found.flatMap fun (_, text) => (lines text).filterMap fun l => cutLine (chomp l)
    emit 1 (Bytes.unlines texts)
    return statusOf succeeded

/-- Sorts lines. -/
def sort : Tool := fun name args =>
  withArguments "bfnrus" "kto" 2 name args fun a => do
    let wording (path : Bytes) (cause : Cause) : Bytes :=
      name ++ ascii ": cannot read: " ++ path ++ ascii ": " ++ causeText cause
    let (found, succeeded) ← contents wording a.operands
    let all := found.flatMap fun (_, text) => (lines text).map chomp
    let isNumericLess (s t : Bytes) : Bool := integerOf s < integerOf t
    let isAhead (s t : Bytes) : Bool :=
      if a.has 'n' then isNumericLess s t || (!isNumericLess t s && isAtMost s t) else isAtMost s t
    let sorted := if a.has 'r' then all.mergeSort fun s t => isAhead t s else all.mergeSort isAhead
    let sorted := if a.has 'u' then (sorted.splitBy (· == ·)).filterMap List.head? else sorted
    match a.value? 'o' with
    | none => emit 1 (Bytes.unlines sorted)
    | some path => discard (writeFile (name ++ ascii ": ") path path false (Bytes.unlines sorted))
    return if succeeded then 0 else 2

/-- Leaves one of several equal lines in a row. -/
def uniq : Tool := fun name args =>
  withArguments "cdu" "" 1 name args fun a => do
    let (found, succeeded) ← contents (plainWording name) (a.operands.take 1)
    let groups := ((found.flatMap fun (_, text) => (lines text).map chomp).splitBy (· == ·)).filter
      fun g => (!a.has 'd' || 1 < g.length) && (!a.has 'u' || g.length = 1)
    let row (g : List Bytes) : Bytes :=
      if a.has 'c' then Bytes.padLeft 32 7 (Bytes.ofNat g.length) ++ [32] ++ g.headD []
      else g.headD []
    emit 1 (Bytes.unlines (groups.map row))
    return statusOf succeeded

/-- Prints the input and writes it to files. -/
def tee : Tool := fun name args =>
  withArguments "aip" "" 1 name args fun a => do
    let text ← takeInput
    emit 1 text
    let results ← a.operands.mapM fun path =>
      writeFile (name ++ ascii ": ") path path (a.has 'a') text
    return statusOf (results.all id)

/-- The argument is a negative number or no option. -/
def isOperand (a : Bytes) : Bool :=
  a.head? ≠ some (byte '-') || (a.drop 1).head?.any isDecimal

/-- Prints numbers in a row. -/
def seq : Tool := fun name args => do
  if let some a := args.find? (!isOperand ·) then
    misuse name (.unknown ((a.drop 1).headD 45))
    return 1
  let numbers := args.map integerOf
  let (first, step, last) := match numbers with
    | [n] => (1, 1, n)
    | [a, b] => (a, 1, b)
    | [a, s, b] => (a, s, b)
    | _ => (1, 1, 0)
  if args = [] then missingOperand name
  else
    let count := if step = 0 then 0 else ((last - first).fdiv step + 1).toNat
    emit 1 (Bytes.unlines ((List.range count).map fun (i : Nat) => Bytes.ofInt (first + step * i)))
    return 0

/-- The digits of base 64. -/
def base64Digits : Bytes :=
  ascii "ABCDEFGHIJKLMNOPQRSTUVWXYZabcdefghijklmnopqrstuvwxyz0123456789+/"

/-- A text in base 64. -/
def toBase64 : Bytes → Bytes
  | [] => []
  | [a] =>
    let n := a.toNat * 65536
    [base64Digits.getD (n / 262144) 0, base64Digits.getD (n / 4096 % 64) 0, 61, 61]
  | [a, b] =>
    let n := a.toNat * 65536 + b.toNat * 256
    [base64Digits.getD (n / 262144) 0, base64Digits.getD (n / 4096 % 64) 0,
     base64Digits.getD (n / 64 % 64) 0, 61]
  | a :: b :: c :: rest =>
    let n := a.toNat * 65536 + b.toNat * 256 + c.toNat
    [base64Digits.getD (n / 262144) 0, base64Digits.getD (n / 4096 % 64) 0,
     base64Digits.getD (n / 64 % 64) 0, base64Digits.getD (n % 64) 0] ++ toBase64 rest

/-- The bytes that digits of base 64 write. -/
def ofBase64 : List Nat → Bytes
  | a :: b :: c :: d :: rest =>
    let n := a * 262144 + b * 4096 + c * 64 + d
    [(n / 65536).toUInt8, (n / 256).toUInt8, n.toUInt8] ++ ofBase64 rest
  | [a, b, c] =>
    let n := a * 262144 + b * 4096 + c * 64
    [(n / 65536).toUInt8, (n / 256).toUInt8]
  | [a, b] => [((a * 262144 + b * 4096) / 65536).toUInt8]
  | _ => []

/-- A text in lines of some width; `fuel` bounds their number. -/
def wrapLines (width : Nat) : Nat → Bytes → List Bytes
  | 0, _ => []
  | _, [] => []
  | fuel + 1, s => s.take width :: wrapLines width fuel (s.drop width)

/-- Writes a text in base 64, or reads one. -/
def base64 : Tool := fun name args =>
  let args := args.map fun a => if a = ascii "--decode" then ascii "-d" else a
  withArguments "di" "w" 1 name args fun a => do
    let (found, succeeded) ← contents (plainWording name) (a.operands.take 1)
    let text := (found.map (·.2)).flatten
    if a.has 'd' then
      let digits := text.filter fun b => b ≠ Bytes.newline && b ≠ 61
      emit 1 (ofBase64 (digits.filterMap fun b => base64Digits.findIdx? (· = b)))
      if digits.all base64Digits.contains then return statusOf succeeded
      report (name ++ ascii ": invalid input")
      return 1
    let width := ((a.value? 'w').map decimal).getD 76
    let s := toBase64 text
    emit 1 (if width = 0 then s else Bytes.unlines (wrapLines width (s.length + 1) s))
    return statusOf succeeded

/-- Prints lines in reverse order. -/
def tac : Tool := fun name args =>
  withArguments "b" "" 1 name args fun a => do
    let (found, succeeded) ← contents (endWording name) a.operands
    emit 1 (found.flatMap fun f => (lines f.2).reverse.flatten)
    return statusOf succeeded

/-- Prints each line with its bytes in reverse order. -/
def rev : Tool := fun name args =>
  withArguments "" "" 1 name args fun a => do
    let (found, succeeded) ← contents (plainWording name) a.operands
    emit 1 (found.flatMap fun f =>
      (lines f.2).flatMap fun l => (chomp l).reverse ++ l.drop (chomp l).length)
    return statusOf succeeded

/-- Prints the lines that are not empty with their numbers. -/
def nl : Tool := fun name args =>
  withArguments "p" "bv" 1 name args fun a => do
    let (found, succeeded) ← contents (plainWording name) a.operands
    let all := found.flatMap fun f => lines f.2
    let isNumbered (l : Bytes) : Bool := a.value? 'b' = some (ascii "a") || chomp l ≠ []
    let number (i : Nat) : Nat := (all.take (i + 1)).countP isNumbered
    emit 1 (all.zipIdx.flatMap fun (l, i) =>
      if isNumbered l then Bytes.padLeft 32 6 (Bytes.ofNat (number i)) ++ [9] ++ l
      else List.replicate 7 32 ++ l)
    return statusOf succeeded

/-- Prints bytes as numbers, sixteen in a row, in hexadecimal or octal notation. -/
def od : Tool := fun name args =>
  withArguments "abcdfiloxv" "AtjN" 1 name args fun a => do
    let (found, succeeded) ← contents (plainWording name) a.operands
    let text := found.flatMap fun f => f.2
    let text := match a.value? 'N' with
      | some n => text.take (decimal n)
      | none => text
    let isHex := a.value? 't' = some (ascii "x1")
    let cell (b : UInt8) : Bytes :=
      32 :: if isHex then Bytes.hexByte b else Bytes.padLeft 48 3 (Bytes.octal b.toNat)
    let offset (n : Nat) : Bytes :=
      if a.value? 'A' = some (ascii "n") then [] else Bytes.padLeft 48 7 (Bytes.octal n)
    let rows := (wrapLines 16 (text.length + 1) text).zipIdx.map fun (row, i) =>
      offset (16 * i) ++ row.flatMap cell
    let last := offset text.length
    emit 1 (Bytes.unlines (rows ++ if last = [] then [] else [last]))
    return statusOf succeeded

/-- The text writes an integer. -/
def isInteger (s : Bytes) : Bool :=
  let digits := if s.head? = some (byte '-') then s.drop 1 else s
  digits ≠ [] && digits.all isDecimal

/-- Prints the value of a short expression. -/
def expr : Tool := fun name args => do
  let answer (s : Bytes) : Act Nat := do
    emit 1 (s ++ [Bytes.newline])
    return if s = [] ∨ s = ascii "0" then 1 else 0
  match args with
  | [s] => answer s
  | [s, op, t] =>
    if op = ascii "=" then answer (ascii (if s = t then "1" else "0"))
    else if ¬ isInteger s ∨ ¬ isInteger t then
      report (name ++ ascii ": non-integer argument")
      return 2
    else
      match Arithmetic.apply op (integerOf s) (integerOf t) with
      | .ok n => answer (Bytes.ofInt n)
      | .error message =>
        report (name ++ ascii ": " ++ message)
        return 2
  | _ =>
    report (name ++ ascii ": syntax error")
    return 2

/-- Prints digests of texts. -/
def digest (f : Bytes → Bytes) : Tool := fun name args =>
  withArguments "bt" "" 1 name args fun a => do
    let (found, succeeded) ← contents (plainWording name) a.operands
    found.forM fun (path, text) =>
      emit 1 ((f text).flatMap Bytes.hexByte ++ ascii "  " ++
        (if path = [] then ascii "-" else path) ++ [Bytes.newline])
    return statusOf succeeded

end LuaToC.Shell.Tool
