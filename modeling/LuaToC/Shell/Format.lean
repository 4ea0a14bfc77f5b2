import LuaToC.Shell.Grammar

/-! # Formats

Texts that scripts print: backslash escapes and formats. -/
namespace LuaToC.Shell.Format

/-- An octal digit. -/
def isOctal (b : UInt8) : Bool := byte '0' ≤ b && b ≤ byte '7'

/-- The byte with a number in octal digits. -/
def octal (digits : Bytes) : UInt8 := digits.foldl (fun n b => 8 * n + (b - 48)) 0

/-- The escapes of one letter. -/
def letters : List (UInt8 × UInt8) :=
  [(byte 'a', 7), (byte 'b', 8), (byte 'f', 12), (byte 'n', 10), (byte 'r', 13), (byte 't', 9),
   (byte 'v', 11), (byte 'e', 27), (92, 92)]

/-- Replaces the backslash escapes of a text, and says whether one of them ends all printing.
With `zero`, a zero may stand in front of three octal digits, and printing can be ended. -/
def unescape (zero : Bool) : Nat → Bytes → Bytes × Bool
  | 0, _ => ([], false)
  | _, [] => ([], false)
  | fuel + 1, b :: rest =>
    let after (s : Bytes) (rest : Bytes) : Bytes × Bool :=
      let (t, ended) := unescape zero fuel rest
      (s ++ t, ended)
    if b ≠ backslash then after [b] rest
    else
      match rest with
      | [] => ([b], false)
      | c :: tail =>
        if zero ∧ c = byte 'c' then ([], true)
        else if isOctal c then
          let start := if zero ∧ c = byte '0' then tail else rest
          let digits := (start.take 3).takeWhile isOctal
          after [octal digits] (start.drop digits.length)
        else
          match letters.lookup c with
          | some x => after [x] tail
          | none => after [b] rest

/-- Replaces the backslash escapes of a text that is printed, and says whether one of them ends
all printing. -/
def escaped (s : Bytes) : Bytes × Bool := unescape true (s.length + 1) s

/-- A directive of a format: its flags, width, precision and letter. The width may be taken from
the arguments. -/
structure Directive where
  flags : Bytes
  takesWidth : Bool
  width : Nat
  precision : Option Nat
  letter : UInt8

/-- A piece of a format. -/
inductive Piece where
  | text (b : UInt8)
  | directive (d : Directive)

/-- The pieces of a format, whose escapes have been replaced. -/
def pieces : Nat → Bytes → List Piece
  | 0, _ => []
  | _, [] => []
  | fuel + 1, b :: rest =>
    if b = byte '%' then
      if rest.head? = some (byte '%') then .text b :: pieces fuel (rest.drop 1)
      else
        let flags := rest.takeWhile (ascii "-+ #0").contains
        let rest := rest.drop flags.length
        let takesWidth := rest.head? = some (byte '*')
        let rest := if takesWidth then rest.drop 1 else rest
        let width := rest.takeWhile isDecimal
        let rest := rest.drop width.length
        let hasPrecision := rest.head? = some (byte '.')
        let digits := if hasPrecision then (rest.drop 1).takeWhile isDecimal else []
        let rest := if hasPrecision then rest.drop (digits.length + 1) else rest
        match rest with
        | [] => [.text b]
        | letter :: rest =>
          let precision := if hasPrecision then some (decimal digits) else none
          .directive ⟨flags, takesWidth, decimal width, precision, letter⟩ :: pieces fuel rest
    else .text b :: pieces fuel rest

/-- The integer that an argument writes, if it is one. An argument that begins with a quotation
mark is the number of the byte after it. -/
def integer? (s : Bytes) : Option Int :=
  match s with
  | [] => some 0
  | b :: rest =>
    if b = apostrophe ∨ b = quoteMark then some (rest.head?.map (·.toNat : UInt8 → Int) |>.getD 0)
    else
      let negative := b = byte '-'
      let digits := if negative ∨ b = byte '+' then rest else s
      let isHex := (ascii "0x").isPrefixOf digits
      let base := if isHex then 16 else if digits.head? = some (byte '0') then 8 else 10
      let digits := if isHex then digits.drop 2 else digits
      let valueOf (b : UInt8) : Nat :=
        if isDecimal b then b.toNat - 48
        else if byte 'a' ≤ b ∧ b ≤ byte 'f' then b.toNat - 87
        else if byte 'A' ≤ b ∧ b ≤ byte 'F' then b.toNat - 55
        else 99
      if digits ≠ [] ∧ digits.all (fun b => valueOf b < base) then
        let n : Int := digits.foldl (fun n b => base * n + valueOf b) 0
        some (if negative then -n else n)
      else none

/-- A text in a field of some width. -/
def padded (d : Directive) (fill : UInt8) (s : Bytes) : Bytes :=
  if d.flags.contains (byte '-') then Bytes.padRight d.width s
  else Bytes.padLeft fill d.width s

/-- The text of a number in the notation of a directive. -/
def numeral (d : Directive) (n : Int) : Bytes :=
  let word := (n % 0x10000000000000000).toNat
  let digits :=
    if d.letter = byte 'x' then Bytes.hex word
    else if d.letter = byte 'X' then
      (Bytes.hex word).map fun b => if byte 'a' ≤ b then b - 32 else b
    else if d.letter = byte 'o' then Bytes.octal word
    else if d.letter = byte 'u' then Bytes.ofNat word
    else Bytes.ofNat n.natAbs
  let isSigned := d.letter = byte 'd' ∨ d.letter = byte 'i'
  let sign :=
    if ¬ isSigned then []
    else if n < 0 then ascii "-"
    else if d.flags.contains (byte '+') then ascii "+"
    else if d.flags.contains 32 then ascii " "
    else []
  let mark :=
    if ¬ d.flags.contains (byte '#') ∨ n = 0 then []
    else if d.letter = byte 'x' then ascii "0x"
    else if d.letter = byte 'X' then ascii "0X"
    else if d.letter = byte 'o' then ascii "0"
    else []
  match d.precision with
  | some p => padded d 32 (sign ++ mark ++ Bytes.padLeft 48 p digits)
  | none =>
    if d.flags.contains (byte '0') ∧ ¬ d.flags.contains (byte '-') then
      sign ++ mark ++ Bytes.padLeft 48 (d.width - sign.length - mark.length) digits
    else padded d 32 (sign ++ mark ++ digits)

/-- What printing with a format has come to: the text, what is wrong, and whether printing has
ended. -/
structure Printed where
  text : Bytes
  complaints : List Bytes
  ended : Bool

/-- Prints an argument as a directive says. -/
def print (d : Directive) (argument : Option Bytes) : Printed :=
  let s := argument.getD []
  let cut (s : Bytes) : Bytes := match d.precision with
    | some p => s.take p
    | none => s
  if d.letter = byte 's' then ⟨padded d 32 (cut s), [], false⟩
  else if d.letter = byte 'c' then ⟨padded d 32 (s.take 1), [], false⟩
  else if d.letter = byte 'b' then
    let (t, ended) := escaped s
    ⟨padded d 32 (cut t), [], ended⟩
  else if (ascii "diouxX").contains d.letter then
    match integer? s with
    | some n => ⟨numeral d n, [], false⟩
    | none =>
      let digits := s.takeWhile isDecimal
      let message := if digits = [] then ascii ": expected numeric value"
        else ascii ": not completely converted"
      ⟨numeral d (decimal digits), [s ++ message], false⟩
  else ⟨[], [byte '%' :: d.letter :: ascii ": invalid directive"], true⟩

/-- Prints the pieces of a format one after the other, and gives the arguments that are left. -/
def printPieces : List Piece → List Bytes → Printed × List Bytes
  | [], args => (⟨[], [], false⟩, args)
  | .text b :: rest, args =>
    let (p, args) := printPieces rest args
    ({ p with text := b :: p.text }, args)
  | .directive d :: rest, args =>
    let (d, args) :=
      if d.takesWidth then ({ d with width := decimal (args.headD []) }, args.tail) else (d, args)
    let first := print d args.head?
    if first.ended then (first, [])
    else
      let (p, args) := printPieces rest args.tail
      (⟨first.text ++ p.text, first.complaints ++ p.complaints, p.ended⟩, args)

/-- Uses a format again and again until no argument is left; `fuel` bounds how often. -/
def printAll (format : List Piece) : Nat → List Bytes → Printed
  | 0, _ => ⟨[], [], false⟩
  | fuel + 1, args =>
    let (p, rest) := printPieces format args
    if p.ended ∨ rest = [] ∨ rest.length = args.length then p
    else
      let q := printAll format fuel rest
      ⟨p.text ++ q.text, p.complaints ++ q.complaints, q.ended⟩

/-- The pieces of a format as it is written. -/
def read (format : Bytes) : List Piece :=
  let text := (unescape false (format.length + 1) format).1
  pieces (text.length + 1) text

/-- The format has a place for arguments. -/
def takesArguments (format : Bytes) : Bool :=
  (read format).any fun
    | .directive _ => true
    | .text _ => false

/-- Prints arguments with a format. -/
def printed (format : Bytes) (args : List Bytes) : Printed :=
  printAll (read format) (args.length + 1) args

end LuaToC.Shell.Format
