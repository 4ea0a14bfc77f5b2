import LuaToC.Text.Utf8
import LuaToC.Toml.Value

/-! # Texts of a TOML document

The texts of a document are keys, and the four kinds of strings. -/
namespace LuaToC.Toml

/-- The quote of strings with escapes. -/
def quote : UInt8 := 34

/-- The quote of strings without escapes. -/
def apostrophe : UInt8 := 39

def backslash : UInt8 := 92

/-- A blank or a tab. -/
def isBlank (b : UInt8) : Bool := b = 32 || b = 9

/-- A byte that ends a line. -/
def isLineEnd (b : UInt8) : Bool := b = 10 || b = 13

def isDigit (b : UInt8) : Bool := byte '0' ≤ b && b ≤ byte '9'

/-- The value of a hexadecimal digit. -/
def hexDigit? (b : UInt8) : Option Nat :=
  if isDigit b then some (b.toNat - 48)
  else if byte 'a' ≤ b ∧ b ≤ byte 'f' then some (b.toNat - 87)
  else if byte 'A' ≤ b ∧ b ≤ byte 'F' then some (b.toNat - 55)
  else none

/-- The number that digits of a base write. -/
def number (base : Nat) (digits : Bytes) : Nat :=
  digits.foldl (fun n b => base * n + (hexDigit? b).getD 0) 0

/-- Control characters are tabs and line ends only, and a carriage return stands in front of
a line feed. -/
def hasPlainControls : Bytes → Bool
  | [] => true
  | b :: rest =>
    (b = 9 || b = 10 || (b = 13 && rest.head? = some 10) || (32 ≤ b && b ≠ 127)) &&
      hasPlainControls rest

/-- A text that a document may consist of. -/
def isPlain (s : Bytes) : Bool := hasPlainControls s && Utf8.isValid s

/-- The text without a byte order mark. -/
def withoutMark (s : Bytes) : Bytes :=
  match s with
  | 0xff :: 0xfe :: rest => rest
  | 0xfe :: 0xff :: rest => rest
  | 0xef :: 0xbb :: 0xbf :: rest => rest
  | _ => s

/-- A byte in front of what a step reads. -/
def preceded (b : UInt8) : Option (Bytes × Bytes) → Option (Bytes × Bytes) :=
  Option.map fun (s, rest) => (b :: s, rest)

/-- The inside of a one-line string with escapes, the escapes as they are written. -/
def quotedBody : Step Bytes
  | [] => none
  | b :: rest =>
    if b = quote then some ([], rest)
    else if isLineEnd b then none
    else if b = backslash then
      match rest with
      | [] => none
      | c :: rest => if isLineEnd c then none else preceded b (preceded c (quotedBody rest))
    else preceded b (quotedBody rest)

/-- The inside of a one-line string without escapes. -/
def literalBody : Step Bytes
  | [] => none
  | b :: rest =>
    if b = apostrophe then some ([], rest)
    else if isLineEnd b then none
    else preceded b (literalBody rest)

/-- The inside of a string of several lines, which ends with three quotes. Up to two more
quotes may stand in front of these; `before` is what was read, in reverse order. A quote
right after a backslash is not counted. -/
def longBody (q : UInt8) (before : Bytes) : Step Bytes
  | [] => none
  | b :: rest =>
    if b = backslash ∧ q = quote then
      match rest with
      | [] => none
      | c :: rest => longBody q (c :: b :: before) rest
    else if b = q ∧ rest.take 2 = [q, q] then
      if rest[2]? ≠ some q then some (before.reverse, rest.drop 2)
      else if before.take 2 = [q, q] ∧ ¬ (q = quote ∧ before[2]? = some backslash) then none
      else longBody q (b :: before) rest
    else longBody q (b :: before) rest

/-- The text without the line end that it begins with. -/
def withoutFirstLineEnd (s : Bytes) : Bytes :=
  match s with
  | 10 :: rest => rest
  | 13 :: 10 :: rest => rest
  | _ => s

/-- The escapes that stand for one byte. -/
def shortEscapes : List (UInt8 × UInt8) :=
  [(byte 'b', 8), (byte 't', 9), (byte 'n', 10), (byte 'f', 12), (byte 'r', 13),
   (byte 'e', 27), (quote, quote), (backslash, backslash)]

/-- The number of hexadecimal digits of the escapes that name a character. -/
def longEscapes : List (UInt8 × Nat) := [(byte 'x', 2), (byte 'u', 4), (byte 'U', 8)]

/-- What the escape after a backslash stands for, and how many bytes it takes. -/
def escape? : Bytes → Option (Bytes × Nat)
  | [] => none
  | c :: rest =>
    match shortEscapes.lookup c, longEscapes.lookup c with
    | some b, _ => some ([b], 1)
    | none, some n =>
      let digits := rest.take n
      if digits.length = n ∧ digits.all (fun b => (hexDigit? b).isSome) ∧
          Utf8.isScalar (number 16 digits) then
        some (Utf8.encode (number 16 digits), n + 1)
      else none
    | none, none => none

/-- Replaces the escapes. In a string of several lines, a backslash at the end of a line
takes the blanks and line ends after it away. -/
def unescape (long : Bool) : Bytes → Option Bytes
  | [] => some []
  | b :: rest =>
    if b ≠ backslash then (unescape long rest).map (b :: ·)
    else
      let gap := rest.takeWhile fun c => isBlank c || isLineEnd c
      if long ∧ 10 ∈ gap then unescape long (rest.drop gap.length)
      else
        match escape? rest with
        | none => none
        | some (s, n) => (unescape long (rest.drop n)).map (s ++ ·)
termination_by s => s.length
decreasing_by all_goals simp only [List.length_cons, List.length_drop]; omega

/-- Reads a string that begins with a quote of its kind. -/
def text : Step Bytes := fun s =>
  if s.take 3 = [quote, quote, quote] then do
    let (body, rest) ← longBody quote [] (s.drop 3)
    return (← unescape true (withoutFirstLineEnd body), rest)
  else if s.take 3 = [apostrophe, apostrophe, apostrophe] then do
    let (body, rest) ← longBody apostrophe [] (s.drop 3)
    return (withoutFirstLineEnd body, rest)
  else if s.head? = some quote then do
    let (body, rest) ← quotedBody (s.drop 1)
    return (← unescape false body, rest)
  else if s.head? = some apostrophe then literalBody (s.drop 1)
  else none

/-- A byte of a key without quotes. -/
def isBareByte (b : UInt8) : Bool :=
  (byte 'A' ≤ b && b ≤ byte 'Z') || (byte 'a' ≤ b && b ≤ byte 'z') || isDigit b ||
    b = byte '_' || b = byte '-'

/-- A part of a key: a one-line string or bare. -/
def keyPart : Step Bytes := fun s =>
  if s.head? = some quote then do
    let (body, rest) ← quotedBody (s.drop 1)
    return (← unescape false body, rest)
  else if s.head? = some apostrophe then literalBody (s.drop 1)
  else
    let part := s.takeWhile isBareByte
    if part = [] then none else some (part, s.drop part.length)

/-- A dotted key, with blanks around its parts. At most `fuel` parts are read. -/
def keyParts : Nat → Step Key
  | 0, _ => none
  | fuel + 1, s => do
    let (part, rest) ← keyPart (s.dropWhile isBlank)
    match rest.dropWhile isBlank with
    | [] => return ([part], [])
    | b :: rest =>
      if b = byte '.' then
        let (parts, rest) ← keyParts fuel rest
        return (part :: parts, rest)
      else return ([part], b :: rest)

/-- A dotted key. -/
def key : Step Key := fun s => keyParts (s.length + 1) s

end LuaToC.Toml
