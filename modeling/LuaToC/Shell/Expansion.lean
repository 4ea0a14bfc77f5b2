import LuaToC.Shell.Arithmetic
import LuaToC.Shell.Pattern
import LuaToC.Shell.Session
import LuaToC.Shell.Token

/-! # From words to texts

The parts of a word become pieces, the pieces are cut into fields, and a field with the marks of
a pattern stands for the paths that it fits. -/
namespace LuaToC.Shell

/-- A piece of an expanded word: text that is written in the script, text that can be cut into
fields, or the boundary between two fields. -/
inductive Piece where
  | text (s : Bytes) (quoted : Bool)
  | loose (s : Bytes)
  | cut

/-- Text, each of whose bytes is quoted or not. -/
abbrev Marked := List (UInt8 × Bool)

/-- The pieces for a value. -/
def valuePieces (quoted : Bool) (s : Bytes) : List Piece :=
  if quoted then [.text s true] else [.loose s]

/-- The pieces for the arguments. Between quotation marks they stay apart for `@` only. -/
def argumentPieces (name : Bytes) (quoted : Bool) (separators : Bytes) (arguments : List Bytes) :
    List Piece :=
  if quoted ∧ name = ascii "*" then [.text (Bytes.join (separators.take 1) arguments) true]
  else (arguments.map (valuePieces quoted)).intersperse [.cut] |>.flatten

/-- The text of pieces that are not cut. -/
def pieceText (pieces : List Piece) : Bytes :=
  pieces.flatMap fun
    | .text s _ => s
    | .loose s => s
    | .cut => [32]

/-- The pattern that pieces are. -/
def pieceMarks (pieces : List Piece) : Marked :=
  pieces.flatMap fun
    | .text s quoted => s.map (·, quoted)
    | .loose s => s.map (·, false)
    | .cut => [(32, false)]

/-- The integer that the value of a variable writes. -/
def integerOf (s : Bytes) : Int :=
  let s := s.dropWhile fun b => b = 32 || b = 9
  if s.head? = some (byte '-') then -Arithmetic.constant (s.drop 1) else Arithmetic.constant s

/-- The value of an arithmetic expression. -/
def calculate (expression : Bytes) : Act Bytes := do
  let s ← get
  let lookup (name : Bytes) : Int := ((s.value? name).map integerOf).getD 0
  match Arithmetic.evaluate lookup expression with
  | .ok (n, assigned) =>
    assigned.reverse.forM fun (name, n) => modify (·.assign name (Bytes.ofInt n))
    return Bytes.ofInt n
  | .error message =>
    refuse (ascii "arithmetic expression: " ++ message ++ ascii ": \"" ++ expression ++ ascii "\"")

/-- Takes the line feeds away that a text ends with, and bytes that a variable cannot hold. -/
def outputText (s : Bytes) : Bytes :=
  ((s.filter (· ≠ 0)).reverse.dropWhile (· = Bytes.newline)).reverse

/-- Expands a part of a word. `capture` runs a script and gives its output; `fuel` bounds how
deep words stand in words. -/
def expandPart (capture : Bytes → Act Bytes) : Nat → Part → Act (List Piece)
  | 0, _ => throw .exhausted
  | fuel + 1, part => do
    let inner (quoted : Bool) (s : Bytes) : Act (List Piece) := do
      match wholeParts quoted s with
      | .ok w => return (← w.mapM (expandPart capture fuel)).flatten
      | .error message => refuse message
    match part with
    | .text s quoted => return [.text s quoted]
    | .output script quoted => return valuePieces quoted (outputText (← capture script))
    | .arithmetic expression quoted =>
      return valuePieces quoted (← calculate (pieceText (← inner true expression)))
    | .parameter name modifier quoted =>
      let s ← get
      let value := s.value? name
      let isAll := name = ascii "@" ∨ name = ascii "*"
      let pieces :=
        if isAll then argumentPieces name quoted s.separators s.arguments
        else valuePieces quoted (value.getD [])
      let isThere (orEmpty : Bool) : Bool := value.any fun v => !orEmpty || v ≠ []
      match modifier with
      | none =>
        if s.unsetFails ∧ value.isNone ∧ ¬ isAll then
          let message := if s.extended then ": unbound variable" else ": parameter not set"
          refuse (name ++ ascii message)
        return pieces
      | some (.length, _) => return valuePieces quoted (Bytes.ofNat (value.getD []).length)
      | some (.orDefault e, word) => if isThere e then return pieces else inner quoted word
      | some (.orAssigned e, word) =>
        if isThere e then return pieces
        let text := pieceText (← inner quoted word)
        modify (·.assign name text)
        return valuePieces quoted text
      | some (.orRefused e, word) =>
        if isThere e then return pieces
        let text := pieceText (← inner quoted word)
        let plain := if e then ascii "parameter not set or null" else ascii "parameter not set"
        refuse (name ++ ascii ": " ++ if text = [] then plain else text)
      | some (.ifPresent e, word) => if isThere e then inner quoted word else return []
      | some (.withoutEnd longest, word) =>
        let p := Pattern.ofBytes (pieceMarks (← inner false word))
        return valuePieces quoted (Pattern.withoutEnd longest p (value.getD []))
      | some (.withoutStart longest, word) =>
        let p := Pattern.ofBytes (pieceMarks (← inner false word))
        return valuePieces quoted (Pattern.withoutStart longest p (value.getD []))
      | some (.unknown, _) => refuse (ascii "Bad substitution")

/-- How deep words can stand in words. -/
def maxWordDepth : Nat := 50

/-- The pieces of a word. -/
def expandPieces (capture : Bytes → Act Bytes) (w : Word) : Act (List Piece) := do
  return (← w.mapM (expandPart capture maxWordDepth)).flatten

/-- The text of a word that is not cut into fields. -/
def expandText (capture : Bytes → Act Bytes) (w : Word) : Act Bytes := do
  return pieceText (← expandPieces capture w)

/-- Cuts text into fields. The field so far goes on in front; a separator that is no blank
always ends a field. -/
def looseFields (separators : Bytes) : Option Marked → Bytes → List Marked × Option Marked
  | current, [] => ([], current)
  | current, b :: rest =>
    if separators.contains b then
      let isBlank := b = 32 || b = 9 || b = 10
      let done := match current with
        | some f => [f]
        | none => if isBlank then [] else [[]]
      let (fields, last) := looseFields separators none rest
      (done ++ fields, last)
    else looseFields separators (some (current.getD [] ++ [(b, false)])) rest

/-- The fields of pieces. -/
def fields (separators : Bytes) : Option Marked → List Piece → List Marked
  | current, [] => current.toList
  | current, .text s quoted :: rest =>
    if s = [] ∧ ¬ quoted then fields separators current rest
    else fields separators (some (current.getD [] ++ s.map (·, quoted))) rest
  | current, .loose s :: rest =>
    let (done, current) := looseFields separators current s
    done ++ fields separators current rest
  | current, .cut :: rest => current.toList ++ fields separators none rest

/-- The byte order of texts. -/
def isAtMost : Bytes → Bytes → Bool
  | [], _ => true
  | _ :: _, [] => false
  | a :: s, b :: t => a < b || (a = b && isAtMost s t)

/-- Cuts marked text at slashes. -/
def components : Marked → List Marked
  | [] => [[]]
  | (b, quoted) :: rest =>
    if b = Path.slash then [] :: components rest
    else
      match components rest with
      | [] => [[(b, quoted)]]
      | c :: cs => ((b, quoted) :: c) :: cs

/-- The marked text has the marks of a pattern. -/
def hasMarks (f : Marked) : Bool := f.any fun (b, quoted) => !quoted && (ascii "*?[").contains b

/-- The paths that components of a pattern fit, with the text of the path so far. -/
def paths (m : Machine) : Bytes → List Marked → List Bytes
  | start, [] => [start]
  | start, c :: rest =>
    let separator := if rest.isEmpty then [] else [Path.slash]
    if hasMarks c then
      match m.locate (if start = [] then Path.here else start) with
      | .error _ => []
      | .ok l =>
        let p := Pattern.ofBytes c
        let isHidden (name : Bytes) : Bool :=
          name.head? = some (byte '.') && (c.head?.map (·.1)) ≠ some (byte '.')
        let names := (m.namesIn l).filter fun name => !isHidden name && Pattern.fits p name
        (names.mergeSort isAtMost).flatMap fun name => paths m (start ++ name ++ separator) rest
    else paths m (start ++ c.map (·.1) ++ separator) rest

/-- The texts that a field stands for. -/
def fieldTexts (s : Session) (f : Marked) : List Bytes :=
  let text := f.map (·.1)
  if s.withoutPatterns || !hasMarks f then [text]
  else
    match (paths s.machine [] (components f)).filter s.machine.isPresent with
    | [] => [text]
    | found => found

/-- The texts of a word. -/
def expandWord (capture : Bytes → Act Bytes) (w : Word) : Act (List Bytes) := do
  let pieces ← expandPieces capture w
  let s ← get
  return (fields s.separators none pieces).flatMap (fieldTexts s)

/-- The texts of words. -/
def expandWords (capture : Bytes → Act Bytes) (ws : List Word) : Act (List Bytes) := do
  return (← ws.mapM (expandWord capture)).flatten

/-- The pattern that a word is. -/
def expandPattern (capture : Bytes → Act Bytes) (w : Word) : Act (List Atom) := do
  return Pattern.ofBytes (pieceMarks (← expandPieces capture w))

end LuaToC.Shell
