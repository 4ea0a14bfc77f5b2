import LuaToC.Text.Bytes

/-! # Commands

A word of a shell script is not yet text: it is a list of parts, of which some stand for text
that is known only when the script runs. What stands inside `$(…)`, `$((…))` and `${…}` is kept
as it is written and is read when it is needed. -/
namespace LuaToC.Shell

/-- What is done with the value of a parameter. A Boolean says that an empty value counts as
none, or that the longest fitting piece is cut off. -/
inductive Modifier where
  | length
  | orDefault (orEmpty : Bool)
  | orAssigned (orEmpty : Bool)
  | orRefused (orEmpty : Bool)
  | ifPresent (orEmpty : Bool)
  | withoutEnd (longest : Bool)
  | withoutStart (longest : Bool)
  | unknown
  deriving DecidableEq

/-- A part of a word. A quoted part is neither split into fields nor used as a pattern. -/
inductive Part where
  | text (s : Bytes) (quoted : Bool)
  | parameter (name : Bytes) (modifier : Option (Modifier × Bytes)) (quoted : Bool)
  | output (script : Bytes) (quoted : Bool)
  | arithmetic (expression : Bytes) (quoted : Bool)

/-- A word of a script. -/
abbrev Word := List Part

/-- The text of a word that is written without quotation marks and stands for itself. -/
def Word.bare? : Word → Option Bytes
  | [.text s false] => some s
  | _ => none

/-- The text of a word with nothing put in for its parts. -/
def Word.written (w : Word) : Bytes :=
  w.flatMap fun
    | .text s _ => s
    | .parameter name _ _ => byte '$' :: name
    | .output script _ => script
    | .arithmetic expression _ => expression

/-- A part of the word is quoted. -/
def Word.isQuoted (w : Word) : Bool :=
  w.any fun
    | .text _ quoted => quoted
    | _ => false

/-- A word for a text that stands for itself. -/
def Word.quote (s : Bytes) : Word := [.text s true]

/-- What becomes of a descriptor; with `outputs`, both outputs go to the same file. -/
inductive Direction where
  | input
  | output
  | append
  | outputs
  | duplicate
  | document
  deriving DecidableEq

/-- A redirection of a descriptor to what a word names or, for a document, contains. -/
structure Redirect where
  descriptor : Nat
  direction : Direction
  target : Word

/-- A command. -/
inductive Command where
  | simple (line : Nat) (words : List Word) (redirects : List Redirect)
  | pipeline (negated : Bool) (stages : List Command)
  | both (first second : Command)
  | either (first second : Command)
  | sequence (list : List Command)
  | branch (condition body : Command) (otherwise : Option Command)
  | loop (negated : Bool) (condition body : Command)
  | each (name : Bytes) (words : Option (List Word)) (body : Command)
  | choice (subject : Word) (branches : List (List Word × Command))
  | subshell (body : Command)
  | background (body : Command)
  | redirected (line : Nat) (body : Command) (redirects : List Redirect)
  | definition (name : Bytes) (body : Command)
  deriving Inhabited

/-- Why a script is refused: the line and the wording. -/
structure Refusal where
  line : Nat
  message : Bytes

/-- The mark around text that stands for itself. -/
def apostrophe : UInt8 := 39

/-- The mark around text in which dollar signs keep their meaning. -/
def quoteMark : UInt8 := 34

/-- The mark around a script whose output is used. -/
def accent : UInt8 := 96

/-- The mark that takes the meaning of the next byte away. -/
def backslash : UInt8 := 92

/-- The brace that opens. -/
def openBrace : UInt8 := 123

/-- The brace that closes. -/
def closeBrace : UInt8 := 125

/-- A byte that a name can begin with. -/
def isNameStart (b : UInt8) : Bool :=
  (byte 'a' ≤ b && b ≤ byte 'z') || (byte 'A' ≤ b && b ≤ byte 'Z') || b = byte '_'

/-- A decimal digit. -/
def isDecimal (b : UInt8) : Bool := byte '0' ≤ b && b ≤ byte '9'

/-- A byte that can stand in a name. -/
def isNameByte (b : UInt8) : Bool := isNameStart b || isDecimal b

/-- The text is a name. -/
def isName (s : Bytes) : Bool := s.head?.any isNameStart && s.all isNameByte

/-- The number that decimal digits write. -/
def decimal (s : Bytes) : Nat := s.foldl (fun n b => 10 * n + (b.toNat - 48)) 0

end LuaToC.Shell
