import LuaToC.Shell.Grammar

/-! # Patterns

Patterns are for texts and names of files. A byte of a pattern that is quoted stands for itself. -/
namespace LuaToC.Shell

/-- An element of a pattern. -/
inductive Atom where
  | byte (b : UInt8)
  | any
  | many
  | oneOf (negated : Bool) (ranges : List (UInt8 × UInt8))
  deriving DecidableEq

namespace Pattern

/-- The ranges that are listed between brackets. -/
def ranges : Bytes → List (UInt8 × UInt8)
  | a :: 45 :: b :: rest => (a, b) :: ranges rest
  | a :: rest => (a, a) :: ranges rest
  | [] => []

/-- What is listed between brackets, and the pattern after the closing one. -/
def bracket? (p : List (UInt8 × Bool)) : Option (Atom × List (UInt8 × Bool)) :=
  let negated := p.head?.any fun (b, quoted) => !quoted && (b = byte '!' || b = byte '^')
  let p := if negated then p.drop 1 else p
  let isClosing (x : UInt8 × Bool) : Bool := x.1 = byte ']' && !x.2
  let inner := p.take 1 ++ (p.drop 1).takeWhile (!isClosing ·)
  match p.drop inner.length with
  | [] => none
  | _ :: rest => if p.isEmpty then none else some (.oneOf negated (ranges (inner.map (·.1))), rest)

/-- The elements of a pattern, each of whose bytes is quoted or not. -/
def atoms : Nat → List (UInt8 × Bool) → List Atom
  | 0, _ => []
  | _, [] => []
  | fuel + 1, (b, quoted) :: rest =>
    if quoted then .byte b :: atoms fuel rest
    else if b = byte '*' then .many :: atoms fuel rest
    else if b = byte '?' then .any :: atoms fuel rest
    else if b = byte '[' then
      match bracket? rest with
      | some (a, rest) => a :: atoms fuel rest
      | none => .byte b :: atoms fuel rest
    else .byte b :: atoms fuel rest

/-- The pattern that bytes write. -/
def ofBytes (p : List (UInt8 × Bool)) : List Atom := atoms p.length p

/-- The element stands for the byte. -/
def fitsByte (a : Atom) (b : UInt8) : Bool :=
  match a with
  | .byte c => b = c
  | .any | .many => true
  | .oneOf negated ranges => (ranges.any fun (x, y) => x ≤ b && b ≤ y) != negated

/-- The texts that are left when some bytes are taken away in front, the longest first. -/
def suffixes : Bytes → List Bytes
  | [] => [[]]
  | b :: rest => (b :: rest) :: suffixes rest

/-- The pattern fits all of the text. -/
def fits : List Atom → Bytes → Bool
  | [], s => s.isEmpty
  | .many :: p, s => (suffixes s).any fun rest => fits p rest
  | a :: p, b :: s => fitsByte a b && fits p s
  | _ :: _, [] => false

/-- The text without a piece at its end that the pattern fits. -/
def withoutEnd (longest : Bool) (p : List Atom) (s : Bytes) : Bytes :=
  let pieces := suffixes s
  let pieces := if longest then pieces else pieces.reverse
  match pieces.find? (fits p) with
  | some piece => s.take (s.length - piece.length)
  | none => s

/-- The text without a piece at its start that the pattern fits. -/
def withoutStart (longest : Bool) (p : List Atom) (s : Bytes) : Bytes :=
  let rests := suffixes s
  let rests := if longest then rests.reverse else rests
  match rests.find? fun rest => fits p (s.take (s.length - rest.length)) with
  | some rest => rest
  | none => s

end Pattern
end LuaToC.Shell
