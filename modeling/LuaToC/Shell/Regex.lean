import LuaToC.Shell.Pattern

/-! # Regular expressions

Expressions for lines of text, in the basic and in the extended notation. -/
namespace LuaToC.Shell

/-- An element of a regular expression. Groups are numbered from one. -/
inductive Node where
  | one (a : Atom)
  | start
  | finish
  | group (n : Nat) (alternatives : List (List Node))
  | back (n : Nat)
  | times (node : Node) (least : Nat) (most : Option Nat)
  deriving Inhabited

namespace Regex

/-- The texts that groups stand for, the last one first. -/
abbrev Captures := List (Nat × Bytes)

/-- The sets of bytes that have a name. -/
def classes : List (String × List (UInt8 × UInt8)) :=
  [("[:alpha:]", [(65, 90), (97, 122)]), ("[:digit:]", [(48, 57)]),
   ("[:alnum:]", [(48, 57), (65, 90), (97, 122)]), ("[:upper:]", [(65, 90)]),
   ("[:lower:]", [(97, 122)]), ("[:space:]", [(9, 13), (32, 32)]),
   ("[:blank:]", [(9, 9), (32, 32)]),
   ("[:punct:]", [(33, 47), (58, 64), (91, 96), (123, 126)]),
   ("[:xdigit:]", [(48, 57), (65, 70), (97, 102)]), ("[:print:]", [(32, 126)]),
   ("[:graph:]", [(33, 126)]), ("[:cntrl:]", [(0, 31), (127, 127)])]

/-- The sets that are listed between brackets, up to the closing one. -/
def members : Nat → Bool → Bytes → Option (List (UInt8 × UInt8) × Bytes)
  | 0, _, _ => none
  | _, _, [] => none
  | fuel + 1, isFirst, b :: rest =>
    if b = byte ']' ∧ ¬ isFirst then some ([], rest)
    else
      match classes.find? fun (name, _) => (ascii name).isPrefixOf (b :: rest) with
      | some (name, set) => do
        let (more, after) ← members fuel false ((b :: rest).drop name.length)
        return (set ++ more, after)
      | none =>
        match rest with
        | 45 :: c :: after =>
          if c = byte ']' then do
            let (more, after) ← members fuel false rest
            return ((b, b) :: more, after)
          else do
            let (more, after) ← members fuel false after
            return ((b, c) :: more, after)
        | _ => do
          let (more, after) ← members fuel false rest
          return ((b, b) :: more, after)

/-- A set between brackets, of which the opening one has been read. -/
def set? (s : Bytes) : Option (Atom × Bytes) := do
  let negated := s.head? = some (byte '^')
  let s := if negated then s.drop 1 else s
  let (ranges, rest) ← members (s.length + 1) true s
  return (.oneOf negated ranges, rest)

/-- The bounds between braces, and the text after the closing mark. -/
def bounds? (closing s : Bytes) : Option (Nat × Option Nat × Bytes) :=
  let least := s.takeWhile isDecimal
  let rest := s.drop least.length
  if closing.isPrefixOf rest then
    some (decimal least, some (decimal least), rest.drop closing.length)
  else
    let most := (rest.drop 1).takeWhile isDecimal
    let after := rest.drop (most.length + 1)
    if rest.head? = some (byte ',') ∧ closing.isPrefixOf after then
      let most := if most = [] then none else some (decimal most)
      some (decimal least, most, after.drop closing.length)
    else none

/-- What is being read: the text, the number of groups so far. -/
structure Input where
  rest : Bytes
  groups : Nat

/-- A step that reads an expression. -/
abbrev Reader := StateT Input Option

/-- Passes over a mark if it comes next. -/
def accept (mark : String) : Reader Bool := do
  let s ← get
  if (ascii mark).isPrefixOf s.rest then
    set { s with rest := s.rest.drop mark.length }
    return true
  return false

/-- Puts the marks of repetition on a node. -/
def repeated (extended : Bool) : Nat → Node → Reader Node
  | 0, n => return n
  | fuel + 1, n => do
    if ← accept "*" then repeated extended fuel (.times n 0 none)
    else if ← accept (if extended then "+" else "\\+") then
      repeated extended fuel (.times n 1 none)
    else if ← accept (if extended then "?" else "\\?") then
      repeated extended fuel (.times n 0 (some 1))
    else if ← accept (if extended then "\x7b" else "\\\x7b") then
      let s ← get
      let closing := if extended then [closeBrace] else [backslash, closeBrace]
      let (least, most, rest) ← bounds? closing s.rest
      set { s with rest := rest }
      repeated extended fuel (.times n least most)
    else return n

/-- Reads an element. `whole` reads what stands in a group. -/
def element (extended : Bool) (whole : Reader (List (List Node))) (isFirst : Bool) :
    Reader Node := do
  if ← accept (if extended then "(" else "\\(") then
    modify fun s => { s with groups := s.groups + 1 }
    let n := (← get).groups
    let alternatives ← whole
    unless ← accept (if extended then ")" else "\\)") do failure
    return .group n alternatives
  if isFirst && (← accept "^") then return .start
  let s ← get
  match s.rest with
  | [] => failure
  | b :: rest =>
    let isLast := rest = [] || (ascii "\\)").isPrefixOf rest || (ascii "\\|").isPrefixOf rest ||
      (extended && (rest.head? = some (byte ')') || rest.head? = some (byte '|')))
    if b = byte '[' then
      let (a, rest) ← set? rest
      set { s with rest := rest }
      return .one a
    else if b = byte '$' ∧ isLast then
      set { s with rest := rest }
      return .finish
    else if b = byte '.' then
      set { s with rest := rest }
      return .one .any
    else if b = backslash then
      match rest with
      | [] => failure
      | c :: rest =>
        set { s with rest := rest }
        if byte '1' ≤ c ∧ c ≤ byte '9' then return .back (c.toNat - 48)
        else if c = byte 'n' then return .one (.byte 10)
        else if c = byte 't' then return .one (.byte 9)
        else return .one (.byte c)
    else
      set { s with rest := rest }
      return .one (.byte b)

/-- Reads the elements of an alternative. -/
def sequence (extended : Bool) (whole : Reader (List (List Node))) :
    Nat → Bool → Reader (List Node)
  | 0, _ => failure
  | fuel + 1, isFirst => do
    let s := (← get).rest
    let ends (marks : List String) : Bool := marks.any fun m => (ascii m).isPrefixOf s
    if s = [] || ends (if extended then [")", "|"] else ["\\)", "\\|"]) then return []
    let n ← element extended whole isFirst
    let n ← match n with
      | .start => pure n
      | n => repeated extended fuel n
    return n :: (← sequence extended whole fuel false)

/-- Reads alternatives; `fuel` bounds the number of their elements. -/
def alternatives (extended : Bool) : Nat → Reader (List (List Node))
  | 0 => failure
  | fuel + 1 => do
    let first ← sequence extended (alternatives extended fuel) (fuel + 1) true
    if ← accept (if extended then "|" else "\\|") then
      return first :: (← alternatives extended fuel)
    return [first]

/-- The expression that a text writes. -/
def parse? (extended : Bool) (s : Bytes) : Option (List (List Node)) := do
  let (r, final) ← (alternatives extended (2 * s.length + 2)).run ⟨s, 0⟩
  if final.rest = [] then some r else none

/-- A byte in lower case. -/
def lower (b : UInt8) : UInt8 := if 65 ≤ b ∧ b ≤ 90 then b + 32 else b

/-- How a match goes on, with the text that is left. -/
abbrev Rest := Bytes → Captures → Option (Bytes × Captures)

/-- Fits nodes to the start of a text, as much of it as possible, and goes on with what is left.
`length` is the length of the whole line; `fuel` bounds the number of steps. -/
def go (anyCase : Bool) (length : Nat) : Nat → List Node → Bytes → Captures → Rest →
    Option (Bytes × Captures)
  | 0, _, _, _, _ => none
  | _, [], s, captures, k => k s captures
  | fuel + 1, node :: more, s, captures, k =>
    match node with
    | .one a =>
      match s with
      | [] => none
      | b :: rest =>
        let isFit := Pattern.fitsByte a b || (anyCase && (Pattern.fitsByte a (lower b) ||
          Pattern.fitsByte a (if 97 ≤ b && b ≤ 122 then b - 32 else b)))
        if isFit then go anyCase length fuel more rest captures k else none
    | .start => if s.length = length then go anyCase length fuel more s captures k else none
    | .finish => if s = [] then go anyCase length fuel more s captures k else none
    | .back n =>
      let text := (captures.lookup n).getD []
      if text.isPrefixOf s then go anyCase length fuel more (s.drop text.length) captures k
      else none
    | .group n choices =>
      choices.findSome? fun choice =>
        go anyCase length fuel choice s captures fun rest captures =>
          go anyCase length fuel more rest ((n, s.take (s.length - rest.length)) :: captures) k
    | .times n least most =>
      let again :=
        if most = some 0 then none
        else
          go anyCase length fuel [n] s captures fun rest captures =>
            if rest.length = s.length then none
            else
              go anyCase length fuel (.times n (least - 1) (most.map (· - 1)) :: more) rest
                captures k
      match again with
      | some found => some found
      | none => if least = 0 then go anyCase length fuel more s captures k else none

/-- A match in a line: the text before, in and after it, and the groups. -/
structure Match where
  before : Bytes
  inner : Bytes
  after : Bytes
  captures : Captures

/-- The first match in what is left of a line. -/
def find? (anyCase : Bool) (r : List (List Node)) (line s : Bytes) : Option Match :=
  (Pattern.suffixes s).findSome? fun rest =>
    r.findSome? fun nodes =>
      (go anyCase line.length (20 * line.length + 1000) nodes rest [] fun s c => some (s, c)).map
        fun (after, captures) =>
          ⟨s.take (s.length - rest.length), rest.take (rest.length - after.length), after, captures⟩

end Regex
end LuaToC.Shell
