import LuaToC.Shell.Regex
import LuaToC.Shell.Tool

/-! # The line editor

The program that edits lines as a script of its own says: it deletes them, prints them and
replaces what an expression fits. -/
namespace LuaToC.Shell.Tool

/-- Where a command of an editing script applies. -/
inductive Address where
  | always
  | line (n : Nat)
  | last
  | hit (r : List (List Node))

/-- A command of an editing script. -/
inductive Edit where
  | delete
  | print
  | quit
  | substitute (r : List (List Node)) (replacement : Bytes) (every printed anyCase : Bool)

/-- A command with the lines that it applies to. -/
structure EditLine where
  first : Address
  second : Option Address
  negated : Bool
  edit : Edit

/-- Reads up to a delimiter; one with a backslash in front does not count. -/
def delimited (d : UInt8) : Bytes → Option (Bytes × Bytes)
  | [] => none
  | 92 :: b :: rest => do
    let (s, rest) ← delimited d rest
    return (if b = d then b :: s else 92 :: b :: s, rest)
  | b :: rest =>
    if b = d then some ([], rest)
    else do
      let (s, rest) ← delimited d rest
      return (b :: s, rest)

/-- Reads an address, if there is one. -/
def address? (extended : Bool) (s : Bytes) : Option (Address × Bytes) :=
  match s with
  | [] => none
  | b :: rest =>
    if isDecimal b then some (.line (decimal (s.takeWhile isDecimal)), s.dropWhile isDecimal)
    else if b = byte '$' then some (.last, rest)
    else if b = byte '/' then do
      let (p, rest) ← delimited b rest
      return (.hit (← Regex.parse? extended p), rest)
    else none

/-- Reads the lines that a command applies to: all of them, one, or those from one to another. -/
def addresses? (extended : Bool) (s : Bytes) : Option (Address × Option Address × Bytes) :=
  match address? extended s with
  | none => some (.always, none, s)
  | some (first, rest) =>
    if rest.head? = some (byte ',') then do
      let (second, rest) ← address? extended (rest.drop 1)
      return (first, some second, rest)
    else some (first, none, rest)

/-- Reads a command of an editing script, and gives the text after it. -/
def editLine? (extended : Bool) (s : Bytes) : Option (EditLine × Bytes) := do
  let (first, second, s) ← addresses? extended s
  let s := s.dropWhile (· = 32)
  let negated := s.head? = some (byte '!')
  match if negated then s.drop 1 else s with
  | [] => none
  | c :: rest =>
    if c = byte 'd' then return (⟨first, second, negated, .delete⟩, rest)
    else if c = byte 'p' then return (⟨first, second, negated, .print⟩, rest)
    else if c = byte 'q' then return (⟨first, second, negated, .quit⟩, rest)
    else if c = byte 's' then do
      let d ← rest.head?
      let (p, rest) ← delimited d (rest.drop 1)
      let (replacement, rest) ← delimited d rest
      let flags := rest.takeWhile (ascii "gpIi").contains
      let r ← Regex.parse? extended p
      let edit : Edit := .substitute r replacement (flags.contains (byte 'g'))
        (flags.contains (byte 'p')) (flags.contains (byte 'i') || flags.contains (byte 'I'))
      return (⟨first, second, negated, edit⟩, rest.drop flags.length)
    else none

/-- Reads an editing script; `fuel` bounds the number of its commands. -/
def editLines? (extended : Bool) : Nat → Bytes → Option (List EditLine)
  | 0, _ => none
  | fuel + 1, s =>
    match s.dropWhile fun b => b = 32 || b = 10 || b = byte ';' with
    | [] => some []
    | s => do
      let (e, rest) ← editLine? extended s
      return e :: (← editLines? extended fuel rest)

/-- Puts a match and its groups into a replacement. -/
def replaced (m : Regex.Match) : Bytes → Bytes
  | [] => []
  | 92 :: c :: rest =>
    (if c = byte '0' then m.inner
      else if isDecimal c then (m.captures.lookup (c.toNat - 48)).getD []
      else if c = byte 'n' then [10]
      else if c = byte 't' then [9]
      else [c]) ++ replaced m rest
  | b :: rest => (if b = byte '&' then m.inner else [b]) ++ replaced m rest

/-- Replaces matches in a line; `fuel` bounds their number. -/
def substituted (r : List (List Node)) (replacement : Bytes) (every anyCase : Bool) (line : Bytes) :
    Nat → Bytes → Option Bytes
  | 0, _ => none
  | fuel + 1, s => do
    let m ← Regex.find? anyCase r line s
    let start := m.before ++ replaced m replacement
    if !every then return start ++ m.after
    match m.inner, m.after with
    | [], [] => return start
    | [], b :: rest =>
      return start ++ b :: (substituted r replacement every anyCase line fuel rest).getD rest
    | _, after =>
      if after = [] then return start
      return start ++ (substituted r replacement every anyCase line fuel after).getD after

/-- What has become of a line: its text, what is printed besides, and whether it is deleted or
the last one. -/
structure Edited where
  text : Bytes
  extra : List Bytes
  deleted : Bool
  ended : Bool

/-- Applies the commands of an editing script to a line. `active` lists for each command whether
a range that it applies to is open, and the new list is given as well. -/
def edited (n : Nat) (isLast : Bool) : List (EditLine × Bool) → Edited → Edited × List Bool
  | [], e => (e, [])
  | (c, active) :: rest, e =>
    if e.deleted || e.ended then (e, active :: rest.map (·.2))
    else
      let holds (a : Address) : Bool := match a with
        | .always => true
        | .line k => k = n
        | .last => isLast
        | .hit r => (Regex.find? false r e.text e.text).isSome
      let (applies, active) := match c.second with
        | none => (holds c.first, false)
        | some second =>
          if active then
            let isPast := match second with
              | .line k => k < n
              | _ => false
            (!isPast, !holds second && !isPast)
          else if holds c.first then
            let closes := match second with
              | .line k => k ≤ n
              | .last => isLast
              | _ => false
            (true, !closes)
          else (false, false)
      let e :=
        if applies == c.negated then e
        else
          match c.edit with
          | .delete => { e with deleted := true }
          | .print => { e with extra := e.extra ++ [e.text] }
          | .quit => { e with ended := true }
          | .substitute r replacement every printed anyCase =>
            match substituted r replacement every anyCase e.text (e.text.length + 2) e.text with
            | none => e
            | some text =>
              { e with text := text, extra := if printed then e.extra ++ [text] else e.extra }
      let (e, more) := edited n isLast rest e
      (e, active :: more)

/-- Edits lines one after the other. -/
def editAll (quiet : Bool) (script : List EditLine) : Nat → List Bool → List Bytes → Bytes
  | _, _, [] => []
  | n, active, line :: rest =>
    let (e, active) := edited n rest.isEmpty (script.zip active) ⟨chomp line, [], false, false⟩
    let ending := line.drop (chomp line).length
    let printed := e.extra ++ if quiet || e.deleted then [] else [e.text]
    let text := Bytes.join [Bytes.newline] printed ++ if printed = [] then [] else ending
    text ++ if e.ended then [] else editAll quiet script (n + 1) active rest

/-- The script of an editing program, and the operands that are files. -/
def editScript (a : Arguments) : Bytes × List Bytes :=
  let given := (a.options.filter fun o => o.1 = byte 'e').map fun o => o.2
  if given = [] then (a.operands.headD [], a.operands.drop 1)
  else (Bytes.join [Bytes.newline] given, a.operands)

/-- Edits lines as a script says. -/
def sed : Tool := fun name args =>
  withArguments "nErsu" "e" 1 name args fun a => do
    let (script, paths) := editScript a
    match editLines? (a.has 'E' || a.has 'r') (script.length + 1) script with
    | none =>
      report (name ++ ascii ": -e expression #1, char 1: unknown command")
      return 1
    | some commands =>
      let wording (path : Bytes) (cause : Cause) : Bytes :=
        name ++ ascii ": can't read " ++ path ++ ascii ": " ++ causeText cause
      let (found, succeeded) ← contents wording paths
      let text : List Bytes := found.flatMap fun f => lines f.2
      emit 1 (editAll (a.has 'n') commands 1 (commands.map fun _ => false) text)
      return if succeeded then 0 else 2

end LuaToC.Shell.Tool
