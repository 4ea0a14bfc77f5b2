import LuaToC.Shell.Regex
import LuaToC.Shell.Tool

/-! # The search program

The program that prints the lines in which an expression is found. -/
namespace LuaToC.Shell.Tool

/-- An expression that stands for a text. -/
def literal (s : Bytes) : List (List Node) := [s.map fun b => .one (.byte b)]

/-- The texts in a line that an expression fits, one after the other; `fuel` bounds their
number. -/
def matched (anyCase : Bool) (r : List (List Node)) (line : Bytes) : Nat → Bytes → List Bytes
  | 0, _ => []
  | fuel + 1, s =>
    match Regex.find? anyCase r line s with
    | none => []
    | some m =>
      if m.inner = [] then
        match m.after with
        | [] => []
        | _ :: rest => matched anyCase r line fuel rest
      else m.inner :: matched anyCase r line fuel m.after

/-- Prints the lines that an expression is found in. -/
def grep (fixed extended : Bool) : Tool := fun name args =>
  withArguments "EFGcHhilnoqsvwx" "em" 2 name args fun a => do
    let (pattern, paths) := match a.value? 'e' with
      | some p => (p, a.operands)
      | none => (a.operands.headD [], a.operands.drop 1)
    let patterns := Bytes.splitOn Bytes.newline pattern
    let expressions : List (Option (List (List Node))) := patterns.map fun p =>
      if fixed || a.has 'F' then some (literal p)
      else Regex.parse? (extended || a.has 'E') p
    if a.operands = [] ∧ (a.value? 'e').isNone then
      report (ascii "Usage: grep [OPTION]... PATTERNS [FILE]...")
      report (ascii "Try 'grep --help' for more information.")
      return 2
    if expressions.any Option.isNone then
      report (name ++ ascii ": Invalid regular expression")
      return 2
    let wording (path : Bytes) (cause : Cause) : Bytes := plainWording name path cause
    let (found, succeeded) ←
      if a.has 's' then do
        let before := (← get).channels
        modify (·.connect 2 .nowhere)
        let r ← contents wording paths
        modify fun s => { s with channels := before }
        pure r
      else contents wording paths
    let isHit (line : Bytes) : Bool :=
      let hit := expressions.any fun e => e.any fun r =>
        match Regex.find? (a.has 'i') r line line with
        | some m => !a.has 'x' || (m.before = [] && m.after = [])
        | none => false
      hit != a.has 'v'
    let titled := (1 < paths.length || a.has 'H') && !a.has 'h'
    let title (path : Bytes) : Bytes := if titled then path ++ ascii ":" else []
    let rows : List (Bytes × List (Bytes × Nat)) := found.map fun (path, text) =>
      (path, ((lines text).zipIdx 1).filter fun (line, _) => isHit (chomp line))
    if !a.has 'q' then
      rows.forM fun (path, hits) => do
        if a.has 'l' then
          if hits ≠ [] then
            emit 1 ((if path = [] then ascii "(standard input)" else path) ++ [Bytes.newline])
        else if a.has 'c' then emit 1 (title path ++ Bytes.ofNat hits.length ++ [Bytes.newline])
        else if a.has 'o' then
          hits.forM fun (line, _) =>
            let found : List Bytes := (expressions.filterMap id).flatMap fun r =>
              matched (a.has 'i') r (chomp line) (line.length + 1) (chomp line)
            emit 1 (Bytes.unlines (found.map fun s => title path ++ s))
        else
          hits.forM fun (line, n) =>
            emit 1 (title path ++ (if a.has 'n' then Bytes.ofNat n ++ ascii ":" else []) ++
              chomp line ++ [Bytes.newline])
    let isFound := rows.any fun (_, hits) => hits ≠ []
    if a.has 'q' ∧ isFound then return 0
    if !succeeded then return 2
    return statusOf isFound

end LuaToC.Shell.Tool
