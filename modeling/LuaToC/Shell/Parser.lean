import LuaToC.Shell.Token

/-! # Reading commands

A script is read command by command, and each is run before the next is read: what is wrong
further down does not matter before it is reached. -/
namespace LuaToC.Shell

/-- A step that reads tokens. -/
abbrev Parser := StateT (List Located) (Except Refusal)

namespace Parser

/-- The words that have a meaning where a command begins. -/
def reservedWords : List Bytes :=
  ["!", "\x7b", "\x7d", "case", "do", "done", "elif", "else", "esac", "fi", "for", "if", "in",
   "then", "until", "while"].map ascii

/-- The words that end a list of commands. -/
def closingWords : List Bytes :=
  ["\x7d", "do", "done", "elif", "else", "esac", "fi", "then"].map ascii

/-- The next token. -/
def peek : Parser Located := do
  match ← get with
  | [] => return ⟨0, .finish none⟩
  | t :: _ => return t

/-- Passes over a token. -/
def advance : Parser Unit := modify List.tail

/-- The wording of a token in a refusal. -/
def describe : Token → Bytes
  | .finish _ => ascii "end of file"
  | .newline => ascii "newline"
  | .redirection _ _ => ascii "redirection"
  | .operator s => quoteMark :: s ++ [quoteMark]
  | .document _ => ascii "word"
  | .word w =>
    match w.bare? with
    | some s => if reservedWords.contains s then quoteMark :: s ++ [quoteMark] else ascii "word"
    | none => ascii "word"

/-- Refuses the next token; `expected` would have been right. -/
def unexpected {α : Type} (expected : Option Bytes) : Parser α := do
  let t ← peek
  match t.token with
  | .finish (some message) => throw ⟨t.line, message⟩
  | _ =>
    let hint := match expected with
      | none => []
      | some s => ascii " (expecting \"" ++ s ++ ascii "\")"
    throw ⟨t.line, ascii "Syntax error: " ++ describe t.token ++ ascii " unexpected" ++ hint⟩

/-- The token is the word, without quotation marks. -/
def isWord (t : Token) (s : String) : Bool :=
  match t with
  | .word w => w.bare? = some (ascii s)
  | _ => false

/-- The token is the operator. -/
def isOperator (t : Token) (s : String) : Bool :=
  match t with
  | .operator op => op = ascii s
  | _ => false

/-- The token ends a list of commands. -/
def isClosing : Token → Bool
  | .finish _ => true
  | .operator op => op = ascii ")" || op = ascii ";;"
  | .word w => w.bare?.any closingWords.contains
  | _ => false

/-- Passes over the token if it is the word or the operator. -/
def accept (s : String) : Parser Bool := do
  let t := (← peek).token
  if isWord t s || isOperator t s then
    advance
    return true
  return false

/-- Passes over the word or operator, which has to come next. -/
def expect (s : String) : Parser Unit := do
  unless ← accept s do unexpected (some (ascii s))

/-- Reads as long as there is something more; `fuel` bounds how much. -/
def gather {α : Type} (next : Parser (Option α)) : Nat → Parser (List α)
  | 0 => return []
  | fuel + 1 => do
    match ← next with
    | none => return []
    | some a => return a :: (← gather next fuel)

/-- Reads as long as there is something more. -/
def many {α : Type} (next : Parser (Option α)) : Parser (List α) := do
  gather next ((← get).length + 1)

/-- Passes over ends of lines. -/
def skipNewlines : Parser Unit := modify fun ts =>
  ts.dropWhile fun t => match t.token with
    | .newline => true
    | _ => false

/-- Reads a redirection if there is one. -/
def redirect? : Parser (Option Redirect) := do
  match (← peek).token with
  | .redirection descriptor op =>
    advance
    match (← peek).token with
    | .word w =>
      advance
      let isInput := op.head? = some (byte '<')
      let direction : Direction :=
        if op = ascii "<<" ∨ op = ascii "<<-" ∨ op = ascii "<<<" then .document
        else if op = ascii ">>" then .append
        else if op = ascii "&>" then .outputs
        else if op = ascii "<&" ∨ op = ascii ">&" then .duplicate
        else if isInput then .input
        else .output
      let w := if op = ascii "<<<" then w ++ [.text [Bytes.newline] true] else w
      return some ⟨descriptor.getD (if isInput then 0 else 1), direction, w⟩
    | _ => unexpected none
  | _ => return none

/-- A word or a redirection of a simple command. -/
def item? : Parser (Option (Word ⊕ Redirect)) := do
  match (← peek).token with
  | .word w =>
    advance
    return some (.inl w)
  | .redirection _ _ =>
    match ← redirect? with
    | some r => return some (.inr r)
    | none => return none
  | _ => return none

/-- Reads a simple command. -/
def simple : Parser Command := do
  let line := (← peek).line
  let items ← many item?
  let words := items.filterMap fun
    | .inl w => some w
    | .inr _ => none
  let redirects := items.filterMap fun
    | .inl _ => none
    | .inr r => some r
  return .simple line words redirects

/-- Reads a word if there is one. -/
def word? : Parser (Option Word) := do
  match (← peek).token with
  | .word w =>
    advance
    return some w
  | _ => return none

/-- Passes over what may stand between the head of a loop and its body. -/
def skipSeparators : Parser Unit := do
  discard (accept ";")
  skipNewlines

/-- Reads what follows the word `if`, up to the end of the command. -/
def conditional (list : Parser Command) : Nat → Parser Command
  | 0 => unexpected none
  | fuel + 1 => do
    let condition ← list
    expect "then"
    let body ← list
    if ← accept "elif" then return .branch condition body (some (← conditional list fuel))
    if ← accept "else" then
      let otherwise ← list
      expect "fi"
      return .branch condition body (some otherwise)
    expect "fi"
    return .branch condition body none

/-- Reads one of the cases of a choice, if there is one. -/
def case? (list : Parser Command) : Parser (Option (List Word × Command)) := do
  skipNewlines
  if ← accept "esac" then return none
  discard (accept "(")
  let some first ← word? | unexpected (some (ascii ")"))
  let others ← many do
    if ← accept "|" then
      let some w ← word? | unexpected none
      return some w
    return none
  expect ")"
  skipNewlines
  let t := (← peek).token
  let body ← if isOperator t ";;" || isWord t "esac" then pure (.sequence []) else list
  unless ← accept ";;" do
    unless isWord (← peek).token "esac" do unexpected (some (ascii ";;"))
  return some (first :: others, body)

/-- Reads what follows the word `for`. -/
def iteration (list : Parser Command) : Parser Command := do
  let refusal : Refusal := ⟨(← peek).line, ascii "Syntax error: Bad for loop variable"⟩
  let some w ← word? | throw refusal
  let some name := w.bare? | throw refusal
  unless isName name do throw refusal
  skipNewlines
  let words ← if ← accept "in" then pure (some (← many word?)) else pure none
  skipSeparators
  expect "do"
  let body ← list
  expect "done"
  return .each name words body

/-- Reads a command that contains others, which begins with a reserved word or a bracket. -/
def compound? (list : Parser Command) : Parser (Option Command) := do
  if ← accept "(" then
    let body ← list
    expect ")"
    return some (.subshell body)
  if ← accept "\x7b" then
    let body ← list
    expect "\x7d"
    return some body
  if ← accept "if" then return some (← conditional list ((← get).length + 1))
  if ← accept "for" then return some (← iteration list)
  let isUntil := isWord (← peek).token "until"
  if isUntil || isWord (← peek).token "while" then
    advance
    let condition ← list
    expect "do"
    let body ← list
    expect "done"
    return some (.loop isUntil condition body)
  if ← accept "case" then
    let some subject ← word? | unexpected none
    skipNewlines
    expect "in"
    return some (.choice subject (← many (case? list)))
  return none

/-- The name of the function that is defined here, if one is. -/
def definition? : Parser (Option Bytes) := do
  match ← get with
  | ⟨_, .word w⟩ :: ⟨_, .operator p⟩ :: ⟨_, .operator q⟩ :: rest =>
    match w.bare? with
    | some name =>
      if p = ascii "(" ∧ q = ascii ")" then
        set rest
        return some name
      return none
    | none => return none
  | _ => return none

/-- Reads a command. -/
def command (list : Parser Command) : Parser Command := do
  let start ← peek
  match ← compound? list with
  | some c =>
    let redirects ← many redirect?
    return if redirects.isEmpty then c else .redirected start.line c redirects
  | none =>
    if isClosing start.token || isWord start.token "!" then unexpected none
    match start.token with
    | .word _ | .redirection _ _ =>
      match ← definition? with
      | some name =>
        skipNewlines
        match ← compound? list with
        | some body => return .definition name body
        | none => return .definition name (← simple)
      | none => simple
    | _ => unexpected none

/-- Reads commands that are joined by pipes. -/
def pipeline (list : Parser Command) : Parser Command := do
  let negated ← accept "!"
  let first ← command list
  let others ← many do
    if ← accept "|" then
      skipNewlines
      return some (← command list)
    return none
  if others.isEmpty && !negated then return first
  return .pipeline negated (first :: others)

/-- Reads pipelines of which each decides whether the next one runs. -/
def chain (list : Parser Command) : Parser Command := do
  let first ← pipeline list
  let others ← many do
    if ← accept "&&" then
      skipNewlines
      return some (true, ← pipeline list)
    if ← accept "||" then
      skipNewlines
      return some (false, ← pipeline list)
    return none
  return others.foldl (fun c (both, d) => if both then .both c d else .either c d) first

/-- Reads pipelines that depend on each other, which may run while the script goes on. The mark
for that separates them from the next ones. -/
def item (list : Parser Command) : Parser Command := do
  let c ← chain list
  return if isOperator (← peek).token "&" then .background c else c

/-- Reads commands up to a token that closes them. At least one has to be there, unless the
script ends. -/
def list : Nat → Parser Command
  | 0 => unexpected none
  | fuel + 1 => do
    skipNewlines
    if let .finish none := (← peek).token then return .sequence []
    let first ← item (list fuel)
    let others ← many do
      let t := (← peek).token
      let isEnd := match t with
        | .newline => true
        | t => isOperator t ";" || isOperator t "&"
      unless isEnd do return none
      advance
      skipNewlines
      if isClosing (← peek).token then return none
      return some (← item (list fuel))
    return .sequence (first :: others)

/-- Reads the commands of one line, if there are more lines. -/
def line? : Parser (Option Command) := do
  skipNewlines
  match (← peek).token with
  | .finish none => return none
  | _ =>
    let deep := list ((← get).length + 1)
    let first ← item deep
    let others ← many do
      let t := (← peek).token
      unless isOperator t ";" || isOperator t "&" do return none
      advance
      match (← peek).token with
      | .newline | .finish none => return none
      | _ => return some (← item deep)
    match (← peek).token with
    | .newline | .finish none => return some (.sequence (first :: others))
    | _ => unexpected none

end Parser
end LuaToC.Shell
