import LuaToC.Shell.Grammar

/-! # Tokens

A script has tokens of four kinds: words, operators, ends of lines and redirections. The text of
a document that follows a line is read at the end of the line and belongs to the redirection that
announced it. -/
namespace LuaToC.Shell

/-- A token. A redirection has its descriptor if one is written; a document has a number. At
the end it is known whether the rest of the script is refused. -/
inductive Token where
  | word (w : Word)
  | operator (s : Bytes)
  | newline
  | redirection (descriptor : Option Nat) (operator : Bytes)
  | document (n : Nat)
  | finish (refusal : Option Bytes)

/-- A token with the line that it begins on. -/
structure Located where
  line : Nat
  token : Token

/-- The quotation marks that text is enclosed in. -/
inductive Quotes where
  | none
  | single
  | double

/-- Reads up to the byte that closes what has been opened, which is passed over, and gives the
text before and after it. Text in quotation marks closes nothing. -/
def enclosed (opening closing : UInt8) : Nat → Quotes → Bytes → Option (Bytes × Bytes)
  | _, _, [] => none
  | depth, .single, b :: rest => do
    let quotes := if b = apostrophe then .none else .single
    let (inner, rest) ← enclosed opening closing depth quotes rest
    return (b :: inner, rest)
  | depth, quotes, 92 :: b :: rest => do
    let (inner, rest) ← enclosed opening closing depth quotes rest
    return (92 :: b :: inner, rest)
  | depth, .double, b :: rest => do
    let quotes := if b = quoteMark then .none else .double
    let (inner, rest) ← enclosed opening closing depth quotes rest
    return (b :: inner, rest)
  | depth, .none, b :: rest =>
    if b = closing ∧ depth = 0 then some ([], rest)
    else do
      let depth := if b = closing then depth - 1 else if b = opening then depth + 1 else depth
      let quotes := if b = apostrophe then .single else if b = quoteMark then .double else .none
      let (inner, rest) ← enclosed opening closing depth quotes rest
      return (b :: inner, rest)

/-- Reads up to a grave accent. A backslash in front of another one, a dollar sign or a grave
accent is left out. -/
def accented : Bytes → Option (Bytes × Bytes)
  | [] => none
  | 92 :: b :: rest => do
    let (inner, rest) ← accented rest
    return (if b = 92 ∨ b = 36 ∨ b = 96 then b :: inner else 92 :: b :: inner, rest)
  | b :: rest =>
    if b = 96 then some ([], rest)
    else do
      let (inner, rest) ← accented rest
      return (b :: inner, rest)

/-- A parameter that is named by a single byte. -/
def isSpecial (b : UInt8) : Bool := (ascii "@*#?-$!").contains b || isDecimal b

/-- Reads the operator that follows the name of a parameter in braces. -/
def modifier (s : Bytes) : Modifier × Bytes :=
  let table : List (String × Modifier) :=
    [(":-", .orDefault true), (":=", .orAssigned true), (":?", .orRefused true),
     (":+", .ifPresent true), ("%%", .withoutEnd true), ("##", .withoutStart true),
     ("-", .orDefault false), ("=", .orAssigned false), ("?", .orRefused false),
     ("+", .ifPresent false), ("%", .withoutEnd false), ("#", .withoutStart false)]
  match table.find? fun (mark, _) => (ascii mark).isPrefixOf s with
  | some (mark, m) => (m, s.drop mark.length)
  | none => (.unknown, s)

/-- The parameter that is written between braces. -/
def braced (s : Bytes) (quoted : Bool) : Part :=
  let nameOf (s : Bytes) : Bytes :=
    match s with
    | [] => []
    | b :: _ =>
      if isNameStart b then s.takeWhile isNameByte
      else if isDecimal b then s.takeWhile isDecimal
      else if isSpecial b then [b]
      else []
  if s.head? = some (byte '#') ∧ 1 < s.length ∧ nameOf (s.drop 1) = s.drop 1 then
    .parameter (s.drop 1) (some (.length, [])) quoted
  else
    let name := nameOf s
    if name = [] then .parameter s (some (.unknown, [])) quoted
    else if name = s then .parameter name none quoted
    else .parameter name (some (modifier (s.drop name.length))) quoted

/-- How the bytes of a word are read: where the word ends, and whether it is quoted. -/
structure Mode where
  isEnd : UInt8 → Bool
  quoted : Bool

/-- A byte that separates words. -/
def isSeparator (b : UInt8) : Bool := (ascii " \t\n;&|<>()").contains b

/-- A word of a command. -/
def Mode.plain : Mode := ⟨isSeparator, false⟩

/-- Text in double quotation marks. -/
def Mode.double : Mode := ⟨(· = quoteMark), true⟩

/-- A whole text. -/
def Mode.whole (quoted : Bool) : Mode := ⟨fun _ => false, quoted⟩

/-- A backslash in front of the byte makes it stand for itself. -/
def Mode.isEscapable (m : Mode) (b : UInt8) : Bool :=
  !m.quoted || b = byte '$' || b = accent || b = backslash || m.isEnd b

/-- Puts a byte in front of a word. -/
def consByte (b : UInt8) (quoted : Bool) : Word → Word
  | .text s q :: rest =>
    if q = quoted then .text (b :: s) q :: rest else .text [b] quoted :: .text s q :: rest
  | w => .text [b] quoted :: w

/-- What a dollar sign introduces, and the text after it. -/
def dollar (quoted : Bool) (s : Bytes) : Except Bytes (Option Part × Bytes) :=
  match s with
  | [] => .ok (none, s)
  | b :: rest =>
    if b = byte '(' then
      match enclosed (byte '(') (byte ')') 0 .none rest with
      | none => .error (ascii "Syntax error: end of file unexpected (expecting \")\")")
      | some (inner, after) =>
        if inner.head? = some (byte '(') ∧ inner.getLast? = some (byte ')') then
          .ok (some (.arithmetic (inner.drop 1).dropLast quoted), after)
        else .ok (some (.output inner quoted), after)
    else if b = openBrace then
      match enclosed openBrace closeBrace 0 .none rest with
      | none => .error (ascii "Syntax error: Missing '\x7d'")
      | some (inner, after) => .ok (some (braced inner quoted), after)
    else if isNameStart b then
      .ok (some (.parameter (s.takeWhile isNameByte) none quoted), s.dropWhile isNameByte)
    else if isSpecial b then .ok (some (.parameter [b] none quoted), rest)
    else .ok (none, s)

/-- The parts stand for all arguments, and for no field if there are none. -/
def isAllArguments (w : Word) : Bool :=
  match w with
  | [.parameter name none _] => name = ascii "@"
  | _ => false

/-- Reads the parts of a word up to its end; `fuel` bounds the number of bytes. -/
def parts : Nat → Mode → Bytes → Except Bytes (Word × Bytes)
  | 0, _, s => .ok ([], s)
  | _, _, [] => .ok ([], [])
  | fuel + 1, m, b :: rest =>
    if m.isEnd b then .ok ([], b :: rest)
    else if b = backslash then
      match rest with
      | [] => .ok ([.text [b] true], [])
      | c :: after =>
        if c = Bytes.newline then parts fuel m after
        else if m.isEscapable c then do
          let (w, after) ← parts fuel m after
          return (consByte c true w, after)
        else do
          let (w, after) ← parts fuel m rest
          return (consByte b true w, after)
    else if b = byte '$' then do
      let (part, after) ← dollar m.quoted rest
      let (w, after) ← parts fuel m after
      match part with
      | some part => return (part :: w, after)
      | none => return (consByte b m.quoted w, after)
    else if b = accent then
      match accented rest with
      | none => .error (ascii "Syntax error: EOF in backquote substitution")
      | some (script, after) => do
        let (w, after) ← parts fuel m after
        return (.output script m.quoted :: w, after)
    else if m.quoted then do
      let (w, after) ← parts fuel m rest
      return (consByte b true w, after)
    else if b = apostrophe then
      let s := rest.takeWhile (· ≠ apostrophe)
      match rest.drop s.length with
      | [] => .error (ascii "Syntax error: Unterminated quoted string")
      | _ :: after => do
        let (w, after) ← parts fuel m after
        return (.text s true :: w, after)
    else if b = quoteMark then do
      let (inner, after) ← parts fuel .double rest
      match after with
      | [] => .error (ascii "Syntax error: Unterminated quoted string")
      | _ :: after =>
        let (w, after) ← parts fuel m after
        return ((if isAllArguments inner then inner else .text [] true :: inner) ++ w, after)
    else do
      let (w, after) ← parts fuel m rest
      return (consByte b false w, after)

/-- The parts of a whole text. -/
def wholeParts (quoted : Bool) (s : Bytes) : Except Bytes Word := do
  return (← parts (s.length + 1) (.whole quoted) s).1

/-- A document that has been announced: the line that ends it, whether its text stands for
itself, and whether tabs in front of its lines are left out. -/
structure Announced where
  delimiter : Bytes
  literal : Bool
  withoutTabs : Bool

/-- The lines of a document, each with its line feed, and the text after it. -/
def documentLines (a : Announced) : Nat → Bytes → List Bytes × Bytes
  | 0, s => ([], s)
  | _, [] => ([], [])
  | fuel + 1, s =>
    let line := s.takeWhile (· ≠ Bytes.newline)
    let rest := s.drop (line.length + 1)
    let text := if a.withoutTabs then line.dropWhile (· = 9) else line
    if text = a.delimiter then ([], rest)
    else
      let (lines, rest) := documentLines a fuel rest
      ((text ++ [Bytes.newline]) :: lines, rest)

/-- What has been read of a script. The tokens and the documents are in reverse order. -/
structure Scan where
  extended : Bool
  line : Nat
  tokens : List Located
  documents : List Word
  announcing : Option Bool
  announced : List Announced
  refusal : Option Refusal

/-- Adds a token. -/
def Scan.push (s : Scan) (t : Token) : Scan := { s with tokens := ⟨s.line, t⟩ :: s.tokens }

/-- Adds a word. One that names the end of a document announces it. -/
def Scan.pushWord (s : Scan) (w : Word) : Scan :=
  match s.announcing with
  | none => s.push (.word w)
  | some withoutTabs =>
    let n := s.documents.length + s.announced.length
    let a : Announced := ⟨w.written, w.isQuoted, withoutTabs⟩
    { s.push (.document n) with announcing := none, announced := s.announced ++ [a] }

/-- Refuses the script. -/
def Scan.refuse (s : Scan) (message : Bytes) : Scan :=
  { s with refusal := some ⟨s.line, message⟩ }

/-- Reads the documents that have been announced. -/
def Scan.readDocuments (s : Scan) (text : Bytes) : Scan × Bytes :=
  s.announced.foldl
    (fun (s, text) a =>
      let (lines, rest) := documentLines a (text.length + 1) text
      let body := lines.flatten
      let s := { s with line := s.line + lines.length + 1 }
      if a.literal then ({ s with documents := .quote body :: s.documents }, rest)
      else
        match wholeParts true body with
        | .ok w => ({ s with documents := w :: s.documents }, rest)
        | .error message => (s.refuse message, rest))
    ({ s with announced := [] }, text)

/-- The operators, those first that others begin with. -/
def operators (extended : Bool) : List Bytes :=
  ((if extended then ["&>", "<<<"] else []) ++
    ["&&", "||", ";;", "<<-", "<<", "<&", ">&", ">>", ">|", "<>", "<", ">", "&", "|", ";", "(",
     ")"]).map ascii

/-- Adds an operator. -/
def Scan.pushOperator (s : Scan) (descriptor : Option Nat) (op : Bytes) : Scan :=
  if op = ascii "<<" ∨ op = ascii "<<-" then
    { s.push (.redirection descriptor op) with announcing := some (op = ascii "<<-") }
  else if op.contains (byte '<') ∨ op.contains (byte '>') then
    s.push (.redirection descriptor op)
  else s.push (.operator op)

/-- The number of line feeds in a text. -/
def lineFeeds (s : Bytes) : Nat := s.countP (· = Bytes.newline)

/-- Reads a script; `fuel` bounds the number of tokens and gaps. -/
def Scan.run : Nat → Scan → Bytes → Scan
  | 0, s, _ => s
  | _, s, [] => (s.readDocuments []).1
  | fuel + 1, s, b :: rest =>
    if s.refusal.isSome then s
    else if b = 32 ∨ b = 9 then s.run fuel rest
    else if b = byte '#' then s.run fuel (rest.dropWhile (· ≠ Bytes.newline))
    else if b = Bytes.newline then
      let s := s.push .newline
      let (s, rest) := { s with line := s.line + 1 }.readDocuments rest
      s.run fuel rest
    else if b = backslash ∧ rest.head? = some Bytes.newline then
      { s with line := s.line + 1 }.run fuel (rest.drop 1)
    else
      match (operators s.extended).find? (·.isPrefixOf (b :: rest)) with
      | some op => (s.pushOperator none op).run fuel (rest.drop (op.length - 1))
      | none =>
        match parts (rest.length + 2) .plain (b :: rest) with
        | .error message => { s with line := s.line + lineFeeds rest }.refuse message
        | .ok (w, after) =>
          let isRedirected := after.head? = some (byte '<') ∨ after.head? = some (byte '>')
          let digits := (w.bare?.getD []).all isDecimal && w.bare?.isSome
          if isRedirected ∧ digits then
            match (operators s.extended).find? (·.isPrefixOf after) with
            | some op =>
              (s.pushOperator (some (decimal w.written)) op).run fuel (after.drop op.length)
            | none => s
          else
            let used := (b :: rest).take (rest.length + 1 - after.length)
            let s := s.pushWord w
            { s with line := s.line + lineFeeds used }.run fuel after

/-- The tokens of a script that begins on a line, with the documents in their places. -/
def scan (extended : Bool) (line : Nat) (script : Bytes) : List Located :=
  let s := Scan.run (script.length + 1) ⟨extended, line, [], [], none, [], none⟩ script
  let documents := s.documents.reverse
  let resolved (t : Located) : Located :=
    match t.token with
    | .document n => { t with token := .word (documents.getD n []) }
    | _ => t
  let last : Located :=
    match s.refusal with
    | none => ⟨s.line, .finish none⟩
    | some r => ⟨r.line, .finish (some r.message)⟩
  s.tokens.reverse.map resolved ++ [last]

end LuaToC.Shell
