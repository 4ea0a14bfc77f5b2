import LuaToC.Toml.Scalar

/-! # Lines of a TOML document

Reading the lines of a TOML document. -/
namespace LuaToC.Toml

/-- Passes over blanks, line ends and comments. -/
def skip (inComment : Bool) : Bytes → Bytes
  | [] => []
  | b :: rest =>
    if inComment then skip (!isLineEnd b) rest
    else if isBlank b || isLineEnd b then skip false rest
    else if b = byte '#' then skip true rest
    else b :: rest

/-- What follows the end of a line, where only blanks and a comment may stand before it. -/
def lineEnd (s : Bytes) : Option Bytes :=
  match s.dropWhile isBlank with
  | [] => some []
  | b :: rest =>
    if b = byte '#' then some (rest.dropWhile (!isLineEnd ·))
    else if isLineEnd b then some rest
    else none

/-- A key with the sign that follows it. -/
def keyWith (sign : Char) : Step Key := fun s => do
  let (k, rest) ← key s
  match rest with
  | b :: rest => if b = byte sign then return (k, rest) else none
  | [] => none

/-- What follows an element: the closing bracket, or a comma and further elements. -/
def following {α : Type} (close : Char) (more : Step (List α)) : Step (List α) := fun s =>
  match skip false s with
  | [] => none
  | b :: rest =>
    if b = byte close then some ([], rest)
    else if b = byte ',' then more rest
    else none

mutual

/-- Reads a value. `fuel` bounds the nesting and the lengths of arrays and inline tables. -/
def value : Nat → Step Value
  | 0, _ => none
  | fuel + 1, s =>
    match s.dropWhile isBlank with
    | [] => none
    | b :: rest =>
      if b = byte '[' then do
        let (items, rest) ← values fuel rest
        return (.array items, rest)
      else if b = byte '\x7b' then do
        let (ps, rest) ← pairs fuel rest
        return (.table ps, rest)
      else if b = quote ∨ b = apostrophe then do
        let (t, rest) ← text (b :: rest)
        return (.text t, rest)
      else scalar (b :: rest)

/-- Reads the rest of an array. A comma may follow the last element. -/
def values : Nat → Step (List Value)
  | 0, _ => none
  | fuel + 1, s =>
    match skip false s with
    | [] => none
    | b :: rest =>
      if b = byte ']' then some ([], rest)
      else do
        let (v, rest) ← value fuel (b :: rest)
        let (more, rest) ← following ']' (values fuel) rest
        return (v :: more, rest)

/-- Reads the rest of an inline table. -/
def pairs : Nat → Step (List (Key × Value))
  | 0, _ => none
  | fuel + 1, s =>
    match skip false s with
    | [] => none
    | b :: rest =>
      if b = byte '\x7d' then some ([], rest)
      else do
        let (k, rest) ← keyWith '=' (b :: rest)
        let (v, rest) ← value fuel rest
        let (more, rest) ← following '\x7d' (pairs fuel) rest
        return ((k, v) :: more, rest)

end

/-- Reads one line, without the end of it. -/
def statement : Step Statement := fun s =>
  if s.take 2 = ascii "[[" then do
    let (k, rest) ← keyWith ']' (s.drop 2)
    if rest.head? = some (byte ']') then return (.element k, rest.drop 1) else none
  else if s.take 1 = ascii "[" then do
    let (k, rest) ← keyWith ']' (s.drop 1)
    return (.table k, rest)
  else do
    let (k, rest) ← keyWith '=' s
    let (v, rest) ← value (2 * rest.length + 2) rest
    return (.pair k v, rest)

/-- Reads the lines of a document, at most `fuel` of them. -/
def lines : Nat → Bytes → Option (List Statement)
  | 0, _ => none
  | fuel + 1, s =>
    match skip false s with
    | [] => some []
    | b :: rest => do
      let (line, rest) ← statement (b :: rest)
      let more ← lines fuel (← lineEnd rest)
      return line :: more

/-- The lines of a document. -/
def statements (s : Bytes) : Option (List Statement) :=
  let s := withoutMark s
  if isPlain s then lines (s.length + 1) s else none

end LuaToC.Toml
