import LuaToC.Toml.Reader

/-! # TOML documents

The tables of a document are put together from its lines. A key is defined once, with two
exceptions: a table that was only implied by a longer key may be defined afterwards, and dotted
keys may add to any table, or make one of a key that held an array. -/
namespace LuaToC.Toml

/-- What a key stands for: a plain value, a table, or an array of tables, of which the last
is the one that is added to. -/
inductive Node where
  | leaf (v : Value)
  | table (entries : List (Bytes × Node))
  | tables (elements : List (List (Bytes × Node)))

/-- A table: its keys in the order in which they came. -/
abbrev Table := List (Bytes × Node)

namespace Table

/-- Puts a node in place of the one with the same key, or at the end. -/
def put (k : Bytes) (n : Node) : Table → Table
  | [] => [(k, n)]
  | (k', n') :: rest => if k' = k then (k, n) :: rest else (k', n') :: put k n rest

/-- The table that a path of keys leads to, through the last elements of arrays. -/
def find? : Key → Table → Option Table
  | [], t => some t
  | k :: ks, t =>
    match List.lookup k t with
    | some (.table sub) => find? ks sub
    | some (.tables elements) => elements.getLast?.bind (find? ks)
    | _ => none

/-- Changes the table that a path leads to. -/
def modify (f : Table → Table) : Key → Table → Option Table
  | [], t => some (f t)
  | k :: ks, t =>
    match List.lookup k t with
    | some (.table sub) => do return t.put k (.table (← modify f ks sub))
    | some (.tables elements) => do
      let last ← elements.getLast?
      return t.put k (.tables (elements.dropLast ++ [← modify f ks last]))
    | _ => none

/-- Puts a node under a path; missing tables on the way are made. -/
def insert (k : Bytes) (n : Node) : Key → Table → Option Table
  | [], t => some (t.put k n)
  | p :: ps, t =>
    match List.lookup p t with
    | none => do return t.put p (.table (← insert k n ps []))
    | some (.table sub) => do return t.put p (.table (← insert k n ps sub))
    | _ => none

end Table

/-- A document in the making: its tables, the keys that hold arrays, the tables that are only
implied so far, and all keys in the order in which they are written. -/
structure Draft where
  root : Table
  arrays : List Key
  implied : List Key
  keys : List Key

/-- A step of putting a document together, which fails when a key cannot be defined. -/
abbrev Build := StateT Draft Option

namespace Build

def imply (key : Key) : Build Unit := modify fun d => { d with implied := key :: d.implied }

def unimply (key : Key) : Build Unit :=
  modify fun d => { d with implied := d.implied.filter (· ≠ key) }

/-- Notes a key as written. -/
def note (key : Key) : Build Unit := modify fun d => { d with keys := d.keys ++ [key] }

/-- Notes whether a key holds an array. An empty name stands for the table itself. -/
def setKind (context : Key) (name : Bytes) (isArray : Bool) : Build Unit :=
  let key := if name = [] then context else context ++ [name]
  let key := if key = [] then [[]] else key
  modify fun d =>
    let others := d.arrays.filter (· ≠ key)
    { d with arrays := if isArray then key :: others else others }

/-- The table at a path. -/
def tableAt (path : Key) : Build Table := do ((← get).root.find? path : Option Table)

/-- Puts a node into the table at a path. -/
def place (path : Key) (name : Bytes) (n : Node) : Build Unit := do
  let d ← get
  let root ← (d.root.modify (Table.put name n) path : Option Table)
  set { d with root }

/-- Defines a name in the table at a path. A name that is defined already has to be only
implied; a table that it stands for is kept, an array is replaced. -/
def define (path : Key) (name : Bytes) (n : Node) : Build Unit := do
  let t ← tableAt path
  let key := path ++ [name]
  let d ← get
  if (List.lookup name t).isNone then place path name n
  else if d.implied.contains key then do
    unimply key
    if d.arrays.contains key then place path name n
  else failure

/-- Makes the tables on the way to a key; those that are new are only implied. -/
def openParents (path : Key) : Key → Build Unit
  | [] | [_] => pure ()
  | name :: rest => do
    let t ← tableAt path
    if (List.lookup name t).isNone then
      imply (path ++ [name])
      place path name (.table [])
    openParents (path ++ [name]) rest

/-- Opens the table of a key, or a new element of its array of tables. -/
def openTable (key : Key) (isElement : Bool) : Build Unit := do
  openParents [] key
  let path := key.dropLast
  let name := key.getLastD []
  if isElement then
    match List.lookup name (← tableAt path) with
    | none => place path name (.tables [[]])
    | some (.tables elements) => place path name (.tables (elements ++ [[]]))
    | some _ => failure
  else define path name (.table [])

/-- Opens the tables of the leading parts of a dotted key, and gives the path to its last
part. -/
def openDotted (path : Key) : Key → Build Key
  | [] | [_] => pure path
  | name :: rest => do
    imply (path ++ [name])
    openTable (path ++ [name]) false
    openDotted (path ++ [name]) rest

mutual

/-- The node of a value that is given to a name. The pairs of an inline table are defined
below the name, and also make up a table of their own. -/
def evaluate (path : Key) (name : Bytes) (inArray : Bool) : Value → Build Node
  | .array items => do
    setKind path name true
    evaluateAll path name items
    return .leaf (.array items)
  | .table pairs => do
    imply (path ++ [name])
    openTable (path ++ [name]) inArray
    return .table (← evaluatePairs (path ++ [name]) [] pairs)
  | v => return .leaf v

/-- The elements of an array. -/
def evaluateAll (path : Key) (name : Bytes) : List Value → Build Unit
  | [] => pure ()
  | v :: rest => do
    let _ ← evaluate path name true v
    evaluateAll path name rest

/-- The pairs of an inline table. -/
def evaluatePairs (path : Key) (inner : Table) : List (Key × Value) → Build Table
  | [] => pure inner
  | (key, v) :: rest => do
    let name := key.getLastD []
    let context ← openDotted path key
    note (context ++ [name])
    let n ← evaluate context name false v
    define context name n
    setKind context name (v matches .array _)
    let inner ← (inner.insert name n key.dropLast : Option Table)
    evaluatePairs path inner rest

end

/-- Gives a value to a dotted key. -/
def assign (path : Key) (key : Key) (v : Value) : Build Unit := do
  let _ ← evaluatePairs path [] [(key, v)]

/-- Goes on by a line, in the table that the last header opened, and gives the table for the
next line. -/
def step (path : Key) : Statement → Build Key
  | .table key => do
    openTable key false
    setKind key [] false
    note key
    return key
  | .element key => do
    openTable key true
    setKind key [] false
    note key
    return key
  | .pair key v => do
    assign path key v
    return path

/-- Goes through the lines. -/
def steps : Key → List Statement → Build Unit
  | _, [] => pure ()
  | path, s :: rest => do steps (← step path s) rest

end Build

/-- A document: its root table and its keys in the order in which they are written. -/
structure Document where
  root : Table
  keys : List Key

/-- Reads a document. -/
def Document.parse (s : Bytes) : Option Document := do
  let (_, d) ← StateT.run (Build.steps [] (← statements s)) ⟨[], [], [], []⟩
  return ⟨d.root, d.keys⟩

namespace Key

/-- The escapes of single characters in a quoted part of a key. -/
def escapes : List (UInt8 × UInt8) :=
  [(quote, quote), (backslash, backslash), (8, byte 'b'), (9, byte 't'), (10, byte 'n'),
   (12, byte 'f'), (13, byte 'r')]

/-- A byte of a quoted part of a key. -/
def escapeByte (b : UInt8) : Bytes :=
  match List.lookup b escapes with
  | some c => [backslash, c]
  | none => if b < 32 ∨ b = 127 then ascii "\\u00" ++ Bytes.hexByte b else [b]

/-- A part of a key, in quotes unless it can stand bare. -/
def partText (part : Bytes) : Bytes :=
  if part ≠ [] ∧ part.all isBareByte then part
  else [quote] ++ part.flatMap escapeByte ++ [quote]

/-- A key in its dotted form. -/
def dotted (key : Key) : Bytes := Bytes.join [byte '.'] (key.map partText)

end Key
end LuaToC.Toml
