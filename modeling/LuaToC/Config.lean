import LuaToC.Loaded
import LuaToC.Path
import LuaToC.Toml.Document
import LuaToC.Unit.Options

/-! # Configuration

A project may keep its choices in a file `luaot.toml`; the one in the nearest directory above the
input counts. Keys that the file leaves out, and texts that it leaves empty, have their default. -/
namespace LuaToC

/-- A configuration, with the directory of the file that it comes from. -/
structure Config where
  header : Bytes
  footer : Bytes
  functionPrefix : Bytes
  comments : Bool
  embedSource : Bool
  unsupported : Bytes
  luac : Bytes
  contractFile : Bytes
  dir : Bytes
  deriving DecidableEq

namespace Config

/-- The name of a configuration file. -/
def standardName : Bytes := ascii "luaot.toml"

/-- The configuration without a file. -/
def default : Config where
  header := Options.default.header
  footer := Options.default.footer
  functionPrefix := Options.default.functionPrefix
  comments := Options.default.comments
  embedSource := Options.default.embedSource
  unsupported := Options.default.policy.name
  luac := Loaded.standardCompiler
  contractFile := []
  dir := []

/-- The choices about a unit. -/
def options (m : Config) : Except Policy.UnknownName Options := do
  return {
    header := m.header
    footer := m.footer
    functionPrefix := m.functionPrefix
    comments := m.comments
    embedSource := m.embedSource
    policy := ← Policy.parse m.unsupported }

/-- The path of the contract, seen from the directory of the configuration file; empty when
no contract is wanted. -/
def contractTarget (m : Config) : Bytes :=
  if m.contractFile = [] ∨ Path.isAbsolute m.contractFile ∨ m.dir = [] then m.contractFile
  else Path.join m.dir m.contractFile

/-- A key of a section: how its value is put into a configuration, if it has the right
type. -/
structure Field where
  name : String
  set : Toml.Value → Config → Option Config

/-- A field that holds a text. -/
def textField (name : String) (set : Config → Bytes → Config) : Field where
  name
  set := fun
    | .text s, m => some (set m s)
    | _, _ => none

/-- A field that holds a truth value. -/
def boolField (name : String) (set : Config → Bool → Config) : Field where
  name
  set := fun
    | .bool b, m => some (set m b)
    | _, _ => none

/-- The sections of a configuration file with their fields. -/
def sections : List (String × List Field) :=
  [("output",
     [textField "header" fun m s => { m with header := s },
      textField "footer" fun m s => { m with footer := s },
      textField "function-prefix" fun m s => { m with functionPrefix := s },
      boolField "comments" fun m b => { m with comments := b },
      boolField "embed-source" fun m b => { m with embedSource := b }]),
   ("compile",
     [textField "unsupported" fun m s => { m with unsupported := s },
      textField "luac" fun m s => { m with luac := s }]),
   ("contract", [textField "file" fun m s => { m with contractFile := s }])]

/-- The small form of a character. Two characters outside ASCII count as forms of s and k. -/
def folded (c : Nat) : Nat :=
  if 65 ≤ c ∧ c ≤ 90 then c + 32
  else if c = 0x17F then 115
  else if c = 0x212A then 107
  else c

/-- The text without regard to case. -/
def foldedText (s : Bytes) : List Utf8.Piece :=
  (Utf8.pieces s).map fun
    | .scalar c => .scalar (folded c)
    | stray => stray

/-- The thing that a key names: one with exactly this name, or else one whose name differs
in case only. -/
def select? {α : Type} (nameOf : α → String) (things : List α) (key : Bytes) : Option α :=
  (things.find? fun x => ascii (nameOf x) = key).or
    (things.find? fun x => foldedText (ascii (nameOf x)) = foldedText key)

/-- The section that a key names. -/
def section? (key : Bytes) : Option (String × List Field) := select? (·.1) sections key

/-- The field that a key of a section names. -/
def field? (fields : List Field) (key : Bytes) : Option Field := select? (·.name) fields key

/-- Takes over the entries of a section; a value of the wrong type is refused, keys without a
meaning are passed over. -/
def withFields (fields : List Field) : List (Bytes × Toml.Node) → Config → Option Config
  | [], m => some m
  | (key, n) :: rest, m =>
    match field? fields key with
    | none => withFields fields rest m
    | some f =>
      match n with
      | .leaf v => do withFields fields rest (← f.set v m)
      | _ => none

/-- Takes over the sections of a document. -/
def withSections : List (Bytes × Toml.Node) → Config → Option Config
  | [], m => some m
  | (key, n) :: rest, m =>
    match section? key with
    | none => withSections rest m
    | some (_, fields) =>
      match n with
      | .table entries => do withSections rest (← withFields fields entries m)
      | _ => none

/-- The keys of the entries that name a field of a section. -/
def fieldKeys (name : Bytes) (fields : List Field) : Toml.Node → List Toml.Key
  | .table entries => (entries.filter fun e => (field? fields e.1).isSome).map fun e => [name, e.1]
  | _ => []

/-- The keys of a document that have a meaning: those of the sections and of their fields. A
key counts only if its value is still there when the document ends. -/
def knownKeys (root : List (Bytes × Toml.Node)) : List Toml.Key :=
  root.flatMap fun (name, n) =>
    match section? name with
    | none => []
    | some (_, fields) => [name] :: fieldKeys name fields n

/-- Why a configuration is refused. -/
inductive Error where
  | unreadable (path : Bytes) (e : FileError)
  | malformed (path : Bytes)
  | unknownKey (path : Bytes) (key : Toml.Key)
  | badPolicy (path : Bytes) (e : Policy.UnknownName)
  deriving DecidableEq

/-- The wording of the refusal. What exactly is wrong with a malformed file is not said. -/
def Error.message : Error → Bytes
  | .unreadable path e => ascii "cannot read " ++ path ++ ascii ": " ++ e.message
  | .malformed path => ascii "parse error in " ++ path ++ ascii ": <toml>"
  | .unknownKey path key => path ++ ascii ": unknown key " ++ Text.quoted key.dotted
  | .badPolicy path e => path ++ ascii ": " ++ e.message

/-- The same configuration with the defaults for empty texts. -/
def completed (m : Config) : Config :=
  { m with
    header := Options.orDefault m.header default.header
    footer := Options.orDefault m.footer default.footer
    functionPrefix := Options.orDefault m.functionPrefix default.functionPrefix
    unsupported := Options.orDefault m.unsupported default.unsupported
    luac := Options.orDefault m.luac default.luac }

/-- The configuration that a file says, the file being at a path seen from a working
directory. -/
def ofText (workDir path text : Bytes) : Except Error Config := do
  let some d := Toml.Document.parse text | throw (.malformed path)
  let some m := withSections d.root default | throw (.malformed path)
  if let some key := d.keys.find? (!(knownKeys d.root).contains ·) then throw (.unknownKey path key)
  let m := { m with dir := Path.absolute workDir (Path.directory path) }.completed
  match Policy.parse m.unsupported with
  | .error e => throw (.badPolicy path e)
  | .ok _ => return m

variable {m : Type → Type} [Monad m] [Host m]

/-- Reads a configuration file. -/
def ofFile (path : Bytes) : m (Except Error Config) := do
  match ← Host.read path with
  | .error e => return .error (.unreadable path e)
  | .ok text => return ofText (← Host.workDir) path text

/-- Reads the configuration file of a directory. -/
def ofDirectory (dir : Bytes) : m (Except Error Config) := ofFile (Path.join dir standardName)

/-- The first of the directories that has a configuration file. -/
def firstWithFile : List Bytes → m (Option Bytes)
  | [] => pure none
  | dir :: rest => do
    if ← Host.isPresent (Path.join dir standardName) then return some dir
    firstWithFile rest

/-- Reads the configuration of the nearest directory that has one, beginning with `dir`
itself. A file that cannot be read is not passed over. -/
def nearest (dir : Bytes) : m (Except Error (Option Config)) := do
  match ← firstWithFile (Path.ancestors (Path.absolute (← Host.workDir) dir)) with
  | none => return .ok none
  | some dir => do return (← ofDirectory dir).map some

/-- The same search as a loop that goes from a directory to its parent, for at most a number of
rounds. It gives nothing when it has not ended by then. -/
def climb : Nat → Bytes → m (Option (Except Error (Option Config)))
  | 0, _ => return none
  | rounds + 1, dir => do
    if ← Host.isPresent (Path.join dir standardName) then
      return some ((← ofDirectory dir).map some)
    let parent := Path.directory dir
    if parent = dir then return some (.ok none)
    climb rounds parent

end Config
end LuaToC
