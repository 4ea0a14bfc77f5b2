import LuaToC.Unit.FunctionText
import LuaToC.Contract.Basic

/-! # Whole units

A unit includes the glue that opens it, has one function per prototype, the table of the
functions, the contract, the embedded source and the name under which the module is opened, and
includes the glue that closes it. Nothing of it is written unless all of it could be generated. -/
namespace LuaToC

/-- What a unit is generated from: the name of the module, its main function (if any was
given), and the input to embed. -/
structure ModuleInput where
  name : Bytes
  main : Option Prototype
  source : Bytes

/-- The name can stand in a C identifier: letters, digits and underscores, no digit first. -/
def isCIdentifier (s : Bytes) : Bool :=
  let letter (b : UInt8) := b = 95 || (97 ≤ b && b ≤ 122) || (65 ≤ b && b ≤ 90)
  match s with
  | [] => false
  | b :: rest => letter b && rest.all fun c => letter c || (48 ≤ c && c ≤ 57)

/-- Why no unit can be generated. `uncovered` is the one failure that is not reported but
ends the program: an annotation asks for a line that the line table does not have. -/
inductive CompileError where
  | noMain
  | invalidName (name : Bytes)
  | branch (e : Branch.Error)
  | unsupported (findings : List Finding)
  | uncovered (e : UncoveredLine)
  | refused (reason : Bytes)
  deriving DecidableEq

/-- The wording of a failure. -/
def CompileError.message : CompileError → Bytes
  | .noMain => ascii "aot: unit has no main prototype"
  | .invalidName name => ascii "invalid module name: " ++ Text.quoted name
  | .branch e => e.message
  | .unsupported fs => Finding.listMessage fs
  | .uncovered _ => ascii "index out of range"
  | .refused reason => reason

/-- A generated unit with what is known about it. -/
structure CompiledUnit where
  text : Bytes
  entries : List Entry
  unsupported : List Finding
  contract : Contract

namespace CompiledUnit

/-- An array of names that ends with a null pointer. -/
def nullTerminated (declaration : String) (elements : List Bytes) : List Bytes :=
  [ascii declaration ++ ascii " = \x7b"] ++ elements ++ Statements.code ["  NULL", "\x7d;"]

/-- The table of the functions. -/
def functionTable (entries : List Entry) : List Bytes :=
  nullTerminated "static AotCompiledFunction LUA_AOT_FUNCTIONS[]"
    (entries.map fun e => ascii "  " ++ e.name ++ ascii ",")

/-- The contract as C declarations. -/
def contractBlock (c : Contract) : List Bytes :=
  [ascii "#define LUA_AOT_TRAVERSAL_VERSION " ++ Bytes.ofInt c.version.toInt,
    ascii "#define LUA_AOT_BUILD_ID \"" ++ c.buildId ++ ascii "\""] ++
    nullTerminated "static const char *const LUA_AOT_FUNCTION_PATHS[]"
      ((c.functions.getD []).map fun f =>
        ascii "  \"" ++ f.pathText ++ ascii "\",  /* " ++ f.name ++ ascii " */")

/-- The values of a row of the embedded source; the last row ends with a zero. -/
def sourceRow (row : Bytes) (last : Bool) : Bytes :=
  let value (n : Nat) := Bytes.padLeft 32 3 (Bytes.ofNat n)
  ascii "  " ++ (row.flatMap fun b => value b.toNat ++ ascii ", ") ++ if last then value 0 else []

/-- The embedded source in rows of sixteen values. The zero that ends it takes a place in
the last row. -/
def sourceRows (source : Bytes) : List Bytes :=
  if _h : 16 ≤ source.length then sourceRow (source.take 16) false :: sourceRows (source.drop 16)
  else [sourceRow source true]
termination_by source.length
decreasing_by simp; omega

/-- The embedded source as an array of characters, since C limits the length of string
literals. -/
def sourceBlock (embed : Bool) (source : Bytes) : List Bytes :=
  if embed then
    Statements.code ["static const char LUA_AOT_MODULE_SOURCE_CODE[] = \x7b"] ++
      sourceRows source ++ Statements.code ["\x7d;", "#define LUA_AOT_HAS_SOURCE 1"]
  else Statements.code ["#define LUA_AOT_HAS_SOURCE 0"]

def includeLine (file : Bytes) : Bytes := ascii "#include \"" ++ file ++ ascii "\""

/-- A separating line, which has a blank on it. -/
def gap : List Bytes := [[32]]

/-- The lines of one function, once its branches are known to stay inside it. -/
def functionLines (opts : Options) (entries : List Entry) (e : Entry) :
    Except CompileError (List Bytes) := do
  match Branch.check e.name e.proto.body.code with
  | .error err => throw (.branch err)
  | .ok () =>
    match FunctionText.lines opts entries e with
    | .error err => throw (.uncovered err)
    | .ok lines => return lines

/-- What a unit begins with. -/
def opening (opts : Options) : List Bytes := [includeLine opts.header] ++ gap

/-- What follows the functions of a unit. -/
def closing (opts : Options) (input : ModuleInput) (entries : List Entry) (contract : Contract) :
    List Bytes :=
  functionTable entries ++ gap ++ contractBlock contract ++ gap ++
    sourceBlock opts.embedSource input.source ++ gap ++
    [ascii "#define LUA_AOT_LUAOPEN_NAME luaopen_" ++ input.name] ++ gap ++
    [includeLine opts.footer]

/-- Generates a unit. The functions are checked and generated one after the other, and the
first failure ends that; unsupported instructions are reported all together at the end. -/
def ofInput (options : Options) (input : ModuleInput) : Except CompileError CompiledUnit := do
  let opts := options.completed
  match input.main with
  | none => throw .noMain
  | some root =>
    if !isCIdentifier input.name then throw (.invalidName input.name)
    let entries := Entry.ofTree opts.functionPrefix root
    let functions ← entries.mapM (functionLines opts entries)
    let findings := entries.flatMap Finding.ofEntry
    if opts.policy = .error ∧ findings ≠ [] then throw (.unsupported findings)
    let contract := Contract.ofEntries input.name input.source opts.embedSource entries
    let lines := opening opts ++ functions.flatten ++ closing opts input entries contract
    return { text := Bytes.unlines lines, entries, unsupported := findings, contract }

end CompiledUnit

/-- Where text is written to: all that was written so far, and the reason for which the next
text is refused, if it is. -/
structure Sink where
  written : Bytes
  refusal : Option Bytes

namespace Sink

/-- A sink that takes everything. -/
def empty : Sink := ⟨[], none⟩

/-- Writes a text, all or nothing. -/
def write (s : Sink) (text : Bytes) : Except Bytes Sink :=
  match s.refusal with
  | some reason => .error reason
  | none => .ok { s with written := s.written ++ text }

end Sink

/-- Generates a unit and writes it. When anything fails, the sink is as before. -/
def CompiledUnit.writeTo (options : Options) (input : ModuleInput) (sink : Sink) :
    Except CompileError CompiledUnit × Sink :=
  match CompiledUnit.ofInput options input with
  | .error e => (.error e, sink)
  | .ok unit =>
    match sink.write unit.text with
    | .error reason => (.error (.refused reason), sink)
    | .ok sink => (.ok unit, sink)

end LuaToC
