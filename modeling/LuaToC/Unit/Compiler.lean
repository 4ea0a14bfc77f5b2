import LuaToC.Unit.Compile

/-! # Compilers

A compiler is made for some choices and then generates any number of units, one after the other.
It works on a draft that it keeps between units: after a unit the draft is what that one left
behind, complete or not, and the next unit starts by clearing it. -/
namespace LuaToC

/-- A compiler: its choices with the defaults filled in, and its draft. The draft has the lines so
far, the functions, and the unsupported instructions found; those that forbid the unit are noted
apart. -/
structure Compiler where
  options : Options
  lines : List Bytes
  entries : List Entry
  unsupported : List Finding
  forbidden : List Finding

namespace Compiler

/-- A compiler that has not been used. -/
def new (options : Options) : Compiler := ⟨options.completed, [], [], [], []⟩

/-- An empty draft for the functions of a tree. -/
def restart (c : Compiler) (root : Prototype) : Compiler :=
  { c with
    lines := []
    entries := Entry.ofTree c.options.functionPrefix root
    unsupported := []
    forbidden := [] }

/-- The draft with lines added. -/
def write (c : Compiler) (lines : List Bytes) : Compiler := { c with lines := c.lines ++ lines }

/-- The draft with the findings of a function added. -/
def note (c : Compiler) (found : List Finding) : Compiler :=
  { c with
    unsupported := c.unsupported ++ found
    forbidden := if c.options.policy = .error then c.forbidden ++ found else c.forbidden }

/-- Adds functions to the draft, up to the first that cannot be generated. -/
def addFunctions (c : Compiler) : List Entry → Except CompileError Unit × Compiler
  | [] => (.ok (), c)
  | e :: es =>
    match CompiledUnit.functionLines c.options c.entries e with
    | .error err => (.error err, c)
    | .ok lines => ((c.write lines).note (Finding.ofEntry e)).addFunctions es

/-- Adds what comes after the functions. -/
def finish (c : Compiler) (input : ModuleInput) : Except CompileError CompiledUnit × Compiler :=
  if c.forbidden ≠ [] then (.error (.unsupported c.forbidden), c)
  else
    let contract := Contract.ofEntries input.name input.source c.options.embedSource c.entries
    let c := c.write (CompiledUnit.closing c.options input c.entries contract)
    (.ok ⟨Bytes.unlines c.lines, c.entries, c.unsupported, contract⟩, c)

/-- Generates a unit. An input without a main function or with a bad name is refused before the
draft is touched. -/
def generate (c : Compiler) (input : ModuleInput) : Except CompileError CompiledUnit × Compiler :=
  match input.main with
  | none => (.error .noMain, c)
  | some root =>
    if !isCIdentifier input.name then (.error (.invalidName input.name), c)
    else
      let c := (c.restart root).write (CompiledUnit.opening c.options)
      match c.addFunctions c.entries with
      | (.error err, c) => (.error err, c)
      | (.ok (), c) => c.finish input

/-- What comes of a compilation: its result, the compiler for the next one, and what was
written. -/
structure Outcome where
  result : Except CompileError CompiledUnit
  compiler : Compiler
  sink : Sink

/-- Generates a unit and writes it, all or nothing. -/
def compileModule (c : Compiler) (input : ModuleInput) (sink : Sink) : Outcome :=
  match c.generate input with
  | (.error e, c) => ⟨.error e, c, sink⟩
  | (.ok unit, c) =>
    match sink.write unit.text with
    | .error reason => ⟨.error (.refused reason), c, sink⟩
    | .ok sink => ⟨.ok unit, c, sink⟩

end Compiler
end LuaToC
