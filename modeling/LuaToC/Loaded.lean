import LuaToC.Chunk.Reader
import LuaToC.Host.Basic
import LuaToC.Text.Blank

/-! # Inputs

A binary chunk is read as it is; anything else is taken for Lua source and handed to a compiler,
which prints the chunk. -/
namespace LuaToC

/-- An input: its path, its content as it is in the file, and its main function. -/
structure Loaded where
  path : Bytes
  source : Bytes
  main : Prototype

namespace Loaded

/-- Why an input cannot be loaded. -/
inductive Error where
  | file (e : FileError)
  | compiler (path : Bytes) (text : Bytes)
  | chunk (path : Bytes) (e : Chunk.Error)
  deriving DecidableEq

/-- The wording of the refusal. -/
def Error.message : Error → Bytes
  | .file e => e.message
  | .compiler path text => path ++ ascii ": compilation failed: " ++ text
  | .chunk path e => path ++ ascii ": " ++ e.message path

/-- The compiler that is used when none is chosen. -/
def standardCompiler : Bytes := ascii "luac"

/-- What is said about a failed run of the compiler: what it printed about that, or else how
it ended. -/
def failureText (x : Execution) (e : ExecutionError) : Bytes :=
  let text := Text.trim x.errorOutput
  if text = [] then e.message else text

/-- The input as a chunk, with the name of the input. -/
def ofChunk (path source chunk : Bytes) : Except Error Loaded :=
  match Chunk.decode chunk with
  | .error e => .error (.chunk path e)
  | .ok main => .ok ⟨path, source, main⟩

variable {m : Type → Type} [Monad m] [Host m]

/-- Loads an input. -/
def ofPath (compiler path : Bytes) (cancelled : Bool) : m (Except Error Loaded) := do
  match ← Host.read path with
  | .error e => return .error (.file e)
  | .ok source =>
    if Chunk.hasSignature source then return ofChunk path source source
    let program := if compiler = [] then standardCompiler else compiler
    let x ← Host.execute ⟨program, [ascii "-o", ascii "-", path], cancelled⟩
    match x.failure with
    | some e => return .error (.compiler path (failureText x e))
    | none => return ofChunk path source x.output

end Loaded
end LuaToC
