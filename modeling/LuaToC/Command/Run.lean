import LuaToC.Command.Flags
import LuaToC.Command.ModuleName
import LuaToC.Contract.Encoding
import LuaToC.Loaded
import LuaToC.Config
import LuaToC.Unit.Listing

/-! # The command

The command loads an input, generates the unit into a temporary file, and moves that to the output,
so that a failed run leaves no partial unit. The contract is written last. -/
namespace LuaToC.Command

/-- The steps that a unit and its contract take to their files. -/
inductive SaveStep where
  | creation
  | writing
  | permission
  | closing
  | renaming
  | contract
  deriving DecidableEq

/-- The stages of a run, in their order but for a unit that cannot be generated, which is known only
when the temporary file is there. -/
inductive Stage where
  | arguments
  | configuration
  | naming
  | policy
  | loading
  | listing
  | generation
  | saving (step : SaveStep)
  deriving DecidableEq

/-- Why a run fails. -/
inductive Error where
  | arguments (e : Flags.Error)
  | operands
  | config (e : Config.Error)
  | notC
  | policy (e : Policy.UnknownName)
  | load (e : Loaded.Error)
  | listing (e : Listing.Error)
  | unit (e : CompileError)
  | file (step : SaveStep) (e : FileError)

/-- The stage in which a run fails. -/
def Error.stage : Error → Stage
  | .arguments _ => .arguments
  | .operands => .arguments
  | .config _ => .configuration
  | .notC => .naming
  | .policy _ => .policy
  | .load _ => .loading
  | .listing _ => .listing
  | .unit _ => .generation
  | .file step _ => .saving step

/-- The wording of a failure. -/
def Error.message : Error → Bytes
  | .arguments e => e.message
  | .operands => ascii "usage: luaot input.lua output.c"
  | .config e => e.message
  | .notC => ascii "output file is not of a \"c\" file"
  | .policy e => e.message
  | .load e => e.message
  | .listing (.refused reason) => reason
  | .listing (.uncovered e) => (CompileError.uncovered e).message
  | .unit e => e.message
  | .file _ e => e.message

/-- The failure is not reported but ends the program. -/
def Error.isCrash : Error → Bool
  | .load (.chunk _ .sizeOverflow) => true
  | .listing (.uncovered _) => true
  | .unit (.uncovered _) => true
  | _ => false

/-- What a run does: with which configuration, from which input, to which output and contract,
and whether it prints a listing. The contract may be empty, which stands for none. -/
structure Job where
  config : Config
  input : Bytes
  output : Bytes
  contract : Bytes
  listing : Bool

variable {m : Type → Type} [Monad m] [Host m]

/-- The configuration: that of the file which is named, or of the nearest one, or none. -/
def configuration (file input : Bytes) : m (Except Config.Error Config) := do
  if file ≠ [] then Config.ofFile file
  else return (← Config.nearest (Path.directory input)).map (·.getD Config.default)

namespace Job

/-- The job that flags and a configuration ask for. Flags win. -/
def ofFlags (f : Flags) (config : Config) (input output : Bytes) : Job :=
  let config :=
    { config with
      unsupported := Options.orDefault f.unsupported config.unsupported
      luac := Options.orDefault f.luac config.luac }
  ⟨config, input, output, Options.orDefault f.contract config.contractTarget, f.listing⟩

/-- Generates the unit into a temporary file and lets everybody read it. -/
def generate (options : Options) (input : ModuleInput) (temporary : Bytes) :
    m (Except Error CompiledUnit) := do
  match CompiledUnit.ofInput options input with
  | .error e => return .error (.unit e)
  | .ok unit =>
    match ← Host.write temporary unit.text with
    | .error e => return .error (.file .writing e)
    | .ok () =>
      match ← Host.permit temporary with
      | .error e => return .error (.file .permission e)
      | .ok () => return .ok unit

/-- Generates the unit into a temporary file and moves that to the output if nothing has failed. -/
def fill (job : Job) (options : Options) (input : ModuleInput) (temporary : Bytes) :
    m (Except Error CompiledUnit) := do
  match ← Host.closing temporary (.file .closing) (generate options input temporary) with
  | .error e => return .error e
  | .ok unit =>
    match ← Host.rename temporary job.output with
    | .error e => return .error (.file .renaming e)
    | .ok () => return .ok unit

/-- Generates the unit next to the output and moves it there. In the end the temporary file is
gone. -/
def saveUnit (job : Job) (options : Options) (input : ModuleInput) :
    m (Except Error CompiledUnit) := do
  match ← Host.createTemporary (Path.directory job.output) with
  | .error e => return .error (.file .creation e)
  | .ok temporary =>
    let result ← job.fill options input temporary
    Host.remove temporary
    return result

/-- Writes the contract of a unit, if one is wanted. -/
def saveContract (job : Job) (unit : CompiledUnit) : m (Except Error Unit) := do
  if job.contract = [] then return .ok ()
  match ← Host.writeFile job.contract unit.contract.encode with
  | .error e => return .error (.file .contract e)
  | .ok () => return .ok ()

/-- What has to be known before anything is written: the choices and the loaded input. -/
def prepare (job : Job) : m (Except Error (Options × ModuleInput)) := do
  match moduleOf? job.output with
  | none => return .error .notC
  | some name =>
    match job.config.options with
    | .error e => return .error (.policy e)
    | .ok options =>
      match ← Loaded.ofPath job.config.luac job.input false with
      | .error e => return .error (.load e)
      | .ok loaded => return .ok (options, ⟨name, some loaded.main, loaded.source⟩)

/-- Prints the listing, if one is wanted. -/
def list (job : Job) (palette : Listing.Palette) (options : Options) (input : ModuleInput)
    (out : Sink) : Except Error Unit × Sink :=
  match job.listing, input.main with
  | true, some main =>
    match Listing.writeTo palette options.functionPrefix main out with
    | (.error e, out) => (.error (.listing e), out)
    | (.ok (), out) => (.ok (), out)
  | _, _ => (.ok (), out)

/-- Does a job. The result comes with what was printed. -/
def run (job : Job) (palette : Listing.Palette) (out : Sink) : m (Except Error Unit × Sink) := do
  match ← job.prepare with
  | .error e => return (.error e, out)
  | .ok (options, input) =>
    match job.list palette options input out with
    | (.error e, out) => return (.error e, out)
    | (.ok (), out) =>
      match ← job.saveUnit options input with
      | .error e => return (.error e, out)
      | .ok unit => return (← job.saveContract unit, out)

end Job

/-- How a run ends: with a status and the texts on both channels, or not at all. -/
inductive Outcome where
  | finished (status : Nat) (output errorOutput : Bytes)
  | crashed

/-- What is said about a failure. The usage comes with arguments that are wrong. -/
def Error.report : Error → Bytes
  | .arguments .helpWanted => Flags.help
  | .arguments e => e.message ++ [Bytes.newline] ++ Flags.help
  | .operands => Error.operands.message ++ [Bytes.newline]
  | e => ascii "luaot: " ++ e.message ++ [Bytes.newline]

/-- The status after a failure. To ask for help is none. -/
def Error.status : Error → Nat
  | .arguments .helpWanted => 0
  | _ => 1

/-- The outcome of a run with a result and with what it printed. -/
def Outcome.ofResult : Except Error Unit × Sink → Outcome
  | (.error e, out) =>
    if e.isCrash then .crashed else .finished e.status out.written e.report
  | (.ok (), out) => .finished 0 out.written []

/-- Does what arguments ask for. The result comes with what was printed. -/
def perform (palette : Listing.Palette) (arguments : List Bytes) (out : Sink) :
    m (Except Error Unit × Sink) := do
  match Flags.none.parse arguments with
  | .error e => return (.error (.arguments e), out)
  | .ok flags =>
    match flags.operands with
    | [input, output] =>
      match ← configuration flags.config input with
      | .error e => return (.error (.config e), out)
      | .ok config => (Job.ofFlags flags config input output).run palette out
    | _ => return (.error .operands, out)

/-- Runs the command with arguments. -/
def run (palette : Listing.Palette) (arguments : List Bytes) (out : Sink) : m Outcome := do
  return .ofResult (← perform palette arguments out)

end LuaToC.Command
