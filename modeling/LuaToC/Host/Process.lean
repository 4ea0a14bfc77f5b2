import LuaToC.Host.System
import LuaToC.Shell.Run

/-! # Running programs

Programs that run on a machine whose state is a value. With them the machine is a system for the
command to run on, one of many. -/
namespace LuaToC
namespace Machine

/-- The state in which a program begins: it has no input, and its two outputs are streams. -/
def session (m : Machine) (name : Bytes) : Shell.Session :=
  { machine := m
    streams := #[[], []]
    channels := [(0, .nowhere), (1, .stream 0), (2, .stream 1)]
    name := name
    arguments := []
    values :=
      [(ascii "PATH", ascii "/usr/bin:/bin"), (ascii "PWD", pathOf m.workDir),
       (ascii "HOME", ascii "/root"), (ascii "OPTIND", ascii "1")]
    exported := [ascii "PATH", ascii "PWD", ascii "HOME"]
    functions := []
    status := 0
    line := 0
    number := Shell.firstNumber - 1
    loops := 0
    locals := none
    context := []
    traps := []
    pending := []
    blocked := none
    job := 0
    failFast := false
    unsetFails := false
    traced := false
    withoutPatterns := false
    pipesFail := false
    extended := false }

/-- Runs a program that has been found. A signal that ends it is no output of its own. -/
def launch (m : Machine) (r : Shell.Ready) : Execution × Machine :=
  let act : Shell.Act Unit := do
    match r.program with
    | .shell extended => Shell.runShell Shell.run extended r.name r.arguments
    | _ => Shell.runReady Shell.run r
  let (result, s) := (act.run).run (m.session r.name)
  let failure := match result with
    | .ok () => if s.status = 0 then none else some (.exited s.status)
    | .error (.signalled _ signal) => some (.signalled signal)
    | .error (.finished 0) => none
    | .error (.finished n) => some (.exited n)
    | .error _ => some (.exited 1)
  (⟨s.textOf 0, s.textOf 1, failure⟩, { s.machine with workDir := m.workDir })

/-- Runs a program. The root is the only name with a slash that is looked for, and it is no
program. -/
def execute (m : Machine) (i : Invocation) : Execution × Machine :=
  let failed (e : ExecutionError) : Execution × Machine := (⟨[], [], some e⟩, m)
  if i.program = [Path.slash] then failed (.notUsable i.program .isDirectory)
  else
    match Shell.programPath? m i.program with
    | none => failed (.notFound i.program)
    | some p =>
      if i.cancelled then failed .cancelled
      else
        match Shell.ready m Shell.maxDepth p i.program i.arguments with
        | .error cause => failed (.notStarted p cause)
        | .ok r => m.launch r

end Machine

/-- The system of a machine on which nothing fails but what has to. -/
def System.standard : System where
  execute := Machine.execute
  refusal? _ _ := none
  taken _ _ _ := 0

/-- The monad of steps on a machine with the standard system. -/
abbrev OnMachine := StateM Machine

instance : Host OnMachine := inferInstanceAs (Host (OnSystem System.standard))

end LuaToC
