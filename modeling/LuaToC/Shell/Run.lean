import LuaToC.Shell.Builtin
import LuaToC.Shell.Parser

/-! # Running commands

A step runs one command and is given the function that runs the commands inside of it, so that
only one function calls itself; its fuel bounds how deep commands stand in each other and how
often loops go round. -/
namespace LuaToC.Shell

/-- Runs a command. A command is tested when its failure does not end a script that ends at the
first failure. -/
abbrev Runner := Bool → Command → Act Unit

/-- Sets the status of the last command. -/
def setStatus (n : Nat) : Act Unit := modify fun s => { s with status := n }

/-- Ends the script after a failure if it is to end then. -/
def checkFailure (tested : Bool) : Act Unit := do
  let s ← get
  if s.failFast && !tested && s.status ≠ 0 then throw (.finished s.status)

/-- Runs a step and gives the reason if it stops. -/
def trial (act : Act Unit) : Act (Option Stop) := do
  try
    act
    return none
  catch stop => return some stop

/-- Runs a step and then puts the descriptors back. -/
def keepingChannels (act : Act Unit) : Act Unit := do
  let channels := (← get).channels
  let stop ← trial act
  modify fun s => { s with channels := channels }
  if let some stop := stop then throw stop

/-- The session after something has been run that cannot change it: only the files and the
streams are those of the session `after`. -/
def Session.resumed (before after : Session) : Session :=
  { before with
    machine := { after.machine with workDir := before.machine.workDir }
    streams := after.streams }

/-- Runs a step that changes nothing but files and streams. Its end is not that of the
script. -/
def isolated (act : Act Unit) : Act Unit := do
  let before ← get
  modify fun s => { s with traps := s.traps.filter fun t => t.2 = [], loops := 0 }
  let stop ← trial act
  let after ← get
  set (before.resumed after)
  match stop with
  | none => setStatus after.status
  | some (.finished n) | some (.returned n) => setStatus n
  | some (.broken _) | some (.continued _) => setStatus 0
  | some stop => throw stop

/-- Runs the commands of tokens line by line; `fuel` bounds the number of lines. -/
def interpretLines (run : Runner) : Nat → List Located → Act Unit
  | 0, _ => pure ()
  | fuel + 1, tokens => do
    match Parser.line?.run tokens with
    | .error r =>
      modify fun s => { s with line := r.line }
      refuse ((← get).context ++ r.message)
    | .ok (none, _) => pure ()
    | .ok (some c, rest) =>
      run false c
      interpretLines run fuel rest

/-- Runs a script that begins on a line. -/
def interpretFrom (run : Runner) (line : Nat) (script : Bytes) : Act Unit := do
  let tokens := scan (← get).extended line script
  interpretLines run tokens.length tokens

/-- Runs a script. -/
def interpret (run : Runner) (script : Bytes) : Act Unit := interpretFrom run 1 script

/-- Runs a script and gives its output. -/
def capture (run : Runner) (script : Bytes) : Act Bytes := do
  let (n, s) := (← get).openStream []
  set s
  isolated do
    modify (·.connect 1 (.stream n))
    interpretFrom run s.line script
  return (← get).textOf n

/-- The wording of the cause why a file cannot be opened. -/
def openingText (extended creating : Bool) (cause : Cause) : Bytes :=
  if ¬ extended ∧ (cause = .missing ∨ cause = .notDirectory) then
    if creating then ascii "Directory nonexistent" else ascii "No such file"
  else causeText cause

/-- Applies a redirection, or gives what is wrong with it. -/
def redirect (run : Runner) (r : Redirect) : Act (Option Bytes) := do
  let target ← expandText (capture run) r.target
  let s ← get
  let connect (c : Channel) : Act (Option Bytes) := do
    modify (·.connect r.descriptor c)
    return none
  let failed (creating : Bool) (cause : Cause) : Act (Option Bytes) := do
    let action := if s.extended then [] else if creating then ascii "cannot create "
      else ascii "cannot open "
    return some (action ++ target ++ ascii ": " ++ openingText s.extended creating cause)
  let openText (text : Bytes) : Act (Option Bytes) := do
    let (n, s) := (← get).openStream text
    set s
    connect (.stream n)
  match r.direction with
  | .document => openText target
  | .input =>
    match (deviceOf? target).bind s.channel? with
    | some c => connect c
    | none =>
      match ← contentOf target with
      | .ok text => openText text
      | .error cause => failed false cause
  | .output | .append =>
    match ← openFile target (r.direction = .append) with
    | .ok c => connect c
    | .error cause => failed true cause
  | .outputs =>
    match ← openFile target false with
    | .ok c =>
      modify (·.connect 2 c)
      modify (·.connect 1 c)
      return none
    | .error cause => failed true cause
  | .duplicate =>
    if target = ascii "-" then
      modify (·.close r.descriptor)
      return none
    else if target ≠ [] ∧ target.all isDecimal then
      match s.channel? (decimal target) with
      | some c => connect c
      | none => return some (target ++ ascii ": Bad file descriptor")
    else return some (ascii "Syntax error: Bad fd number")

/-- Applies redirections one after the other until one fails. -/
def redirectAll (run : Runner) : List Redirect → Act (Option Bytes)
  | [] => return none
  | r :: rest => do
    match ← redirect run r with
    | none => redirectAll run rest
    | some message => return some message

/-- The variable that a word sets, and the word for its value. -/
def assignment? (w : Word) : Option (Bytes × Word) :=
  match w with
  | .text s false :: rest =>
    let name := s.takeWhile (· ≠ byte '=')
    if isName name ∧ name.length < s.length then
      let value := s.drop (name.length + 1)
      some (name, if value = [] then rest else .text value false :: rest)
    else none
  | _ => none

/-- The assignments in front of a command, and the words of the command. -/
def assignments : List Word → List (Bytes × Word) × List Word
  | [] => ([], [])
  | w :: rest =>
    match assignment? w with
    | some a =>
      let (more, words) := assignments rest
      (a :: more, words)
    | none => ([], w :: rest)

/-- The word runs a script for its text. -/
def hasOutput (w : Word) : Bool :=
  w.any fun
    | .output _ _ => true
    | _ => false

/-- A command with words that stand for themselves. -/
def literalCommand (line : Nat) (words : List Bytes) : Command :=
  .simple line (words.map Word.quote) []

/-- The message about a child that a signal has ended. -/
def signalText (signal : Nat) : Bytes :=
  match (signalNames.lookup signal).map ascii with
  | some (b :: rest) => (if byte 'a' ≤ b then b - 32 else b) :: rest
  | _ => ascii "Unknown signal " ++ Bytes.ofNat signal

/-- The end of a script that has stopped, or has come to its last line with a status. -/
def ending (status : Nat) : Option Stop → Stop
  | none | some (.broken _) | some (.continued _) => .finished status
  | some (.returned n) => .finished n
  | some stop => stop

/-- Runs a script to its end, with what it wants to be run then, and gives the reason of the
end. -/
def toEnd (run : Runner) (act : Act Unit) : Act Stop := do
  let stop ← trial act
  let s ← get
  match ending s.status stop, s.traps.lookup 0 with
  | .finished n, some action =>
    set { s with traps := s.traps.filter fun t => t.1 ≠ 0, status := n }
    match ← trial (interpret run action) with
    | some (.finished m) => return .finished m
    | some (.signalled number signal) => return .signalled number signal
    | _ => return .finished n
  | stop, _ => return stop

/-- The options of a shell: its flags, whether the script is an argument, and what is left. -/
structure ShellArguments where
  flags : Bytes
  isText : Bool
  rest : List Bytes

/-- Reads the options of a shell. A refusal is worded for the shell with a name. -/
def shellArguments (extended : Bool) (name : Bytes) : List Bytes → Except Bytes ShellArguments
  | [] => .ok ⟨[], false, []⟩
  | a :: rest =>
    if a = ascii "--" ∨ a = ascii "-" then .ok ⟨[], false, rest⟩
    else if a = ascii "-o" then
      match rest with
      | [] => .ok ⟨[], false, []⟩
      | option :: _ =>
        if extended then
          .error (ascii "line 0: " ++ name ++ ascii ": " ++ option ++ ascii ": invalid option name")
        else .error (ascii "0: Illegal option -o " ++ option)
    else if a.head? = some (byte '-') ∧ 1 < a.length then
      let letters := a.drop 1
      match letters.find? fun b => !(ascii "acefnuvxsilCb").contains b with
      | some b => .error (ascii "0: Illegal option -" ++ [b])
      | none => do
        let more ← shellArguments extended name rest
        return ⟨letters ++ more.flags, letters.contains (byte 'c') || more.isText, more.rest⟩
    else .ok ⟨[], false, a :: rest⟩

/-- The state in which a child begins. -/
def Session.child (s : Session) (extended : Bool) (name : Bytes) (arguments : List Bytes)
    (flags : Bytes) : Session :=
  { s with
    name := name
    arguments := arguments
    values :=
      [(ascii "IFS", ascii " \t\n"), (ascii "OPTIND", ascii "1"),
       (ascii "PPID", Bytes.ofNat s.number)] ++ s.values.filter fun v => s.exported.contains v.1
    functions := []
    status := 0
    line := 1
    number := s.number + 1
    loops := 0
    locals := none
    context := []
    traps := s.traps.filter fun t => t.2 = []
    pending := []
    blocked := none
    job := 0
    failFast := flags.contains (byte 'e')
    unsetFails := flags.contains (byte 'u')
    traced := flags.contains (byte 'x')
    withoutPatterns := flags.contains (byte 'f')
    pipesFail := false
    extended := extended }

/-- Runs a child to its end. A signal that ends it is reported by its parent, if it has one. -/
def runChild (run : Runner) (begin : Session → Session) (act : Act Unit) : Act Unit := do
  let before ← get
  set (begin before)
  let number := (← get).number
  let stop ← toEnd run act
  set (before.resumed (← get))
  match stop with
  | .finished n => setStatus n
  | .signalled target signal =>
    if target = number ∧ firstNumber ≤ before.number then
      unless signal = 2 ∨ signal = 13 do report (signalText signal)
      setStatus (128 + signal)
    else throw stop
  | stop => throw stop

/-- Runs a shell as a program. -/
def runShell (run : Runner) (extended : Bool) (name : Bytes) (args : List Bytes) : Act Unit := do
  match shellArguments extended name args with
  | .error message =>
    report (name ++ ascii ": " ++ message)
    setStatus 2
  | .ok a =>
    match a.isText, a.rest with
    | true, [] =>
      report (name ++ ascii ": 0: -c requires an argument")
      setStatus 2
    | true, text :: rest =>
      runChild run (·.child extended (rest.headD name) (rest.drop 1) a.flags) (interpret run text)
    | false, [] =>
      let text ← takeInput
      runChild run (·.child extended name [] a.flags) (interpret run text)
    | false, path :: rest =>
      match ← contentOf path with
      | .ok text => runChild run (·.child extended path rest a.flags) (interpret run text)
      | .error cause =>
        if extended then
          report (name ++ ascii ": " ++ path ++ ascii ": " ++ causeText cause)
          setStatus 127
        else
          report (name ++ ascii ": 0: cannot open " ++ path ++ ascii ": " ++
            openingText false false cause)
          setStatus 2

/-- Reads the options in front of a command that gets variables: one of them is a text that is
cut into words. -/
def environmentArguments : List Bytes → Except Tool.Misuse (List Bytes)
  | [] => .ok []
  | a :: rest =>
    let words (s : Bytes) : List Bytes := (Bytes.splitOn 32 s).filter (· ≠ [])
    if a = ascii "-" ∨ a = ascii "-i" then environmentArguments rest
    else if a = ascii "--" then .ok rest
    else if (ascii "-S").isPrefixOf a then .ok (words (a.drop 2) ++ rest)
    else if (ascii "--").isPrefixOf a then .error (.unknownLong a)
    else
      match a with
      | 45 :: b :: _ => .error (.unknown b)
      | _ => .ok (a :: rest)

/-- Runs a program with variables for it, or prints those that it would get. -/
def runEnvironment (run : Runner) (name : Bytes) (args : List Bytes) : Act Unit := do
  let isSetting (a : Bytes) : Bool := a.contains (byte '=')
  match environmentArguments args with
  | .error m =>
    Tool.misuse name m
    setStatus 125
  | .ok args =>
    let settings := args.takeWhile isSetting
    match args.drop settings.length with
    | [] =>
      let s ← get
      let own := s.values.filter fun v => s.exported.contains v.1
      emit 1 (Bytes.unlines ((own.map fun (n, v) => n ++ [byte '='] ++ v) ++ settings))
      setStatus 0
    | program :: rest =>
      let s ← get
      match programPath? s.machine program with
      | none =>
        report (name ++ ascii ": " ++ Tool.marked program ++ ascii ": No such file or directory")
        setStatus 127
      | some _ =>
        isolated do
          settings.forM fun a =>
            let (n, v) := Builtin.setting a
            modify fun s => { s.assign n (v.getD []) with exported := n :: s.exported }
          run true (literalCommand s.line (program :: rest))

/-- Runs a program. -/
def runReady (run : Runner) (r : Ready) : Act Unit := do
  match r.program with
  | .tool t =>
    let (status, cause) ← watched (t r.name r.arguments)
    match cause with
    | none => setStatus status
    | some cause => setStatus (← Tool.reportUnwritten r.name cause)
  | .shell extended => runShell run extended r.name r.arguments
  | .environment => runEnvironment run r.name r.arguments

/-- Runs the program that a word names, or reports that there is none. -/
def runProgram (run : Runner) (start name : Bytes) (args : List Bytes) : Act Unit := do
  let s ← get
  let start := if start = [] then s.context else start
  let notFound (isPath : Bool) : Act Unit := do
    let text := if ¬ s.extended then ascii ": not found"
      else if isPath then ascii ": No such file or directory"
      else ascii ": command not found"
    complain (start ++ name ++ text)
    setStatus 127
  match programPath? s.machine name with
  | none => notFound false
  | some path =>
    match ready s.machine maxDepth path name args with
    | .ok r => runReady run r
    | .error .notExecutable =>
      match s.machine.content path with
      | .ok text => runChild run (·.child s.extended path args []) (interpret run text)
      | .error _ => notFound true
    | .error cause =>
      if cause = .missing ∨ cause = .notDirectory then notFound true
      else
        complain (start ++ name ++ ascii ": " ++ causeText cause)
        setStatus 126

/-- Runs a function. -/
def runFunction (run : Runner) (tested : Bool) (body : Command) (args : List Bytes) : Act Unit := do
  let before ← get
  set { before with arguments := args, locals := some [] }
  let stop ← trial (run tested body)
  modify fun s =>
    let s := (s.locals.getD []).foldl (fun s (name, value) => s.restore name value) s
    { s with arguments := before.arguments, locals := before.locals }
  match stop with
  | none => pure ()
  | some (.returned n) => setStatus n
  | some stop => throw stop

/-- Says what a name stands for. -/
def describeName (verbose : Bool) (name : Bytes) : Act Nat := do
  let s ← get
  let isOwn := (Builtin.find? s.extended name).isSome || Builtin.running.contains name ||
    (s.functions.lookup name).isSome
  let path := (programPath? s.machine name).filter (isProgram s.machine)
  match isOwn, path with
  | true, _ =>
    emit 1 ((if verbose then name ++ ascii " is a shell builtin" else name) ++ [Bytes.newline])
    return 0
  | false, some p =>
    emit 1 ((if verbose then name ++ ascii " is " ++ p else p) ++ [Bytes.newline])
    return 0
  | false, none =>
    if verbose then emit 1 (name ++ ascii ": not found\n")
    return 127

/-- Runs a script inside of the one that is being run. What is wrong with it is reported with
a context. -/
def runInside (run : Runner) (tested : Bool) (context script : Bytes) : Act Unit := do
  let before := (← get).context
  modify fun s => { s with context := context }
  let stop ← trial (interpret (fun t c => run (t || tested) c) script)
  modify fun s => { s with context := before }
  if let some stop := stop then throw stop

/-- Runs a command of the shell that runs others. -/
def runRunning (run : Runner) (tested : Bool) (name : Bytes) (args : List Bytes) : Act Unit := do
  let line := (← get).line
  if name = ascii "eval" then
    setStatus 0
    runInside run tested (ascii "eval: ") (Bytes.join [32] args)
  else if name = ascii "." then
    match args with
    | [] => setStatus 0
    | path :: _ =>
      let m := (← get).machine
      let file := if path.contains Path.slash then some path
        else (programDirs.map fun dir => Machine.pathOf (dir ++ [path])).find? m.isPresent
      match file with
      | none => refuse (ascii ".: " ++ path ++ ascii ": not found")
      | some file =>
        match ← contentOf file with
        | .ok text => runInside run tested (file ++ ascii ": ") text
        | .error cause =>
          refuse (ascii ".: cannot open " ++ file ++ ascii ": " ++ openingText false false cause)
  else if name = ascii "exec" then
    match args with
    | [] => setStatus 0
    | program :: rest =>
      modify fun s => { s with traps := s.traps.filter fun t => t.2 = [] }
      runProgram run (ascii "exec: ") program rest
      throw (.finished (← get).status)
  else if name = ascii "type" then
    let results ← args.mapM (describeName true)
    setStatus (results.foldl max 0)
  else
    match args with
    | [] => setStatus 0
    | a :: rest =>
      if a = ascii "-v" then
        let results ← rest.mapM (describeName false)
        setStatus (results.foldl max 0)
      else run true (literalCommand line (if a = ascii "-p" then rest else args))

/-- Runs a command with its arguments. -/
def invoke (run : Runner) (tested : Bool) (name : Bytes) (args : List Bytes) : Act Unit := do
  let s ← get
  let name := if s.extended ∧ name = ascii "source" then ascii "." else name
  match s.functions.lookup name with
  | some body => runFunction run tested body args
  | none =>
    if Builtin.running.contains name then runRunning run tested name args
    else
      match Builtin.find? s.extended name with
      | some b =>
        let (status, cause) ← watched (b args)
        match cause with
        | none => setStatus status
        | some cause =>
          complain (name ++ ascii ": " ++
            (if s.extended then ascii "write error: " ++ causeText cause
             else name ++ ascii ": I/O error"))
          setStatus 1
      | none =>
        if name = [] then
          complain (ascii ": Permission denied")
          setStatus 127
        else runProgram run [] name args

/-- Runs the traps of the signals that have come. -/
def runPending (run : Runner) : Act Unit := do
  let s ← get
  set { s with pending := [] }
  s.pending.forM fun signal => do
    let status := (← get).status
    interpret run (((← get).traps.lookup signal).getD [])
    setStatus status

/-- Runs a simple command. Variables that are set in front of a command are set for it only,
except for the special commands of the shell. -/
def runSimple (run : Runner) (tested : Bool) (line : Nat) (words : List Word)
    (redirects : List Redirect) : Act Unit := do
  modify fun s => { s with line := line }
  let (settings, words) := assignments words
  let args ← expandWords (capture run) words
  modify fun s => { s with line := line }
  let assignAll : Act Unit := settings.forM fun (name, w) => do
    let value ← expandText (capture run) w
    modify (·.assign name value)
  let failed (message : Bytes) : Act Unit := do
    complain message
    setStatus (if (← get).extended then 1 else 2)
  let trace (args : List Bytes) : Act Unit := do
    if (← get).traced then report (ascii "+ " ++ Bytes.join [32] args)
  match args with
  | [] =>
    keepingChannels do
      match ← redirectAll run redirects with
      | some message => failed message
      | none =>
        assignAll
        if (← get).traced ∧ settings ≠ [] then
          let s ← get
          trace (settings.map fun (name, _) => name ++ [byte '='] ++ (s.value? name).getD [])
        unless words.any hasOutput || settings.any fun (_, w) => hasOutput w do setStatus 0
  | name :: rest =>
    let isSpecial := Builtin.special.contains name
    let act : Act Unit := do
      match ← redirectAll run redirects with
      | some message =>
        failed message
        if isSpecial then throw (.finished (← get).status)
      | none =>
        trace args
        let before ← get
        assignAll
        unless settings = [] do
          modify fun s => { s with exported := settings.map (·.1) ++ s.exported }
        invoke run tested name rest
        unless settings = [] ∨ isSpecial do
          let names := settings.map (·.1)
          modify fun s =>
            { s with
              values := before.values.filter (fun v => names.contains v.1) ++
                s.values.filter fun v => !names.contains v.1
              exported := before.exported }
    if name = ascii "exec" ∧ rest = [] then act else keepingChannels act
    runPending run
  checkFailure tested

/-- Runs the stages of a pipeline one after the other. Each reads what the one before it has
written. `failed` is the status of the last stage so far that has failed. -/
def runStages (run : Runner) : Option Channel → Nat → List Command → Act Unit
  | _, failed, [] => do
    let s ← get
    if s.pipesFail ∧ s.status = 0 then setStatus failed
  | input, failed, c :: rest => do
    let (n, s) := (← get).openStream []
    set s
    isolated do
      if let some i := input then modify (·.connect 0 i)
      unless rest.isEmpty do modify (·.connect 1 (.stream n))
      run true c
    let status := (← get).status
    runStages run (some (.stream n)) (if status = 0 then failed else status) rest

/-- Runs the body of a loop, and says whether the loop goes on. -/
def runBody (run : Runner) (tested : Bool) (body : Command) : Act Bool := do
  modify fun s => { s with loops := s.loops + 1 }
  let stop ← trial (run tested body)
  modify fun s => { s with loops := s.loops - 1 }
  match stop with
  | none => return true
  | some (.broken n) =>
    if 1 < n then throw (.broken (n - 1))
    setStatus 0
    return false
  | some (.continued n) =>
    if 1 < n then throw (.continued (n - 1))
    setStatus 0
    return true
  | some stop => throw stop

/-- Runs a loop; `last` is the status of the last round and `fuel` bounds their number. -/
def runLoop (run : Runner) (tested negated : Bool) (condition body : Command) : Nat → Nat → Act Unit
  | 0, _ => throw .exhausted
  | fuel + 1, last => do
    run true condition
    if ((← get).status = 0) == negated then setStatus last
    else if ← runBody run tested body then
      runLoop run tested negated condition body fuel (← get).status

/-- Runs a body for each of some values. -/
def runEach (run : Runner) (tested : Bool) (name : Bytes) (body : Command) : List Bytes → Act Unit
  | [] => pure ()
  | v :: rest => do
    modify (·.assign name v)
    if ← runBody run tested body then runEach run tested name body rest

/-- Runs the first of the branches that has a pattern for a text. -/
def runChoice (run : Runner) (tested : Bool) (subject : Bytes) :
    List (List Word × Command) → Act Unit
  | [] => setStatus 0
  | (patterns, body) :: rest => do
    let fits ← patterns.anyM fun w => do
      return Pattern.fits (← expandPattern (capture run) w) subject
    if fits then
      setStatus 0
      run tested body
    else runChoice run tested subject rest

/-- How often a loop can go round. -/
def maxRounds : Nat := 100000

/-- Runs a command, given how the commands inside of it are run. -/
def step (run : Runner) : Runner := fun tested c => do
  match c with
  | .simple line words redirects => runSimple run tested line words redirects
  | .sequence list => list.forM (run tested)
  | .both first second =>
    run true first
    if (← get).status = 0 then run tested second
  | .either first second =>
    run true first
    if (← get).status ≠ 0 then run tested second
  | .pipeline negated stages =>
    match stages with
    | [c] => run (tested || negated) c
    | _ => runStages run none 0 stages
    if negated then setStatus (if (← get).status = 0 then 1 else 0)
    else checkFailure tested
  | .branch condition body otherwise =>
    run true condition
    if (← get).status = 0 then run tested body
    else
      match otherwise with
      | some c => run tested c
      | none => setStatus 0
  | .loop negated condition body => runLoop run tested negated condition body maxRounds 0
  | .each name words body =>
    let values ← match words with
      | some ws => expandWords (capture run) ws
      | none => pure (← get).arguments
    setStatus 0
    runEach run tested name body values
  | .choice subject branches =>
    runChoice run tested (← expandText (capture run) subject) branches
  | .subshell body =>
    isolated (run tested body)
    checkFailure tested
  | .background body =>
    isolated do
      modify (·.connect 0 .nowhere)
      run tested body
    modify fun s => { s with job := s.status + 1, status := 0 }
  | .redirected line body redirects =>
    modify fun s => { s with line := line }
    keepingChannels do
      match ← redirectAll run redirects with
      | none => run tested body
      | some message =>
        complain message
        setStatus (if (← get).extended then 1 else 2)
        checkFailure tested
  | .definition name body =>
    modify fun s => { s with functions := (name, body) :: s.functions.filter (·.1 ≠ name) }
    setStatus 0

/-- Runs a command; `fuel` bounds how deep commands stand in each other. -/
def runWith : Nat → Runner
  | 0, _, _ => throw .exhausted
  | fuel + 1, tested, c => step (runWith fuel) tested c

/-- How deep commands can stand in each other. -/
def maxNesting : Nat := 1000

/-- Runs a command. -/
def run : Runner := runWith maxNesting

end LuaToC.Shell
