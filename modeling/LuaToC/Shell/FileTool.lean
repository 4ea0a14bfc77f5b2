import LuaToC.Shell.Expansion
import LuaToC.Shell.Tool

/-! # Programs on files

Small programs that change files or say something about them. -/
namespace LuaToC.Shell.Tool

/-- What is at a path. -/
def inodeAt (path : Bytes) : Act (Except Cause (Location × Inode)) := do
  let m := (← get).machine
  match m.locate path with
  | .error cause => return .error cause
  | .ok l =>
    match m.inode? l with
    | some n => return .ok (l, n)
    | none => return .error .missing

/-- There is a directory at the path. -/
def isDirectory (path : Bytes) : Act Bool := do
  match ← inodeAt path with
  | .ok (_, .directory) => return true
  | _ => return false

/-- Changes the machine. -/
def change (f : Machine → Machine) : Act Unit := modify fun s => { s with machine := f s.machine }

/-- Does something with each operand and gives the status. -/
def forAll (paths : List Bytes) (act : Bytes → Act Bool) : Act Nat := do
  return statusOf ((← paths.mapM act).all id)

/-- The name that a path ends with. -/
def lastName (path : Bytes) : Bytes :=
  let p := (path.reverse.dropWhile (· = Path.slash)).reverse
  if p = [] then if path = [] then [] else [Path.slash] else Bytes.afterLast Path.slash p

/-- The path that a file gets when it is put at a target, which may be a directory. -/
def placed (path target : Bytes) : Act Bytes := do
  if ← isDirectory target then
    let separator := if Path.endsWithSlash target then [] else [Path.slash]
    return target ++ separator ++ lastName path
  return target

/-- Copies files, or moves them. -/
def transfer (moves : Bool) : Tool := fun name args =>
  withArguments "afipnrRvT" "" 1 name args fun a => do
    match a.operands with
    | [] =>
      report (name ++ ascii ": missing file operand")
      report (ascii "Try " ++ marked (name ++ ascii " --help") ++ ascii " for more information.")
      return 1
    | [path] =>
      report (name ++ ascii ": missing destination file operand after " ++ marked path)
      report (ascii "Try " ++ marked (name ++ ascii " --help") ++ ascii " for more information.")
      return 1
    | operands =>
      let target := operands.getLast?.getD []
      if 2 < operands.length ∧ ¬ (← isDirectory target) then
        report (name ++ ascii ": target " ++ marked target ++ ascii ": " ++
          causeText (if (← get).machine.isPresent target then .notDirectory else .missing))
        return 1
      forAll operands.dropLast fun path => do
        match ← inodeAt path with
        | .error cause =>
          report (name ++ ascii ": cannot stat " ++ marked path ++ ascii ": " ++ causeText cause)
          return false
        | .ok (_, .directory) =>
          report (name ++ ascii ": -r not specified; omitting directory " ++ marked path)
          return false
        | .ok (l, source) =>
          let (content, executable) := match source with
            | .file content executable => (content, executable)
            | .device d => (d.content.toOption.getD [], false)
            | .directory => ([], false)
          let destination ← placed path target
          match (← get).machine.locateNew destination with
          | .error cause =>
            let action := if moves then ascii ": cannot move " ++ marked path ++ ascii " to "
              else ascii ": cannot create regular file "
            report (name ++ action ++ marked destination ++ ascii ": " ++ causeText cause)
            return false
          | .ok l' =>
            let old := (← get).machine.inode? l'
            if !moves && old = some (.device .full) && content ≠ [] then
              report (name ++ ascii ": error writing " ++ marked destination ++ ascii ": " ++
                causeText .noSpace)
              return false
            match old with
            | some (.device _) => if !moves then return true
            | _ => pure ()
            let executable := match old with
              | some (.file _ old) => if moves then executable else old
              | _ => executable
            if moves then change (·.erase l)
            change (·.put l' (.file content executable))
            return true

/-- Removes files, and with an option directories too. -/
def rm : Tool := fun name args =>
  withArguments "dfirRv" "" 1 name args fun a => do
    if a.operands = [] ∧ ¬ a.has 'f' then missingOperand name
    else
      forAll a.operands fun path => do
        let refused (cause : Cause) : Act Bool := do
          report (name ++ ascii ": cannot remove " ++ marked path ++ ascii ": " ++ causeText cause)
          return false
        match ← inodeAt path with
        | .error cause => if a.has 'f' && cause = .missing then return true else refused cause
        | .ok (l, .file _ _) | .ok (l, .device _) =>
          change (·.erase l)
          return true
        | .ok (l, .directory) =>
          if a.has 'r' || a.has 'R' then
            change fun m => { m with inodes := m.inodes.filter fun (k, _) => !l.isPrefixOf k }
            return true
          refused .isDirectory

/-- Makes the directories that are missing on the way to a place. -/
def withDirectories (m : Machine) (l : Location) : Machine :=
  (List.range l.length).foldl
    (fun m i =>
      let k := l.take (i + 1)
      if (m.inode? k).isSome then m else m.put k .directory) m

/-- Makes directories. -/
def mkdir : Tool := fun name args =>
  withArguments "pv" "m" 1 name args fun a => do
    if a.operands = [] then missingOperand name
    else
      forAll a.operands fun path => do
        let m := (← get).machine
        let refused (cause : Cause) : Act Bool := do
          report (name ++ ascii ": cannot create directory " ++ marked path ++ ascii ": " ++
            causeText cause)
          return false
        if a.has 'p' then
          let absolute := Path.absolute (Machine.pathOf m.workDir) path
          change fun m => withDirectories m (Machine.names absolute)
          return true
        let path := (path.reverse.dropWhile (· = Path.slash)).reverse
        match m.locateNew path with
        | .error cause => refused cause
        | .ok l =>
          if (m.inode? l).isSome then refused .present
          else
            change (·.put l .directory)
            return true

/-- Removes empty directories. -/
def rmdir : Tool := fun name args =>
  withArguments "pv" "" 1 name args fun a =>
    forAll a.operands fun path => do
      let refused (text : Bytes) : Act Bool := do
        report (name ++ ascii ": failed to remove " ++ marked path ++ ascii ": " ++ text)
        return false
      match ← inodeAt path with
      | .error cause => refused (causeText cause)
      | .ok (_, .file _ _) | .ok (_, .device _) => refused (causeText .notDirectory)
      | .ok (l, .directory) =>
        if (← get).machine.namesIn l = [] then
          change (·.erase l)
          return true
        refused (ascii "Directory not empty")

/-- Makes files that are not there. -/
def touch : Tool := fun name args =>
  withArguments "acm" "drt" 1 name args fun a =>
    forAll a.operands fun path => do
      let m := (← get).machine
      if m.isPresent path || a.has 'c' then return true
      match m.locateNew path with
      | .error cause =>
        report (name ++ ascii ": cannot touch " ++ marked path ++ ascii ": " ++ causeText cause)
        return false
      | .ok l =>
        change (·.put l (.file [] false))
        return true

/-- Makes files executable, or no longer so. -/
def chmod : Tool := fun name args => do
  match args with
  | mode :: paths =>
    let isNumber := mode.all isDecimal
    let owner := (mode.reverse.drop 2).headD 48
    let gives (sign : Char) : Bool := mode.contains (byte sign) && mode.contains (byte 'x')
    forAll paths fun path => do
      match ← inodeAt path with
      | .error cause =>
        report (name ++ ascii ": cannot access " ++ marked path ++ ascii ": " ++ causeText cause)
        return false
      | .ok (_, .directory) | .ok (_, .device _) => return true
      | .ok (l, .file content old) =>
        let executable :=
          if isNumber then owner % 2 = 1
          else if gives '-' then false
          else old || gives '+' || gives '='
        change (·.put l (.file content executable))
        return true
  | [] => missingOperand name

/-- Lists the names in directories. -/
def ls : Tool := fun name args =>
  withArguments "1aAdFrt" "" 2 name args fun a => do
    let paths := if a.operands = [] then [Path.here] else a.operands.mergeSort isAtMost
    let found ← paths.filterMapM fun path => do
      match ← inodeAt path with
      | .error cause =>
        report (name ++ ascii ": cannot access " ++ marked path ++ ascii ": " ++ causeText cause)
        return none
      | .ok (l, n) => return some (path, l, n)
    let isListed (n : Inode) : Bool := n = .directory && !a.has 'd'
    let plain := (found.filter fun (_, _, n) => !isListed n).map (·.1)
    let m := (← get).machine
    let listing (l : Location) : List Bytes :=
      let isHidden (n : Bytes) : Bool := n.head? = some (byte '.') && !a.has 'a' && !a.has 'A'
      let own := if a.has 'a' then [Path.here, Path.above] else []
      own ++ ((m.namesIn l).filter (!isHidden ·)).mergeSort isAtMost
    let titled := 1 < a.operands.length
    let blocks := (found.filter fun (_, _, n) => isListed n).map fun (path, l, _) =>
      Bytes.unlines ((if titled then [path ++ ascii ":"] else []) ++ listing l)
    let blocks := if plain = [] then blocks else Bytes.unlines plain :: blocks
    emit 1 (Bytes.join [Bytes.newline] blocks)
    return if found.length = paths.length then 0 else 2

/-- Prints the name that a path ends with, perhaps without an ending. -/
def basename : Tool := fun name args =>
  withArguments "az" "s" 1 name args fun a => do
    match a.operands with
    | [] => missingOperand name
    | path :: rest =>
      let base := lastName path
      let ending := rest.headD []
      let cut := ending ≠ [] ∧ base ≠ ending ∧ ending.isSuffixOf base
      emit 1 ((if cut then base.take (base.length - ending.length) else base) ++ [Bytes.newline])
      return 0

/-- The directory part of a path. -/
def directoryName (path : Bytes) : Bytes :=
  let trimmed := (path.reverse.dropWhile (· = Path.slash)).reverse
  if trimmed = [] then if path = [] then Path.here else [Path.slash]
  else if trimmed.contains Path.slash then
    let d := ((Path.throughLastSlash trimmed).reverse.dropWhile (· = Path.slash)).reverse
    if d = [] then [Path.slash] else d
  else Path.here

/-- Prints the directory parts of paths. -/
def dirname : Tool := fun name args =>
  withArguments "z" "" 1 name args fun a => do
    if a.operands = [] then missingOperand name
    else
      emit 1 (Bytes.unlines (a.operands.map directoryName))
      return 0

/-- Copies blocks. -/
def dd : Tool := fun name args => do
  if let some a := args.find? fun a => a.head? = some (byte '-') then
    misuse name (.unknown ((a.drop 1).headD 45))
    return 1
  let value? (key : String) : Option Bytes := args.findSome? (Bytes.stripPrefix? (ascii key))
  let number? (key : String) : Option Nat := (value? key).map fun s =>
    decimal (s.takeWhile isDecimal) * (if s.getLast? = some (byte 'k') then 1024 else 1)
  let input ← match value? "if=" with
    | none => pure (.ok (← takeInput))
    | some path => contentOf path
  match input with
  | .error cause =>
    report (name ++ ascii ": failed to open " ++ marked ((value? "if=").getD []) ++ ascii ": " ++
      causeText cause)
    return 1
  | .ok text =>
    let size := ((number? "bs=").or (number? "ibs=")).getD 512
    let text := text.drop (size * (number? "skip=").getD 0)
    let text := match number? "count=" with
      | some n => text.take (size * n)
      | none => text
    let written ← match value? "of=" with
      | none => do
        emit 1 text
        pure true
      | some path => writeFile (name ++ ascii ": error writing ") (marked path) path false text
    unless value? "status=" = some (ascii "none") do
      let whole := Bytes.ofNat (text.length / size)
      let part := Bytes.ofNat (if text.length % size = 0 then 0 else 1)
      report (whole ++ ascii "+" ++ part ++ ascii " records in")
      report (whole ++ ascii "+" ++ part ++ ascii " records out")
      report (Bytes.ofNat text.length ++ ascii " bytes copied")
    return statusOf written

/-- Runs a program that compares files, whose reports all begin with its name. -/
def comparing (flags valued : String) (name : Bytes) (args : List Bytes)
    (body : Arguments → Act Nat) : Act Nat := do
  match arguments flags valued (args.length + 1) args with
  | .ok a => body a
  | .error m =>
    report (name ++ ascii ": " ++ m.message)
    report (name ++ ascii ": Try " ++ marked (name ++ ascii " --help") ++
      ascii " for more information.")
    return 2

/-- Compares two files. -/
def cmp : Tool := fun name args =>
  comparing "bls" "n" name args fun a => do
    let (found, succeeded) ← contents (plainWording name) a.operands
    match succeeded, found with
    | true, [(p, s), (q, t)] =>
      if s = t then return 0
      let same := ((s.zip t).takeWhile fun (x, y) => x = y).map (·.1)
      unless a.has 's' do
        if same.length = min s.length t.length then
          report (name ++ ascii ": EOF on " ++ (if s.length < t.length then p else q) ++
            (if same = [] then ascii " which is empty" else []))
        else
          emit 1 (p ++ ascii " " ++ q ++ ascii " differ: char " ++ Bytes.ofNat (same.length + 1) ++
            ascii ", line " ++ Bytes.ofNat (1 + same.countP (· = Bytes.newline)) ++ [Bytes.newline])
      return 1
    | _, _ => return 2

/-- Says whether two files differ. How they differ is not told. -/
def diff : Tool := fun name args =>
  comparing "bBcdeiqrsuw" "CIU" name args fun a => do
    let (found, succeeded) ← contents (plainWording name) a.operands
    match succeeded, found with
    | true, [(p, s), (q, t)] =>
      if s = t then return 0
      if a.has 'q' then
        emit 1 (ascii "Files " ++ p ++ ascii " and " ++ q ++ ascii " differ\n")
      return 1
    | _, _ => return 2

end LuaToC.Shell.Tool
