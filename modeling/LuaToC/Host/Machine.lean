import LuaToC.Host.Basic

/-! # Machines

A machine whose state is a value: a tree of files with a working directory. A path is followed
name by name, and what stands in front of another name has to be a directory. -/
namespace LuaToC

/-- A place in the tree: the names on the way to it from the root. -/
abbrev Location := List Bytes

/-- A device: one that is always empty, one of zeros without end, one that has no room, and a
terminal that is not there. The first two take all that is written and keep nothing. -/
inductive Device where
  | null
  | zero
  | full
  | terminal
  deriving DecidableEq

/-- How much of an endless device is read. -/
def Device.readable : Nat := 65536

/-- What is read from a device. -/
def Device.content : Device → Except Cause Bytes
  | .null => .ok []
  | .zero | .full => .ok (List.replicate Device.readable 0)
  | .terminal => .error .noDevice

/-- What is at a place. -/
inductive Inode where
  | file (content : Bytes) (executable : Bool)
  | directory
  | device (d : Device)
  deriving DecidableEq

/-- A tree of files, apart from the root, and a place in it. -/
structure Machine where
  inodes : List (Location × Inode)
  workDir : Location

namespace Machine

/-- What is at a place; the root is always a directory. -/
def inode? (m : Machine) (l : Location) : Option Inode :=
  if l = [] then some .directory else m.inodes.lookup l

/-- Makes the place hold something. -/
def put (m : Machine) (l : Location) (n : Inode) : Machine :=
  { m with inodes := m.inodes.filter (·.1 ≠ l) ++ [(l, n)] }

/-- Makes the place hold nothing. -/
def erase (m : Machine) (l : Location) : Machine :=
  { m with inodes := m.inodes.filter (·.1 ≠ l) }

/-- The longest name of a file. -/
def maxName : Nat := 255

/-- A path is shorter than this. -/
def maxPath : Nat := 4096

/-- The names of a path. -/
def names (p : Bytes) : List Bytes := (Bytes.splitOn Path.slash p).filter (· ≠ [])

/-- The text can be a path at all. -/
def validate (p : Bytes) : Except Cause Unit :=
  if 0 ∈ p then .error .invalid
  else if p = [] then .error .missing
  else if maxPath ≤ p.length then .error .nameTooLong
  else .ok ()

/-- Where following a path begins. -/
def start (m : Machine) (p : Bytes) : Location := if Path.isAbsolute p then [] else m.workDir

/-- Follows names from a directory. -/
def follow (m : Machine) : Location → List Bytes → Except Cause Location
  | l, [] => .ok l
  | l, name :: rest =>
    if name = Path.here then follow m l rest
    else if name = Path.above then follow m l.dropLast rest
    else if maxName < name.length then .error .nameTooLong
    else
      match m.inode? (l ++ [name]) with
      | none => .error .missing
      | some .directory => follow m (l ++ [name]) rest
      | some (.file _ _) | some (.device _) =>
        if rest = [] then .ok (l ++ [name]) else .error .notDirectory

/-- The place of something that is there. -/
def locate (m : Machine) (p : Bytes) : Except Cause Location := do
  validate p
  follow m (m.start p) (names p ++ if Path.endsWithSlash p then [Path.here] else [])

/-- The place that a file can have, whether one is there or not. -/
def locateNew (m : Machine) (p : Bytes) : Except Cause Location := do
  validate p
  let l ← follow m (m.start p) (names p).dropLast
  if m.inode? l ≠ some .directory then throw .notDirectory
  match (names p).getLast? with
  | none => throw .isDirectory
  | some name =>
    if name = Path.here ∨ name = Path.above ∨ Path.endsWithSlash p then throw .isDirectory
    if maxName < name.length then throw .nameTooLong
    return l ++ [name]

/-- The content of a file, with the cause if there is none. -/
def content (m : Machine) (p : Bytes) : Except Cause Bytes := do
  match m.inode? (← m.locate p) with
  | some (.file s _) => return s
  | some (.device d) => d.content
  | _ => throw .isDirectory

/-- The content of a file. A directory can be opened but not read. -/
def read (m : Machine) (p : Bytes) : Except FileError Bytes :=
  match m.locate p with
  | .error cause => .error (.opening p cause)
  | .ok l =>
    match m.inode? l with
    | some (.file s _) => .ok s
    | some (.device d) => d.content.mapError (.opening p)
    | _ => .error (.reading p .isDirectory)

/-- There is something at the path. -/
def isPresent (m : Machine) (p : Bytes) : Bool := (m.locate p).isOk

/-- Opens a file to write it anew, and makes one if there is none. -/
def create (m : Machine) (p : Bytes) : Except FileError Unit × Machine :=
  match m.locateNew p with
  | .error cause => (.error (.opening p cause), m)
  | .ok l =>
    match m.inode? l with
    | some .directory => (.error (.opening p .isDirectory), m)
    | some (.file _ executable) => (.ok (), m.put l (.file [] executable))
    | some (.device .terminal) => (.error (.opening p .noDevice), m)
    | some (.device _) => (.ok (), m)
    | none => (.ok (), m.put l (.file [] false))

/-- Adds a text to a file. A device keeps nothing of it. -/
def append (m : Machine) (p s : Bytes) : Except FileError Unit × Machine :=
  match m.locate p with
  | .error cause => (.error (.writing p cause), m)
  | .ok l =>
    match m.inode? l with
    | some (.file old executable) => (.ok (), m.put l (.file (old ++ s) executable))
    | some (.device .null) | some (.device .zero) => (.ok (), m)
    | some (.device .full) => (if s = [] then .ok () else .error (.writing p .noSpace), m)
    | some (.device .terminal) => (.error (.writing p .noDevice), m)
    | _ => (.error (.writing p .isDirectory), m)

/-- Lets everybody read a file, and nobody run it. -/
def permit (m : Machine) (p : Bytes) : Except FileError Unit × Machine :=
  match m.locate p with
  | .error cause => (.error (.permitting p cause), m)
  | .ok l =>
    match m.inode? l with
    | some (.file s _) => (.ok (), m.put l (.file s false))
    | _ => (.ok (), m)

/-- Makes a temporary file with the first number that is free. -/
def createTemporary (m : Machine) (dir : Bytes) : Except FileError Bytes × Machine :=
  let isFree (n : Nat) : Bool := !m.isPresent (Host.temporaryPath dir n)
  let p := Host.temporaryPath dir (((List.range (m.inodes.length + 1)).find? isFree).getD 0)
  match m.locateNew p with
  | .error cause => (.error (.opening p cause), m)
  | .ok l => (.ok p, m.put l (.file [] false))

/-- Moves a file to another path, where no directory may be. -/
def rename (m : Machine) (p q : Bytes) : Except FileError Unit × Machine :=
  let refused (cause : Cause) := (Except.error (FileError.renaming p q cause), m)
  match m.locate p, m.locateNew q with
  | .error cause, _ => refused cause
  | _, .error cause => refused cause
  | .ok source, .ok target =>
    match m.inode? source, m.inode? target with
    | _, some .directory => refused .present
    | some n, _ => (.ok (), (m.erase source).put target n)
    | none, _ => refused .missing

/-- Removes a file; a directory stays. -/
def remove (m : Machine) (p : Bytes) : Machine :=
  match m.locate p with
  | .error _ => m
  | .ok l => if m.inode? l = some .directory then m else m.erase l

/-- The names in a directory. -/
def namesIn (m : Machine) (l : Location) : List Bytes :=
  m.inodes.filterMap fun (k, _) => if k.dropLast = l then k.getLast? else none

/-- The absolute path of a place. -/
def pathOf (l : Location) : Bytes := Path.slash :: Bytes.join [Path.slash] l

end Machine
end LuaToC
