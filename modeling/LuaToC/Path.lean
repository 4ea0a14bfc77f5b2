import LuaToC.Text.Bytes

/-! # Paths

A path is a list of names between slashes; it is absolute when it begins with one. Everything
here is textual: no file is looked at. -/
namespace LuaToC.Path

/-- The separator of names. -/
def slash : UInt8 := 47

/-- The name of the same directory. -/
def here : Bytes := ascii "."

/-- The name of the directory above. -/
def above : Bytes := ascii ".."

/-- The path begins at the root. -/
def isAbsolute (p : Bytes) : Bool := p.head? = some slash

/-- The path ends with a slash. -/
def endsWithSlash (p : Bytes) : Bool := p.getLast? = some slash

/-- Goes on by one name. The names so far are given in reverse order. Above the root is the
root. -/
def descend (rooted : Bool) (names : List Bytes) (name : Bytes) : List Bytes :=
  if name = [] ∨ name = here then names
  else if name = above then
    match names with
    | [] => if rooted then [] else [above]
    | last :: rest => if last = above then above :: names else rest
  else name :: names

/-- The shortest path with the same meaning: no empty names, no `.`, and `..` only in front
of a relative path. -/
def clean (p : Bytes) : Bytes :=
  let names := ((Bytes.splitOn slash p).foldl (descend (isAbsolute p)) []).reverse
  if isAbsolute p then slash :: Bytes.join [slash] names
  else if names = [] then here
  else Bytes.join [slash] names

/-- The part up to the last slash, the slash included. -/
def throughLastSlash (p : Bytes) : Bytes := (p.reverse.dropWhile (· ≠ slash)).reverse

/-- The part of a path after its last slash. -/
def afterLastSlash (p : Bytes) : Bytes := (p.reverse.takeWhile (· ≠ slash)).reverse

/-- The directory of a path. -/
def directory (p : Bytes) : Bytes := clean (throughLastSlash p)

/-- A path below another. -/
def join (p q : Bytes) : Bytes :=
  if p = [] then if q = [] then [] else clean q
  else clean (p ++ [slash] ++ q)

/-- The absolute form of a path, seen from a working directory. -/
def absolute (workDir p : Bytes) : Bytes :=
  if isAbsolute p then clean p else join workDir p

/-- A path and the directories above it, the nearest first. The directory of the root is the
root, and every other clean absolute path is longer than its directory. -/
def ancestors (p : Bytes) : List Bytes :=
  if _h : (directory p).length < p.length then p :: ancestors (directory p) else [p]
termination_by p.length

end LuaToC.Path
