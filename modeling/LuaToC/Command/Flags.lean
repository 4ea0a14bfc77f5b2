import LuaToC.Text.Quoted

/-! # Flags

Flags come first; a lone dash or two dashes end them. A flag has one dash or two, and its value
follows an equals sign or is the next argument; a switch has its value only after an equals sign. -/
namespace LuaToC.Command

/-- The flags that were given, and the arguments after them. -/
structure Flags where
  verbosity : Int
  config : Bytes
  listing : Bool
  contract : Bytes
  unsupported : Bytes
  luac : Bytes
  operands : List Bytes
  deriving DecidableEq

namespace Flags

/-- No flag is given. -/
def none : Flags := ⟨0, [], false, [], [], [], []⟩

/-- Why the value of a flag is refused. -/
inductive ValueError where
  | unreadable
  | outOfRange
  deriving DecidableEq

def ValueError.message : ValueError → Bytes
  | .unreadable => ascii "parse error"
  | .outOfRange => ascii "value out of range"

/-- A letter in its small form. -/
def lower (b : UInt8) : UInt8 := if 65 ≤ b ∧ b ≤ 90 then b + 32 else b

/-- The value of a digit or letter. -/
def digit? (b : UInt8) : Option Nat :=
  if 48 ≤ b ∧ b ≤ 57 then some (b.toNat - 48)
  else if 97 ≤ lower b ∧ lower b ≤ 122 then some ((lower b).toNat - 87)
  else Option.none

/-- The base of a number and its digits: after `0b`, `0o` and `0x`, and octal after another
leading zero. -/
def baseOf (s : Bytes) : Nat × Bytes :=
  match s with
  | 48 :: c :: d :: rest =>
    if lower c = 98 then (2, d :: rest)
    else if lower c = 111 then (8, d :: rest)
    else if lower c = 120 then (16, d :: rest)
    else (8, c :: d :: rest)
  | 48 :: rest => (8, rest)
  | _ => (10, s)

/-- The number that digits write after `n`; underscores are passed over. A number that does
not fit in 64 bits is refused before the digits after it are looked at. -/
def magnitude (base n : Nat) : Bytes → Except ValueError Nat
  | [] => .ok n
  | b :: rest =>
    if b = 95 then magnitude base n rest
    else
      match digit? b with
      | Option.none => .error .unreadable
      | some d =>
        if base ≤ d then .error .unreadable
        else if 0x10000000000000000 ≤ base * n + d then .error .outOfRange
        else magnitude base (base * n + d) rest

/-- The number begins with the mark of a base. -/
def isMarked (s : Bytes) : Bool :=
  match s with
  | 48 :: c :: _ => lower c = 98 || lower c = 111 || lower c = 120
  | _ => false

/-- Underscores stand between digits; the mark of a base counts as a digit. -/
def hasPlainUnderscores (s : Bytes) : Bool :=
  scan (isMarked s) (if isMarked s then s.drop 2 else s)
where
  scan (afterDigit : Bool) : Bytes → Bool
    | [] => true
    | b :: rest =>
      if b = 95 then afterDigit && rest.head?.any (· ≠ 95) && scan false rest else scan true rest

/-- An integer of 64 bits in one of four bases, with or without a sign. -/
def integer (s : Bytes) : Except ValueError Int := do
  let isNegative := s.head? = some 45
  let s := if isNegative ∨ s.head? = some 43 then s.drop 1 else s
  if s = [] then throw .unreadable
  let (base, digits) := baseOf s
  let n ← magnitude base 0 digits
  if !hasPlainUnderscores s then throw .unreadable
  if isNegative then
    if 0x8000000000000000 < n then throw .outOfRange else return -n
  else
    if 0x8000000000000000 ≤ n then throw .outOfRange else return n

/-- A truth value. -/
def truth (s : Bytes) : Except ValueError Bool :=
  if (["1", "t", "T", "true", "TRUE", "True"].map ascii).contains s then .ok true
  else if (["0", "f", "F", "false", "FALSE", "False"].map ascii).contains s then .ok false
  else .error .unreadable

/-- What is known about a flag: its name, what its value is called, which a switch has not,
what it is for, and how its value is put into the flags. -/
structure Definition where
  name : String
  placeholder : String
  purpose : String
  set : Bytes → Flags → Except ValueError Flags

/-- The flag is a switch. -/
def Definition.isSwitch (d : Definition) : Bool := d.placeholder = ""

/-- All flags, in the order of their names. -/
def definitions : List Definition :=
  [⟨"config", "string", "Configuration file (default: nearest luaot.toml)",
      fun s f => .ok { f with config := s }⟩,
   ⟨"contract", "string", "Write the traversal contract (CBOR) to this file",
      fun s f => .ok { f with contract := s }⟩,
   ⟨"l", "", "Print a listing of the translated functions",
      fun s f => do return { f with listing := ← truth s }⟩,
   ⟨"luac", "string", "Lua compiler used for source input",
      fun s f => .ok { f with luac := s }⟩,
   ⟨"unsupported", "string", "Unsupported opcode policy: error, trap, fallback",
      fun s f => .ok { f with unsupported := s }⟩,
   ⟨"v", "int", "Log verbosity (0 = warnings, 1 = info, 2 = debug)",
      fun s f => do return { f with verbosity := ← integer s }⟩]

/-- What the help says about a flag. A short flag has it on the same line. -/
def Definition.help (d : Definition) : Bytes :=
  let start := ascii "  -" ++ ascii d.name ++
    if d.isSwitch then [] else ascii " " ++ ascii d.placeholder
  start ++ (if start.length ≤ 4 then ascii "\t" else ascii "\n    \t") ++ ascii d.purpose ++
    ascii "\n"

/-- The help text. -/
def help : Bytes :=
  ascii "usage: luaot [options] input.lua output.c\n\n" ++
    ascii "Translates a Lua 5.4 module (source or binary chunk) into C.\n\n" ++
    ascii "Options:\n" ++ definitions.flatMap Definition.help ++
    ascii "\nExamples:\n" ++
    ascii "  luaot foo.lua foo.c                  # luaopen_foo\n" ++
    ascii "  luaot -unsupported trap foo.lua foo.c\n" ++
    ascii "  luaot -l -contract foo.cbor foo.luac foo.c\n"

/-- Why flags are refused, or that help is wanted. -/
inductive Error where
  | helpWanted
  | malformed (argument : Bytes)
  | undefined (name : Bytes)
  | withoutValue (name : Bytes)
  | badValue (value name : Bytes) (e : ValueError)
  | badSwitch (value name : Bytes) (e : ValueError)
  deriving DecidableEq

/-- The wording of the refusal. -/
def Error.message : Error → Bytes
  | .helpWanted => ascii "flag: help requested"
  | .malformed argument => ascii "bad flag syntax: " ++ argument
  | .undefined name => ascii "flag provided but not defined: -" ++ name
  | .withoutValue name => ascii "flag needs an argument: -" ++ name
  | .badValue value name e =>
    ascii "invalid value " ++ Text.quoted value ++ ascii " for flag -" ++ name ++ ascii ": " ++
      e.message
  | .badSwitch value name e =>
    ascii "invalid boolean value " ++ Text.quoted value ++ ascii " for -" ++ name ++
      ascii ": " ++ e.message

/-- The name of a flag and the value after the equals sign. The sign is not the first byte of
the name. -/
def nameAndValue (s : Bytes) : Bytes × Option Bytes :=
  let rest := s.drop 1
  let name := s.take 1 ++ rest.takeWhile (· ≠ 61)
  (name, (rest.dropWhile (· ≠ 61)).tail?)

/-- A flag without its dashes; none when the argument is not a flag. -/
def withoutDashes? (argument : Bytes) : Option Bytes :=
  match argument with
  | 45 :: 45 :: name => some name
  | 45 :: c :: name => some (c :: name)
  | _ => Option.none

/-- Reads the flags in front of the other arguments. -/
def parse (f : Flags) : List Bytes → Except Error Flags
  | [] => .ok f
  | argument :: rest =>
    match withoutDashes? argument with
    | Option.none => .ok { f with operands := argument :: rest }
    | some body =>
      if argument = ascii "--" then .ok { f with operands := rest }
      else if body = [] ∨ body.head? = some 45 ∨ body.head? = some 61 then
        .error (.malformed argument)
      else
        let (name, value) := nameAndValue body
        match definitions.find? fun d => ascii d.name = name with
        | Option.none =>
          if name = ascii "help" ∨ name = ascii "h" then .error .helpWanted
          else .error (.undefined name)
        | some d =>
          if d.isSwitch then
            let value := value.getD (ascii "true")
            match d.set value f with
            | .error e => .error (.badSwitch value name e)
            | .ok f => parse f rest
          else
            match value, rest with
            | some value, rest => set d name value f fun f => parse f rest
            | Option.none, value :: rest => set d name value f fun f => parse f rest
            | Option.none, [] => .error (.withoutValue name)
where
  /-- Goes on after a flag with a value. -/
  set (d : Definition) (name value : Bytes) (f : Flags) (next : Flags → Except Error Flags) :
      Except Error Flags :=
    match d.set value f with
    | .error e => .error (.badValue value name e)
    | .ok f => next f

end Flags
end LuaToC.Command
