import LuaToC.Cbor.Item
import LuaToC.Cbor.Reader
import LuaToC.Contract.Basic
import LuaToC.Text.Utf8

/-! # Contracts as CBOR

A contract is a map with the keys 1 to 5, an entry one with the keys 1 to 4. Writing is
canonical. Reading is lenient: unknown keys are passed over, a null stands for an empty field,
tags that do not change a value are dropped. -/
namespace LuaToC

namespace ContractFunction

/-- An entry as an item. -/
def toItem (e : ContractFunction) : Cbor.Item :=
  .map
    [.unsigned 1, .ofInt64 e.id,
     .unsigned 2, .text [e.name],
     .unsigned 3, (match e.path with | none => .null | some p => .array (p.map .ofInt64)),
     .unsigned 4, .bytes [e.hash.toList]]

end ContractFunction

namespace Contract

/-- A contract as an item. -/
def toItem (c : Contract) : Cbor.Item :=
  .map
    [.unsigned 1, .ofInt64 c.version,
     .unsigned 2, .text [c.moduleName],
     .unsigned 3, .text [c.buildId],
     .unsigned 4, .ofBool c.hasSource,
     .unsigned 5,
      (match c.functions with | none => .null | some fs => .array (fs.map ContractFunction.toItem))]

/-- The canonical encoding of a contract. -/
def encode (c : Contract) : Bytes := c.toItem.encode

/-- Why input is not a contract: it is not one CBOR item, or the item holds text that is not
UTF-8, a value of the wrong type, or a tag whose content it does not allow. -/
inductive DecodeError where
  | fault (f : Cbor.Fault)
  | badText
  | wrongType
  | badTag
  deriving DecidableEq

/-- The result of reading one value. -/
abbrev Decoded := Except DecodeError

namespace Decoded

/-- The tag that only says that CBOR follows. -/
def selfDescribed : Nat := 55799

/-- Times need text, time stamps a number, big numbers bytes; other tags take anything. -/
def allows (number : Nat) (content : Cbor.Item) : Bool :=
  match number, content with
  | 0, .text _ => true
  | 1, .unsigned _ | 1, .negative _ | 1, .float _ => true
  | 2, .bytes _ | 3, .bytes _ => true
  | n, _ => 3 < n

/-- Drops the tags of an item, apart from those of big numbers. -/
def untag : Cbor.Item → Decoded Cbor.Item
  | .tag number content =>
    if number = selfDescribed then untag content
    else if !allows number content then .error .badTag
    else if number = 2 ∨ number = 3 then .ok (.tag number content)
    else untag content
  | i => .ok i

/-- A null or an undefined value. -/
def isNull : Cbor.Item → Bool
  | .simple n => n = 22 ∨ n = 23
  | _ => false

/-- The text of a text string, every chunk of which has to be UTF-8. -/
def textOf (chunks : List Bytes) : Decoded Bytes :=
  if chunks.all Utf8.isValid then .ok chunks.flatten else .error .badText

/-- A value that is not of the expected type. Text is looked at before it is refused. -/
def refuse {α : Type} : Cbor.Item → Decoded α
  | .text chunks => do
    let _ ← textOf chunks
    throw .wrongType
  | _ => .error .wrongType

/-- An integer, given as such, by the number of a simple value, or as a big number. -/
def integer? : Cbor.Item → Option Int
  | .unsigned n => some n
  | .negative n => some (-1 - n)
  | .simple n => if n < 20 ∨ 32 ≤ n then some n else none
  | .tag 2 (.bytes chunks) => some (Bytes.toNatBE chunks.flatten)
  | .tag 3 (.bytes chunks) => some (-1 - Bytes.toNatBE chunks.flatten)
  | _ => none

/-- An integer from `lo` to `hi`; a null is zero. -/
def integer (lo hi : Int) (i : Cbor.Item) : Decoded Int := do
  let i ← untag i
  if isNull i then return 0
  match integer? i with
  | some n => if lo ≤ n ∧ n ≤ hi then return n else throw .wrongType
  | none => refuse i

/-- A 64-bit integer. -/
def int64 (i : Cbor.Item) : Decoded Int64 := do
  return Int64.ofInt (← integer (-0x8000000000000000) 0x7fffffffffffffff i)

/-- A truth value; a null is false. -/
def bool (i : Cbor.Item) : Decoded Bool := do
  match ← untag i with
  | .simple 20 => return false
  | .simple 21 => return true
  | i => if isNull i then return false else refuse i

/-- A text; a null is the empty one. -/
def text (i : Cbor.Item) : Decoded Bytes := do
  match ← untag i with
  | .text chunks => textOf chunks
  | i => if isNull i then return [] else refuse i

/-- A list, which a null leaves out. -/
def list {α : Type} (element : Cbor.Item → Decoded α) (i : Cbor.Item) :
    Decoded (Option (List α)) := do
  match ← untag i with
  | .array items => return some (← items.mapM element)
  | i => if isNull i then return none else refuse i

/-- A fingerprint: bytes, or an array of numbers of which the first 32 count; missing bytes
are zero. -/
def fingerprint (i : Cbor.Item) : Decoded Fingerprint := do
  match ← untag i with
  | .bytes chunks | .tag _ (.bytes chunks) => return Fingerprint.ofBytes chunks.flatten
  | .array items =>
    let numbers ← (items.take 32).mapM (integer 0 255)
    return Fingerprint.ofBytes (numbers.map fun n => n.toNat.toUInt8)
  | i => if isNull i then return Fingerprint.ofBytes [] else refuse i

/-- The least natural number that, taken as the argument of a negative integer, gives one that
has no 64-bit form. -/
def negativeBound : Nat := 0x8000000000000000

/-- The field that a key selects: an integer or its decimal text. A negative integer selects
none and must have a 64-bit form. A key has no tag. -/
def key : Cbor.Item → Decoded (Option Nat)
  | .unsigned n => .ok (some n)
  | .negative n => if n < negativeBound then .ok none else .error .wrongType
  | .text chunks => do
    let s ← textOf chunks
    return (List.range 10).find? fun n => Bytes.ofNat n = s
  | _ => .error .wrongType

/-- Reads the fields of a map into a record. `set` is given each key below `bound` once, with
the first of its values. -/
def fields {α : Type} (bound : Nat) (set : α → Nat → Cbor.Item → Decoded α) :
    List Nat → α → List Cbor.Item → Decoded α
  | seen, record, k :: v :: rest => do
    match ← key k with
    | some n =>
      if 0 < n ∧ n < bound ∧ n ∉ seen then
        fields bound set (n :: seen) (← set record n v) rest
      else fields bound set seen record rest
    | none => fields bound set seen record rest
  | _, record, _ => .ok record

/-- Reads a map into a record; a null leaves the record empty. -/
def record {α : Type} (bound : Nat) (empty : α) (set : α → Nat → Cbor.Item → Decoded α)
    (i : Cbor.Item) : Decoded α := do
  match ← untag i with
  | .map items => fields bound set [] empty items
  | i => if isNull i then return empty else refuse i

/-- An entry. -/
def entry : Cbor.Item → Decoded ContractFunction :=
  record 5 ⟨0, [], none, Fingerprint.ofBytes []⟩ fun e n v => do
    match n with
    | 1 => return { e with id := ← int64 v }
    | 2 => return { e with name := ← text v }
    | 3 => return { e with path := ← list int64 v }
    | _ => return { e with hash := ← fingerprint v }

/-- A contract. -/
def contract : Cbor.Item → Decoded Contract :=
  record 6 ⟨0, [], [], false, none⟩ fun c n v => do
    match n with
    | 1 => return { c with version := ← int64 v }
    | 2 => return { c with moduleName := ← text v }
    | 3 => return { c with buildId := ← text v }
    | 4 => return { c with hasSource := ← bool v }
    | _ => return { c with functions := ← list entry v }

end Decoded

/-- Reads a contract. -/
def decode (s : Bytes) : Except DecodeError Contract :=
  match Cbor.decode s with
  | .error f => .error (.fault f)
  | .ok i => Decoded.contract i

end Contract
end LuaToC
