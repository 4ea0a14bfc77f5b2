import LuaToC.Unit.Entry
import LuaToC.Digest.Sha256
import LuaToC.Digest.NameUuid

/-! # Traversal contracts

A contract lists the functions of a unit with their paths and fingerprints, so that the unit can
be told apart from one made for another tree. A fingerprint covers what a function does: its
header, code and constants, and the number of its children, but no debug information. -/
namespace LuaToC

/-- A SHA-256 digest. -/
abbrev Fingerprint := Vector UInt8 32

namespace Fingerprint

/-- The first 32 bytes of a text, with zeros in place of missing ones. -/
def ofBytes (s : Bytes) : Fingerprint := Vector.ofFn fun i => s.getD i 0

/-- A number as eight bytes. -/
def putNat (n : Nat) : Bytes := Bytes.ofUInt64 n.toUInt64

/-- A constant: its kind, then its value. Whether a string is long does not matter. -/
def putConstant (k : Constant) : Bytes :=
  k.kind ::
    match k with
    | .nil | .unassigned _ => []
    | .bool b => [if b then 1 else 0]
    | .int n => Bytes.ofUInt64 n.toUInt64
    | .float x => Bytes.ofUInt64 x.bits
    | .str s _ => putNat s.length ++ s

/-- The bytes whose digest is the fingerprint. Every list is preceded by its length. -/
def input (p : Prototype) : Bytes :=
  let f := p.body
  putNat f.numParams.toNat ++ putNat (if f.isVararg then 1 else 0) ++ putNat f.maxStack.toNat ++
    putNat f.upvalues.length ++ putNat p.children.length ++
    putNat f.code.length ++ f.code.flatMap (fun i => Bytes.ofUInt32 i.word) ++
    putNat f.constants.length ++ f.constants.flatMap putConstant

/-- The fingerprint of a function. -/
def ofPrototype (p : Prototype) : Fingerprint := ofBytes (Digest.Sha256.digest (input p))

end Fingerprint

/-- What a contract says about one function. The path may be missing, which is not the same
as an empty one. -/
structure ContractFunction where
  id : Int64
  name : Bytes
  path : Option (List Int64)
  hash : Fingerprint
  deriving DecidableEq

namespace ContractFunction

/-- The path in dotted form; a missing one is empty. -/
def pathText (e : ContractFunction) : Bytes :=
  TreePath.text ((e.path.getD []).map Int64.toInt)

/-- What a contract says about a generated function. The main function has no path. -/
def ofEntry (e : Entry) : ContractFunction where
  id := Int64.ofNat e.id
  name := e.name
  path := if e.path = [] then none else some (e.path.map Int64.ofNat)
  hash := Fingerprint.ofPrototype e.proto

end ContractFunction

/-- A contract: the version of the numbering, the module, the identifier of the build,
whether the unit has the source in it, and its functions. -/
structure Contract where
  version : Int64
  moduleName : Bytes
  buildId : Bytes
  hasSource : Bool
  functions : Option (List ContractFunction)
  deriving DecidableEq

namespace Contract

/-- The version of the numbering: a function before its children, children in order. -/
def numberingVersion : Int64 := 1

/-- The bytes that identify a build: the module, the source and the fingerprints. -/
def buildInput (moduleName source : Bytes) (hashes : List Fingerprint) : Bytes :=
  ascii "luaot:" ++ moduleName ++ [0] ++ source ++ hashes.flatMap fun h => h.toList

/-- The identifier of a build; equal inputs have equal identifiers. -/
def buildIdOf (moduleName source : Bytes) (functions : List ContractFunction) : Bytes :=
  Digest.nameUuid (buildInput moduleName source (functions.map (·.hash)))

/-- The contract of a unit. -/
def ofEntries (moduleName source : Bytes) (hasSource : Bool) (entries : List Entry) : Contract :=
  let functions := entries.map ContractFunction.ofEntry
  { version := numberingVersion
    moduleName
    buildId := buildIdOf moduleName source functions
    hasSource
    functions := some functions }

/-- The first point at which a tree is not the one that a contract was made for. -/
inductive Mismatch where
  | version (found : Int64)
  | extra (path : Bytes)
  | moved (id : Nat) (path want : Bytes)
  | changed (id : Nat) (name : Bytes)
  | count (found want : Nat)
  deriving DecidableEq

/-- The wording of a mismatch. -/
def Mismatch.message (m : Mismatch) : Bytes :=
  ascii "traversal contract mismatch: " ++
    match m with
    | .version v =>
      ascii "traversal version " ++ Bytes.ofInt v.toInt ++ ascii ", want " ++
        Bytes.ofInt numberingVersion.toInt
    | .extra path => ascii "extra function at path " ++ Text.quoted path
    | .moved id path want =>
      ascii "function " ++ Bytes.ofNat id ++ ascii " is at path " ++ Text.quoted path ++
        ascii ", want " ++ Text.quoted want
    | .changed id name =>
      ascii "function " ++ Bytes.ofNat id ++ ascii " (" ++ name ++
        ascii ") has different content"
    | .count found want =>
      Bytes.ofNat found ++ ascii " functions, want " ++ Bytes.ofNat want

/-- Compares nodes with entries one by one, the first of them having number `id`. -/
def verifyFrom (id : Nat) : List Visit → List ContractFunction → Except Mismatch Unit
  | [], [] => .ok ()
  | [], fs => .error (.count id (id + fs.length))
  | v :: _, [] => .error (.extra (TreePath.text (v.path.map Int.ofNat)))
  | v :: vs, f :: fs =>
    let path := TreePath.text (v.path.map Int.ofNat)
    if f.pathText ≠ path then .error (.moved id path f.pathText)
    else if Fingerprint.ofPrototype v.proto ≠ f.hash then .error (.changed id f.name)
    else verifyFrom (id + 1) vs fs

/-- Accepts a tree that has exactly the functions of the contract, in the same order and
with the same content. -/
def verify (c : Contract) (root : Prototype) : Except Mismatch Unit :=
  if c.version ≠ numberingVersion then .error (.version c.version)
  else verifyFrom 0 root.visits (c.functions.getD [])

end Contract
end LuaToC
