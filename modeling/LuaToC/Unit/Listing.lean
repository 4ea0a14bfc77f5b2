import LuaToC.Unit.Compile

/-! # Listings

A listing shows every function of a tree with its instructions, in the manner of `luac -l`, under
the names that a generated unit gives them. Unsupported instructions are flagged. -/
namespace LuaToC.Listing

/-- How the parts of a listing are set off from each other. -/
structure Palette where
  header : Bytes → Bytes
  dim : Bytes → Bytes
  mnemonic : Bytes → Bytes
  operands : Bytes → Bytes
  remark : Bytes → Bytes
  warning : Bytes → Bytes

/-- No part is set off. -/
def Palette.plain : Palette := ⟨id, id, id, id, id, id⟩

/-- A text between two terminal sequences. -/
def styled (on off : String) (s : Bytes) : Bytes :=
  27 :: ascii "[" ++ ascii on ++ ascii "m" ++ s ++ (27 :: ascii "[" ++ ascii off ++ ascii "m")

/-- The colours of a terminal. -/
def Palette.coloured : Palette where
  header := styled "32;1" "0;22"
  dim := styled "2" "22"
  mnemonic := styled "36;1" "0;22"
  operands := styled "37" "0"
  remark := styled "33" "0"
  warning := styled "31" "0"

/-- The two lines about a function, after an empty one. -/
def heading (palette : Palette) (e : Entry) : Bytes :=
  let f := e.proto.body
  let amounts := Bytes.join (ascii ", ") <|
    [(f.maxStack.toNat, "slots"), (f.upvalues.length, "upvalues"), (f.locals.length, "locals"),
      (f.constants.length, "constants"), (e.proto.children.length, "functions")].map
      fun (n, what) => Bytes.ofNat n ++ ascii " " ++ ascii what
  let params := Bytes.ofNat f.numParams.toNat ++ if f.isVararg then ascii "+" else []
  ascii "\n" ++ palette.header (ascii (if f.isMain then "main" else "function")) ++ ascii " <" ++
    f.source ++ ascii ":" ++ Bytes.ofInt f.lineDefined.toInt ++ ascii "," ++
    Bytes.ofInt f.lastLineDefined.toInt ++ ascii "> (" ++ Bytes.ofNat f.code.length ++
    ascii " instructions) " ++ palette.header e.name ++ ascii "\n" ++
    palette.dim (params ++ ascii " params, " ++ amounts) ++ ascii "\n"

/-- The line of one instruction. -/
def record (palette : Palette) (a : Annotation) (supported : Bool) : Bytes :=
  let columns := [palette.dim (Bytes.ofNat a.pc), palette.dim a.lineText,
    palette.mnemonic a.mnemonicText, palette.operands a.operands]
  let remark := a.remark.toList.map fun r => palette.remark (ascii "; " ++ r)
  let warning :=
    if supported then []
    else [palette.warning (ascii "[no translation for " ++ a.tag.name ++ ascii "]")]
  (columns ++ remark ++ warning).flatMap (fun column => 9 :: column) ++ [Bytes.newline]

/-- The lines of one function. -/
def ofEntry (palette : Palette) (entries : List Entry) (e : Entry) :
    Except UncoveredLine Bytes := do
  let f := e.proto.body
  let records ← f.code.zipIdx.mapM fun (i, pc) => do
    let a ← Annotation.ofInstruction f (Entry.nameOfChild entries e.path) pc i
    return record palette a (Statements.supported? pc i).isSome
  return heading palette e ++ records.flatten

/-- The listing of a tree. -/
def ofTree (palette : Palette) (functionPrefix : Bytes) (root : Prototype) :
    Except UncoveredLine Bytes := do
  let names := Options.orDefault functionPrefix Options.default.functionPrefix
  let entries := Entry.ofTree names root
  return (← entries.mapM (ofEntry palette entries)).flatten

/-- Why a listing is not written. -/
inductive Error where
  | uncovered (e : UncoveredLine)
  | refused (reason : Bytes)

/-- Makes the listing of a tree and writes it. What a stream may have taken of a listing before it
fails is not kept: the sink is then as before. -/
def writeTo (palette : Palette) (functionPrefix : Bytes) (root : Prototype) (sink : Sink) :
    Except Error Unit × Sink :=
  match ofTree palette functionPrefix root with
  | .error e => (.error (.uncovered e), sink)
  | .ok text =>
    match sink.write text with
    | .error reason => (.error (.refused reason), sink)
    | .ok sink => (.ok (), sink)

end LuaToC.Listing
