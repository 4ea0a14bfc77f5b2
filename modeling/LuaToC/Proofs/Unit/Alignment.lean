import LuaToC.Proofs.Contract.Verification
import LuaToC.Proofs.Unit.TextLines

/-! # The lists of a unit agree

A unit lists its functions four times: it defines them, it has a table of them and a table of
their paths, and its contract has an entry for each.  Whoever loads the unit takes the functions by
position, so the lists have to have the same functions in the same order.  That order is the order
of numbers, and an annotation names the child of a function by the child's own number
(`compileModule_numbering`).  The lists are read off the lines that were written; where no line has a
line feed in it, they can be read off the text as well (`compileModule_numbering_text`).
-/
namespace LuaToC

namespace UnitText

/-- The lines define the functions of the entries, list them in a table, and list their paths in
another; and so does the contract, all in the same order.  A function of the contract has the
fingerprint of the entry's own prototype. -/
structure Listed (entries : List Entry) (lines : List Bytes) (contract : Contract) : Prop where
  definitions : lines.filter isDefinition = entries.map fun e => definitionLine e.name
  functions : rowsOf "static AotCompiledFunction LUA_AOT_FUNCTIONS[]" lines =
    entries.map fun e => ascii "  " ++ e.name ++ ascii ","
  paths : rowsOf "static const char *const LUA_AOT_FUNCTION_PATHS[]" lines =
    entries.map fun e =>
      ascii "  \"" ++ TreePath.text (e.path.map Int.ofNat) ++ ascii "\",  /* " ++ e.name ++ ascii " */"
  contract : ∃ fs, contract.functions = some fs ∧
    fs.map (fun f => (f.id.toInt, f.name, (f.path.getD []).map Int64.toInt, f.hash)) =
      entries.map fun e =>
        ((e.id : Int), e.name, e.path.map Int.ofNat, Fingerprint.ofPrototype e.proto)

/-- The annotation of the instruction `i` at `pc` in the function of `e`, which makes a closure,
ends with the given name. -/
def Names (lines : List Bytes) (e : Entry) (pc : Nat) (i : Instruction) (name : Bytes) : Prop :=
  ∃ line, (annotationsOf e.name lines)[pc]? =
    some (⟨pc + 1, line, i.tag, Annotation.numbers [i.a, i.bx], some name⟩ : Annotation).text

/-- Annotations of instructions that make closures name the entry of the child, and no function
where there is no child. -/
structure NamesChildren (entries : List Entry) (lines : List Bytes) : Prop where
  child : ∀ e ∈ entries, ∀ pc i, e.proto.body.code[pc]? = some i → i.opcode? = some .closure →
    i.bx < e.proto.children.length →
      ∃ d ∈ entries, d.path = e.path ++ [i.bx] ∧ Names lines e pc i d.name
  noChild : ∀ e ∈ entries, ∀ pc i, e.proto.body.code[pc]? = some i → i.opcode? = some .closure →
    e.proto.children.length ≤ i.bx → Names lines e pc i (ascii "?")

end UnitText

/-! ## What a compiler has written -/

namespace Compiler

/-- A draft that can be finished gets its closing lines. -/
theorem lines_finish {c : Compiler} {input : ModuleInput} {unit : CompiledUnit}
    (h : (c.finish input).1 = .ok unit) :
    (c.finish input).2.lines =
      c.lines ++ CompiledUnit.closing c.options input c.entries unit.contract := by
  unfold finish at h ⊢
  split at h
  · cases h
  · rename_i hforbidden
    rw [if_neg hforbidden]
    cases h
    rfl

theorem compiler_compileModule (c : Compiler) (input : ModuleInput) (sink : Sink) :
    (c.compileModule input sink).compiler = (c.generate input).2 := by
  unfold compileModule
  rcases c.generate input with ⟨_ | unit, c'⟩
  · rfl
  · dsimp only
    cases sink.write unit.text <;> rfl

/-- A compilation that succeeds has generated the unit of its input. -/
theorem ofInput_of_compileModule_eq_ok {c : Compiler} {o : Options} (h : c.options = o.completed)
    {input : ModuleInput} {sink : Sink} {unit : CompiledUnit}
    (hok : (c.compileModule input sink).result = .ok unit) : CompiledUnit.ofInput o input = .ok unit := by
  have hwritten := congrArg Prod.fst (compileModule_eq_writeTo h input sink)
  dsimp only at hwritten
  rw [hok] at hwritten
  unfold CompiledUnit.writeTo at hwritten
  split at hwritten
  · cases hwritten
  · rename_i unit' hunit
    split at hwritten
    · cases hwritten
    · rw [hunit, Except.ok.inj hwritten]

/-- The name of a module that has a unit can stand in a C identifier. -/
theorem isCIdentifier_of_ofInput_eq_ok {o : Options} {input : ModuleInput} {unit : CompiledUnit}
    (h : CompiledUnit.ofInput o input = .ok unit) : isCIdentifier input.name = true := by
  cases hmain : input.main with
  | none =>
    rw [CompiledUnit.ofInput, hmain] at h
    cases h
  | some root =>
    cases hname : isCIdentifier input.name with
    | true => rfl
    | false =>
      simp only [CompiledUnit.ofInput, hmain, hname] at h
      cases h

/-- A compilation that succeeds has generated every function, and leaves its lines in the draft. -/
theorem exists_functions_of_compileModule_eq_ok {c : Compiler} {o : Options}
    (h : c.options = o.completed) {input : ModuleInput} {root : Prototype}
    (hmain : input.main = some root) {sink : Sink} {unit : CompiledUnit}
    (hok : (c.compileModule input sink).result = .ok unit) :
    ∃ functions,
      (CompiledUnit.entriesOf o root).mapM
          (CompiledUnit.functionLines o.completed (CompiledUnit.entriesOf o root)) = .ok functions ∧
        unit = CompiledUnit.assembled o input (CompiledUnit.entriesOf o root) functions ∧
        (c.compileModule input sink).compiler.lines =
          CompiledUnit.opening o.completed ++ functions.flatten ++
            CompiledUnit.closing o.completed input (CompiledUnit.entriesOf o root) unit.contract := by
  have hunit := ofInput_of_compileModule_eq_ok h hok
  have hname := isCIdentifier_of_ofInput_eq_ok hunit
  cases hfunctions : (CompiledUnit.entriesOf o root).mapM
      (CompiledUnit.functionLines o.completed (CompiledUnit.entriesOf o root)) with
  | error err =>
    rw [CompiledUnit.ofInput_of_mapM_eq_error hmain hname hfunctions] at hunit
    cases hunit
  | ok functions =>
    have hassembled := CompiledUnit.ofInput_of_mapM_eq_ok hmain hname hfunctions
    rw [hunit] at hassembled
    refine ⟨functions, rfl, ?_, ?_⟩
    · split at hassembled
      · cases hassembled
      · exact Except.ok.inj hassembled
    · have hresult := generate_eq_ofInput h input
      rw [hunit, generate_of_mapM_eq_ok h hmain hname hfunctions] at hresult
      rw [compiler_compileModule, generate_of_mapM_eq_ok h hmain hname hfunctions, lines_finish hresult,
        ← h, CompiledUnit.entriesOf, ← h]
      rfl

section

open UnitText CompiledUnit

variable {o : Options} {root : Prototype} {functions : List (List Bytes)}
  (h : (entriesOf o root).mapM (functionLines o.completed (entriesOf o root)) = .ok functions)
include h

theorem listed_entriesOf (hcount : root.count < 0x8000000000000000) (input : ModuleInput)
    {after : List Bytes} (hafter : after.filter isDefinition = []) :
    let contract := Contract.ofEntries input.name input.source o.completed.embedSource (entriesOf o root)
    Listed (entriesOf o root)
      (opening o.completed ++ functions.flatten ++
        (closing o.completed input (entriesOf o root) contract ++ after)) contract := by
  intro contract
  have hpaths : ∀ e ∈ entriesOf o root, ∀ i ∈ e.path, i < 0x8000000000000000 := by
    intro e he i hi
    have hnode := (Entry.mem_ofTree_iff.mp he).2.1
    exact Nat.lt_trans (Prototype.lt_count_of_mem_path hnode i hi) hcount
  have hids : ∀ e ∈ entriesOf o root, e.id < 0x8000000000000000 := by
    intro e he
    obtain ⟨-, hnode, hid⟩ := Entry.mem_ofTree_iff.mp he
    have hlt := Prototype.idOf_lt_count hnode
    omega
  refine ⟨filter_isDefinition_lines h input contract hafter, rowsOf_functions h input contract after,
    ?_, ?_⟩
  · have hfunctions : contract.functions.getD [] = (entriesOf o root).map ContractFunction.ofEntry := rfl
    rw [rowsOf_paths h input contract after, hfunctions, List.map_map]
    refine List.map_congr_left fun e he => ?_
    rw [Function.comp_apply, Contract.pathText_ofEntry (hpaths e he)]
    rfl
  · refine ⟨_, rfl, ?_⟩
    rw [List.map_map]
    refine List.map_congr_left fun e he => ?_
    have hid : (Int64.ofNat e.id).toInt = e.id := Int64.toInt_ofNat_of_lt (hids e he)
    rw [Function.comp_apply, Contract.map_toInt_path_ofEntry (hpaths e he)]
    exact congrArg (·, _) hid

theorem namesChildren_entriesOf (hcomments : o.comments = true) (after : List Bytes) :
    NamesChildren (entriesOf o root) (opening o.completed ++ functions.flatten ++ after) := by
  have hnumbered := Entry.numbered_ofTree o.completed.functionPrefix root
  have hnames (e : Entry) (he : e ∈ entriesOf o root) (pc : Nat) (i : Instruction)
      (hi : e.proto.body.code[pc]? = some i) (hop : i.opcode? = some .closure) :
      Names (opening o.completed ++ functions.flatten ++ after) e pc i
        (Entry.nameOfChild (entriesOf o root) e.path i.bx) := by
    obtain ⟨as, has, htexts⟩ := annotationsOf_lines h hnumbered.names hcomments he after
    have hpc : e.proto.body.code.zipIdx[pc]? = some (i, pc) := by
      rw [List.getElem?_zipIdx, hi, Nat.zero_add]
      rfl
    obtain ⟨a, ha, hannotate⟩ := exists_getElem?_of_mapM_eq_ok has hpc
    obtain ⟨line, rfl⟩ := annotate_closure hop hannotate
    refine ⟨line, ?_⟩
    rw [htexts, List.getElem?_map, ha]
    rfl
  constructor
  · intro e he pc i hi hop hbx
    obtain ⟨d, hd, hpath, hname⟩ := Entry.exists_nameOfChild he hbx
    exact ⟨d, hd, hpath, hname ▸ hnames e he pc i hi hop⟩
  · intro e he pc i hi hop hbx
    exact Entry.nameOfChild_of_length_le he hbx ▸ hnames e he pc i hi hop

end

/-- **Functions are bound to prototypes by their numbers.**  Whatever the compiler has served
before, the entries of a unit are numbered as the functions of the tree are; the definitions, both
tables and the contract list them in this order; and annotations name children by their entries,
however much functions look alike.  Numbers and child indexes are 64-bit words in a contract. -/
theorem compileModule_numbering (o : Options) (served : List (ModuleInput × Sink))
    (input : ModuleInput) {root : Prototype} (hmain : input.main = some root)
    (hcount : root.count < 0x8000000000000000) (sink : Sink) {unit : CompiledUnit}
    (hok : (((new o).after served).compileModule input sink).result = .ok unit) :
    let lines := (((new o).after served).compileModule input sink).compiler.lines
    Entry.Numbered o.completed.functionPrefix root unit.entries ∧
      unit.text = Bytes.unlines lines ∧
      UnitText.Listed unit.entries lines unit.contract ∧
      (o.comments = true → UnitText.NamesChildren unit.entries lines) := by
  obtain ⟨functions, hfunctions, rfl, hlines⟩ :=
    exists_functions_of_compileModule_eq_ok (options_after (new o) served) hmain hok
  intro lines
  refine ⟨Entry.numbered_ofTree o.completed.functionPrefix root, ?_, ?_, fun hcomments => ?_⟩
  · exact congrArg Bytes.unlines hlines.symm
  · have hlisted := listed_entriesOf hfunctions hcount input
      (show ([] : List Bytes).filter UnitText.isDefinition = [] from rfl)
    dsimp only at hlisted
    rw [List.append_nil] at hlisted
    rw [show lines = _ from hlines]
    exact hlisted
  · rw [show lines = _ from hlines]
    exact namesChildren_entriesOf hfunctions hcomments _

/-- **The lists are in the text.**  If nothing that is written as it is has a line feed, the lines between
the line feeds of the text have the definitions, both tables and the annotations of the unit. -/
theorem compileModule_numbering_text (o : Options) (served : List (ModuleInput × Sink))
    (input : ModuleInput) {root : Prototype} (hmain : input.main = some root)
    (hcount : root.count < 0x8000000000000000) (hlines : UnitText.StaysOnLines o root) (sink : Sink)
    {unit : CompiledUnit}
    (hok : (((new o).after served).compileModule input sink).result = .ok unit) :
    UnitText.Listed unit.entries (Bytes.splitOn Bytes.newline unit.text) unit.contract ∧
      (o.comments = true →
        UnitText.NamesChildren unit.entries (Bytes.splitOn Bytes.newline unit.text)) := by
  have hname := isCIdentifier_of_ofInput_eq_ok
    (ofInput_of_compileModule_eq_ok (options_after (new o) served) hok)
  obtain ⟨functions, hfunctions, rfl, -⟩ :=
    exists_functions_of_compileModule_eq_ok (options_after (new o) served) hmain hok
  rw [UnitText.splitOn_lines hlines hfunctions hname]
  exact ⟨listed_entriesOf hfunctions hcount input rfl,
    fun hcomments => namesChildren_entriesOf hfunctions hcomments _⟩

/-- A tree in which two children are equal and have equal children.  The main function makes a
closure of each and one of a child that it does not have. -/
def twinsSample : Prototype :=
  let leaf := plainFunction [.ofABC Opcode.ret0.tag 0 0 0 0] []
  let twin := plainFunction [.ofABx Opcode.closure.tag 0 0] [leaf]
  plainFunction [.ofABx Opcode.closure.tag 0 0, .ofABx Opcode.closure.tag 0 1,
    .ofABx Opcode.closure.tag 0 2] [twin, twin]

theorem compileModule_numbering_twinsSample :
    twinsSample.count < 0x8000000000000000 ∧ ∃ unit,
      ((new .default).compileModule ⟨ascii "twins", some twinsSample, []⟩ .empty).result = .ok unit ∧
        Entry.Numbered (ascii "magic_implementation_") twinsSample unit.entries ∧
        UnitText.Listed unit.entries
          ((new .default).compileModule ⟨ascii "twins", some twinsSample, []⟩ .empty).compiler.lines
          unit.contract ∧
        UnitText.NamesChildren unit.entries
          ((new .default).compileModule ⟨ascii "twins", some twinsSample, []⟩ .empty).compiler.lines := by
  have hcount : twinsSample.count < 0x8000000000000000 := by decide
  have hok : ((new .default).compileModule ⟨ascii "twins", some twinsSample, []⟩ .empty).result.isOk =
      true := by decide +kernel
  cases hunit : ((new .default).compileModule ⟨ascii "twins", some twinsSample, []⟩ .empty).result with
  | error err =>
    rw [hunit] at hok
    cases hok
  | ok unit =>
    obtain ⟨hnumbered, -, hlisted, hnames⟩ :=
      compileModule_numbering .default [] ⟨ascii "twins", some twinsSample, []⟩ rfl hcount .empty hunit
    exact ⟨hcount, unit, rfl, hnumbered, hlisted, hnames rfl⟩

example : UnitText.StaysOnLines .default twinsSample :=
  ⟨by decide, by decide, by decide, by decide⟩

end Compiler
end LuaToC
