import LuaToC.Proofs.Unit.Alignment
import LuaToC.Unit.Listing
import Mathlib.Data.List.Nodup

/-! # Listings and units say the same

A listing has a record for every instruction and a unit an annotation, and the two are put together
by different functions.  Here the records are said in terms of the unit alone (`recordIn`): the
description is what the annotation has after its comment mark, and the warning is there when the
unit has a finding for the function and the position.  `writeTo_eq_sections` is the agreement.  It
covers every tree that a unit can be generated from, so the listing of such a tree is always
written: it fails for no line that the unit did not need.
-/
namespace LuaToC
namespace Listing

open UnitText

/-! ## Records in terms of a unit -/

/-- What is said about an instruction without a translation. -/
def warning (i : Instruction) : Bytes := ascii "[no translation for " ++ i.tag.name ++ ascii "]"

/-- A record: a tab, the description, the warning after another tab if there is one, and the end of
the line. -/
def recordText (description : Bytes) (warning : Option Bytes) : Bytes :=
  9 :: description ++ (warning.map (9 :: ·)).getD [] ++ [Bytes.newline]

/-- The findings have one for the position in the function. -/
def reports (found : List Finding) (function : Bytes) (pc : Nat) : Bool :=
  found.any fun f => f.function = function ∧ f.pc = pc

/-- What an annotation says after its comment mark. -/
def descriptionOf (comment : Bytes) : Bytes := comment.drop (ascii "  // ").length

/-- The record of an instruction, from its annotation and the findings. -/
def recordIn (found : List Finding) (function : Bytes) (x : Instruction × Nat) (comment : Bytes) :
    Bytes :=
  recordText (descriptionOf comment)
    (if reports found function x.2 then some (warning x.1) else none)

/-- The records of a function, from the lines of a unit and the findings. -/
def recordsIn (lines : List Bytes) (found : List Finding) (e : Entry) : List Bytes :=
  List.zipWith (recordIn found e.name) e.proto.body.code.zipIdx (annotationsOf e.name lines)

/-! ## Records of annotations -/

theorem flatMap_cons_eq_join {columns : List Bytes} (h : columns ≠ []) :
    (columns.flatMap fun column => 9 :: column) = 9 :: Bytes.join [9] columns := by
  induction columns with
  | nil => exact absurd rfl h
  | cons c columns ih =>
    cases columns with
    | nil => simp [Bytes.join]
    | cons d columns =>
      rw [List.flatMap_cons, ih (by simp)]
      simp [Bytes.join]

theorem descriptionOf_text (a : Annotation) :
    descriptionOf a.text =
      Bytes.join [9] [Bytes.ofNat a.pc, a.lineText, a.mnemonicText, a.operands] ++
        (a.remark.map (ascii "\t; " ++ ·)).getD [] := by
  rw [descriptionOf, Annotation.text, List.append_assoc, List.drop_left]
  cases a.remark <;> rfl

/-- A plain record has the columns of the annotation, with the remark as one of them. -/
theorem record_plain (a : Annotation) (supported : Bool) :
    record .plain a supported =
      recordText (descriptionOf a.text)
        (if supported then none
          else some (ascii "[no translation for " ++ a.tag.name ++ ascii "]")) := by
  have hcolumns : ([Bytes.ofNat a.pc, a.lineText, a.mnemonicText, a.operands].flatMap fun column =>
      9 :: column) = 9 :: Bytes.join [9] [Bytes.ofNat a.pc, a.lineText, a.mnemonicText, a.operands] :=
    flatMap_cons_eq_join (by simp)
  have hremark : ascii "\t; " = 9 :: ascii "; " := by rw [ascii_ofList, ascii_ofList]; rfl
  rw [descriptionOf_text, recordText, record]
  dsimp only [Palette.plain, id]
  rw [List.flatMap_append, List.flatMap_append, hcolumns]
  cases a.remark <;> cases supported <;> simp [hremark]

/-! ## Findings -/

/-- In a function of a unit, the findings report the positions that have no statements. -/
theorem reports_untranslated {entries : List Entry} (hnames : (entries.map (·.name)).Nodup) {e : Entry}
    (he : e ∈ entries) {i : Instruction} {pc : Nat} (hi : e.proto.body.code[pc]? = some i) :
    reports (Finding.untranslated entries) e.name pc = (Statements.supported? pc i).isNone := by
  rw [Bool.eq_iff_iff, reports, List.any_eq_true, Finding.isNone_supported?, Bool.not_eq_true']
  constructor
  · rintro ⟨f, hf, hsame⟩
    obtain ⟨hfunction, hpc⟩ := of_decide_eq_true hsame
    obtain ⟨d, hd, hf⟩ := List.mem_flatMap.mp hf
    obtain ⟨⟨j, k⟩, hj, hfound⟩ := List.mem_filterMap.mp hf
    cases htranslated : j.opcode?.any (· ∈ Finding.translated) with
    | true => simp [htranslated] at hfound
    | false =>
      obtain rfl : Finding.mk d.name k j.tag = f := by simpa [htranslated] using hfound
      -- Functions are told apart by their names, so the finding is about this one.
      obtain rfl : d = e := List.inj_on_of_nodup_map hnames hd he hfunction
      obtain rfl : k = pc := hpc
      have hsame := (List.mem_zipIdx_iff_getElem?.mp hj).symm.trans hi
      rw [← Option.some.inj hsame, htranslated]
  · intro huntranslated
    refine ⟨⟨e.name, pc, i.tag⟩, List.mem_flatMap.mpr ⟨e, he, ?_⟩, by simp⟩
    refine List.mem_filterMap.mpr ⟨(i, pc), List.mem_zipIdx_iff_getElem?.mpr hi, ?_⟩
    simp [huntranslated]

/-! ## Sections -/

section

variable {entries : List Entry} {e : Entry}

/-- The tag of an annotation is that of its instruction. -/
theorem tag_of_annotate {x : Instruction × Nat} {a : Annotation} (h : annotate entries e x = .ok a) :
    a.tag = x.1.tag := by
  unfold annotate Annotation.ofInstruction at h
  obtain ⟨line, -, rfl⟩ := exists_of_map_eq_ok h
  rfl

/-- The records of instructions whose annotations are known. -/
theorem mapM_record_of_mapM_annotate {found : List Finding} {xs : List (Instruction × Nat)}
    {as : List Annotation} (h : xs.mapM (annotate entries e) = .ok as)
    (hfound : ∀ x ∈ xs, reports found e.name x.2 = (Statements.supported? x.2 x.1).isNone) :
    (xs.mapM fun x => do
        return record .plain (← annotate entries e x) (Statements.supported? x.2 x.1).isSome) =
      .ok (List.zipWith (recordIn found e.name) xs (as.map Annotation.text)) := by
  induction xs generalizing as with
  | nil =>
    cases h
    rfl
  | cons x xs ih =>
    obtain ⟨a, as, ha, has, rfl⟩ := exists_of_mapM_cons_eq_ok h
    have hrecord : record .plain a (Statements.supported? x.2 x.1).isSome =
        recordIn found e.name x a.text := by
      rw [record_plain, recordIn, hfound x List.mem_cons_self, warning, tag_of_annotate ha]
      cases Statements.supported? x.2 x.1 <;> rfl
    rw [List.mapM_cons, ha, ih has fun y hy => hfound y (List.mem_cons_of_mem x hy)]
    exact congrArg (fun r => Except.ok (r :: _)) hrecord

end

/-- A heading has the name of the function at the end of its first line. -/
theorem heading_plain (e : Entry) :
    ∃ before after, heading .plain e =
      before ++ (ascii " instructions) " ++ e.name ++ [Bytes.newline]) ++ after := by
  refine ⟨ascii "\n" ++ ascii (if e.proto.body.isMain then "main" else "function") ++ ascii " <" ++
    e.proto.body.source ++ ascii ":" ++ Bytes.ofInt e.proto.body.lineDefined.toInt ++ ascii "," ++
    Bytes.ofInt e.proto.body.lastLineDefined.toInt ++ ascii "> (" ++
    Bytes.ofNat e.proto.body.code.length, ?after, ?heading⟩
  case heading =>
    simp only [heading, Palette.plain, id, List.append_assoc]
    rfl

/-- The section of a function in a listing, from the lines of a unit and the findings. -/
def sectionIn (lines : List Bytes) (found : List Finding) (e : Entry) : Bytes :=
  heading .plain e ++ (recordsIn lines found e).flatten

section

open CompiledUnit

variable {o : Options} {root : Prototype} {functions : List (List Bytes)}
  (h : (entriesOf o root).mapM (functionLines o.completed (entriesOf o root)) = .ok functions)
  (hcomments : o.comments = true) (after : List Bytes)
include h hcomments

/-- There is an annotation for every instruction. -/
theorem length_annotationsOf {e : Entry} (he : e ∈ entriesOf o root) :
    (annotationsOf e.name (opening o.completed ++ functions.flatten ++ after)).length =
      e.proto.body.code.length := by
  have hnumbered := Entry.numbered_ofTree o.completed.functionPrefix root
  obtain ⟨as, has, htexts⟩ := annotationsOf_lines h hnumbered.names hcomments he after
  rw [htexts, List.length_map, length_of_mapM_eq_ok has, List.length_zipIdx]

/-- The section of a function is written from its annotations and findings. -/
theorem ofEntry_eq_sectionIn {e : Entry} (he : e ∈ entriesOf o root) :
    ofEntry .plain (entriesOf o root) e =
      .ok (sectionIn (opening o.completed ++ functions.flatten ++ after)
        (Finding.untranslated (entriesOf o root)) e) := by
  have hnumbered := Entry.numbered_ofTree o.completed.functionPrefix root
  obtain ⟨as, has, htexts⟩ := annotationsOf_lines h hnumbered.names hcomments he after
  have hrecords := mapM_record_of_mapM_annotate has fun x hx =>
    reports_untranslated hnumbered.names he (List.mem_zipIdx_iff_getElem?.mp hx)
  rw [sectionIn, recordsIn, htexts]
  exact congrArg (fun r => do return heading .plain e ++ (← r).flatten) hrecords

/-- So is the listing, section by section. -/
theorem ofTree_eq_sections :
    ofTree .plain o.functionPrefix root =
      .ok ((entriesOf o root).flatMap
        (sectionIn (opening o.completed ++ functions.flatten ++ after)
          (Finding.untranslated (entriesOf o root)))) := by
  have hsections := mapM_eq_ok_map fun e he => ofEntry_eq_sectionIn h hcomments after (e := e) he
  rw [List.flatMap_def]
  exact congrArg (fun r => do return List.flatten (← r)) hsections

end

end Listing

namespace Compiler

open UnitText

/-- **A listing and a unit describe the same program.**  When a compiler that annotates, whatever it
has served before, generates a unit from a tree, the listing of the tree under the same names is
written too.  It has a section for each of the unit's entries, in their order and under their names.
Its records have the texts of the unit's annotations, one for each instruction, and warn of exactly
the instructions that the unit reports as unsupported. -/
theorem writeTo_eq_sections (o : Options) (served : List (ModuleInput × Sink)) (input : ModuleInput)
    {root : Prototype} (hmain : input.main = some root) (hcomments : o.comments = true) (sink : Sink)
    {unit : CompiledUnit}
    (hok : (((new o).after served).compileModule input sink).result = .ok unit) :
    let lines := (((new o).after served).compileModule input sink).compiler.lines
    unit.text = Bytes.unlines lines ∧
      (∀ e ∈ unit.entries,
        (∃ before after, Listing.heading .plain e =
          before ++ (ascii " instructions) " ++ e.name ++ [Bytes.newline]) ++ after) ∧
        (annotationsOf e.name lines).length = e.proto.body.code.length ∧
        ∀ a ∈ annotationsOf e.name lines, a = ascii "  // " ++ Listing.descriptionOf a) ∧
      ∀ out : Sink, out.refusal = none →
        Listing.writeTo .plain o.functionPrefix root out =
          (.ok (), { out with written := out.written ++
            unit.entries.flatMap (Listing.sectionIn lines unit.unsupported) }) := by
  obtain ⟨functions, hfunctions, rfl, hlines⟩ :=
    exists_functions_of_compileModule_eq_ok (options_after (new o) served) hmain hok
  intro lines
  refine ⟨congrArg Bytes.unlines hlines.symm,
    fun e he => ⟨Listing.heading_plain e, ?_, fun a ha => ?_⟩, fun out hout => ?_⟩
  · rw [show lines = _ from hlines]
    exact Listing.length_annotationsOf hfunctions hcomments _ he
  · obtain ⟨rest, rfl⟩ := List.isPrefixOf_iff_prefix.mp (List.mem_filter.mp ha).2
    rw [Listing.descriptionOf, List.drop_left]
  · rw [show lines = _ from hlines, Listing.writeTo,
      Listing.ofTree_eq_sections hfunctions hcomments _]
    simp only [Sink.write, hout]
    rfl

/-- A function with a child, an access to a global variable and a word that is no operation. -/
def describedSample : Prototype :=
  ⟨{ (default : FunctionBody) with
      code := [.ofABx Opcode.closure.tag 0 0, .ofABC Opcode.getTabUp.tag 1 0 0 0, ⟨0x7f⟩]
      constants := [.str (ascii "print") false]
      upvalues := [⟨ascii "_ENV", true, 0, 0⟩]
      lineInfo := some [1, 0, 2] },
    [plainFunction [.ofABC Opcode.ret0.tag 0 0 0 0] []]⟩

/-- The sample is listed as its unit is annotated, and two of its records have a warning. -/
theorem writeTo_eq_sections_describedSample :
    let outcome := (new { Options.default with policy := .trap }).compileModule
      ⟨ascii "m", some describedSample, []⟩ .empty
    ∃ unit, outcome.result = .ok unit ∧
      Listing.writeTo .plain (ascii "magic_implementation_") describedSample .empty =
        (.ok (), ⟨unit.entries.flatMap (Listing.sectionIn outcome.compiler.lines unit.unsupported),
          none⟩) ∧
      unit.unsupported.map (fun f => (f.pc, f.tag)) = [(1, Opcode.getTabUp.tag), (2, ⟨127⟩)] := by
  intro outcome
  have hlines : ∀ f ∈ describedSample.functions, f.IsCovered := by decide
  obtain ⟨unit, hok⟩ : ∃ unit, outcome.result = .ok unit :=
    exists_compileModule_eq_ok rfl rfl (by decide) (by decide) (fun _ => hlines) (by decide)
      (fun h => absurd h (by decide)) rfl
  obtain ⟨functions, -, hunit, -⟩ := exists_functions_of_compileModule_eq_ok rfl rfl hok
  have hlisting := (writeTo_eq_sections { Options.default with policy := .trap } []
    ⟨ascii "m", some describedSample, []⟩ rfl rfl .empty hok).2.2 .empty rfl
  refine ⟨unit, hok, hlisting, ?_⟩
  have hfound : (Finding.untranslated (CompiledUnit.entriesOf
      { Options.default with policy := .trap } describedSample)).map (fun f => (f.pc, f.tag)) =
        [(1, Opcode.getTabUp.tag), (2, ⟨127⟩)] := by decide
  rw [hunit]
  exact hfound

end Compiler
end LuaToC
