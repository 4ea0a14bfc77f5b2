import LuaToC.Proofs.Except
import LuaToC.Proofs.Tree
import LuaToC.Proofs.Unit.Branches
import LuaToC.Unit.Compiler

/-! # What comes of a compilation

A compiler keeps a draft between units.  `generate_eq_ofInput` says that nothing of it gets into
the next unit: whatever the compiler has served before, the result is the one that
`CompiledUnit.ofInput` gives for its choices, and these stay as they were (`options_after`).

So the outcome can be read off the tree.  A function with an ill-branched instruction forbids the
unit, and the first of them is named (`writeTo_of_isIllBranched`); the translated operations are
listed here (`translated`), and all other instructions are found, in order.  A failure writes
nothing.
-/
namespace LuaToC

/-! ## Translated operations -/

namespace Finding

/-- The operations that have a translation. -/
def translated : List Opcode :=
  [.move, .loadI, .ret, .ret0, .ret1, .forLoop, .forPrep, .closure, .vararg, .varargPrep, .loadF,
   .loadK, .loadKX, .loadFalse, .lFalseSkip, .loadTrue, .loadNil, .getUpval, .setUpval, .close, .lnot,
   .jmp, .eq, .lt, .le, .eqK, .eqI, .ltI, .leI, .gtI, .geI, .test, .testSet, .tforPrep, .tforCall,
   .tforLoop, .extraArg]

/-- The instructions of a function whose operation has no translation, in order. -/
def untranslatedIn (e : Entry) : List Finding :=
  e.proto.body.code.zipIdx.filterMap fun (i, pc) =>
    if i.opcode?.any (· ∈ translated) then none else some ⟨e.name, pc, i.tag⟩

/-- The instructions of a unit without a translation: function by function, and in each in order. -/
def untranslated (entries : List Entry) : List Finding := entries.flatMap untranslatedIn

/-- There are statements for the translated operations and for no others. -/
theorem isNone_supported? (pc : Nat) (i : Instruction) :
    (Statements.supported? pc i).isNone = !i.opcode?.any (· ∈ translated) := by
  unfold Statements.supported?
  cases i.opcode? with
  | none => rfl
  | some op => cases op <;> rfl

theorem ofEntry_eq_untranslatedIn (e : Entry) : ofEntry e = untranslatedIn e := by
  unfold ofEntry untranslatedIn
  congr
  funext ⟨i, pc⟩
  dsimp only
  rw [isNone_supported?]
  cases i.opcode?.any (· ∈ translated) <;> rfl

end Finding

/-- Every instruction of the function has a translated operation. -/
def Prototype.IsTranslated (p : Prototype) : Prop :=
  ∀ i ∈ p.body.code, i.opcode?.any (· ∈ Finding.translated) = true

instance (p : Prototype) : Decidable p.IsTranslated :=
  inferInstanceAs (Decidable (∀ _ ∈ _, _))

theorem Finding.untranslatedIn_eq_nil_iff (e : Entry) :
    untranslatedIn e = [] ↔ e.proto.IsTranslated := by
  rw [untranslatedIn, List.filterMap_eq_nil_iff]
  constructor
  · intro h i hi
    obtain ⟨pc, hpc⟩ := List.mem_iff_getElem?.mp hi
    have hfound := h (i, pc) (List.mem_zipIdx_iff_getElem?.mpr hpc)
    by_cases htranslated : i.opcode?.any (· ∈ translated) = true
    · exact htranslated
    · exact absurd ((if_neg htranslated).symm.trans hfound) (Option.some_ne_none _)
  · intro h (i, pc) hi
    exact if_pos (h i (List.fst_mem_of_mem_zipIdx hi))

/-! ## Functions -/

/-- Some instruction of the function is ill-branched. -/
def Prototype.IsIllBranched (p : Prototype) : Prop :=
  ∃ pc i, p.body.code[pc]? = some i ∧ Branch.IllBranched p.body.code pc i

instance (p : Prototype) : Decidable p.IsIllBranched :=
  decidable_of_iff (∃ x ∈ p.body.code.zipIdx, Branch.IllBranched p.body.code x.2 x.1)
    ⟨fun ⟨(i, pc), hx, h⟩ => ⟨pc, i, List.mem_zipIdx_iff_getElem?.mp hx, h⟩,
      fun ⟨pc, i, hi, h⟩ => ⟨(i, pc), List.mem_zipIdx_iff_getElem?.mpr hi, h⟩⟩

/-- Every instruction of the function has a line, if the function has lines at all. -/
def Prototype.IsCovered (p : Prototype) : Prop :=
  ∀ pc < p.body.code.length, ∃ line, p.body.lineOf (Branch.position pc) = .ok line

instance (p : Prototype) : Decidable p.IsCovered :=
  decidable_of_iff
    (∀ pc < p.body.code.length, (p.body.lineOf (Branch.position pc)).isOk = true)
    (forall₂_congr fun _ _ => exists_eq_ok_iff_isOk)

namespace CompiledUnit

/-- A function with an ill-branched instruction cannot be generated, and is named. -/
theorem functionLines_of_isIllBranched (opts : Options) (entries : List Entry) {e : Entry}
    (hsize : e.proto.body.code.length < 0x4000000000000000) (h : e.proto.IsIllBranched) :
    ∃ err, functionLines opts entries e = .error (.branch err) ∧ err.function = e.name := by
  cases hcheck : Branch.check e.name e.proto.body.code with
  | ok _ =>
    obtain ⟨pc, i, hi, hill⟩ := h
    exact absurd hill ((Branch.check_eq_ok_iff_illBranched e.name hsize).mp hcheck pc i hi)
  | error err =>
    refine ⟨err, ?_, Branch.function_of_check_eq_error hcheck⟩
    rw [functionLines, hcheck]
    rfl

/-- Annotations need lines, and nothing else of a function's text can fail. -/
theorem exists_blocks_eq_ok (opts : Options) (entries : List Entry) {e : Entry}
    (h : opts.comments = true → e.proto.IsCovered) :
    ∃ lines, FunctionText.blocks opts entries e = .ok lines := by
  refine exists_bind_eq_ok (exists_mapM_eq_ok ?_) fun parts => ⟨parts.flatten, rfl⟩
  intro ⟨i, pc⟩ hx
  have hpc := (List.getElem?_eq_some_iff.mp (List.mem_zipIdx_iff_getElem?.mp hx)).1
  cases hcomments : opts.comments with
  | false => exact ⟨_, rfl⟩
  | true =>
    obtain ⟨line, hline⟩ := h hcomments pc hpc
    unfold Annotation.ofInstruction
    simp only [hline]
    exact ⟨_, rfl⟩

/-- Any other function can, as long as its lines are known. -/
theorem functionLines_of_not_isIllBranched (opts : Options) (entries : List Entry) {e : Entry}
    (hsize : e.proto.body.code.length < 0x4000000000000000) (h : ¬ e.proto.IsIllBranched)
    (hcovered : opts.comments = true → e.proto.IsCovered) :
    ∃ lines, functionLines opts entries e = .ok lines := by
  have hcheck : Branch.check e.name e.proto.body.code = .ok () :=
    (Branch.check_eq_ok_iff_illBranched e.name hsize).mpr fun pc i hi hill => h ⟨pc, i, hi, hill⟩
  obtain ⟨blocks, hblocks⟩ := exists_blocks_eq_ok opts entries hcovered
  rw [functionLines, hcheck]
  simp only [FunctionText.lines, hblocks]
  exact ⟨_, rfl⟩

/-! ## Units -/

/-- The entries of a unit for the choices `o`. -/
abbrev entriesOf (o : Options) (root : Prototype) : List Entry :=
  Entry.ofTree o.completed.functionPrefix root

/-- The entries are the functions of the tree, each before those below it, with numbered names. -/
theorem map_entriesOf (o : Options) (root : Prototype) :
    (entriesOf o root).map (fun e => (e.name, e.proto)) =
      root.functions.zipIdx.map fun (f, id) => (Entry.nameOf o.completed.functionPrefix id, f) := by
  rw [← Prototype.map_proto_visits, List.zipIdx_map, entriesOf, Entry.ofTree, List.map_map,
    List.map_map]
  rfl

theorem map_proto_entriesOf (o : Options) (root : Prototype) :
    (entriesOf o root).map (·.proto) = root.functions := by
  have hprotos := congrArg (List.map Prod.snd) (map_entriesOf o root)
  rw [List.map_map, List.map_map] at hprotos
  exact hprotos.trans (List.zipIdx_map_fst 0 root.functions)

/-- What holds of all functions holds of all entries, and the other way round. -/
theorem forall_entriesOf {o : Options} {root : Prototype} {P : Prototype → Prop} :
    (∀ e ∈ entriesOf o root, P e.proto) ↔ ∀ f ∈ root.functions, P f := by
  rw [← map_proto_entriesOf o root, List.forall_mem_map]

/-- There are findings unless all functions are translated. -/
theorem untranslated_entriesOf_eq_nil_iff {o : Options} {root : Prototype} :
    Finding.untranslated (entriesOf o root) = [] ↔ ∀ f ∈ root.functions, f.IsTranslated := by
  rw [← forall_entriesOf (o := o), Finding.untranslated, List.flatMap_eq_nil_iff]
  refine forall₂_congr fun e _ => ?_
  rw [Finding.untranslatedIn_eq_nil_iff]

theorem exists_functionLines_eq_ok {o : Options} {root : Prototype}
    (hsize : ∀ f ∈ root.functions, f.body.code.length < 0x4000000000000000)
    (hlines : o.comments = true → ∀ f ∈ root.functions, f.IsCovered) {e : Entry}
    (he : e ∈ entriesOf o root) (h : ¬ e.proto.IsIllBranched) :
    ∃ lines, functionLines o.completed (entriesOf o root) e = .ok lines :=
  functionLines_of_not_isIllBranched o.completed (entriesOf o root)
    (forall_entriesOf.mpr hsize e he) h fun hcomments => forall_entriesOf.mpr (hlines hcomments) e he

/-- The first function that has an ill-branched instruction. -/
def firstIllBranched? (entries : List Entry) : Option Entry :=
  entries.find? fun e => e.proto.IsIllBranched

/-- The unit that is put together from generated functions. -/
def assembled (o : Options) (input : ModuleInput) (entries : List Entry)
    (functions : List (List Bytes)) : CompiledUnit :=
  let contract := Contract.ofEntries input.name input.source o.completed.embedSource entries
  { text := Bytes.unlines (opening o.completed ++ functions.flatten ++
      closing o.completed input entries contract)
    entries
    unsupported := Finding.untranslated entries
    contract }

section

variable {o : Options} {input : ModuleInput} {root : Prototype} (hmain : input.main = some root)
  (hname : isCIdentifier input.name = true)
include hmain hname

/-- A function that cannot be generated forbids the unit. -/
theorem ofInput_of_mapM_eq_error {err : CompileError}
    (h : (entriesOf o root).mapM (functionLines o.completed (entriesOf o root)) = .error err) :
    ofInput o input = .error err := by
  simp only [ofInput, hmain, hname, Bool.not_true, Bool.false_eq_true, if_false]
  rw [h]
  rfl

/-- When all functions are generated, the findings decide. -/
theorem ofInput_of_mapM_eq_ok {functions : List (List Bytes)}
    (h : (entriesOf o root).mapM (functionLines o.completed (entriesOf o root)) = .ok functions) :
    ofInput o input =
      if o.policy = .error ∧ Finding.untranslated (entriesOf o root) ≠ [] then
        .error (.unsupported (Finding.untranslated (entriesOf o root)))
      else .ok (assembled o input (entriesOf o root) functions) := by
  have hfindings : (entriesOf o root).flatMap Finding.ofEntry =
      Finding.untranslated (entriesOf o root) := by
    rw [Finding.untranslated, funext Finding.ofEntry_eq_untranslatedIn]
  simp only [ofInput, hmain, hname, Bool.not_true, Bool.false_eq_true, if_false]
  rw [h, hfindings]
  by_cases hbad : o.policy = .error ∧ Finding.untranslated (entriesOf o root) ≠ []
  · rw [if_pos hbad]
    exact (if_pos hbad).trans rfl
  · rw [if_neg hbad]
    exact (if_neg hbad).trans rfl

section

variable (hsize : ∀ f ∈ root.functions, f.body.code.length < 0x4000000000000000)
  (hlines : o.comments = true → ∀ f ∈ root.functions, f.IsCovered) (sink : Sink)
include hsize hlines

/-- A tree with an ill-branched instruction fails at the first function that has one. -/
theorem writeTo_of_isIllBranched (h : ∃ f ∈ root.functions, f.IsIllBranched) :
    ∃ err, writeTo o input sink = (.error (.branch err), sink) ∧
      (firstIllBranched? (entriesOf o root)).map (·.name) = some err.function := by
  obtain ⟨e, hfirst⟩ : ∃ e, firstIllBranched? (entriesOf o root) = some e := by
    obtain ⟨f, hf, hill⟩ := h
    rw [← map_proto_entriesOf o root] at hf
    obtain ⟨e, he, rfl⟩ := List.mem_map.mp hf
    exact Option.isSome_iff_exists.mp (List.find?_isSome.mpr ⟨e, he, decide_eq_true hill⟩)
  obtain ⟨hill, before, after, hsplit, hbefore⟩ := List.find?_eq_some_iff_append.mp hfirst
  have hmem : ∀ e' ∈ before ++ e :: after, e' ∈ entriesOf o root := fun e' he' => hsplit ▸ he'
  obtain ⟨err, herr, hfunction⟩ := functionLines_of_isIllBranched o.completed (entriesOf o root)
    (forall_entriesOf.mpr hsize e (hmem e (by simp))) (of_decide_eq_true hill)
  -- The entries before it have no ill-branched instruction, so their lines are there.
  have hfunctions : (before ++ e :: after).mapM (functionLines o.completed (entriesOf o root)) =
      .error (.branch err) := by
    refine mapM_eq_error (fun b hb => ?_) herr
    have hwell : ¬ b.proto.IsIllBranched := by simpa using hbefore b hb
    exact exists_functionLines_eq_ok hsize hlines (hmem b (List.mem_append_left _ hb)) hwell
  rw [← hsplit] at hfunctions
  refine ⟨err, ?_, ?_⟩
  · rw [writeTo, ofInput_of_mapM_eq_error hmain hname hfunctions]
  · rw [hfirst, Option.map_some, hfunction]

/-- In any other tree all functions are generated.  Then the policy may forbid the unit, and
otherwise the sink takes it or refuses it. -/
theorem writeTo_of_not_isIllBranched (h : ¬ ∃ f ∈ root.functions, f.IsIllBranched) :
    (¬ (o.policy = .error → ∀ f ∈ root.functions, f.IsTranslated) ∧
        writeTo o input sink =
          (.error (.unsupported (Finding.untranslated (entriesOf o root))), sink)) ∨
      (o.policy = .error → ∀ f ∈ root.functions, f.IsTranslated) ∧
        ∃ unit : CompiledUnit, unit.entries = entriesOf o root ∧
          unit.unsupported = Finding.untranslated (entriesOf o root) ∧
          (sink.refusal = none ∧
              writeTo o input sink =
                (.ok unit, { sink with written := sink.written ++ unit.text }) ∨
            ∃ reason, sink.refusal = some reason ∧
              writeTo o input sink = (.error (.refused reason), sink)) := by
  have hwell : ∀ e ∈ entriesOf o root, ¬ e.proto.IsIllBranched :=
    forall_entriesOf.mpr fun f hf hill => h ⟨f, hf, hill⟩
  obtain ⟨functions, hfunctions⟩ := exists_mapM_eq_ok fun e he =>
    exists_functionLines_eq_ok (o := o) hsize hlines he (hwell e he)
  have hunit := ofInput_of_mapM_eq_ok hmain hname hfunctions
  by_cases hbad : o.policy = .error ∧ Finding.untranslated (entriesOf o root) ≠ []
  · left
    rw [if_pos hbad] at hunit
    refine ⟨fun hpermitted => ?_, ?_⟩
    · exact hbad.2 (untranslated_entriesOf_eq_nil_iff.mpr (hpermitted hbad.1))
    · rw [writeTo, hunit]
  · right
    rw [if_neg hbad] at hunit
    refine ⟨fun hpolicy => ?_, assembled o input (entriesOf o root) functions, rfl, rfl, ?_⟩
    · exact untranslated_entriesOf_eq_nil_iff.mp
        (Decidable.of_not_not fun hfound => hbad ⟨hpolicy, hfound⟩)
    · cases hrefusal : sink.refusal with
      | none => exact .inl ⟨rfl, by simp only [writeTo, hunit, Sink.write, hrefusal]⟩
      | some reason => exact .inr ⟨reason, rfl, by simp only [writeTo, hunit, Sink.write, hrefusal]⟩

end

end

end CompiledUnit

/-! ## Drafts -/

namespace Compiler

/-- The compiler after some compilations, whatever came of them. -/
def after (c : Compiler) (served : List (ModuleInput × Sink)) : Compiler :=
  served.foldl (fun c (input, sink) => (c.compileModule input sink).compiler) c

/-- The draft with the functions `es` added, whose lines are `functions`. -/
def withFunctions (c : Compiler) (es : List Entry) (functions : List (List Bytes)) : Compiler :=
  (c.write functions.flatten).note (Finding.untranslated es)

theorem withFunctions_cons (c : Compiler) (e : Entry) (es : List Entry) (lines : List Bytes)
    (functions : List (List Bytes)) :
    ((c.write lines).note (Finding.ofEntry e)).withFunctions es functions =
      c.withFunctions (e :: es) (lines :: functions) := by
  simp only [withFunctions, write, note, Finding.untranslated, List.flatMap_cons, List.flatten_cons,
    List.append_assoc, Finding.ofEntry_eq_untranslatedIn]
  split <;> simp

theorem withFunctions_nil (c : Compiler) : c.withFunctions [] [] = c := by
  simp [withFunctions, write, note, Finding.untranslated]

/-- Functions that can be generated are all added. -/
theorem addFunctions_of_mapM_eq_ok {c : Compiler} {es : List Entry} {functions : List (List Bytes)}
    (h : es.mapM (CompiledUnit.functionLines c.options c.entries) = .ok functions) :
    c.addFunctions es = (.ok (), c.withFunctions es functions) := by
  induction es generalizing c functions with
  | nil =>
    obtain rfl : [] = functions := Except.ok.inj h
    rw [addFunctions, withFunctions_nil]
  | cons e es ih =>
    obtain ⟨lines, rest, he, hes, rfl⟩ := exists_of_mapM_cons_eq_ok h
    -- Adding a function changes neither the choices nor the entries of the draft.
    rw [addFunctions, he, ← withFunctions_cons]
    exact ih hes

/-- The first function that cannot be generated ends it. -/
theorem addFunctions_of_mapM_eq_error {c : Compiler} {es : List Entry} {err : CompileError}
    (h : es.mapM (CompiledUnit.functionLines c.options c.entries) = .error err) :
    (c.addFunctions es).1 = .error err := by
  induction es generalizing c with
  | nil => cases h
  | cons e es ih =>
    rw [List.mapM_cons] at h
    cases he : CompiledUnit.functionLines c.options c.entries e with
    | error err' =>
      rw [he] at h
      rw [addFunctions, he]
      cases h
      rfl
    | ok lines =>
      rw [addFunctions, he]
      refine ih ?_
      cases hes : es.mapM (CompiledUnit.functionLines c.options c.entries) with
      | error err' =>
        rw [he, hes] at h
        cases h
        exact hes
      | ok rest =>
        rw [he, hes] at h
        cases h

/-- Finishing a draft that has all functions in it gives the unit, unless findings forbid it. -/
theorem finish_withFunctions {c : Compiler} {o : Options} (h : c.options = o.completed)
    (root : Prototype) (input : ModuleInput) (functions : List (List Bytes)) :
    ((((c.restart root).write (CompiledUnit.opening c.options)).withFunctions
        (CompiledUnit.entriesOf o root) functions).finish input).1 =
      if o.policy = .error ∧ Finding.untranslated (CompiledUnit.entriesOf o root) ≠ [] then
        .error (.unsupported (Finding.untranslated (CompiledUnit.entriesOf o root)))
      else .ok (CompiledUnit.assembled o input (CompiledUnit.entriesOf o root) functions) := by
  obtain ⟨options, lines, entries, unsupported, forbidden⟩ := c
  obtain rfl : options = o.completed := h
  by_cases hpolicy : o.policy = .error
  · -- All findings forbid the unit, so it is there just when there are none.
    have hcompleted : o.completed.policy = .error := hpolicy
    simp only [withFunctions, restart, write, note, finish, List.nil_append, hcompleted, hpolicy,
      true_and, if_true]
    split <;> rfl
  · have hcompleted : ¬o.completed.policy = .error := hpolicy
    simp only [withFunctions, restart, write, note, finish, List.nil_append, hcompleted, hpolicy,
      false_and, if_false, ne_eq, not_true_eq_false]
    rfl

/-- The draft is cleared first, so its entries are those of the tree. -/
theorem entries_started {c : Compiler} {o : Options} (h : c.options = o.completed)
    (root : Prototype) :
    ((c.restart root).write (CompiledUnit.opening c.options)).entries =
      CompiledUnit.entriesOf o root := by
  rw [CompiledUnit.entriesOf, ← h]
  rfl

/-- When all functions can be generated, the draft has them all before it is finished. -/
theorem generate_of_mapM_eq_ok {c : Compiler} {o : Options} (h : c.options = o.completed)
    {input : ModuleInput} {root : Prototype} (hmain : input.main = some root)
    (hname : isCIdentifier input.name = true) {functions : List (List Bytes)}
    (hfunctions : (CompiledUnit.entriesOf o root).mapM
      (CompiledUnit.functionLines o.completed (CompiledUnit.entriesOf o root)) = .ok functions) :
    c.generate input =
      (((c.restart root).write (CompiledUnit.opening c.options)).withFunctions
        (CompiledUnit.entriesOf o root) functions).finish input := by
  have hentries := entries_started h root
  have hoptions : ((c.restart root).write (CompiledUnit.opening c.options)).options =
      o.completed := h
  rw [← hoptions, ← hentries] at hfunctions
  simp only [generate, hmain, hname, Bool.not_true, Bool.false_eq_true, if_false]
  rw [addFunctions_of_mapM_eq_ok hfunctions, hentries]

/-- **Nothing of the draft gets into a unit.** -/
theorem generate_eq_ofInput {c : Compiler} {o : Options} (h : c.options = o.completed)
    (input : ModuleInput) : (c.generate input).1 = CompiledUnit.ofInput o input := by
  cases hmain : input.main with
  | none =>
    simp only [generate, CompiledUnit.ofInput, hmain]
    rfl
  | some root =>
    by_cases hname : isCIdentifier input.name = true
    · cases hfunctions : (CompiledUnit.entriesOf o root).mapM
          (CompiledUnit.functionLines o.completed (CompiledUnit.entriesOf o root)) with
      | error err =>
        have hoptions : ((c.restart root).write (CompiledUnit.opening c.options)).options =
            o.completed := h
        rw [CompiledUnit.ofInput_of_mapM_eq_error hmain hname hfunctions]
        rw [← hoptions, ← entries_started h root] at hfunctions
        have hadd := addFunctions_of_mapM_eq_error hfunctions
        simp only [generate, hmain, hname, Bool.not_true, Bool.false_eq_true, if_false]
        revert hadd
        generalize addFunctions _ _ = added
        obtain ⟨result, c'⟩ := added
        rintro rfl
        rfl
      | ok functions =>
        rw [CompiledUnit.ofInput_of_mapM_eq_ok hmain hname hfunctions,
          generate_of_mapM_eq_ok h hmain hname hfunctions]
        exact finish_withFunctions h root input functions
    · simp only [generate, CompiledUnit.ofInput, hmain, hname]
      rfl

/-! ## Compilers that have served -/

theorem options_addFunctions (c : Compiler) (es : List Entry) :
    (c.addFunctions es).2.options = c.options := by
  induction es generalizing c with
  | nil => rfl
  | cons e es ih =>
    rw [addFunctions]
    split
    · rfl
    · exact ih _

theorem options_finish (c : Compiler) (input : ModuleInput) :
    (c.finish input).2.options = c.options := by
  unfold finish
  split <;> rfl

theorem options_generate (c : Compiler) (input : ModuleInput) :
    (c.generate input).2.options = c.options := by
  unfold generate
  split
  · rfl
  · rename_i root _
    split
    · rfl
    · have hadd := options_addFunctions ((c.restart root).write (CompiledUnit.opening c.options))
        ((c.restart root).write (CompiledUnit.opening c.options)).entries
      dsimp only
      split
      · rename_i hadded
        rw [hadded] at hadd
        exact hadd
      · rename_i hadded
        rw [hadded] at hadd
        rw [options_finish]
        exact hadd

/-- A compilation leaves the choices of the compiler as they are. -/
theorem options_compileModule (c : Compiler) (input : ModuleInput) (sink : Sink) :
    (c.compileModule input sink).compiler.options = c.options := by
  have hgenerate := options_generate c input
  unfold compileModule
  split
  · rename_i hgenerated
    rw [hgenerated] at hgenerate
    exact hgenerate
  · rename_i hgenerated
    rw [hgenerated] at hgenerate
    split <;> exact hgenerate

/-- And so do any number of them. -/
theorem options_after (c : Compiler) (served : List (ModuleInput × Sink)) :
    (c.after served).options = c.options := by
  induction served generalizing c with
  | nil => rfl
  | cons s served ih =>
    rw [after, List.foldl_cons]
    exact (ih _).trans (options_compileModule c s.1 s.2)

/-- A compilation has the result, and writes the text, that its input and the choices determine. -/
theorem compileModule_eq_writeTo {c : Compiler} {o : Options} (h : c.options = o.completed)
    (input : ModuleInput) (sink : Sink) :
    ((c.compileModule input sink).result, (c.compileModule input sink).sink) =
      CompiledUnit.writeTo o input sink := by
  unfold CompiledUnit.writeTo compileModule
  rw [← generate_eq_ofInput h]
  rcases c.generate input with ⟨_ | unit, c'⟩
  · rfl
  · dsimp only
    cases sink.write unit.text <;> rfl

/-- A compilation succeeds when no instruction is ill-branched, lines are known, the policy permits
what has no translation, and the sink takes the text. -/
theorem exists_compileModule_eq_ok {c : Compiler} {o : Options} (h : c.options = o.completed)
    {input : ModuleInput} {root : Prototype} (hmain : input.main = some root)
    (hname : isCIdentifier input.name = true)
    (hsize : ∀ f ∈ root.functions, f.body.code.length < 0x4000000000000000)
    (hlines : o.comments = true → ∀ f ∈ root.functions, f.IsCovered)
    (hbranched : ¬ ∃ f ∈ root.functions, f.IsIllBranched)
    (hpolicy : o.policy = .error → ∀ f ∈ root.functions, f.IsTranslated) {sink : Sink}
    (hsink : sink.refusal = none) : ∃ unit, (c.compileModule input sink).result = .ok unit := by
  have hwritten := congrArg Prod.fst (compileModule_eq_writeTo h input sink)
  dsimp only at hwritten
  rcases CompiledUnit.writeTo_of_not_isIllBranched hmain hname hsize hlines sink hbranched with
    ⟨hforbidden, -⟩ | ⟨-, unit, -, -, ⟨-, hwrite⟩ | ⟨reason, hrefusal, -⟩⟩
  · exact absurd hpolicy hforbidden
  · exact ⟨unit, by rw [hwritten, hwrite]⟩
  · rw [hsink] at hrefusal
    cases hrefusal

/-- **The outcome of a compilation is that of the tree.**  Whatever the compiler has served before,
it fails for a branch just when some function has an ill-branched instruction, and names the first
such function.  Otherwise the policy may forbid operations without a translation, and all of them
are then listed in order.  Otherwise there is a unit, which the sink takes or refuses.  A failure
writes nothing. -/
theorem compileModule_outcome (o : Options) (served : List (ModuleInput × Sink))
    (input : ModuleInput) {root : Prototype} (hmain : input.main = some root)
    (hname : isCIdentifier input.name = true)
    (hsize : ∀ f ∈ root.functions, f.body.code.length < 0x4000000000000000)
    (hlines : o.comments = true → ∀ f ∈ root.functions, f.IsCovered) (sink : Sink) :
    let entries := CompiledUnit.entriesOf o root
    let illBranched := ∃ f ∈ root.functions, f.IsIllBranched
    let permitted := o.policy = .error → ∀ f ∈ root.functions, f.IsTranslated
    let outcome := ((new o).after served).compileModule input sink
    entries.map (fun e => (e.name, e.proto)) =
        root.functions.zipIdx.map (fun (f, id) =>
          (Entry.nameOf o.completed.functionPrefix id, f)) ∧
      ((∃ err, outcome.result = .error (.branch err)) ↔ illBranched) ∧
      (∀ err, outcome.result = .error (.branch err) →
        (CompiledUnit.firstIllBranched? entries).map (·.name) = some err.function) ∧
      (∀ found, outcome.result = .error (.unsupported found) ↔
        ¬ illBranched ∧ ¬ permitted ∧ found = Finding.untranslated entries) ∧
      (∀ reason, outcome.result = .error (.refused reason) ↔
        ¬ illBranched ∧ permitted ∧ sink.refusal = some reason) ∧
      ((∃ unit, outcome.result = .ok unit) ↔
        ¬ illBranched ∧ permitted ∧ sink.refusal = none) ∧
      (∀ unit, outcome.result = .ok unit →
        unit.entries = entries ∧ unit.unsupported = Finding.untranslated entries ∧
          outcome.sink = { sink with written := sink.written ++ unit.text }) ∧
      (∀ err, outcome.result = .error err → outcome.sink = sink) ∧
      (outcome.result, outcome.sink) = CompiledUnit.writeTo o input sink := by
  intro entries illBranched permitted outcome
  -- The draft plays no part, so the cases are those of the input alone.
  have hwritten : (outcome.result, outcome.sink) = CompiledUnit.writeTo o input sink :=
    compileModule_eq_writeTo (options_after (new o) served) input sink
  refine ⟨CompiledUnit.map_entriesOf o root, ?_⟩
  obtain ⟨result, compiler, sink'⟩ := outcome
  dsimp only at hwritten ⊢
  by_cases hill : illBranched
  · obtain ⟨err, hwrite, hfirst⟩ :=
      CompiledUnit.writeTo_of_isIllBranched hmain hname hsize hlines sink hill
    obtain ⟨rfl, rfl⟩ := Prod.mk.inj (hwritten.trans hwrite)
    simp [hill, hwrite, hfirst, entries]
  · rcases CompiledUnit.writeTo_of_not_isIllBranched hmain hname hsize hlines sink hill with
      ⟨hforbidden, hwrite⟩ |
      ⟨hpermitted, unit, hentries, hfound, ⟨hrefusal, hwrite⟩ | ⟨reason, hrefusal, hwrite⟩⟩
    · obtain ⟨rfl, rfl⟩ := Prod.mk.inj (hwritten.trans hwrite)
      have hnot : ¬ permitted := hforbidden
      simp [hill, hwrite, hnot, entries, eq_comm]
    · obtain ⟨rfl, rfl⟩ := Prod.mk.inj (hwritten.trans hwrite)
      have hyes : permitted := hpermitted
      simp [hill, hwrite, hyes, hrefusal, entries, hentries, hfound]
    · obtain ⟨rfl, rfl⟩ := Prod.mk.inj (hwritten.trans hwrite)
      have hyes : permitted := hpermitted
      simp [hill, hwrite, hyes, hrefusal, eq_comm]

/-- A function with the given code, without debug information. -/
def plainFunction (code : List Instruction) (children : List Prototype) : Prototype :=
  ⟨{ (default : FunctionBody) with code := code }, children⟩

/-- A tree whose root has an operation without a translation.  The child of its first child jumps
out, and its second child has a test without a jump. -/
def jumpsOutSample : Prototype :=
  plainFunction [.ofABC Opcode.add.tag 1 1 5 0]
    [plainFunction [.ofABC Opcode.ret0.tag 0 0 0 0]
      [plainFunction [.ofSJ Opcode.jmp.tag 4] []],
     plainFunction [.ofABC Opcode.test.tag 0 0 0 0] []]

/-- A compiler that has failed before names the third function: neither the finding in the root
nor the test in its second child comes first. -/
theorem compileModule_outcome_jumpsOutSample :
    (∀ f ∈ jumpsOutSample.functions, f.body.code.length < 0x4000000000000000) ∧
      (∀ f ∈ jumpsOutSample.functions, f.IsCovered) ∧
      ∃ err,
        (((new .default).after [(⟨ascii "early", some jumpsOutSample, []⟩, .empty)]).compileModule
          ⟨ascii "late", some jumpsOutSample, []⟩ .empty).result = .error (.branch err) ∧
        err.function = ascii "magic_implementation_02" ∧
        (((new .default).after [(⟨ascii "early", some jumpsOutSample, []⟩, .empty)]).compileModule
          ⟨ascii "late", some jumpsOutSample, []⟩ .empty).sink = .empty := by
  have hsize : ∀ f ∈ jumpsOutSample.functions, f.body.code.length < 0x4000000000000000 := by decide
  have hlines : ∀ f ∈ jumpsOutSample.functions, f.IsCovered := by
    have hstripped : ∀ f ∈ jumpsOutSample.functions, f.body.lineInfo = none := by decide
    intro f hf pc _
    exact ⟨-1, by rw [FunctionBody.lineOf, hstripped f hf]⟩
  obtain ⟨-, hbranch, hnamed, -, -, -, -, hsink, -⟩ :=
    compileModule_outcome .default [(⟨ascii "early", some jumpsOutSample, []⟩, .empty)]
      ⟨ascii "late", some jumpsOutSample, []⟩ rfl (by decide) hsize (fun _ => hlines) .empty
  obtain ⟨err, herr⟩ := hbranch.mpr (by decide +kernel)
  have hfirst : (CompiledUnit.firstIllBranched?
      (CompiledUnit.entriesOf .default jumpsOutSample)).map (·.name) =
        some (ascii "magic_implementation_02") := by decide +kernel
  refine ⟨hsize, hlines, err, herr, ?_, hsink _ herr⟩
  exact Option.some.inj ((hnamed err herr).symm.trans hfirst)

end Compiler
end LuaToC
