import LuaToC.Proofs.Bytecode.LineTable
import LuaToC.Proofs.Chunk.Canonical
import LuaToC.Proofs.Unit.Outcome
import LuaToC.Unit.Listing

/-! # Which line tables are too short

An annotation asks for the line of its instruction, and that is the only thing in a unit or a listing
that can end the program: constants, upvalues, children, events and labels that do not exist have
placeholders.  Here the trees that do so are told from the line tables alone.  An instruction is
uncovered when the table ends before it and the lookup does not start at its own checkpoint
(`FunctionBody.IsUncovered`).

A listing fails for every such instruction.  A unit checks the branches of each function before it
annotates it, and the first failure counts; so a function whose branches are refused hides all that
come after it, and its own uncovered instructions too (`compileModule_uncovered_iff`).
-/
namespace LuaToC

/-! ## Lookups that fail -/

/-- The line table ends before the instruction, and the lookup does not start at a checkpoint of the
instruction itself. -/
def FunctionBody.IsUncovered (f : FunctionBody) (pc : Nat) : Prop :=
  ∃ deltas, f.lineInfo = some deltas ∧ deltas.length ≤ pc ∧
    (f.base (Branch.position pc)).pc ≠ Branch.position pc

/-- The lookups that fail are those of uncovered instructions. -/
theorem FunctionBody.exists_lineOf_eq_error_iff {f : FunctionBody} {pc : Nat}
    (hpc : pc + 1 < 0x8000000000000000) (hcheckpoints : ∀ c ∈ f.checkpoints, 0 ≤ c.pc) :
    (∃ err, f.lineOf (Branch.position pc) = .error err) ↔ f.IsUncovered pc := by
  cases htable : f.lineInfo with
  | none =>
    constructor
    · rintro ⟨err, herr⟩
      rw [lineOf, htable] at herr
      cases herr
    · rintro ⟨deltas, hdeltas, -⟩
      rw [htable] at hdeltas
      cases hdeltas
  | some deltas =>
    have hbounds := base_bounds hpc hcheckpoints
    have hhere : (f.base (Branch.position pc)).pc = Branch.position pc ↔ f.countFrom pc = pc + 1 := by
      rw [← Int64.toInt_inj, Branch.position, Int64.toInt_ofNat_of_lt (by omega), countFrom]
      omega
    rw [Branch.position, lineOf_eq hpc hcheckpoints htable]
    constructor
    · rintro ⟨err, herr⟩
      split at herr
      · rename_i hshort
        exact ⟨deltas, htable, hshort.1, fun h => hshort.2 (hhere.mp h)⟩
      · cases herr
    · rintro ⟨deltas', hdeltas, hshort, hbase⟩
      obtain rfl : deltas = deltas' := Option.some.inj (htable.symm.trans hdeltas)
      rw [if_pos ⟨hshort, fun h => hbase (hhere.mpr h)⟩]
      exact ⟨_, rfl⟩

namespace Prototype

/-- Some instruction of the function is uncovered. -/
def HasUncovered (p : Prototype) : Prop := ∃ pc < p.body.code.length, p.body.IsUncovered pc

/-- A table that is as long as the code covers it, and so does no table at all. -/
theorem not_hasUncovered {p : Prototype}
    (h : ∀ deltas, p.body.lineInfo = some deltas → p.body.code.length ≤ deltas.length) :
    ¬ p.HasUncovered := by
  rintro ⟨pc, hpc, deltas, htable, hshort, -⟩
  have hlong := h deltas htable
  omega

/-- Some branch of the function is refused, whatever the function is called. -/
def IsRefused (p : Prototype) : Prop := ∀ name, ∃ err, Branch.check name p.body.code = .error err

theorem isRefused_of_check_eq_error {p : Prototype} {name : Bytes} {err : Branch.Error}
    (h : Branch.check name p.body.code = .error err) : p.IsRefused := by
  intro other
  cases hother : Branch.check other p.body.code with
  | error err' => exact ⟨err', rfl⟩
  | ok _ =>
    have hok := (Branch.check_eq_ok_iff_defect name p.body.code).mpr
      ((Branch.check_eq_ok_iff_defect other p.body.code).mp hother)
    rw [h] at hok
    cases hok

theorem not_isRefused_of_check_eq_ok {p : Prototype} {name : Bytes}
    (h : Branch.check name p.body.code = .ok ()) : ¬ p.IsRefused := by
  intro hrefused
  obtain ⟨err, herr⟩ := hrefused name
  rw [h] at herr
  cases herr

/-- The sizes of the function are such that positions do not wrap, and its checkpoints are not in
front of it. -/
structure IsPlaced (p : Prototype) : Prop where
  size : p.body.code.length < 0x8000000000000000
  checkpoints : ∀ c ∈ p.body.checkpoints, 0 ≤ c.pc

/-- An annotation fails just where a lookup does. -/
theorem exists_ofInstruction_eq_error_iff {p : Prototype} (h : p.IsPlaced)
    (nameOfChild : Nat → Bytes) {pc : Nat} {i : Instruction} (hi : p.body.code[pc]? = some i) :
    (∃ err, Annotation.ofInstruction p.body nameOfChild pc i = .error err) ↔
      p.body.IsUncovered pc := by
  have hpc := (List.getElem?_eq_some_iff.mp hi).1
  have hsize := h.size
  rw [← FunctionBody.exists_lineOf_eq_error_iff (by omega) h.checkpoints]
  exact exists_bind_eq_error_iff fun line => ⟨_, rfl⟩

/-- The instructions of a function, with their positions, are run through by something that fails at
uncovered ones. -/
theorem exists_mapM_zipIdx_eq_error_iff {p : Prototype} {β : Type}
    {k : Instruction × Nat → Except UncoveredLine β}
    (hk : ∀ i pc, p.body.code[pc]? = some i →
      ((∃ err, k (i, pc) = .error err) ↔ p.body.IsUncovered pc)) :
    (∃ err, p.body.code.zipIdx.mapM k = .error err) ↔ p.HasUncovered := by
  rw [exists_mapM_eq_error_iff]
  constructor
  · rintro ⟨⟨i, pc⟩, hx, herr⟩
    have hi := List.mem_zipIdx_iff_getElem?.mp hx
    exact ⟨pc, (List.getElem?_eq_some_iff.mp hi).1, (hk i pc hi).mp herr⟩
  · rintro ⟨pc, hpc, huncovered⟩
    have hi := List.getElem?_eq_getElem hpc
    exact ⟨(p.body.code[pc], pc), List.mem_zipIdx_iff_getElem?.mpr hi, (hk _ pc hi).mpr huncovered⟩

end Prototype

/-! ## Listings -/

namespace Listing

theorem exists_ofEntry_eq_error_iff (palette : Palette) (entries : List Entry) {e : Entry}
    (h : e.proto.IsPlaced) :
    (∃ err, ofEntry palette entries e = .error err) ↔ e.proto.HasUncovered := by
  rw [← Prototype.exists_mapM_zipIdx_eq_error_iff fun i pc hi => ?_]
  · exact exists_bind_eq_error_iff fun records => ⟨_, rfl⟩
  · refine Iff.trans ?_
      (e.proto.exists_ofInstruction_eq_error_iff h (Entry.nameOfChild entries e.path) hi)
    exact exists_bind_eq_error_iff fun a => ⟨_, rfl⟩

/-- A listing fails when some function of the tree has an uncovered instruction. -/
theorem exists_ofTree_eq_error_iff (palette : Palette) (functionPrefix : Bytes) {root : Prototype}
    (h : ∀ f ∈ root.functions, f.IsPlaced) :
    (∃ err, ofTree palette functionPrefix root = .error err) ↔
      ∃ f ∈ root.functions, f.HasUncovered := by
  have hentries : (Entry.ofTree (Options.orDefault functionPrefix Options.default.functionPrefix)
      root).map (·.proto) = root.functions :=
    CompiledUnit.map_proto_entriesOf { Options.default with functionPrefix := functionPrefix } root
  rw [← hentries] at h ⊢
  generalize hes : Entry.ofTree _ root = es at h ⊢
  have hsections : (∃ err, ofTree palette functionPrefix root = .error err) ↔
      ∃ err, es.mapM (ofEntry palette es) = .error err := by
    rw [← hes]
    exact exists_bind_eq_error_iff fun sections => ⟨_, rfl⟩
  rw [hsections, exists_mapM_eq_error_iff]
  constructor
  · rintro ⟨e, he, herr⟩
    have hproto : e.proto ∈ es.map (·.proto) := List.mem_map_of_mem he
    exact ⟨e.proto, hproto, (exists_ofEntry_eq_error_iff palette es (h _ hproto)).mp herr⟩
  · rintro ⟨f, hf, huncovered⟩
    have hplaced := h f hf
    obtain ⟨e, he, rfl⟩ := List.mem_map.mp hf
    exact ⟨e, he, (exists_ofEntry_eq_error_iff palette es hplaced).mpr huncovered⟩

/-- Whether it does has nothing to do with where it is written. -/
theorem exists_writeTo_eq_uncovered_iff (palette : Palette) (functionPrefix : Bytes)
    (root : Prototype) (out : Sink) :
    (∃ err, (writeTo palette functionPrefix root out).1 = .error (.uncovered err)) ↔
      ∃ err, ofTree palette functionPrefix root = .error err := by
  unfold writeTo
  cases ofTree palette functionPrefix root with
  | error err => exact ⟨fun _ => ⟨err, rfl⟩, fun _ => ⟨err, rfl⟩⟩
  | ok text =>
    dsimp only
    cases out.write text <;> simp

end Listing

/-! ## Units -/

namespace CompiledUnit

/-- The lines of a function fail for an uncovered instruction, if there are annotations. -/
theorem exists_lines_eq_error_iff (opts : Options) (entries : List Entry) {e : Entry}
    (h : e.proto.IsPlaced) :
    (∃ err, FunctionText.lines opts entries e = .error err) ↔
      opts.comments = true ∧ e.proto.HasUncovered := by
  have hblocks : (∃ err, FunctionText.lines opts entries e = .error err) ↔
      ∃ err, FunctionText.blocks opts entries e = .error err :=
    exists_bind_eq_error_iff fun body => ⟨_, rfl⟩
  rw [hblocks]
  cases hcomments : opts.comments with
  | false =>
    obtain ⟨lines, hlines⟩ := exists_blocks_eq_ok opts entries (e := e) (by simp [hcomments])
    simp [hlines]
  | true =>
    rw [eq_self, true_and]
    refine (exists_bind_eq_error_iff fun parts => ⟨_, rfl⟩).trans ?_
    refine Prototype.exists_mapM_zipIdx_eq_error_iff fun i pc hi => ?_
    refine Iff.trans ?_
      (e.proto.exists_ofInstruction_eq_error_iff h (Entry.nameOfChild entries e.path) hi)
    simp only [hcomments, if_true]
    exact exists_bind_eq_error_iff fun a => ⟨_, rfl⟩

/-- What comes of a function: its branches are refused, or else an uncovered instruction is met, or
else there are lines. -/
theorem functionLines_cases (opts : Options) (entries : List Entry) {e : Entry}
    (h : e.proto.IsPlaced) :
    e.proto.IsRefused ∧ (∃ err, functionLines opts entries e = .error (.branch err)) ∨
      ¬ e.proto.IsRefused ∧ (opts.comments = true ∧ e.proto.HasUncovered) ∧
        (∃ err, functionLines opts entries e = .error (.uncovered err)) ∨
      ¬ e.proto.IsRefused ∧ ¬ (opts.comments = true ∧ e.proto.HasUncovered) ∧
        ∃ lines, functionLines opts entries e = .ok lines := by
  rw [← exists_lines_eq_error_iff opts entries h]
  unfold functionLines
  cases hcheck : Branch.check e.name e.proto.body.code with
  | error err => exact Or.inl ⟨Prototype.isRefused_of_check_eq_error hcheck, err, rfl⟩
  | ok _ =>
    have haccepted := Prototype.not_isRefused_of_check_eq_ok hcheck
    right
    cases FunctionText.lines opts entries e with
    | error err => exact Or.inl ⟨haccepted, ⟨err, rfl⟩, err, rfl⟩
    | ok lines => exact Or.inr ⟨haccepted, by simp, lines, rfl⟩

theorem not_isRefused_of_functionLines_eq_ok {opts : Options} {entries : List Entry} {e : Entry}
    (h : e.proto.IsPlaced) {lines : List Bytes} (hok : functionLines opts entries e = .ok lines) :
    ¬ e.proto.IsRefused := by
  rcases functionLines_cases opts entries h with ⟨-, err, herr⟩ | ⟨hr, -⟩ | ⟨hr, -⟩
  · rw [hok] at herr
    cases herr
  · exact hr
  · exact hr

theorem not_isRefused_of_functionLines_eq_uncovered {opts : Options} {entries : List Entry}
    {e : Entry} (h : e.proto.IsPlaced) {err : UncoveredLine}
    (herr : functionLines opts entries e = .error (.uncovered err)) :
    ¬ e.proto.IsRefused ∧ opts.comments = true ∧ e.proto.HasUncovered := by
  rcases functionLines_cases opts entries h with ⟨-, err', herr'⟩ | ⟨hr, hu, -⟩ | ⟨-, -, lines, hok⟩
  · rw [herr] at herr'
    cases herr'
  · exact ⟨hr, hu⟩
  · rw [herr] at hok
    cases hok

/-- The functions up to the first failure decide.  It is an uncovered instruction when some function
has one and no function up to and including it has its branches refused. -/
theorem exists_mapM_functionLines_eq_uncovered_iff {opts : Options} {entries es : List Entry}
    (h : ∀ e ∈ es, e.proto.IsPlaced) :
    (∃ err, es.mapM (functionLines opts entries) = .error (.uncovered err)) ↔
      opts.comments = true ∧ ∃ k e, es[k]? = some e ∧ e.proto.HasUncovered ∧
        ∀ d ∈ es.take (k + 1), ¬ d.proto.IsRefused := by
  constructor
  · rintro ⟨err, herr⟩
    obtain ⟨before, e, after, rfl, hbefore, he⟩ := exists_split_of_mapM_eq_error herr
    have hplaced := h e (List.mem_append_right _ List.mem_cons_self)
    obtain ⟨hrefused, hcomments, huncovered⟩ :=
      not_isRefused_of_functionLines_eq_uncovered hplaced he
    refine ⟨hcomments, before.length, e, by simp, huncovered, fun d hd => ?_⟩
    rw [List.take_length_add_append, List.take_succ_cons, List.take_zero, List.mem_append,
      List.mem_singleton] at hd
    rcases hd with hd | rfl
    · obtain ⟨lines, hlines⟩ := hbefore d hd
      exact not_isRefused_of_functionLines_eq_ok (h d (List.mem_append_left _ hd)) hlines
    · exact hrefused
  · rintro ⟨hcomments, k, e, hk, huncovered, hrefused⟩
    have hmem : e ∈ es := List.mem_of_getElem? hk
    have hfails : ∃ err, functionLines opts entries e = .error err := by
      rcases functionLines_cases opts entries (h e hmem) with
        ⟨-, err, herr⟩ | ⟨-, -, err, herr⟩ | ⟨-, hnot, -⟩
      · exact ⟨_, herr⟩
      · exact ⟨_, herr⟩
      · exact absurd ⟨hcomments, huncovered⟩ hnot
    -- So there is a first failure, at or before that function, and it is not a refused branch.
    obtain ⟨err, herr⟩ := exists_mapM_eq_error_iff.mpr ⟨e, hmem, hfails⟩
    obtain ⟨before, d, after, rfl, hbefore, hd⟩ := exists_split_of_mapM_eq_error herr
    -- A later one would have that function before it, which does not pass.
    have hle : before.length ≤ k := by
      refine Nat.le_of_not_lt fun hlt => ?_
      rw [List.getElem?_append_left hlt] at hk
      obtain ⟨lines, hlines⟩ := hbefore e (List.mem_of_getElem? hk)
      obtain ⟨err', herr'⟩ := hfails
      rw [hlines] at herr'
      cases herr'
    have hdrefused : ¬ d.proto.IsRefused := by
      have hget : ((before ++ d :: after).take (k + 1))[before.length]? = some d := by
        rw [List.getElem?_take_of_lt (by omega)]
        simp
      exact hrefused d (List.mem_of_getElem? hget)
    rcases functionLines_cases opts entries (h d (List.mem_append_right _ List.mem_cons_self)) with
      ⟨hr, -⟩ | ⟨-, -, err', herr'⟩ | ⟨-, -, lines, hlines⟩
    · exact absurd hr hdrefused
    · rw [hd, Except.error.injEq] at herr'
      exact ⟨err', by rw [herr, herr']⟩
    · rw [hd] at hlines
      cases hlines

/-- The same in terms of the functions of the tree. -/
theorem exists_entriesOf_iff {o : Options} {root : Prototype} {P Q : Prototype → Prop} :
    (∃ k e, (entriesOf o root)[k]? = some e ∧ P e.proto ∧
        ∀ d ∈ (entriesOf o root).take (k + 1), Q d.proto) ↔
      ∃ k f, root.functions[k]? = some f ∧ P f ∧ ∀ g ∈ root.functions.take (k + 1), Q g := by
  rw [← map_proto_entriesOf o root]
  refine exists_congr fun k => ?_
  rw [List.getElem?_map, ← List.map_take, List.forall_mem_map]
  cases (entriesOf o root)[k]? <;> simp

/-- A unit ends the program when one of its functions does, before anything else is looked at. -/
theorem exists_ofInput_eq_uncovered_iff {o : Options} {input : ModuleInput} {root : Prototype}
    (hmain : input.main = some root) (hname : isCIdentifier input.name = true) :
    (∃ err, ofInput o input = .error (.uncovered err)) ↔
      ∃ err, (entriesOf o root).mapM (functionLines o.completed (entriesOf o root)) =
        .error (.uncovered err) := by
  cases hfunctions : (entriesOf o root).mapM (functionLines o.completed (entriesOf o root)) with
  | error err =>
    rw [ofInput_of_mapM_eq_error hmain hname hfunctions]
    simp
  | ok functions =>
    rw [ofInput_of_mapM_eq_ok hmain hname hfunctions]
    split <;> simp

theorem exists_writeTo_eq_uncovered_iff (o : Options) (input : ModuleInput) (sink : Sink) :
    (∃ err, (writeTo o input sink).1 = .error (.uncovered err)) ↔
      ∃ err, ofInput o input = .error (.uncovered err) := by
  unfold writeTo
  cases ofInput o input with
  | error err => simp
  | ok unit =>
    dsimp only
    cases sink.write unit.text <;> simp

end CompiledUnit

/-- What is read from a chunk is placed. -/
theorem Chunk.isPlaced_of_decode {data : Bytes} {p : Prototype}
    (hsize : data.length < 0x4000000000000000) (h : decode data = .ok p) :
    ∀ f ∈ p.functions, f.IsPlaced := by
  intro f hf
  have hwritable := (isCanonical_of_decode hsize h).writable f hf
  have hlength := hwritable.codeLength
  refine ⟨?_, fun c hc => Int64.le_iff_toInt_le.mpr (hwritable.checkpoints c hc).1.1⟩
  unfold maxCount at hlength
  omega

namespace Compiler

/-- **Exactly the short line tables end the program.**  A compiler that annotates, whatever it has
served before, ends it when some function has an uncovered instruction and no function up to and
including that one has its branches refused; one that does not annotate never does.  A listing ends
it when any function has an uncovered instruction.  So neither does when every table that is there is
as long as its code, whatever the instructions are.  All of this is about trees whose checkpoints are
not in front of their functions, as in every tree that is read from a chunk. -/
theorem compileModule_uncovered_iff (o : Options) (served : List (ModuleInput × Sink))
    (input : ModuleInput) {root : Prototype} (hmain : input.main = some root)
    (hname : isCIdentifier input.name = true) (hplaced : ∀ f ∈ root.functions, f.IsPlaced)
    (sink : Sink) :
    let outcome := ((new o).after served).compileModule input sink
    ((∃ err, outcome.result = .error (.uncovered err)) ↔
        o.comments = true ∧ ∃ k f, root.functions[k]? = some f ∧ f.HasUncovered ∧
          ∀ g ∈ root.functions.take (k + 1), ¬ g.IsRefused) ∧
      (∀ palette functionPrefix out,
        (∃ err, (Listing.writeTo palette functionPrefix root out).1 = .error (.uncovered err)) ↔
          ∃ f ∈ root.functions, f.HasUncovered) ∧
      ((∀ f ∈ root.functions, ∀ deltas, f.body.lineInfo = some deltas →
          f.body.code.length ≤ deltas.length) →
        (∀ err, outcome.result ≠ .error (.uncovered err)) ∧
        ∀ palette functionPrefix out err,
          (Listing.writeTo palette functionPrefix root out).1 ≠ .error (.uncovered err)) ∧
      ∀ data p, data.length < 0x4000000000000000 → Chunk.decode data = .ok p →
        ∀ f ∈ p.functions, f.IsPlaced := by
  intro outcome
  have hunit : (∃ err, outcome.result = .error (.uncovered err)) ↔
      o.comments = true ∧ ∃ k f, root.functions[k]? = some f ∧ f.HasUncovered ∧
        ∀ g ∈ root.functions.take (k + 1), ¬ g.IsRefused := by
    have hresult : outcome.result = (CompiledUnit.writeTo o input sink).1 :=
      congrArg Prod.fst (compileModule_eq_writeTo (options_after (new o) served) input sink)
    rw [hresult, CompiledUnit.exists_writeTo_eq_uncovered_iff,
      CompiledUnit.exists_ofInput_eq_uncovered_iff hmain hname,
      CompiledUnit.exists_mapM_functionLines_eq_uncovered_iff
        (CompiledUnit.forall_entriesOf.mpr hplaced)]
    exact and_congr Iff.rfl
      (CompiledUnit.exists_entriesOf_iff (P := Prototype.HasUncovered) (Q := (¬ ·.IsRefused)))
  have hlisting (palette : Listing.Palette) (functionPrefix : Bytes) (out : Sink) :
      (∃ err, (Listing.writeTo palette functionPrefix root out).1 = .error (.uncovered err)) ↔
        ∃ f ∈ root.functions, f.HasUncovered := by
    rw [Listing.exists_writeTo_eq_uncovered_iff, Listing.exists_ofTree_eq_error_iff _ _ hplaced]
  refine ⟨hunit, hlisting, fun hlong =>
      ⟨fun err herr => ?_, fun palette functionPrefix out err herr => ?_⟩,
    fun data p hsize hdecode => Chunk.isPlaced_of_decode hsize hdecode⟩
  · obtain ⟨-, k, f, hk, huncovered, -⟩ := hunit.mp ⟨err, herr⟩
    exact Prototype.not_hasUncovered (hlong f (List.mem_of_getElem? hk)) huncovered
  · obtain ⟨f, hf, huncovered⟩ := (hlisting palette functionPrefix out).mp ⟨err, herr⟩
    exact Prototype.not_hasUncovered (hlong f hf) huncovered

/-- A function of two instructions with a line for the first one only. -/
def halfCovered (checkpoints : List Checkpoint) (children : List Prototype) : Prototype :=
  let ret := .ofABC Opcode.ret0.tag 0 0 0 0
  ⟨{ (default : FunctionBody) with
    code := [ret, ret], lineInfo := some [1], checkpoints := checkpoints }, children⟩

/-- The main function has a checkpoint where its table ends, and its first child has not.  Its second
child jumps out. -/
def shortTableSample : Prototype :=
  halfCovered [⟨1, 9⟩] [halfCovered [] [], plainFunction [.ofSJ Opcode.jmp.tag 4] []]

/-- The first child counts and the second does not, as it comes later; without annotations, neither
the first nor the main function does. -/
theorem compileModule_uncovered_shortTableSample :
    (∀ f ∈ shortTableSample.functions, f.IsPlaced) ∧
      (∃ err, ((new .default).compileModule ⟨ascii "short", some shortTableSample, []⟩
        .empty).result = .error (.uncovered err)) ∧
      (∀ err, ((new { Options.default with comments := false }).compileModule
        ⟨ascii "short", some shortTableSample, []⟩ .empty).result ≠ .error (.uncovered err)) ∧
      ∃ err, (Listing.writeTo .plain [] shortTableSample .empty).1 = .error (.uncovered err) := by
  have hsize : ∀ f ∈ shortTableSample.functions, f.body.code.length < 0x8000000000000000 := by decide
  have hcheckpoints : ∀ f ∈ shortTableSample.functions, ∀ c ∈ f.body.checkpoints, 0 ≤ c.pc := by
    decide
  have hplaced : ∀ f ∈ shortTableSample.functions, f.IsPlaced :=
    fun f hf => ⟨hsize f hf, hcheckpoints f hf⟩
  have hchild : (halfCovered [] []).HasUncovered := ⟨1, by decide, [1], rfl, by decide, by decide⟩
  have hbranches : ∀ g ∈ shortTableSample.functions.take 2, ¬ g.IsRefused := by
    have hcode : ∀ g ∈ shortTableSample.functions.take 2,
        g.body.code = (halfCovered [] []).body.code := by decide
    intro g hg
    have haccepted : Branch.check [] g.body.code = .ok () := by
      rw [hcode g hg]
      rfl
    exact Prototype.not_isRefused_of_check_eq_ok haccepted
  have hwith := compileModule_uncovered_iff .default [] ⟨ascii "short", some shortTableSample, []⟩
    rfl (by decide) hplaced .empty
  have hwithout := compileModule_uncovered_iff { Options.default with comments := false } []
    ⟨ascii "short", some shortTableSample, []⟩ rfl (by decide) hplaced .empty
  refine ⟨hplaced, hwith.1.mpr ⟨rfl, 1, _, rfl, hchild, hbranches⟩, fun err herr => ?_,
    (hwith.2.1 _ _ _).mpr ⟨_, List.mem_of_getElem? (i := 1) rfl, hchild⟩⟩
  exact absurd (hwithout.1.mp ⟨err, herr⟩).1 (by decide)

end Compiler

end LuaToC
