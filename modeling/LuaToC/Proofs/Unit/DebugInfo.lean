import LuaToC.Proofs.Unit.Alignment

/-! # Debug information stays in comments

A unit shows debug information in comments only: where a function comes from, and in annotations
the source line and the names of upvalues.  So the code of a unit, the lines that are left when
comments are deleted (`codeLines`), should be the code that the stripped tree gives
(`codeLines_stripped`).

That holds as long as no comment goes on to a second line.  A source name is put on one line first,
but the name of an upvalue is written as it is, and a line feed in it ends the comment: what follows
becomes code (`codeLines_differ_upvalueSample`).  A function prefix may have line feeds as well;
these are in the code of the stripped tree too.
-/
namespace LuaToC

/-! ## Stripping -/

/-- The function without debug information: its source, its lines, its local variables and the
names of its upvalues. -/
def FunctionBody.stripped (f : FunctionBody) : FunctionBody :=
  { f with
    source := []
    lineDefined := 0
    lastLineDefined := 0
    upvalues := f.upvalues.map fun u => { u with name := [] }
    lineInfo := none
    checkpoints := []
    locals := [] }

namespace Prototype

mutual

/-- The tree without debug information. -/
def stripped : Prototype → Prototype
  | ⟨body, children⟩ => ⟨body.stripped, strippedAll children⟩

/-- Several trees without debug information. -/
def strippedAll : List Prototype → List Prototype
  | [] => []
  | p :: ps => p.stripped :: strippedAll ps

end

theorem strippedAll_eq_map (ps : List Prototype) : strippedAll ps = ps.map stripped := by
  induction ps with
  | nil => rfl
  | cons p ps ih => rw [strippedAll, ih, List.map_cons]

@[simp] theorem body_stripped (p : Prototype) : p.stripped.body = p.body.stripped := by
  cases p
  rw [stripped]

@[simp] theorem length_children_stripped (p : Prototype) :
    p.stripped.children.length = p.children.length := by
  cases p
  rw [stripped, strippedAll_eq_map, List.length_map]

mutual

/-- Stripping leaves the shape of the tree. -/
theorem visitsFrom_stripped (path : TreePath) : (p : Prototype) →
    visitsFrom path p.stripped = (visitsFrom path p).map fun v => ⟨v.path, v.proto.stripped⟩
  | ⟨body, children⟩ => by
    rw [visitsFrom, List.map_cons, ← visitsAll_stripped path 0 children, stripped, visitsFrom]

theorem visitsAll_stripped (path : TreePath) (i : Nat) : (ps : List Prototype) →
    visitsAll path i (strippedAll ps) =
      (visitsAll path i ps).map fun v => ⟨v.path, v.proto.stripped⟩
  | [] => rfl
  | p :: ps => by
    rw [strippedAll, visitsAll, visitsAll, List.map_append, visitsFrom_stripped (path ++ [i]) p,
      visitsAll_stripped path (i + 1) ps]

end

/-- A fingerprint has no debug information in it. -/
theorem ofPrototype_stripped (p : Prototype) :
    Fingerprint.ofPrototype p.stripped = Fingerprint.ofPrototype p := by
  have hcontent : p.stripped.body.content = p.body.content := by
    rw [body_stripped, FunctionBody.content, FunctionBody.content]
    simp [FunctionBody.stripped]
  rw [Fingerprint.ofPrototype, Fingerprint.ofPrototype,
    Fingerprint.input_congr hcontent (length_children_stripped p)]

end Prototype

namespace Entry

/-- The entry without the debug information of its function. -/
def stripped (e : Entry) : Entry := { e with proto := e.proto.stripped }

theorem ofTree_stripped (functionPrefix : Bytes) (root : Prototype) :
    ofTree functionPrefix root.stripped = (ofTree functionPrefix root).map stripped := by
  rw [ofTree, ofTree, Prototype.visits, Prototype.visitsFrom_stripped, List.zipIdx_map, List.map_map,
    List.map_map]
  rfl

theorem nameOfChild_map_stripped (entries : List Entry) (path : TreePath) (i : Nat) :
    nameOfChild (entries.map stripped) path i = nameOfChild entries path i := by
  have hfind : (entries.map stripped).find? (fun e => e.path = path ++ [i]) =
      (entries.find? fun e => e.path = path ++ [i]).map stripped := List.find?_map
  rw [nameOfChild, nameOfChild, hfind]
  cases entries.find? fun e => e.path = path ++ [i] <;> rfl

end Entry

namespace UnitText

/-! ## Code and comments -/

/-- The first characters of the line that are not blank begin a comment. -/
def isComment (line : Bytes) : Bool :=
  (ascii "//").isPrefixOf (line.dropWhile fun b => b = 32 || b = 9)

/-- The lines of a text that are not comments. -/
def codeLines (text : Bytes) : List Bytes :=
  (Bytes.splitOn Bytes.newline text).filter (!isComment ·)

/-- What of a comment stands on further lines and is code. -/
def spill (comment : Bytes) : List Bytes :=
  ((Bytes.splitOn Bytes.newline comment).drop 1).filter (!isComment ·)

theorem spill_append {s : Bytes} (hs : Bytes.newline ∉ s) (t : Bytes) : spill (s ++ t) = spill t := by
  rw [spill, Bytes.splitOn_append_of_notMem hs]
  rfl

theorem spill_eq_nil {s : Bytes} (hs : Bytes.newline ∉ s) : spill s = [] := by
  rw [← List.append_nil s, spill_append hs]
  rfl

/-- A comment that stays on its line is no code. -/
theorem codeLines_comment {mark : Bytes} (hmark : Bytes.newline ∉ mark)
    (hcomment : ∀ s, isComment (mark ++ s) = true) (s : Bytes) : codeLines (mark ++ s) = spill s := by
  rw [codeLines, Bytes.splitOn_append_of_notMem hmark,
    List.filter_cons_of_neg (by simp [hcomment]), spill]

/-- The code of a text is the code of its lines. -/
theorem codeLines_unlines (lines : List Bytes) :
    codeLines (Bytes.unlines lines) = lines.flatMap codeLines ++ [[]] := by
  rw [codeLines, ← List.append_nil (Bytes.unlines lines), Bytes.splitOn_unlines_append,
    List.filter_append, List.filter_flatMap]
  rfl

/-! ## Annotations -/

open Annotation

/-- Stripped of debug information, a remark has the same code on further lines, if names of upvalues
have no line feeds. -/
theorem spill_remark_stripped (nameOfChild : Nat → Bytes) (pc : Nat) (i : Instruction)
    {f : FunctionBody} (h : ∀ u ∈ f.upvalues, Bytes.newline ∉ u.name) :
    (describe f.stripped nameOfChild pc i).2.map spill =
      (describe f nameOfChild pc i).2.map spill := by
  have hstripped : ∀ u ∈ f.stripped.upvalues, Bytes.newline ∉ u.name := by
    intro u hu
    obtain ⟨v, -, rfl⟩ := List.mem_map.mp hu
    exact List.not_mem_nil
  -- A name in front of the rest of the remark makes no difference.
  have hname (n : Int64) : spill (f.stripped.nameOfUpvalue n) = spill (f.nameOfUpvalue n) := by
    rw [spill_eq_nil (newline_notMem_nameOfUpvalue hstripped n),
      spill_eq_nil (newline_notMem_nameOfUpvalue h n)]
  have hwords (n : Int64) (w : Bytes) (ws : List Bytes) :
      spill (Bytes.join [32] (f.stripped.nameOfUpvalue n :: w :: ws)) =
        spill (Bytes.join [32] (f.nameOfUpvalue n :: w :: ws)) := by
    rw [Bytes.join, Bytes.join, List.append_assoc, List.append_assoc,
      spill_append (newline_notMem_nameOfUpvalue hstripped n),
      spill_append (newline_notMem_nameOfUpvalue h n)]
  have hconstant : constantText f.stripped = constantText f := rfl
  unfold describe
  rw [hconstant]
  cases i.opcode? with
  | none => rfl
  | some op =>
    cases op
    case getUpval | setUpval => exact congrArg some (hname _)
    case getTabUp | setTabUp => exact congrArg some (hwords _ _ _)
    all_goals rfl

/-- The code of an annotation is what its remark has on further lines. -/
theorem codeLines_remark {a : Annotation} (h : Bytes.newline ∉ a.operands) :
    codeLines a.text = (a.remark.map spill).getD [] := by
  unfold Annotation.text
  rw [List.append_assoc, codeLines_comment (by decide) (fun _ => rfl),
    spill_append (newline_notMem_columns h)]
  cases a.remark with
  | none => rfl
  | some r => exact spill_append (by decide) r

section

variable {opts : Options} {entries : List Entry} {e : Entry}

/-- Without debug information an instruction can always be annotated, and the code of the annotation
is the same. -/
theorem exists_annotate_stripped {x : Instruction × Nat} {a : Annotation}
    (hnames : ∀ u ∈ e.proto.body.upvalues, Bytes.newline ∉ u.name)
    (h : annotate entries e x = .ok a) :
    ∃ a', annotate (entries.map Entry.stripped) e.stripped x = .ok a' ∧
      codeLines a'.text = codeLines a.text := by
  have hbody : e.stripped.proto.body = e.proto.body.stripped := Prototype.body_stripped _
  obtain ⟨a', ha'⟩ : ∃ a', annotate (entries.map Entry.stripped) e.stripped x = .ok a' := by
    rw [annotate, hbody]
    exact ⟨_, rfl⟩
  refine ⟨a', ha', ?_⟩
  obtain ⟨hoperands, hremark⟩ := annotate_eq_ok h
  obtain ⟨hoperands', hremark'⟩ := annotate_eq_ok ha'
  have hchild : Entry.nameOfChild (entries.map Entry.stripped) e.stripped.path =
      Entry.nameOfChild entries e.path := funext (Entry.nameOfChild_map_stripped entries e.path)
  rw [hbody, hchild] at hoperands' hremark'
  rw [codeLines_remark (hoperands' ▸ newline_notMem_operands _ _ _ _),
    codeLines_remark (hoperands ▸ newline_notMem_operands _ _ _ _), hremark, hremark',
    spill_remark_stripped _ _ _ hnames]

/-! ## Functions -/

/-- The part of an instruction has the code that it has without debug information. -/
theorem exists_part_stripped {x : Instruction × Nat} {lines : List Bytes}
    (hnames : opts.comments = true → ∀ u ∈ e.proto.body.upvalues, Bytes.newline ∉ u.name)
    (h : part opts entries e x = .ok lines) :
    ∃ lines', part opts (entries.map Entry.stripped) e.stripped x = .ok lines' ∧
      lines'.flatMap codeLines = lines.flatMap codeLines := by
  have hcode : e.stripped.proto.body.code = e.proto.body.code := by
    rw [Entry.stripped, Prototype.body_stripped]
    rfl
  cases hcomments : opts.comments with
  | false =>
    rw [part_of_not_comments hcomments] at h
    cases h
    exact ⟨_, part_of_not_comments hcomments x, by rw [hcode]⟩
  | true =>
    obtain ⟨a, ha, rfl⟩ := part_of_comments hcomments h
    obtain ⟨a', ha', htext⟩ := exists_annotate_stripped (hnames hcomments) ha
    refine ⟨a'.text :: FunctionText.block opts.policy e.proto.body.code x.2 x.1, ?_, ?_⟩
    · rw [part, if_pos hcomments, ha', hcode]
      rfl
    · rw [List.flatMap_cons, List.flatMap_cons, htext]

/-- What each step has for code, all steps together have. -/
theorem exists_mapM_of_mapM {ε α β : Type} {f : α → Except ε (List Bytes)}
    {g : β → Except ε (List Bytes)} {k : α → β} {xs : List α} {ys : List (List Bytes)}
    (hstep : ∀ x ∈ xs, ∀ y, f x = .ok y →
      ∃ y', g (k x) = .ok y' ∧ y'.flatMap codeLines = y.flatMap codeLines)
    (h : xs.mapM f = .ok ys) :
    ∃ ys', (xs.map k).mapM g = .ok ys' ∧
      ys'.flatten.flatMap codeLines = ys.flatten.flatMap codeLines := by
  induction xs generalizing ys with
  | nil =>
    cases h
    exact ⟨[], rfl, rfl⟩
  | cons x xs ih =>
    obtain ⟨y, ys, hx, hxs, rfl⟩ := exists_of_mapM_cons_eq_ok h
    obtain ⟨y', hy', hcode⟩ := hstep x List.mem_cons_self y hx
    obtain ⟨ys', hys', hcodes⟩ := ih (fun z hz => hstep z (List.mem_cons_of_mem x hz)) hxs
    refine ⟨y' :: ys', ?_, ?_⟩
    · rw [List.map_cons, List.mapM_cons, hy', hys']
      rfl
    · rw [List.flatten_cons, List.flatten_cons, List.flatMap_append, List.flatMap_append, hcode,
        hcodes]

theorem exists_blocks_stripped {body : List Bytes}
    (hnames : opts.comments = true → ∀ u ∈ e.proto.body.upvalues, Bytes.newline ∉ u.name)
    (h : FunctionText.blocks opts entries e = .ok body) :
    ∃ body', FunctionText.blocks opts (entries.map Entry.stripped) e.stripped = .ok body' ∧
      body'.flatMap codeLines = body.flatMap codeLines := by
  rw [blocks_eq_flatten] at h
  obtain ⟨parts, hparts, rfl⟩ := exists_of_map_eq_ok h
  obtain ⟨parts', hparts', hcode⟩ :=
    exists_mapM_of_mapM (k := id) (fun x _ lines hlines => exists_part_stripped hnames hlines) hparts
  refine ⟨parts'.flatten, ?_, hcode⟩
  have hsame : e.stripped.proto.body.code = e.proto.body.code := by
    rw [Entry.stripped, Prototype.body_stripped]
    rfl
  rw [List.map_id] at hparts'
  rw [blocks_eq_flatten, hsame, hparts']
  rfl

/-- Neither line in front of a definition is code, apart from the word at its end. -/
theorem flatMap_codeLines_preface (f : FunctionBody) :
    (preface f).flatMap codeLines = codeLines (ascii "static") := by
  have hsource : codeLines (ascii "// source = " ++ FunctionText.oneLine f.source) = [] := by
    rw [codeLines_comment (by decide) (fun _ => rfl), spill_eq_nil (newline_notMem_oneLine _)]
  have horigin : codeLines (FunctionText.origin f) = [] := by
    unfold FunctionText.origin
    split
    · rfl
    · rw [List.append_assoc, List.append_assoc, codeLines_comment (by decide) (fun _ => rfl),
        spill_append (newline_notMem_ofInt _), spill_append (by decide),
        spill_eq_nil (newline_notMem_ofInt _)]
  rw [preface, List.flatMap_cons, List.flatMap_cons, hsource, horigin]
  simp

/-- A function has the code that it has without debug information. -/
theorem exists_functionLines_stripped {f : List Bytes}
    (hnames : opts.comments = true → ∀ u ∈ e.proto.body.upvalues, Bytes.newline ∉ u.name)
    (h : CompiledUnit.functionLines opts entries e = .ok f) :
    ∃ f', CompiledUnit.functionLines opts (entries.map Entry.stripped) e.stripped = .ok f' ∧
      f'.flatMap codeLines = f.flatMap codeLines := by
  obtain ⟨body, hblocks, rfl⟩ := lines_of_functionLines h
  obtain ⟨body', hblocks', hcode⟩ := exists_blocks_stripped hnames hblocks
  have hsame : e.stripped.proto.body = e.proto.body.stripped := Prototype.body_stripped _
  have hlines : ∃ f', CompiledUnit.functionLines opts (entries.map Entry.stripped) e.stripped =
      .ok f' := by
    unfold CompiledUnit.functionLines at h ⊢
    rw [hsame]
    cases hcheck : Branch.check e.name e.proto.body.code with
    | error err =>
      rw [hcheck] at h
      cases h
    | ok _ =>
      have hcheck' : Branch.check e.stripped.name e.proto.body.stripped.code = .ok () := hcheck
      rw [hcheck', FunctionText.lines, hblocks']
      exact ⟨_, rfl⟩
  obtain ⟨f', hf'⟩ := hlines
  obtain ⟨body'', hblocks'', rfl⟩ := lines_of_functionLines hf'
  cases hblocks'.symm.trans hblocks''
  refine ⟨_, hf', ?_⟩
  have hname : e.stripped.name = e.name := rfl
  simp only [List.flatMap_append, List.flatMap_cons, flatMap_codeLines_preface, hname, hcode]

end

/-! ## Units -/

open CompiledUnit

/-- What follows the functions has no debug information in it. -/
theorem closing_stripped (opts : Options) (input : ModuleInput) (entries : List Entry) :
    closing opts input (entries.map Entry.stripped)
        (Contract.ofEntries input.name input.source opts.embedSource (entries.map Entry.stripped)) =
      closing opts input entries
        (Contract.ofEntries input.name input.source opts.embedSource entries) := by
  have hfunctions : (entries.map Entry.stripped).map ContractFunction.ofEntry =
      entries.map ContractFunction.ofEntry := by
    rw [List.map_map]
    refine List.map_congr_left fun e _ => ?_
    simp only [Function.comp_apply, ContractFunction.ofEntry, Entry.stripped,
      Prototype.ofPrototype_stripped]
    rfl
  have htable : functionTable (entries.map Entry.stripped) = functionTable entries := by
    rw [functionTable, functionTable, List.map_map]
    rfl
  rw [closing, closing, htable, Contract.ofEntries, Contract.ofEntries, hfunctions]

/-- A unit has the code of the unit that the tree has without debug information. -/
theorem exists_codeLines_stripped {o : Options} {root : Prototype} {functions : List (List Bytes)}
    (hkeeps : KeepsLines o root)
    (h : (entriesOf o root).mapM (functionLines o.completed (entriesOf o root)) = .ok functions) :
    ∃ functions',
      (entriesOf o root.stripped).mapM (functionLines o.completed (entriesOf o root.stripped)) =
          .ok functions' ∧
        ∀ input, codeLines (assembled o input (entriesOf o root.stripped) functions').text =
          codeLines (assembled o input (entriesOf o root) functions).text := by
  have hentries : entriesOf o root.stripped = (entriesOf o root).map Entry.stripped :=
    Entry.ofTree_stripped _ root
  rw [hentries]
  have hnames : ∀ e ∈ entriesOf o root,
      o.completed.comments = true → ∀ u ∈ e.proto.body.upvalues, Bytes.newline ∉ u.name := by
    intro e he hcomments
    exact forall_entriesOf.mpr (hkeeps hcomments) e he
  obtain ⟨functions', hfunctions', hcode⟩ :=
    exists_mapM_of_mapM (fun e he f hf => exists_functionLines_stripped (hnames e he) hf) h
  refine ⟨functions', hfunctions', fun input => ?_⟩
  rw [assembled, assembled, codeLines_unlines, codeLines_unlines, closing_stripped]
  simp only [List.flatMap_append, hcode]

end UnitText

namespace Compiler

open UnitText Annotation

/-- **Debug information never reaches the code of a unit**, as long as no upvalue has a line feed in
its name or there are no annotations.  Two compilers of the same choices, whatever they have served
before, generate the same code from two trees that differ in debug information only. -/
theorem codeLines_stripped (o : Options) (served served' : List (ModuleInput × Sink))
    (name source : Bytes) {p q : Prototype} (hsame : p.stripped = q.stripped)
    (hp : KeepsLines o p) (hq : KeepsLines o q) (sink sink' : Sink) {u v : CompiledUnit}
    (hu : (((new o).after served).compileModule ⟨name, some p, source⟩ sink).result = .ok u)
    (hv : (((new o).after served').compileModule ⟨name, some q, source⟩ sink').result = .ok v) :
    codeLines u.text = codeLines v.text := by
  obtain ⟨functions, hfunctions, rfl, -⟩ :=
    exists_functions_of_compileModule_eq_ok (options_after (new o) served) rfl hu
  obtain ⟨functions', hfunctions', rfl, -⟩ :=
    exists_functions_of_compileModule_eq_ok (options_after (new o) served') rfl hv
  obtain ⟨stripped, hstripped, hcode⟩ := exists_codeLines_stripped hp hfunctions
  obtain ⟨stripped', hstripped', hcode'⟩ := exists_codeLines_stripped hq hfunctions'
  rw [hsame, hstripped'] at hstripped
  cases hstripped
  have hcode := hcode ⟨name, some p, source⟩
  have hcode' := hcode' ⟨name, some q, source⟩
  rw [← hcode, ← hcode', hsame]
  rfl

/-- A function that reads its upvalue, with a source, a line and a name of the upvalue. -/
def upvalueSample (source : Bytes) (line : Int64) (name : Bytes) : Prototype :=
  ⟨{ (default : FunctionBody) with
      source
      lineDefined := line
      code := [.ofABC Opcode.getUpval.tag 0 0 0 0]
      upvalues := [⟨name, true, 0, 0⟩] }, []⟩

theorem stripped_upvalueSample (source source' : Bytes) (line line' : Int64) (name name' : Bytes) :
    (upvalueSample source line name).stripped = (upvalueSample source' line' name').stripped := rfl

/-- The sample is compiled, whatever its debug information. -/
theorem exists_compileModule_upvalueSample (source : Bytes) (line : Int64) (name : Bytes) :
    ∃ unit, ((new .default).compileModule
      ⟨ascii "m", some (upvalueSample source line name), []⟩ .empty).result = .ok unit := by
  have htranslated : ∀ f ∈ (upvalueSample source line name).functions, f.IsTranslated :=
    of_decide_eq_true rfl
  exact exists_compileModule_eq_ok rfl rfl rfl (of_decide_eq_true rfl)
    (fun _ => of_decide_eq_true rfl) (of_decide_eq_true rfl) (fun _ => htranslated) rfl

/-- Two samples with different debug information have the same code. -/
theorem codeLines_stripped_upvalueSample :
    let p := upvalueSample (ascii "@a.lua") 0 (ascii "x")
    let q := upvalueSample (ascii "=two\nlines") 7 (ascii "/* y")
    ∃ u v, ((new .default).compileModule ⟨ascii "m", some p, []⟩ .empty).result = .ok u ∧
      ((new .default).compileModule ⟨ascii "m", some q, []⟩ .empty).result = .ok v ∧
      p ≠ q ∧ p.stripped = q.stripped ∧ codeLines u.text = codeLines v.text := by
  intro p q
  obtain ⟨u, hu⟩ := exists_compileModule_upvalueSample (ascii "@a.lua") 0 (ascii "x")
  obtain ⟨v, hv⟩ := exists_compileModule_upvalueSample (ascii "=two\nlines") 7 (ascii "/* y")
  have hne : p ≠ q := fun h => absurd (congrArg (·.body.lineDefined) h) (by decide)
  exact ⟨u, v, hu, hv, hne, stripped_upvalueSample .., codeLines_stripped .default [] [] (ascii "m") []
    (stripped_upvalueSample ..) (by decide) (by decide) .empty .empty hu hv⟩

/-- The code of the sample's function has in one place what its upvalue's name has on further lines. -/
theorem codeLines_functions_upvalueSample : ∃ before after, ∀ name functions, name ≠ [] →
    (CompiledUnit.entriesOf .default (upvalueSample [] 0 name)).mapM
      (CompiledUnit.functionLines Options.default.completed
        (CompiledUnit.entriesOf .default (upvalueSample [] 0 name))) = .ok functions →
    functions.flatten.flatMap codeLines = before ++ spill name ++ after := by
  let read : Instruction := .ofABC Opcode.getUpval.tag 0 0 0 0
  let function := Entry.nameOf Options.default.completed.functionPrefix 0
  let before : List Bytes :=
    ascii "static" :: definitionLine function :: ascii "\x7b" :: FunctionText.prologue
  let after : List Bytes :=
    FunctionText.block Options.default.completed.policy [read] 0 read ++ [ascii "\x7d", ascii " "]
  refine ⟨before.flatMap codeLines, after.flatMap codeLines, fun name functions hname h => ?_⟩
  let e : Entry := ⟨0, function, [], upvalueSample [] 0 name⟩
  have hentries : CompiledUnit.entriesOf .default (upvalueSample [] 0 name) = [e] := rfl
  rw [hentries] at h
  obtain ⟨f, rest, hf, hrest, rfl⟩ := exists_of_mapM_cons_eq_ok h
  rw [List.mapM_nil] at hrest
  cases hrest
  obtain ⟨body, hblocks, rfl⟩ := lines_of_functionLines hf
  have hcode : e.proto.body.code.zipIdx = [(read, 0)] := rfl
  rw [blocks_eq_flatten, hcode] at hblocks
  obtain ⟨parts, hparts, rfl⟩ := exists_of_map_eq_ok hblocks
  obtain ⟨lines, rest, hlines, hrest, rfl⟩ := exists_of_mapM_cons_eq_ok hparts
  rw [List.mapM_nil] at hrest
  cases hrest
  obtain ⟨a, ha, rfl⟩ := part_of_comments rfl hlines
  obtain ⟨hoperands, hremark⟩ := annotate_eq_ok ha
  have hspill : codeLines a.text = spill name := by
    have hupvalue : e.proto.body.nameOfUpvalue 0 = name := by
      rw [FunctionBody.nameOfUpvalue, if_pos (by decide)]
      exact if_neg hname
    have hopcode : read.opcode? = some .getUpval := by decide
    have hb : read.b = 0 := by decide
    rw [codeLines_remark (hoperands ▸ newline_notMem_operands _ _ _ _), hremark,
      describe, hopcode, hb]
    exact congrArg spill hupvalue
  have hbody : e.proto.body.code = [read] := rfl
  rw [List.flatten_singleton, List.flatten_singleton, List.flatMap_append, flatMap_codeLines_preface,
    hbody]
  simp only [List.flatMap_cons, List.flatMap_append, List.append_assoc, List.cons_append, hspill,
    before, after]
  rfl

/-- A name with a line feed adds to the code: the two samples differ in debug information only. -/
theorem codeLines_differ_upvalueSample :
    let p := upvalueSample [] 0 (ascii "x")
    let q := upvalueSample [] 0 (ascii "x\nint y;")
    ∃ u v, ((new .default).compileModule ⟨ascii "m", some p, []⟩ .empty).result = .ok u ∧
      ((new .default).compileModule ⟨ascii "m", some q, []⟩ .empty).result = .ok v ∧
      p.stripped = q.stripped ∧ codeLines u.text ≠ codeLines v.text := by
  intro p q
  obtain ⟨u, hu⟩ := exists_compileModule_upvalueSample [] 0 (ascii "x")
  obtain ⟨v, hv⟩ := exists_compileModule_upvalueSample [] 0 (ascii "x\nint y;")
  refine ⟨u, v, hu, hv, stripped_upvalueSample .., ?_⟩
  obtain ⟨functions, hfunctions, rfl, -⟩ := exists_functions_of_compileModule_eq_ok rfl rfl hu
  obtain ⟨functions', hfunctions', rfl, -⟩ := exists_functions_of_compileModule_eq_ok rfl rfl hv
  obtain ⟨before, after, hcode⟩ := codeLines_functions_upvalueSample
  have hless := hcode _ _ (by decide) hfunctions
  have hmore := hcode _ _ (by decide) hfunctions'
  have hnothing : (spill (ascii "x")).length = 0 := by decide
  have hcode : (spill (ascii "x\nint y;")).length = 1 := by decide
  have hclosing (name name' : Bytes) := (closing_stripped Options.default.completed
      ⟨ascii "m", some (upvalueSample [] 0 name), []⟩
      (CompiledUnit.entriesOf .default (upvalueSample [] 0 name))).symm.trans
    (closing_stripped Options.default.completed ⟨ascii "m", some (upvalueSample [] 0 name'), []⟩
      (CompiledUnit.entriesOf .default (upvalueSample [] 0 name')))
  intro hsame
  have hlength := congrArg List.length hsame
  rw [CompiledUnit.assembled, CompiledUnit.assembled, codeLines_unlines, codeLines_unlines,
    hclosing _ (ascii "x\nint y;")] at hlength
  simp only [List.flatMap_append, List.length_append, hless, hmore] at hlength
  omega

end Compiler
end LuaToC
