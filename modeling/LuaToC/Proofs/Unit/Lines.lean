import LuaToC.Proofs.Text.OneLine
import LuaToC.Proofs.Unit.Outcome
import LuaToC.Proofs.Unit.StatementText

/-! # Lists read off the lines of a unit

A unit defines functions, has a table of them and a table of their paths, and has annotations in the
definitions.  This module reads these lists off the lines of a unit, without regard to how they came
about: definitions by how their lines begin, tables by their declarations, and annotations by the
definition that they stand under.  What is read is what was meant (`filter_isDefinition_lines`,
`rowsOf_functions`, `rowsOf_paths`, `annotationsOf_lines`).

A line of a unit begins with a letter only if it is a definition or a declaration, or the word
`static` in front of a definition (`isPlain`); that keeps the lists apart, whatever names, paths and
annotations are.  A line is what is written at a time.  It ends with a line feed, and a name in it may
have others; a statement has none (`isStatement`).
-/
namespace LuaToC

/-! ## Reading lists off lines -/

namespace UnitText

open FunctionText CompiledUnit

/-- The line that begins the definition of a function. -/
def definitionLine (name : Bytes) : Bytes :=
  ascii "void " ++ name ++ ascii "(lua_State *L, CallInfo *ci)"

def isDefinition (line : Bytes) : Bool := (ascii "void ").isPrefixOf line

def annotates (line : Bytes) : Bool := (ascii "  // ").isPrefixOf line

/-- The lines after the first line `start`, up to the next line `stop`. -/
def between (start stop : Bytes) (lines : List Bytes) : List Bytes :=
  ((lines.dropWhile (· ≠ start)).drop 1).takeWhile (· ≠ stop)

/-- The rows of the table with the given declaration. -/
def rowsOf (declaration : String) (lines : List Bytes) : List Bytes :=
  between (ascii declaration ++ ascii " = \x7b") (ascii "  NULL") lines

/-- The annotations in the definition of a function, in order. -/
def annotationsOf (name : Bytes) (lines : List Bytes) : List Bytes :=
  (between (definitionLine name) (ascii "\x7d") lines).filter annotates

theorem between_append {start stop : Bytes} {before inside : List Bytes} (hbefore : start ∉ before)
    (hinside : stop ∉ inside) (after : List Bytes) :
    between start stop (before ++ start :: (inside ++ stop :: after)) = inside := by
  have hpast : ∀ l ∈ before, decide (l ≠ start) = true := fun l hl =>
    decide_eq_true fun heq => hbefore (heq ▸ hl)
  have hup : ∀ l ∈ inside, decide (l ≠ stop) = true := fun l hl =>
    decide_eq_true fun heq => hinside (heq ▸ hl)
  rw [between, List.dropWhile_append_of_pos hpast, List.dropWhile_cons_of_neg (by simp), List.drop_one,
    List.tail_cons, List.takeWhile_append_of_pos hup, List.takeWhile_cons_of_neg (by simp),
    List.append_nil]

theorem filter_eq_nil_of_eq_false {p : Bytes → Bool} {lines : List Bytes}
    (h : ∀ l ∈ lines, p l = false) : lines.filter p = [] :=
  List.filter_eq_nil_iff.mpr fun l hl => Bool.eq_false_iff.mp (h l hl)

/-! ## How lines begin -/

/-- The line begins with a blank or a mark, so it is neither a definition nor a declaration. -/
def isPlain (line : Bytes) : Bool := line.head?.any fun b => b ∈ [32, 35, 47, 123, 125]

/-- The line stands in the body of a function, is not an annotation, and is one line of the text. -/
def isStatement (line : Bytes) : Bool := line.head? == some 32 && !annotates line && isOneLine line

theorem isStatement_iff {line : Bytes} :
    isStatement line = true ↔
      (line.head? = some 32 ∧ annotates line = false) ∧ Bytes.newline ∉ line := by
  rw [isStatement, Bool.and_eq_true, Bool.and_eq_true, beq_iff_eq, Bool.not_eq_true', isOneLine_iff]

theorem isPlain_of_head? {line : Bytes} (h : line.head? = some 32) : isPlain line = true := by
  rw [isPlain, h]
  rfl

theorem head?_of_isStatement {line : Bytes} (h : isStatement line = true) : line.head? = some 32 :=
  (isStatement_iff.mp h).1.1

theorem annotates_of_isStatement {line : Bytes} (h : isStatement line = true) :
    annotates line = false := (isStatement_iff.mp h).1.2

theorem newline_notMem_of_isStatement {line : Bytes} (h : isStatement line = true) :
    Bytes.newline ∉ line := (isStatement_iff.mp h).2

theorem isDefinition_of_isPlain {line : Bytes} (h : isPlain line = true) :
    isDefinition line = false := by
  cases line with
  | nil => rfl
  | cons b line =>
    rw [isDefinition, ascii_ofList]
    have hb : b ≠ 118 := by
      rintro rfl
      exact Bool.false_ne_true h
    simp [List.isPrefixOf, Ne.symm hb]

theorem isDefinition_definitionLine (name : Bytes) : isDefinition (definitionLine name) = true := by
  rw [definitionLine, List.append_assoc]
  exact List.isPrefixOf_iff_prefix.mpr (List.prefix_append ..)

theorem definitionLine_injective {m n : Bytes} (h : definitionLine m = definitionLine n) : m = n :=
  List.append_cancel_left (List.append_cancel_right h)

/-! ## Statements -/

/-- The line is set in by three blanks and has no line feed. -/
def isSetIn (line : Bytes) : Bool := line.take 3 == [32, 32, 32] && isOneLine line

theorem isSetIn_iff {line : Bytes} :
    isSetIn line = true ↔ line.take 3 = [32, 32, 32] ∧ Bytes.newline ∉ line := by
  rw [isSetIn, Bool.and_eq_true, beq_iff_eq, isOneLine_iff]

theorem isStatement_of_isSetIn {line : Bytes} (h : isSetIn line = true) : isStatement line = true := by
  obtain ⟨htake, hline⟩ := isSetIn_iff.mp h
  refine isStatement_iff.mpr ⟨?_, hline⟩
  rw [← List.take_append_drop 3 line, htake]
  exact ⟨rfl, rfl⟩

theorem isSetIn_goto {indent : Nat} (hindent : 3 ≤ indent) (t : Int64) {remark : String}
    (hremark : Bytes.newline ∉ ascii remark) : isSetIn (Statements.goto indent t remark) = true := by
  rw [isSetIn_iff, Statements.goto]
  constructor
  · simp [List.take_append, List.take_replicate, Nat.min_eq_left hindent, Nat.sub_eq_zero_of_le hindent]
  · simp +decide [hremark]

theorem all_condJump : Statements.condJump.all isSetIn = true := by
  unfold Statements.condJump
  repeat rw [Statements.code_cons]
  rfl

/-- All statements are set in by three blanks at least. -/
theorem all_ofOpcode (pc : Nat) (i : Instruction) (op : Opcode) :
    ((Statements.ofOpcode pc i op).getD []).all isSetIn = true := by
  have hsmall (n : Nat) (hn : n < 10) : Bytes.ofNat n = [Bytes.digit n] := by
    rw [Bytes.ofNat, Bytes.digits, if_pos hn]
  cases op
  case eq | eqK | eqI | lt | le | test =>
    dsimp only [Statements.ofOpcode, Option.getD_some, Statements.order, Statements.equalImmediate]
    rw [List.all_append, all_condJump, Bool.and_true]
    repeat rw [Statements.code_cons]
    repeat rw [ascii_ofList]
    rfl
  case ltI | leI | gtI | geI =>
    dsimp only [Statements.ofOpcode, Option.getD_some, Statements.orderImmediate]
    rw [List.all_append, all_condJump, Bool.and_true, hsmall _ (by decide)]
    repeat rw [Statements.code_cons]
    repeat rw [ascii_ofList]
    rfl
  case jmp | forLoop | forPrep | tforPrep | tforLoop =>
    dsimp only [Statements.ofOpcode, Option.getD_some, Statements.numericLoop, Statements.numericPrepare]
    simp (disch := decide) only [List.all_append, List.all_cons, List.all_nil, isSetIn_goto]
    repeat rw [Statements.code_cons]
    rfl
  all_goals
    dsimp only [Statements.ofOpcode, Option.getD_some, Option.getD_none, Statements.returnMany,
      Statements.returnNone, Statements.returnOne, Statements.iteratorCall]
    repeat rw [Statements.code_cons]
    rfl

@[simp] theorem newline_notMem_name (tag : OpTag) : Bytes.newline ∉ tag.name := by
  intro hmem
  exact absurd (OpTag.isWordByte_name tag _ hmem) (by decide)

theorem all_substitute (policy : Policy) (tag : OpTag) :
    (Statements.substitute policy tag).all isSetIn = true := by
  unfold Statements.substitute
  split
  · repeat rw [Statements.code_cons]
    rfl
  · rw [List.all_cons, List.all_nil, Bool.and_true, isSetIn_iff,
      Text.quoted_of_isWordByte (OpTag.isWordByte_name tag)]
    exact ⟨rfl, by simp +decide⟩

theorem isStatement_of_mem_statements {policy : Policy} {pc : Nat} {i : Instruction} {l : Bytes}
    (hl : l ∈ (Statements.supported? pc i).getD (Statements.substitute policy i.tag)) :
    isStatement l = true := by
  refine isStatement_of_isSetIn ?_
  cases htext : Statements.supported? pc i with
  | none =>
    rw [htext] at hl
    exact List.all_eq_true.mp (all_substitute policy i.tag) l hl
  | some text =>
    obtain ⟨op, -, hop⟩ := Option.bind_eq_some_iff.mp htext
    have hall := all_ofOpcode pc i op
    rw [htext] at hl
    rw [hop] at hall
    exact List.all_eq_true.mp hall l hl

theorem isStatement_of_mem_define {name : String} (hname : Bytes.newline ∉ ascii name)
    {value : Option Bytes} (hvalue : ∀ v ∈ value, Bytes.newline ∉ v) {l : Bytes}
    (hl : l ∈ FunctionText.define name value) : isStatement l = true := by
  unfold FunctionText.define at hl
  rcases List.mem_append.mp hl with hl | hl
  · rw [List.mem_singleton.mp hl]
    exact isStatement_iff.mpr ⟨⟨rfl, rfl⟩, by simp +decide [hname]⟩
  · obtain ⟨v, hv, rfl⟩ := List.mem_map.mp hl
    have hv := hvalue v (Option.mem_toList.mp hv)
    exact isStatement_iff.mpr ⟨⟨rfl, rfl⟩, by simp +decide [hname, hv]⟩

/-- A macro for a branch names a label or nothing. -/
theorem newline_notMem_of_mem_label? {p : Prop} [Decidable p] {t : Int64} {v : Bytes}
    (h : v ∈ if p then some (Branch.label t) else none) : Bytes.newline ∉ v := by
  split at h
  · cases h
    exact newline_notMem_label t
  · cases h

/-- The block of an instruction has statements and directives only. -/
theorem isStatement_of_mem_block {policy : Policy} {code : List Instruction} {pc : Nat}
    {i : Instruction} {l : Bytes} (hl : l ∈ FunctionText.block policy code pc i) :
    isStatement l = true := by
  unfold FunctionText.block at hl
  simp only [List.mem_append] at hl
  rcases hl with ((((((hl | hl) | hl) | hl) | hl) | hl) | hl)
  · refine isStatement_of_mem_define (by decide) (fun v hv => ?_) hl
    cases hv
    simp +decide
  · exact isStatement_of_mem_define (by decide) (fun _ hv => newline_notMem_of_mem_label? hv) hl
  · exact isStatement_of_mem_define (by decide) (fun _ hv => newline_notMem_of_mem_label? hv) hl
  · rcases List.mem_cons.mp hl with rfl | hl
    · exact isStatement_iff.mpr ⟨⟨rfl, rfl⟩, by simp +decide⟩
    · rw [List.mem_singleton.mp hl]
      exact isStatement_iff.mpr ⟨⟨rfl, rfl⟩, by simp +decide⟩
  · have hall : (Statements.code ["    StkId ra = RA(i);", "    (void) ra;"]).all isStatement = true := by
      repeat rw [Statements.code_cons]
      rfl
    exact List.all_eq_true.mp hall l hl
  · exact isStatement_of_mem_statements hl
  · have hall : (Statements.code ["  \x7d", "  "]).all isStatement = true := rfl
    exact List.all_eq_true.mp hall l hl

theorem all_prologue : FunctionText.prologue.all isStatement = true := by
  unfold FunctionText.prologue
  repeat rw [Statements.code_cons]
  rfl

theorem annotates_text (a : Annotation) : annotates a.text = true := by
  unfold Annotation.text
  rw [List.append_assoc]
  exact List.isPrefixOf_iff_prefix.mpr (List.prefix_append ..)

theorem head?_annotation_text (a : Annotation) : a.text.head? = some 32 := rfl

/-! ## The lines of a function -/

section

variable {opts : Options} {entries : List Entry} {e : Entry}

/-- The annotation of an instruction, with the names of the entries. -/
def annotate (entries : List Entry) (e : Entry) (x : Instruction × Nat) :
    Except UncoveredLine Annotation :=
  Annotation.ofInstruction e.proto.body (Entry.nameOfChild entries e.path) x.2 x.1

/-- The annotation, if there are any, and the block of an instruction. -/
def part (opts : Options) (entries : List Entry) (e : Entry) (x : Instruction × Nat) :
    Except UncoveredLine (List Bytes) := do
  let annotation ← if opts.comments then do pure [(← annotate entries e x).text] else pure []
  return annotation ++ block opts.policy e.proto.body.code x.2 x.1

theorem blocks_eq_flatten (opts : Options) (entries : List Entry) (e : Entry) :
    blocks opts entries e =
      (do return (← e.proto.body.code.zipIdx.mapM (part opts entries e)).flatten) := rfl

theorem part_of_comments {x : Instruction × Nat} {lines : List Bytes} (hcomments : opts.comments = true)
    (h : part opts entries e x = .ok lines) :
    ∃ a, annotate entries e x = .ok a ∧
      lines = a.text :: block opts.policy e.proto.body.code x.2 x.1 := by
  rw [part, if_pos hcomments] at h
  cases ha : annotate entries e x with
  | error err =>
    rw [ha] at h
    cases h
  | ok a =>
    rw [ha] at h
    cases h
    exact ⟨a, rfl, rfl⟩

theorem part_of_not_comments (hcomments : opts.comments = false) (x : Instruction × Nat) :
    part opts entries e x = .ok (block opts.policy e.proto.body.code x.2 x.1) := by
  rw [part, hcomments]
  rfl

/-- A part is set in, and so are the parts together. -/
theorem head?_of_mem_blocks {body : List Bytes} (h : blocks opts entries e = .ok body) :
    ∀ l ∈ body, l.head? = some 32 := by
  rw [blocks_eq_flatten] at h
  obtain ⟨parts, hparts, rfl⟩ := exists_of_map_eq_ok h
  intro l hl
  obtain ⟨lines, hlines, hl⟩ := List.mem_flatten.mp hl
  obtain ⟨x, -, hx⟩ := exists_of_mem_of_mapM_eq_ok hparts hlines
  cases hcomments : opts.comments with
  | true =>
    obtain ⟨a, -, rfl⟩ := part_of_comments hcomments hx
    rcases List.mem_cons.mp hl with rfl | hl
    · exact head?_annotation_text a
    · exact head?_of_isStatement (isStatement_of_mem_block hl)
  | false =>
    rw [part_of_not_comments hcomments] at hx
    cases hx
    exact head?_of_isStatement (isStatement_of_mem_block hl)

/-- The annotations among the blocks are those of the instructions, in order. -/
theorem filter_annotates_blocks {body : List Bytes} (hcomments : opts.comments = true)
    (h : blocks opts entries e = .ok body) :
    ∃ as, e.proto.body.code.zipIdx.mapM (annotate entries e) = .ok as ∧
      body.filter annotates = as.map Annotation.text := by
  rw [blocks_eq_flatten] at h
  obtain ⟨parts, hparts, rfl⟩ := exists_of_map_eq_ok h
  clear h
  generalize e.proto.body.code.zipIdx = xs at hparts
  induction xs generalizing parts with
  | nil =>
    cases hparts
    exact ⟨[], rfl, rfl⟩
  | cons x xs ih =>
    obtain ⟨lines, rest, hx, hxs, rfl⟩ := exists_of_mapM_cons_eq_ok hparts
    obtain ⟨a, ha, rfl⟩ := part_of_comments hcomments hx
    obtain ⟨as, has, hrest⟩ := ih rest hxs
    have hblock : (block opts.policy e.proto.body.code x.2 x.1).filter annotates = [] :=
      filter_eq_nil_of_eq_false fun l hl => annotates_of_isStatement (isStatement_of_mem_block hl)
    refine ⟨a :: as, ?_, ?_⟩
    · rw [List.mapM_cons, ha, has]
      rfl
    · rw [List.flatten_cons, List.filter_append, List.filter_cons_of_pos (annotates_text a), hblock,
        hrest]
      rfl

/-- What stands in front of the line that begins a definition. -/
def preface (f : FunctionBody) : List Bytes :=
  [ascii "// source = " ++ oneLine f.source, origin f, ascii "static"]

theorem lines_of_functionLines {f : List Bytes} (h : functionLines opts entries e = .ok f) :
    ∃ body, blocks opts entries e = .ok body ∧
      f = preface e.proto.body ++ definitionLine e.name ::
        (ascii "\x7b" :: (prologue ++ body) ++ ascii "\x7d" :: [ascii " "]) := by
  unfold functionLines at h
  split at h
  · cases h
  · cases hlines : FunctionText.lines opts entries e with
    | error err =>
      rw [hlines] at h
      cases h
    | ok lines =>
      rw [hlines] at h
      cases h
      unfold FunctionText.lines at hlines
      cases hblocks : blocks opts entries e with
      | error err =>
        rw [hblocks] at hlines
        cases hlines
      | ok body =>
        rw [hblocks] at hlines
        cases hlines
        refine ⟨body, rfl, ?_⟩
        simp [preface, definitionLine, Statements.code]

theorem isPlain_origin (f : FunctionBody) : isPlain (origin f) = true := by
  unfold origin
  split <;> rfl

/-- What follows the first line of a definition is plain. -/
theorem isPlain_of_mem_body {body : List Bytes} (h : blocks opts entries e = .ok body) {l : Bytes}
    (hl : l ∈ ascii "\x7b" :: (prologue ++ body) ++ ascii "\x7d" :: [ascii " "]) :
    isPlain l = true := by
  simp only [List.mem_append, List.mem_cons, List.not_mem_nil, or_false] at hl
  rcases hl with (rfl | hl | hl) | rfl | rfl
  · rfl
  · exact isPlain_of_head? (head?_of_isStatement (List.all_eq_true.mp all_prologue l hl))
  · exact isPlain_of_head? (head?_of_mem_blocks h l hl)
  · rfl
  · rfl

/-- A line of a function is plain, but for the two that begin its definition. -/
theorem isPlain_of_mem_functionLines {f : List Bytes} (h : functionLines opts entries e = .ok f)
    {l : Bytes} (hl : l ∈ f) :
    isPlain l = true ∨ l = ascii "static" ∨ l = definitionLine e.name := by
  obtain ⟨body, hblocks, rfl⟩ := lines_of_functionLines h
  rcases List.mem_append.mp hl with hl | hl
  · simp only [preface, List.mem_cons, List.not_mem_nil, or_false] at hl
    rcases hl with rfl | rfl | rfl
    · exact .inl rfl
    · exact .inl (isPlain_origin _)
    · exact .inr (.inl rfl)
  · rcases List.mem_cons.mp hl with rfl | hl
    · exact .inr (.inr rfl)
    · exact .inl (isPlain_of_mem_body hblocks hl)

theorem filter_isDefinition_preface (f : FunctionBody) : (preface f).filter isDefinition = [] := by
  have hsource : isDefinition (ascii "// source = " ++ oneLine f.source) = false :=
    isDefinition_of_isPlain rfl
  have horigin : isDefinition (origin f) = false := isDefinition_of_isPlain (isPlain_origin f)
  have hstatic : isDefinition (ascii "static") = false := rfl
  simp [preface, hsource, horigin, hstatic]

/-- A function is defined once. -/
theorem filter_isDefinition_functionLines {f : List Bytes}
    (h : functionLines opts entries e = .ok f) :
    f.filter isDefinition = [definitionLine e.name] := by
  obtain ⟨body, hblocks, rfl⟩ := lines_of_functionLines h
  have hbody : (ascii "\x7b" :: (prologue ++ body) ++ ascii "\x7d" :: [ascii " "]).filter isDefinition =
      [] :=
    filter_eq_nil_of_eq_false fun l hl => isDefinition_of_isPlain (isPlain_of_mem_body hblocks hl)
  rw [List.filter_append, List.filter_cons_of_pos (isDefinition_definitionLine _), hbody,
    filter_isDefinition_preface, List.nil_append]

/-- The functions are defined in the order of their entries. -/
theorem filter_isDefinition_flatten {es : List Entry} {functions : List (List Bytes)}
    (h : es.mapM (functionLines opts entries) = .ok functions) :
    functions.flatten.filter isDefinition = es.map fun e => definitionLine e.name := by
  induction es generalizing functions with
  | nil =>
    cases h
    rfl
  | cons e es ih =>
    obtain ⟨f, fs, hf, hfs, rfl⟩ := exists_of_mapM_cons_eq_ok h
    rw [List.flatten_cons, List.filter_append, filter_isDefinition_functionLines hf, ih hfs]
    rfl

end

/-! ## What follows the functions -/

theorem head?_of_mem_sourceRows {source l : Bytes} (hl : l ∈ sourceRows source) :
    l.head? = some 32 := by
  fun_induction sourceRows source with
  | case1 source _ ih =>
    rcases List.mem_cons.mp hl with rfl | hl
    · rfl
    · exact ih hl
  | case2 source _ =>
    rw [List.mem_singleton.mp hl]
    rfl

/-- A line of a table with plain rows is plain, but for its declaration. -/
theorem isPlain_of_mem_nullTerminated {declaration : String} {elements : List Bytes}
    (helements : ∀ l ∈ elements, isPlain l = true) {l : Bytes}
    (hl : l ∈ nullTerminated declaration elements) :
    isPlain l = true ∨ l = ascii declaration ++ ascii " = \x7b" := by
  unfold nullTerminated at hl
  rcases List.mem_append.mp hl with hl | hl
  · rcases List.mem_append.mp hl with hl | hl
    · exact .inr (List.mem_singleton.mp hl)
    · exact .inl (helements l hl)
  · have hend : (Statements.code ["  NULL", "\x7d;"]).all isPlain = true := rfl
    exact .inl (List.all_eq_true.mp hend l hl)

theorem isPlain_of_mem_functionTable {entries : List Entry} {l : Bytes}
    (hl : l ∈ functionTable entries) :
    isPlain l = true ∨ l = ascii "static AotCompiledFunction LUA_AOT_FUNCTIONS[]" ++ ascii " = \x7b" := by
  refine isPlain_of_mem_nullTerminated (fun row hrow => ?_) hl
  obtain ⟨e, -, rfl⟩ := List.mem_map.mp hrow
  rfl

theorem isDefinition_of_mem_contractBlock {contract : Contract} {l : Bytes}
    (hl : l ∈ contractBlock contract) : isDefinition l = false := by
  unfold contractBlock at hl
  rcases List.mem_append.mp hl with hl | hl
  · simp only [List.mem_cons, List.not_mem_nil, or_false] at hl
    rcases hl with rfl | rfl
    · exact isDefinition_of_isPlain rfl
    · exact isDefinition_of_isPlain rfl
  · have hrows : ∀ row ∈ (contract.functions.getD []).map fun f =>
        ascii "  \"" ++ f.pathText ++ ascii "\",  /* " ++ f.name ++ ascii " */", isPlain row = true := by
      intro row hrow
      obtain ⟨f, -, rfl⟩ := List.mem_map.mp hrow
      rfl
    rcases isPlain_of_mem_nullTerminated hrows hl with hplain | rfl
    · exact isDefinition_of_isPlain hplain
    · rfl

theorem isDefinition_of_mem_sourceBlock {embed : Bool} {source l : Bytes}
    (hl : l ∈ sourceBlock embed source) : isDefinition l = false := by
  unfold sourceBlock at hl
  split at hl
  · rcases List.mem_append.mp hl with hl | hl
    · rcases List.mem_append.mp hl with hl | hl
      · rw [List.mem_singleton.mp hl]
        rfl
      · exact isDefinition_of_isPlain (isPlain_of_head? (head?_of_mem_sourceRows hl))
    · have hend : (Statements.code ["\x7d;", "#define LUA_AOT_HAS_SOURCE 1"]).all isPlain = true := rfl
      exact isDefinition_of_isPlain (List.all_eq_true.mp hend l hl)
  · rw [List.mem_singleton.mp hl]
    rfl

/-- No function is defined after the functions. -/
theorem isDefinition_of_mem_closing {opts : Options} {input : ModuleInput} {entries : List Entry}
    {contract : Contract} {l : Bytes} (hl : l ∈ closing opts input entries contract) :
    isDefinition l = false := by
  have hgap : ∀ l ∈ gap, isDefinition l = false := by
    intro l hl
    rw [List.mem_singleton.mp hl]
    rfl
  unfold closing at hl
  simp only [List.mem_append] at hl
  rcases hl with (((((((hl | hl) | hl) | hl) | hl) | hl) | hl) | hl) | hl
  · rcases isPlain_of_mem_functionTable hl with hplain | rfl
    · exact isDefinition_of_isPlain hplain
    · rfl
  · exact hgap l hl
  · exact isDefinition_of_mem_contractBlock hl
  · exact hgap l hl
  · exact isDefinition_of_mem_sourceBlock hl
  · exact hgap l hl
  · rw [List.mem_singleton.mp hl]
    exact isDefinition_of_isPlain rfl
  · exact hgap l hl
  · rw [List.mem_singleton.mp hl]
    exact isDefinition_of_isPlain rfl

/-! ## The lists -/

/-- A table is read as its rows when its declaration does not stand before it. -/
theorem rowsOf_append {declaration : String} {before rows : List Bytes}
    (hbefore : ascii declaration ++ ascii " = \x7b" ∉ before) (hrows : ascii "  NULL" ∉ rows)
    (after : List Bytes) :
    rowsOf declaration (before ++ (nullTerminated declaration rows ++ after)) = rows := by
  have hsplit : nullTerminated declaration rows ++ after =
      (ascii declaration ++ ascii " = \x7b") :: (rows ++ ascii "  NULL" :: (ascii "\x7d;" :: after)) := by
    simp [nullTerminated, Statements.code]
  rw [rowsOf, hsplit]
  exact between_append hbefore hrows _

section

variable {opts : Options} {entries es : List Entry} {functions : List (List Bytes)}
  (h : es.mapM (functionLines opts entries) = .ok functions)
include h

/-- Up to the tables, a line is plain or part of a definition. -/
theorem isPlain_of_mem_functions {l : Bytes} (hl : l ∈ opening opts ++ functions.flatten) :
    isPlain l = true ∨ l = ascii "static" ∨ isDefinition l = true := by
  rcases List.mem_append.mp hl with hl | hl
  · left
    simp only [opening, gap, List.singleton_append, List.mem_cons, List.not_mem_nil, or_false] at hl
    rcases hl with rfl | rfl <;> rfl
  · obtain ⟨f, hf, hl⟩ := List.mem_flatten.mp hl
    obtain ⟨e, -, he⟩ := exists_of_mem_of_mapM_eq_ok h hf
    rcases isPlain_of_mem_functionLines he hl with hplain | rfl | rfl
    · exact .inl hplain
    · exact .inr (.inl rfl)
    · exact .inr (.inr (isDefinition_definitionLine e.name))

omit h in
theorem filter_isDefinition_opening (opts : Options) : (opening opts).filter isDefinition = [] := by
  have hinclude : isDefinition (includeLine opts.header) = false := isDefinition_of_isPlain rfl
  have hgap : isDefinition [32] = false := rfl
  simp [opening, gap, hinclude, hgap]

theorem filter_isDefinition_lines (input : ModuleInput) (contract : Contract) {after : List Bytes}
    (hafter : after.filter isDefinition = []) :
    (opening opts ++ functions.flatten ++ (closing opts input entries contract ++ after)).filter
      isDefinition = es.map fun e => definitionLine e.name := by
  have hclosing : (closing opts input entries contract).filter isDefinition = [] :=
    filter_eq_nil_of_eq_false fun l hl => isDefinition_of_mem_closing hl
  rw [List.filter_append, List.filter_append, List.filter_append, filter_isDefinition_opening, hclosing,
    hafter, filter_isDefinition_flatten h, List.nil_append, List.append_nil, List.append_nil]

/-- A declaration does not stand among the functions. -/
theorem declaration_notMem_functions {d : Bytes} (hplain : isPlain d = false)
    (hdefinition : isDefinition d = false) (hlength : d.length ≠ 6) :
    d ∉ opening opts ++ functions.flatten := by
  intro hmem
  rcases isPlain_of_mem_functions h hmem with htrue | rfl | htrue
  · exact Bool.false_ne_true (hplain.symm.trans htrue)
  · exact hlength rfl
  · exact Bool.false_ne_true (hdefinition.symm.trans htrue)

theorem rowsOf_functions (input : ModuleInput) (contract : Contract) (after : List Bytes) :
    rowsOf "static AotCompiledFunction LUA_AOT_FUNCTIONS[]"
        (opening opts ++ functions.flatten ++ (closing opts input entries contract ++ after)) =
      entries.map fun e => ascii "  " ++ e.name ++ ascii "," := by
  have hbefore : ascii "static AotCompiledFunction LUA_AOT_FUNCTIONS[]" ++ ascii " = \x7b" ∉
      opening opts ++ functions.flatten := declaration_notMem_functions h rfl rfl (by decide)
  have hrows : ascii "  NULL" ∉ entries.map fun e => ascii "  " ++ e.name ++ ascii "," := by
    intro hmem
    obtain ⟨e, -, he⟩ := List.mem_map.mp hmem
    -- Whatever the name is, a row ends with a comma.
    have hlast := congrArg List.getLast? he
    rw [List.getLast?_append] at hlast
    cases hlast
  simp only [closing, functionTable, List.append_assoc]
  rw [← List.append_assoc (opening opts)]
  exact rowsOf_append hbefore hrows _

theorem rowsOf_paths (input : ModuleInput) (contract : Contract) (after : List Bytes) :
    rowsOf "static const char *const LUA_AOT_FUNCTION_PATHS[]"
        (opening opts ++ functions.flatten ++ (closing opts input entries contract ++ after)) =
      (contract.functions.getD []).map fun f =>
        ascii "  \"" ++ f.pathText ++ ascii "\",  /* " ++ f.name ++ ascii " */" := by
  let head : List Bytes :=
    [ascii "#define LUA_AOT_TRAVERSAL_VERSION " ++ Bytes.ofInt contract.version.toInt,
      ascii "#define LUA_AOT_BUILD_ID \"" ++ contract.buildId ++ ascii "\""]
  have hbefore : ascii "static const char *const LUA_AOT_FUNCTION_PATHS[]" ++ ascii " = \x7b" ∉
      opening opts ++ functions.flatten ++ (functionTable entries ++ (gap ++ head)) := by
    intro hmem
    rcases List.mem_append.mp hmem with hmem | hmem
    · exact declaration_notMem_functions h rfl rfl (by decide) hmem
    rcases List.mem_append.mp hmem with hmem | hmem
    · rcases isPlain_of_mem_functionTable hmem with hplain | heq
      · exact Bool.false_ne_true hplain
      · exact absurd heq (by decide)
    · simp only [head, gap, List.singleton_append, List.mem_cons, List.not_mem_nil, or_false] at hmem
      have hplain : isPlain (ascii "static const char *const LUA_AOT_FUNCTION_PATHS[]" ++
          ascii " = \x7b") = true := by
        rcases hmem with heq | heq | heq <;> rw [heq] <;> rfl
      exact Bool.false_ne_true hplain
  have hrows : ascii "  NULL" ∉ (contract.functions.getD []).map fun f =>
      ascii "  \"" ++ f.pathText ++ ascii "\",  /* " ++ f.name ++ ascii " */" := by
    intro hmem
    obtain ⟨f, -, hf⟩ := List.mem_map.mp hmem
    -- A row has a quotation mark where the last line has a letter.
    have hthird := congrArg (·[2]?) hf
    cases hthird
  have hlines : opening opts ++ functions.flatten ++ (closing opts input entries contract ++ after) =
      opening opts ++ functions.flatten ++ (functionTable entries ++ (gap ++ head)) ++
        (nullTerminated "static const char *const LUA_AOT_FUNCTION_PATHS[]"
          ((contract.functions.getD []).map fun f =>
            ascii "  \"" ++ f.pathText ++ ascii "\",  /* " ++ f.name ++ ascii " */") ++
          (gap ++ (sourceBlock opts.embedSource input.source ++ (gap ++
            ([ascii "#define LUA_AOT_LUAOPEN_NAME luaopen_" ++ input.name] ++ (gap ++
              ([includeLine opts.footer] ++ after))))))) := by
    simp only [closing, contractBlock, head, List.append_assoc]
  rw [hlines]
  exact rowsOf_append hbefore hrows _

end

/-! ## Annotations -/

/-- The annotations under a definition are those of its instructions. -/
theorem annotationsOf_lines {opts : Options} {entries es : List Entry}
    {functions : List (List Bytes)} (h : es.mapM (functionLines opts entries) = .ok functions)
    (hnames : (es.map (·.name)).Nodup) (hcomments : opts.comments = true) {e : Entry} (he : e ∈ es)
    (after : List Bytes) :
    ∃ as, e.proto.body.code.zipIdx.mapM (annotate entries e) = .ok as ∧
      annotationsOf e.name (opening opts ++ functions.flatten ++ after) = as.map Annotation.text := by
  obtain ⟨es, es', rfl⟩ := List.append_of_mem he
  obtain ⟨fs, rest, hfs, hrest, rfl⟩ := exists_of_mapM_append_eq_ok h
  obtain ⟨f, fs', hf, -, rfl⟩ := exists_of_mapM_cons_eq_ok hrest
  obtain ⟨body, hblocks, rfl⟩ := lines_of_functionLines hf
  obtain ⟨as, has, hbody⟩ := filter_annotates_blocks hcomments hblocks
  refine ⟨as, has, ?_⟩
  -- No function before this one has its name.
  have hbefore : definitionLine e.name ∉ opening opts ++ fs.flatten ++ preface e.proto.body := by
    intro hmem
    have hdefinition := List.mem_filter.mpr ⟨hmem, isDefinition_definitionLine e.name⟩
    rw [List.filter_append, List.filter_append, filter_isDefinition_opening,
      filter_isDefinition_flatten hfs, filter_isDefinition_preface, List.nil_append,
      List.append_nil] at hdefinition
    obtain ⟨e', he', hsame⟩ := List.mem_map.mp hdefinition
    rw [List.map_append, List.nodup_append] at hnames
    exact hnames.2.2 _ (List.mem_map_of_mem he') _ List.mem_cons_self (definitionLine_injective hsame)
  -- The body is set in, so the first brace at the margin closes it.
  have hinside : ascii "\x7d" ∉ ascii "\x7b" :: (prologue ++ body) := by
    intro hmem
    rcases List.mem_cons.mp hmem with heq | hmem
    · exact absurd heq (by decide)
    · have hhead : (ascii "\x7d").head? = some 32 := by
        rcases List.mem_append.mp hmem with hmem | hmem
        · exact head?_of_isStatement (List.all_eq_true.mp all_prologue _ hmem)
        · exact head?_of_mem_blocks hblocks _ hmem
      exact absurd hhead (by decide)
  have hlines : opening opts ++ (fs ++ (preface e.proto.body ++ definitionLine e.name ::
        (ascii "\x7b" :: (prologue ++ body) ++ ascii "\x7d" :: [ascii " "])) :: fs').flatten ++ after =
      opening opts ++ fs.flatten ++ preface e.proto.body ++ definitionLine e.name ::
        (ascii "\x7b" :: (prologue ++ body) ++ ascii "\x7d" :: (ascii " " :: (fs'.flatten ++ after))) := by
    simp
  have hprologue : prologue.filter annotates = [] :=
    filter_eq_nil_of_eq_false fun l hl =>
      annotates_of_isStatement (List.all_eq_true.mp all_prologue l hl)
  have hbrace : annotates (ascii "\x7b") = false := rfl
  rw [hlines, annotationsOf, between_append hbefore hinside, List.filter_cons_of_neg (by simp [hbrace]),
    List.filter_append, hprologue, hbody, List.nil_append]

/-- The annotation of an instruction that makes a closure. -/
theorem annotate_closure {entries : List Entry} {e : Entry} {i : Instruction} {pc : Nat}
    {a : Annotation} (hop : i.opcode? = some .closure) (h : annotate entries e (i, pc) = .ok a) :
    ∃ line, a = ⟨pc + 1, line, i.tag, Annotation.numbers [i.a, i.bx],
      some (Entry.nameOfChild entries e.path i.bx)⟩ := by
  unfold annotate Annotation.ofInstruction at h
  obtain ⟨line, -, rfl⟩ := exists_of_map_eq_ok h
  refine ⟨line, ?_⟩
  simp only [hop]

end UnitText

end LuaToC
