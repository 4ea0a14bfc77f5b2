import LuaToC.Proofs.Numbering
import LuaToC.Proofs.Splitting
import LuaToC.Proofs.Unit.Lines

/-! # The lines of the text

The text of a unit is made of lines, and each of them is found again between line feeds of the text, if
it has none in it (`splitOn_lines`).  What comes from a chunk is a number, is quoted or is put on one
line first, apart from names of upvalues.  These are written as they are, and so are the texts that the
choices supply: the files that a unit includes and the beginning of the names of functions
(`StaysOnLines`).
-/
namespace LuaToC

namespace UnitText

open Annotation CompiledUnit

/-- Under the choices, an annotation cannot go on to a second line: either there are no annotations,
or no upvalue of the tree has a line feed in its name. -/
def KeepsLines (o : Options) (root : Prototype) : Prop :=
  o.comments = true → ∀ f ∈ root.functions, ∀ u ∈ f.body.upvalues, Bytes.newline ∉ u.name

instance (o : Options) (root : Prototype) : Decidable (KeepsLines o root) :=
  inferInstanceAs (Decidable (_ → _))

/-- Nothing that is written as it is has a line feed. -/
structure StaysOnLines (o : Options) (root : Prototype) : Prop where
  header : Bytes.newline ∉ o.header
  footer : Bytes.newline ∉ o.footer
  functionPrefix : Bytes.newline ∉ o.functionPrefix
  annotations : KeepsLines o root

/-! ## Annotations -/

@[simp] theorem newline_notMem_lineText (a : Annotation) : Bytes.newline ∉ a.lineText := by
  unfold Annotation.lineText
  split <;> simp +decide

@[simp] theorem newline_notMem_mnemonicText (a : Annotation) : Bytes.newline ∉ a.mnemonicText := by
  simp +decide [mnemonicText, Bytes.padRight]

/-- What stands in front of a remark. -/
theorem newline_notMem_columns {a : Annotation} (h : Bytes.newline ∉ a.operands) :
    Bytes.newline ∉ Bytes.join [9] [Bytes.ofNat a.pc, a.lineText, a.mnemonicText, a.operands] :=
  newline_notMem_join (by decide) (by simp [h])

theorem newline_notMem_operands (f : FunctionBody) (nameOfChild : Nat → Bytes) (pc : Nat)
    (i : Instruction) : Bytes.newline ∉ (describe f nameOfChild pc i).1 := by
  have hk : Bytes.newline ∉ (if i.k ≠ 0 then ascii "k" else []) := by split <;> decide
  unfold describe
  cases i.opcode? with
  | none => exact newline_notMem_numbers _
  | some op =>
    cases op
    case ret0 => exact List.not_mem_nil
    case setTabUp | setTable | setI | self | setField =>
      exact fun hmem => (List.mem_append.mp hmem).elim (newline_notMem_numbers _) hk
    all_goals exact newline_notMem_numbers _

@[simp] theorem newline_notMem_constantText (f : FunctionBody) (n : Nat) :
    Bytes.newline ∉ constantText f n := by
  unfold constantText
  split <;> simp +decide

@[simp] theorem newline_notMem_metamethod (n : Nat) : Bytes.newline ∉ metamethod n := by
  have hall : metamethods.all (fun s => isOneLine (ascii s)) = true := by decide
  unfold metamethod
  split
  · rename_i s hs
    exact isOneLine_iff.mp (List.all_eq_true.mp hall s (List.mem_of_getElem? hs))
  · simp +decide

theorem newline_notMem_countText (n : Nat) {direction : String}
    (h : Bytes.newline ∉ ascii direction) : Bytes.newline ∉ countText n direction := by
  unfold countText
  split <;> simp +decide [h]

@[simp] theorem newline_notMem_targetText (t : Int64) : Bytes.newline ∉ targetText t := by
  simp +decide [targetText]

/-- A remark has no line feed if the names that it may show have none. -/
theorem newline_notMem_remark {f : FunctionBody} (hnames : ∀ u ∈ f.upvalues, Bytes.newline ∉ u.name)
    {nameOfChild : Nat → Bytes} (hchild : ∀ n, Bytes.newline ∉ nameOfChild n) (pc : Nat)
    (i : Instruction) : ∀ r ∈ (describe f nameOfChild pc i).2, Bytes.newline ∉ r := by
  have hnone : ∀ r ∈ (none : Option Bytes), Bytes.newline ∉ r := fun r hr => by cases hr
  have hsome {s : Bytes} (hs : Bytes.newline ∉ s) : ∀ r ∈ some s, Bytes.newline ∉ r := by
    intro r hr
    cases hr
    exact hs
  have hwords {ws : List Bytes} (hws : ∀ w ∈ ws, Bytes.newline ∉ w) :
      ∀ r ∈ some (Bytes.join [32] ws), Bytes.newline ∉ r := hsome (newline_notMem_join (by decide) hws)
  have hupvalue := newline_notMem_nameOfUpvalue hnames
  have hlast : ∀ w ∈ (if i.k ≠ 0 then [constantText f i.c] else []), Bytes.newline ∉ w := by
    split <;> simp
  unfold describe
  cases i.opcode? with
  | none => exact hsome (by decide)
  | some op =>
    cases op
    case loadK | getField | addK | subK | mulK | modK | powK | divK | idivK | bandK | borK | bxorK
        | eqK => exact hsome (newline_notMem_constantText f _)
    case loadNil => exact hwords (by simp +decide)
    case getUpval | setUpval => exact hsome (hupvalue _)
    case getTabUp => exact hwords (by simp [hupvalue])
    case setTabUp | setField => exact hwords (List.forall_mem_append.mpr ⟨by simp [hupvalue], hlast⟩)
    case setTable | setI | self =>
      dsimp only
      split
      · exact hsome (newline_notMem_constantText f _)
      · exact hnone
    case mmbin | mmbinI => exact hsome (newline_notMem_metamethod _)
    case mmbinK => exact hwords (by simp)
    case jmp | forLoop | tforLoop | forPrep | tforPrep => exact hsome (newline_notMem_targetText _)
    case call => exact hwords (by simp +decide [newline_notMem_countText])
    case tailCall => exact hwords (by simp +decide)
    case ret | vararg => exact hsome (newline_notMem_countText _ (by decide))
    case closure => exact hsome (hchild _)
    all_goals exact hnone

theorem newline_notMem_text {a : Annotation} (hoperands : Bytes.newline ∉ a.operands)
    (hremark : ∀ r ∈ a.remark, Bytes.newline ∉ r) : Bytes.newline ∉ a.text := by
  have hcolumns := newline_notMem_columns hoperands
  unfold Annotation.text
  cases hr : a.remark with
  | none => simp +decide [hcolumns]
  | some r => simp +decide [hcolumns, hremark r hr]

/-! ## Functions -/

section

variable {opts : Options} {entries : List Entry} {e : Entry}

theorem annotate_eq_ok {x : Instruction × Nat} {a : Annotation} (h : annotate entries e x = .ok a) :
    a.operands = (describe e.proto.body (Entry.nameOfChild entries e.path) x.2 x.1).1 ∧
      a.remark = (describe e.proto.body (Entry.nameOfChild entries e.path) x.2 x.1).2 := by
  unfold annotate Annotation.ofInstruction at h
  obtain ⟨line, -, rfl⟩ := exists_of_map_eq_ok h
  exact ⟨rfl, rfl⟩

theorem newline_notMem_nameOfChild (hnames : ∀ e ∈ entries, Bytes.newline ∉ e.name)
    (path : TreePath) (n : Nat) : Bytes.newline ∉ Entry.nameOfChild entries path n := by
  unfold Entry.nameOfChild
  split
  · rename_i e he
    exact hnames e (List.mem_of_find?_eq_some he)
  · decide

theorem newline_notMem_of_mem_blocks (hnames : ∀ e ∈ entries, Bytes.newline ∉ e.name)
    (hupvalues : opts.comments = true → ∀ u ∈ e.proto.body.upvalues, Bytes.newline ∉ u.name)
    {body : List Bytes} (h : FunctionText.blocks opts entries e = .ok body) :
    ∀ l ∈ body, Bytes.newline ∉ l := by
  rw [blocks_eq_flatten] at h
  obtain ⟨parts, hparts, rfl⟩ := exists_of_map_eq_ok h
  intro l hl
  obtain ⟨lines, hlines, hl⟩ := List.mem_flatten.mp hl
  obtain ⟨x, -, hx⟩ := exists_of_mem_of_mapM_eq_ok hparts hlines
  cases hcomments : opts.comments with
  | false =>
    rw [part_of_not_comments hcomments] at hx
    cases hx
    exact newline_notMem_of_isStatement (isStatement_of_mem_block hl)
  | true =>
    obtain ⟨a, ha, rfl⟩ := part_of_comments hcomments hx
    rcases List.mem_cons.mp hl with rfl | hl
    · obtain ⟨hoperands, hremark⟩ := annotate_eq_ok ha
      refine newline_notMem_text (hoperands ▸ newline_notMem_operands _ _ _ _) ?_
      rw [hremark]
      exact newline_notMem_remark (hupvalues hcomments) (newline_notMem_nameOfChild hnames _) _ _
    · exact newline_notMem_of_isStatement (isStatement_of_mem_block hl)

theorem newline_notMem_origin (f : FunctionBody) : Bytes.newline ∉ FunctionText.origin f := by
  unfold FunctionText.origin
  split <;> simp +decide

theorem newline_notMem_of_mem_functionLines (hnames : ∀ e ∈ entries, Bytes.newline ∉ e.name)
    (he : e ∈ entries)
    (hupvalues : opts.comments = true → ∀ u ∈ e.proto.body.upvalues, Bytes.newline ∉ u.name)
    {f : List Bytes} (h : functionLines opts entries e = .ok f) : ∀ l ∈ f, Bytes.newline ∉ l := by
  obtain ⟨body, hblocks, rfl⟩ := lines_of_functionLines h
  have hprologue (l : Bytes) (hl : l ∈ FunctionText.prologue) : Bytes.newline ∉ l :=
    newline_notMem_of_isStatement (List.all_eq_true.mp all_prologue l hl)
  have hdefinition : Bytes.newline ∉ definitionLine e.name := by
    simp +decide [definitionLine, hnames e he]
  have hsource : Bytes.newline ∉ ascii "// source = " ++ FunctionText.oneLine e.proto.body.source := by
    simp +decide
  have hbody := newline_notMem_of_mem_blocks hnames hupvalues hblocks
  simp only [preface, List.forall_mem_append, List.forall_mem_cons, List.not_mem_nil, false_implies,
    implies_true, and_true]
  exact ⟨⟨hsource, newline_notMem_origin _, by decide⟩, hdefinition, ⟨by decide, hprologue, hbody⟩,
    by decide, by decide⟩

end

/-! ## What follows the functions -/

/-- Fixed lines are looked at one by one. -/
theorem newline_notMem_of_mem_code {texts : List String}
    (h : (Statements.code texts).all isOneLine = true) :
    ∀ l ∈ Statements.code texts, Bytes.newline ∉ l :=
  fun l hl => isOneLine_iff.mp (List.all_eq_true.mp h l hl)

theorem newline_notMem_of_mem_nullTerminated {declaration : String}
    (hdeclaration : Bytes.newline ∉ ascii declaration) {elements : List Bytes}
    (helements : ∀ l ∈ elements, Bytes.newline ∉ l) :
    ∀ l ∈ nullTerminated declaration elements, Bytes.newline ∉ l := by
  have hend : ∀ l ∈ Statements.code ["  NULL", "\x7d;"], Bytes.newline ∉ l :=
    newline_notMem_of_mem_code (by decide)
  refine List.forall_mem_append.mpr ⟨List.forall_mem_append.mpr ⟨?_, helements⟩, hend⟩
  simp +decide [hdeclaration]

/-- An identifier stands on one line. -/
@[simp] theorem newline_notMem_nameUuid (name : Bytes) : Bytes.newline ∉ Digest.nameUuid name := by
  rw [Digest.nameUuid, Digest.uuidText]
  exact newline_notMem_join (by decide) (by simp [List.mem_flatMap])

theorem newline_notMem_sourceRow (row : Bytes) (last : Bool) : Bytes.newline ∉ sourceRow row last := by
  cases last <;> simp +decide [sourceRow, Bytes.padLeft, List.mem_flatMap]

theorem newline_notMem_of_mem_sourceRows (source : Bytes) :
    ∀ l ∈ sourceRows source, Bytes.newline ∉ l := by
  fun_induction sourceRows source with
  | case1 source _ ih => exact List.forall_mem_cons.mpr ⟨newline_notMem_sourceRow _ _, ih⟩
  | case2 source _ => exact List.forall_mem_singleton.mpr (newline_notMem_sourceRow _ _)

theorem newline_notMem_of_mem_sourceBlock (embed : Bool) (source : Bytes) :
    ∀ l ∈ sourceBlock embed source, Bytes.newline ∉ l := by
  unfold sourceBlock
  split
  · simp only [List.forall_mem_append]
    exact ⟨⟨newline_notMem_of_mem_code (by decide), newline_notMem_of_mem_sourceRows source⟩,
      newline_notMem_of_mem_code (by decide)⟩
  · exact newline_notMem_of_mem_code (by decide)

theorem newline_notMem_of_isCIdentifier {s : Bytes} (h : isCIdentifier s = true) :
    Bytes.newline ∉ s := by
  cases s with
  | nil => exact List.not_mem_nil
  | cons b s =>
    rw [isCIdentifier, Bool.and_eq_true, List.all_eq_true] at h
    intro hmem
    rcases List.mem_cons.mp hmem with rfl | hmem
    · exact absurd h.1 (by decide)
    · exact absurd (h.2 _ hmem) (by decide)

theorem newline_notMem_orDefault {v d : Bytes} (hv : Bytes.newline ∉ v) (hd : Bytes.newline ∉ d) :
    Bytes.newline ∉ Options.orDefault v d := by
  unfold Options.orDefault
  split
  · exact hd
  · exact hv

theorem newline_notMem_includeLine {file : Bytes} (h : Bytes.newline ∉ file) :
    Bytes.newline ∉ includeLine file := by
  simp +decide [includeLine, h]

theorem newline_notMem_of_mem_contractBlock {name source : Bytes} {hasSource : Bool}
    {entries : List Entry} (hnames : ∀ e ∈ entries, Bytes.newline ∉ e.name) :
    ∀ l ∈ contractBlock (Contract.ofEntries name source hasSource entries), Bytes.newline ∉ l := by
  refine List.forall_mem_append.mpr ⟨?_, newline_notMem_of_mem_nullTerminated (by decide) ?_⟩
  · simp +decide [Contract.ofEntries, Contract.buildIdOf]
  · intro l hl
    obtain ⟨f, hf, rfl⟩ := List.mem_map.mp hl
    obtain ⟨e, he, rfl⟩ := List.mem_map.mp hf
    have hname : Bytes.newline ∉ (ContractFunction.ofEntry e).name := hnames e he
    simp +decide [ContractFunction.pathText, hname]

/-! ## Units -/

section

variable {o : Options} {root : Prototype} (h : StaysOnLines o root)
include h

theorem newline_notMem_entryName : ∀ e ∈ entriesOf o root, Bytes.newline ∉ e.name := by
  intro e he
  rw [(Entry.mem_ofTree_iff.mp he).1]
  have hstart : Bytes.newline ∉ o.completed.functionPrefix :=
    newline_notMem_orDefault h.functionPrefix (by decide)
  simp [Entry.nameOf, hstart]

theorem newline_notMem_of_mem_closing {input : ModuleInput} (hname : isCIdentifier input.name = true) :
    ∀ l ∈ closing o.completed input (entriesOf o root) (Contract.ofEntries input.name input.source
      o.completed.embedSource (entriesOf o root)), Bytes.newline ∉ l := by
  have hnames := newline_notMem_entryName h
  have hgap : ∀ l ∈ gap, Bytes.newline ∉ l := List.forall_mem_singleton.mpr (by decide)
  have htable : ∀ l ∈ functionTable (entriesOf o root), Bytes.newline ∉ l := by
    refine newline_notMem_of_mem_nullTerminated (by decide) fun l hl => ?_
    obtain ⟨e, he, rfl⟩ := List.mem_map.mp hl
    simp +decide [hnames e he]
  have hmodule : Bytes.newline ∉ ascii "#define LUA_AOT_LUAOPEN_NAME luaopen_" ++ input.name := by
    simp +decide [newline_notMem_of_isCIdentifier hname]
  have hfooter : Bytes.newline ∉ includeLine o.completed.footer :=
    newline_notMem_includeLine (newline_notMem_orDefault h.footer (by decide))
  simp only [closing, List.forall_mem_append, List.forall_mem_singleton]
  exact ⟨⟨⟨⟨⟨⟨⟨⟨htable, hgap⟩, newline_notMem_of_mem_contractBlock hnames⟩, hgap⟩,
    newline_notMem_of_mem_sourceBlock _ _⟩, hgap⟩, hmodule⟩, hgap⟩, hfooter⟩

/-- **The lines that were written are the lines of the text.** -/
theorem splitOn_lines {functions : List (List Bytes)}
    (hfunctions : (entriesOf o root).mapM (functionLines o.completed (entriesOf o root)) = .ok functions)
    {input : ModuleInput} (hname : isCIdentifier input.name = true) :
    let contract := Contract.ofEntries input.name input.source o.completed.embedSource (entriesOf o root)
    Bytes.splitOn Bytes.newline (assembled o input (entriesOf o root) functions).text =
      opening o.completed ++ functions.flatten ++
        (closing o.completed input (entriesOf o root) contract ++ [[]]) := by
  intro contract
  have hnames := newline_notMem_entryName h
  have hheader : Bytes.newline ∉ includeLine o.completed.header :=
    newline_notMem_includeLine (newline_notMem_orDefault h.header (by decide))
  have hopening : ∀ l ∈ opening o.completed, Bytes.newline ∉ l :=
    List.forall_mem_cons.mpr ⟨hheader, List.forall_mem_singleton.mpr (by decide)⟩
  have hbodies : ∀ l ∈ functions.flatten, Bytes.newline ∉ l := by
    intro l hl
    obtain ⟨f, hf, hl⟩ := List.mem_flatten.mp hl
    obtain ⟨e, he, hlines⟩ := exists_of_mem_of_mapM_eq_ok hfunctions hf
    exact newline_notMem_of_mem_functionLines hnames he
      (fun hcomments => forall_entriesOf.mpr (h.annotations hcomments) e he) hlines l hl
  have hlines := List.forall_mem_append.mpr
    ⟨List.forall_mem_append.mpr ⟨hopening, hbodies⟩, newline_notMem_of_mem_closing h hname⟩
  rw [assembled, Bytes.splitOn_unlines hlines, List.append_assoc]

end

end UnitText
end LuaToC
