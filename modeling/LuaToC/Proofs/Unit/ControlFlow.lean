import LuaToC.Proofs.Unit.StatementText
import LuaToC.Unit.FunctionText

/-! # The control flow of generated functions

The text of a function has one block per instruction.  `lines_block` says what a block says to
the reader of C text: it sets three macros, defines its label, gives the instruction word its
value, and branches as the statements do.  Through the macros the branches go to labels, and
`blocks_control_flow` says to which: exactly to those of `Branch.targets`, which are all inside the
function.  This is for every function whose branches the check accepts.
-/
namespace LuaToC.FunctionText

open CText Branch Statements

/-! ## Macros -/

/-- Setting a macro says that it is undefined, and then what it is, if it is anything.  The
tokens of a value are what the rest of its line is read as. -/
theorem lines_define (name : String) (hname : ∀ b ∈ ascii name, isWordByte b = true)
    (hne : ascii name ≠ []) {value : Option Bytes} (tokens : Bytes → List Token)
    (hvalue : ∀ v ∈ value,
      Reads ⟨.plain, .directive .nothing [.word (ascii "define"), .word (ascii name)]⟩
        (v ++ [Bytes.newline]) [.define (ascii name) (tokens v)] .start) :
    Lines (Bytes.unlines (define name value))
      (.undefine (ascii name) :: value.toList.map fun v => .define (ascii name) (tokens v)) := by
  have hundef : Reads .start (ascii "  #undef  ") []
      ⟨.plain, .directive .nothing [.word (ascii "undef")]⟩ := by
    repeat rw [ascii_ofList]
    decide
  have hdefine : Reads .start (ascii "  #define ") []
      ⟨.plain, .directive .nothing [.word (ascii "define")]⟩ := by
    repeat rw [ascii_ofList]
    decide
  have hend : Reads ⟨.word (ascii name), .directive .nothing [.word (ascii "undef")]⟩
      [Bytes.newline] [.undefine (ascii name)] .start := rfl
  have hblank : Reads ⟨.word (ascii name), .directive .nothing [.word (ascii "define")]⟩
      (ascii " ") [] ⟨.plain, .directive .nothing [.word (ascii "define"), .word (ascii name)]⟩ :=
    rfl
  have hfirst := (hundef.append (reads_word _ hname hne)).append hend
  cases value with
  | none => simpa [define, Bytes.unlines, Lines] using hfirst
  | some v =>
    have hsecond := ((hdefine.append (reads_word _ hname hne)).append hblank).append (hvalue v rfl)
    have hboth := hfirst.append hsecond
    simp only [List.append_assoc] at hboth
    simpa [define, Bytes.unlines, Lines] using hboth

/-- A label as the value of a macro. -/
theorem lines_define_label (name : String) (hname : ∀ b ∈ ascii name, isWordByte b = true)
    (hne : ascii name ≠ []) {value : Option Bytes} (hvalue : ∀ v ∈ value, ∃ t, 0 ≤ t ∧ v = label t) :
    Lines (Bytes.unlines (define name value))
      (.undefine (ascii name) :: value.toList.map fun v => .define (ascii name) [.word v]) := by
  refine lines_define name hname hne (fun v => [.word v]) fun v hv => ?_
  obtain ⟨t, ht, rfl⟩ := hvalue v hv
  have hend : Reads ⟨.word (label t), .directive .nothing [.word (ascii "define"), .word (ascii name)]⟩
      [Bytes.newline] [.define (ascii name) [.word (label t)]] .start := rfl
  exact (reads_word _ (isWordByte_label ht) (label_ne_nil t)).append hend

/-- The position of the next instruction as a value. -/
def nextPosition (pc : Nat) : List Token :=
  [.mark (byte '('), .word (ascii "function_code"), .mark (byte '+'), .word (Bytes.ofNat (pc + 1)),
    .mark (byte ')')]

theorem lines_define_position (pc : Nat) :
    Lines (Bytes.unlines (define "LUA_AOT_PC"
        (some (ascii "(function_code + " ++ Bytes.ofNat (pc + 1) ++ ascii ")"))))
      [.undefine (ascii "LUA_AOT_PC"), .define (ascii "LUA_AOT_PC") (nextPosition pc)] := by
  refine lines_define _ (List.all_eq_true.mp (by decide)) (by decide) (fun _ => nextPosition pc) ?_
  intro v hv
  obtain rfl := Option.mem_some.mp hv
  have hbase : Reads ⟨.plain, .directive .nothing [.word (ascii "define"), .word (ascii "LUA_AOT_PC")]⟩
      (ascii "(function_code + ") [] ⟨.plain, .directive .nothing [.word (ascii "define"),
        .word (ascii "LUA_AOT_PC"), .mark (byte '('), .word (ascii "function_code"),
        .mark (byte '+')]⟩ := by
    repeat rw [ascii_ofList]
    decide
  have hend : Reads ⟨.word (Bytes.ofNat (pc + 1)), .directive .nothing [.word (ascii "define"),
        .word (ascii "LUA_AOT_PC"), .mark (byte '('), .word (ascii "function_code"),
        .mark (byte '+')]⟩ (ascii ")" ++ [Bytes.newline])
      [.define (ascii "LUA_AOT_PC") (nextPosition pc)] .start := rfl
  have hvalue := (hbase.append (reads_word _ (Bytes.isWordByte_ofNat (pc + 1))
    (Bytes.digits_ne_nil 8 _))).append hend
  simp only [List.append_assoc] at hvalue ⊢
  exact hvalue

/-! ## Blocks -/

/-- What a macro for a label is set to. -/
def labelMacro (name : String) (value : Option Bytes) : List Event :=
  .undefine (ascii name) :: value.toList.map fun v => .define (ascii name) [.word v]

/-- What a block says before its statements. -/
def blockHead (code : List Instruction) (pc : Nat) (i : Instruction) : List Event :=
  [.undefine (ascii "LUA_AOT_PC"), .define (ascii "LUA_AOT_PC") (nextPosition pc)] ++
    labelMacro "LUA_AOT_NEXT_JUMP" (followingJump? code pc) ++
    labelMacro "LUA_AOT_SKIP1" (skip? code pc) ++
    [.label (label (position pc)), .instruction (ascii "i") i.hexText]

theorem lines_label {t : Int64} (ht : 0 ≤ t) :
    Lines (Bytes.unlines [ascii "  " ++ label t ++ ascii " : \x7b"]) [.label (label t)] := by
  have hindent : Reads .start (ascii "  ") [] .start := rfl
  have hend : Reads ⟨.word (label t), .lineStart .nothing⟩ (ascii " : \x7b" ++ [Bytes.newline])
      [.label (label t)] .start := rfl
  have hline := (hindent.append (reads_word _ (isWordByte_label ht) (label_ne_nil t))).append hend
  rw [Lines, Bytes.unlines, List.flatMap_singleton]
  simp only [List.append_assoc] at hline ⊢
  exact hline

theorem lines_instruction (i : Instruction) :
    Lines (Bytes.unlines [ascii "    Instruction i = " ++ i.hexText ++ ascii ";"])
      [.instruction (ascii "i") i.hexText] := by
  have hword : ∀ b ∈ i.hexText, isWordByte b = true := by
    have hstart : ∀ b ∈ ascii "0x", isWordByte b = true := List.all_eq_true.mp (by decide)
    intro b hb
    rcases List.mem_append.mp hb with hb | hb
    · exact hstart b hb
    · obtain ⟨d, hd, rfl⟩ := Bytes.exists_digit_of_mem_padLeft hb
      exact Bytes.isWordByte_digit hd
  have hne : i.hexText ≠ [] := fun h => absurd (List.append_eq_nil_iff.mp h).1 (by decide)
  have hassign : Reads .start (ascii "    Instruction i = ") []
      ⟨.plain, .statement (.assigned (ascii "Instruction") (ascii "i"))⟩ := by
    repeat rw [ascii_ofList]
    decide
  have hend : Reads ⟨.word i.hexText, .statement (.assigned (ascii "Instruction") (ascii "i"))⟩
      (ascii ";" ++ [Bytes.newline]) [.instruction (ascii "i") i.hexText] .start := rfl
  have hline := (hassign.append (reads_word _ hword hne)).append hend
  rw [Lines, Bytes.unlines, List.flatMap_singleton]
  simp only [List.append_assoc] at hline ⊢
  exact hline

theorem nonneg_of_isInside {n : Nat} {t : Int64} (h : isInside n t = true) : 0 ≤ t :=
  of_decide_eq_true (Bool.and_eq_true_iff.mp h).1

theorem exists_label_of_followingJump? (code : List Instruction) (pc : Nat) (l : Bytes)
    (h : l ∈ followingJump? code pc) : ∃ t, 0 ≤ t ∧ l = label t := by
  dsimp only [followingJump?] at h
  split at h
  · rename_i hinside
    exact ⟨_, nonneg_of_isInside hinside, (Option.some.inj h).symm⟩
  · cases h

theorem exists_label_of_skip? (code : List Instruction) (pc : Nat) (l : Bytes)
    (h : l ∈ skip? code pc) : ∃ t, 0 ≤ t ∧ l = label t := by
  dsimp only [skip?] at h
  split at h
  · rename_i hinside
    exact ⟨_, nonneg_of_isInside hinside, (Option.some.inj h).symm⟩
  · cases h

/-- **What a block says**: its macros, its label, its word, and the branches of its
statements. -/
theorem lines_block (policy : Policy) (code : List Instruction) {pc : Nat} {i : Instruction}
    (hpc : 0 ≤ position pc) {es : List Event}
    (hstatements : Lines (Bytes.unlines ((supported? pc i).getD (substitute policy i.tag))) es) :
    Lines (Bytes.unlines (block policy code pc i)) (blockHead code pc i ++ es) := by
  have hjump := lines_define_label "LUA_AOT_NEXT_JUMP" (List.all_eq_true.mp (by decide)) (by decide)
    (exists_label_of_followingJump? code pc)
  have hskip := lines_define_label "LUA_AOT_SKIP1" (List.all_eq_true.mp (by decide)) (by decide)
    (exists_label_of_skip? code pc)
  have hoperand : Lines (Bytes.unlines (Statements.code
      ["    StkId ra = RA(i);", "    (void) ra;"])) [] := by
    repeat rw [code_cons]
    decide
  have hend : Lines (Bytes.unlines (Statements.code ["  \x7d", "  "])) [] := by decide
  have hhead := ((lines_define_position pc).append hjump).append hskip
  have hplace := (lines_label hpc).append (lines_instruction i)
  rw [← unlines_append] at hplace
  have hblock := (((hhead.append hplace).append hoperand).append hstatements).append hend
  rw [List.append_nil, List.append_nil] at hblock
  rw [block]
  simp only [unlines_append]
  exact hblock

/-! ## Reading a block -/

theorem labels_blockHead (code : List Instruction) (pc : Nat) (i : Instruction) :
    labels (blockHead code pc i) = [label (position pc)] := by
  unfold blockHead labelMacro
  cases followingJump? code pc <;> cases skip? code pc <;> rfl

theorem instructions_blockHead (code : List Instruction) (pc : Nat) (i : Instruction) :
    instructions (blockHead code pc i) = [(ascii "i", i.hexText)] := by
  unfold blockHead labelMacro
  cases followingJump? code pc <;> cases skip? code pc <;> rfl

theorem gotos_blockHead (ms : Macros) (code : List Instruction) (pc : Nat) (i : Instruction) :
    gotos ms (blockHead code pc i) = [] := by
  unfold blockHead labelMacro
  cases followingJump? code pc <;> cases skip? code pc <;> rfl

/-- The word of an instruction can be read back from its block. -/
theorem hexLiteral?_hexText (i : Instruction) : Numeral.hexLiteral? i.hexText = some i.word.toNat := by
  have hvalue : Numeral.value? 16 0 (Bytes.padLeft 48 8 (Bytes.hex i.word.toNat)) =
      some i.word.toNat := by
    rw [Numeral.value?_padLeft 16 8 _ (by decide)]
    exact Numeral.value?_digits (by decide) _
  rw [Instruction.hexText]
  cases hdigits : Bytes.padLeft 48 8 (Bytes.hex i.word.toNat) with
  | nil => exact absurd (List.append_eq_nil_iff.mp hdigits).2 (Bytes.digits_ne_nil 14 _)
  | cons d ds =>
    rw [hdigits] at hvalue
    exact hvalue

/-! ## Macros in force -/

/-- The macros in force among the statements of a block. -/
def inForce (ms : Macros) (code : List Instruction) (pc : Nat) (i : Instruction) : Macros :=
  (blockHead code pc i).foldl Macros.step ms

theorem expand_inForce_skip (ms : Macros) {code : List Instruction} {pc : Nat} {l : Bytes}
    (h : skip? code pc = some l) (i : Instruction) :
    expand (inForce ms code pc i) (ascii "LUA_AOT_SKIP1") = l := by
  unfold inForce blockHead labelMacro
  rw [h, List.foldl_append, List.foldl_append]
  exact expand_define _ _ _

theorem expand_inForce_nextJump (ms : Macros) {code : List Instruction} {pc : Nat} {l l' : Bytes}
    (hskip : skip? code pc = some l) (h : followingJump? code pc = some l') (i : Instruction) :
    expand (inForce ms code pc i) (ascii "LUA_AOT_NEXT_JUMP") = l' := by
  unfold inForce blockHead labelMacro
  rw [h, hskip]
  simp only [List.foldl_append, List.foldl_cons, List.foldl_nil, Option.toList_some, List.map_cons,
    List.map_nil, Macros.step]
  have hne : (ascii "LUA_AOT_NEXT_JUMP" != ascii "LUA_AOT_SKIP1") = true := by decide
  rw [expand_define_of_ne (by decide), List.filter_cons, if_pos hne]
  exact expand_define _ _ _

/-- A label is no macro in a block, unless it was one before. -/
theorem expand_inForce_label {ms : Macros} (hms : ∀ m ∈ ms, ∀ t, m.1 ≠ label t)
    (code : List Instruction) (pc : Nat) (i : Instruction) (t : Int64) :
    expand (inForce ms code pc i) (label t) = label t := by
  refine expand_of_forall_ne fun m hm => ?_
  -- The macros of a block have names in capital letters.
  rcases mem_foldl_step hm with hm | hm
  · exact hms m hm t
  · have hnames : m.1 ∈ [ascii "LUA_AOT_PC", ascii "LUA_AOT_NEXT_JUMP", ascii "LUA_AOT_SKIP1"] := by
      simp only [blockHead, labelMacro, List.mem_append, List.mem_cons, List.mem_map,
        List.not_mem_nil, reduceCtorEq, Event.define.injEq, false_or, or_false] at hm ⊢
      rcases hm with (h | ⟨_, _, h, _⟩) | ⟨_, _, h, _⟩
      · exact Or.inl h.1
      · exact Or.inr (Or.inl h.symm)
      · exact Or.inr (Or.inr h.symm)
    have hupper : ∀ w ∈ [ascii "LUA_AOT_PC", ascii "LUA_AOT_NEXT_JUMP", ascii "LUA_AOT_SKIP1"],
        w.head? ≠ some (byte 'l') := by decide
    exact (label_ne (hupper m.1 hnames) t).symm

/-! ## Branches of a block -/

/-- The operations that skip the next instruction. -/
theorem targets_of_skip {i : Instruction} {op : Opcode} (hop : i.opcode? = some op)
    (h : op = .lFalseSkip ∨ op = .loadKX) (code : List Instruction) (pc : Nat) :
    targets code pc i = [(pc + 2 : Int)] := by
  rcases h with rfl | rfl <;> simp only [targets, hop]

/-- An operation that names labels has a target of its own. -/
theorem target?_of_mem_placed {i : Instruction} {op : Opcode} (hop : i.opcode? = some op)
    (h : op ∈ placed) (pc : Nat) : ∃ t, target? pc i = some t := by
  have hcases : op = .jmp ∨ op = .forLoop ∨ op = .forPrep ∨ op = .tforPrep ∨ op = .tforLoop := by
    simpa [placed] using h
  unfold target?
  rw [hop]
  rcases hcases with rfl | rfl | rfl | rfl | rfl <;> exact ⟨_, rfl⟩

/-- An operation that names no labels, skips nothing and tests nothing does not branch. -/
theorem targets_of_macrosOf_eq_nil {i : Instruction} {op : Opcode} (hop : i.opcode? = some op)
    (hplaced : op ∉ placed) (hskip : ¬ (op = .lFalseSkip ∨ op = .loadKX)) (htest : op ∉ tests)
    (code : List Instruction) (pc : Nat) : targets code pc i = [] := by
  unfold targets
  rw [hop]
  cases op
  case jmp | forLoop | forPrep | tforPrep | tforLoop => exact absurd (by decide) hplaced
  case lFalseSkip | loadKX => exact absurd (by decide) hskip
  all_goals exact if_neg htest

/-- The macro for the instruction after the next one goes there. -/
theorem skip?_of_lt {code : List Instruction} {pc : Nat} (hn : code.length < 0x4000000000000000)
    (h : pc + 2 < code.length) : skip? code pc = some (label (Int64.ofInt (pc + 2))) := by
  have hinside : isInside code.length (Int64.ofInt (pc + 2)) = true :=
    (isInside_ofInt (by omega) (by omega)).mpr ⟨by omega, by omega⟩
  dsimp only [skip?]
  rw [position_add_two, if_pos hinside]

/-- The macro for the jump after a test goes where the jump goes. -/
theorem followingJump?_of_jumpsAfter {code : List Instruction} {pc : Nat} {z : Int}
    (hn : code.length < 0x4000000000000000) (hz : jumpsAfter code pc = [z])
    (h : 0 ≤ z ∧ z < code.length) : followingJump? code pc = some (label (Int64.ofInt z)) := by
  have hinside : isInside code.length (Int64.ofInt z) = true :=
    (isInside_ofInt (by omega) (by omega)).mpr h
  dsimp only [followingJump?]
  rw [following_of_jumpsAfter hz, if_pos hinside]

/-- **Through the macros in force, the words that the statements go to are the labels of the
targets.** -/
theorem map_expand_branchWords {code : List Instruction} (hn : code.length < 0x4000000000000000)
    (hwell : ∀ (pc : Nat) (i : Instruction), code[pc]? = some i → ¬ IllBranched code pc i)
    {pc : Nat} {i : Instruction} (hi : code[pc]? = some i) {ms : Macros}
    (hms : ∀ m ∈ ms, ∀ t, m.1 ≠ label t) :
    (branchWords pc i).map (expand (inForce ms code pc i)) =
      (targets code pc i).map fun t => label (Int64.ofInt t) := by
  have hinside := targets_inside hwell hi
  unfold branchWords
  -- An operation names labels, skips, tests or does none of this.
  cases hop : i.opcode? with
  | none => simp only [targets, hop, List.map_nil]
  | some op =>
    by_cases hplaced : op ∈ placed
    · obtain ⟨t, ht⟩ := target?_of_mem_placed hop hplaced pc
      obtain ⟨-, z, rfl, hz⟩ := ofInt_targets ht code
      simp only [hplaced, if_true, ht, hz, Option.toList_some, List.map_cons, List.map_nil,
        expand_inForce_label hms]
    · by_cases hskip : op = .lFalseSkip ∨ op = .loadKX
      · rw [targets_of_skip hop hskip] at hinside ⊢
        have hlt := hinside _ (List.mem_singleton_self _)
        have hmacro : skip? code pc = _ := skip?_of_lt hn (by omega)
        simp only [hplaced, macrosOf, hskip, if_true, if_false, List.map_cons, List.map_nil,
          expand_inForce_skip ms hmacro]
      · by_cases htest : op ∈ tests
        · have hisTest : i.tag.isTest = true := by
            rw [← any_mem_tests, hop]
            exact decide_eq_true htest
          rw [targets_of_isTest hisTest] at hinside ⊢
          obtain ⟨hjump, hlt⟩ := (not_illBranched_test_iff hisTest).mp (hwell pc i hi)
          rcases jumpsAfter_cases code pc with hnil | ⟨_, _, _, _, z, hz⟩
          · exact absurd hnil hjump
          · rw [hz] at hinside ⊢
            have hmacro := skip?_of_lt hn hlt
            have hnext := followingJump?_of_jumpsAfter hn hz (hinside z (by simp))
            simp only [hplaced, macrosOf, hskip, htest, if_true, if_false, List.map_cons,
              List.map_nil, expand_inForce_skip ms hmacro, expand_inForce_nextJump ms hmacro hnext]
        · rw [targets_of_macrosOf_eq_nil hop hplaced hskip htest]
          simp only [hplaced, macrosOf, hskip, htest, if_false, List.map_nil]

/-! ## Functions -/

/-- **What is right about the block of the instruction `i` at `pc`**, which says `es`: it defines
the instruction's label and no other, its instruction word reads back as the word, and whatever
macros were in force before it, none of them a label, it branches exactly to the labels of the
targets. -/
structure IsFaithful (code : List Instruction) (pc : Nat) (i : Instruction) (es : List Event) :
    Prop where
  labels_eq : labels es = [label (position pc)]
  word : ∃ w, instructions es = [(ascii "i", w)] ∧ Numeral.hexLiteral? w = some i.word.toNat
  branches : ∀ ms : Macros, (∀ m ∈ ms, ∀ t, m.1 ≠ label t) →
    ∀ l, l ∈ gotos ms es ↔ ∃ t ∈ targets code pc i, l = label (Int64.ofInt t)

theorem position_nonneg {pc : Nat} (h : pc < 0x4000000000000000) : 0 ≤ position pc := by
  rw [Int64.le_iff_toInt_le, position, Int64.toInt_ofNat_of_lt (by omega)]
  exact Int.natCast_nonneg pc

section Accepted

variable {code : List Instruction} (hn : code.length < 0x4000000000000000)
  (hwell : ∀ (pc : Nat) (i : Instruction), code[pc]? = some i → ¬ IllBranched code pc i)
  {pc : Nat} {i : Instruction} (hi : code[pc]? = some i) (policy : Policy)
include hn hwell hi

/-- A target of an instruction's own is not negative. -/
theorem nonneg_of_target? {t : Int64} (ht : target? pc i = some t) : 0 ≤ t := by
  obtain ⟨-, z, rfl, hz⟩ := ofInt_targets ht code
  have hinside := targets_inside hwell hi z (hz ▸ List.mem_singleton_self z)
  rw [Int64.le_iff_toInt_le, toInt_ofInt (by omega) (by omega)]
  exact hinside.1

/-- Blocks are whole lines, and faithful. -/
theorem isFaithful_block :
    Lines (Bytes.unlines (block policy code pc i))
        (events (Bytes.unlines (block policy code pc i))) ∧
      IsFaithful code pc i (events (Bytes.unlines (block policy code pc i))) := by
  have hpc := (List.getElem?_eq_some_iff.mp hi).1
  obtain ⟨ws, hlines, hws⟩ := lines_statements policy fun t => nonneg_of_target? hn hwell hi
  have hblock := lines_block policy code (position_nonneg (by omega)) hlines
  rw [hblock.events_eq]
  refine ⟨hblock, ?_, ?_, ?_⟩
  · rw [labels_append, labels_blockHead, labels_goto, List.append_nil]
  · refine ⟨i.hexText, ?_, hexLiteral?_hexText i⟩
    rw [instructions_append, instructions_blockHead, instructions_goto, List.append_nil]
  · intro ms hms l
    have hwords := map_expand_branchWords hn hwell hi hms
    have hsame : l ∈ ws.map (expand (inForce ms code pc i)) ↔
        l ∈ (branchWords pc i).map (expand (inForce ms code pc i)) := by
      simp only [List.mem_map, hws]
    rw [gotos_append, gotos_blockHead, List.nil_append, gotos_goto, ← inForce, hsame, hwords]
    simp only [List.mem_map, eq_comm]

end Accepted

/-- Without annotations a function has the blocks of its instructions and nothing else. -/
theorem blocks_without_comments (opts : Options) (entries : List Entry) (e : Entry) :
    blocks { opts with comments := false } entries e =
      .ok (e.proto.body.code.zipIdx.flatMap fun (i, pc) =>
        block opts.policy e.proto.body.code pc i) := by
  simp only [blocks, Bool.false_eq_true, if_false, pure_bind, List.nil_append, List.mapM_pure,
    List.flatMap_def]
  rfl

/-- The labels of a function are numbered from zero on, each once. -/
theorem nodup_labels {n : Nat} (hn : n < 0x4000000000000000) :
    ((List.range n).map fun pc => label (position pc)).Nodup := by
  refine List.pairwise_map.mpr (List.nodup_range.imp_of_mem ?_)
  intro p q hp hq hne h
  have hp := List.mem_range.mp hp
  have hq := List.mem_range.mp hq
  have heq := label_injective (position_nonneg (by omega)) (position_nonneg (by omega)) h
  have hint := congrArg Int64.toInt heq
  rw [position, position, Int64.toInt_ofNat_of_lt (by omega), Int64.toInt_ofNat_of_lt (by omega)]
    at hint
  omega

/-- The blocks of a function define one label per instruction, in order. -/
theorem labels_blocks {code : List Instruction} (hn : code.length < 0x4000000000000000)
    (hwell : ∀ (pc : Nat) (i : Instruction), code[pc]? = some i → ¬ IllBranched code pc i)
    (policy : Policy) :
    labels (events (Bytes.unlines
        (code.zipIdx.flatMap fun x => block policy code x.2 x.1))) =
      (List.range code.length).map fun pc => label (position pc) := by
  have hblock : ∀ x ∈ code.zipIdx, _ := fun x hx =>
    isFaithful_block hn hwell (List.mem_zipIdx_iff_getElem?.mp hx) policy
  rw [(Lines.flatMap fun x hx => (hblock x hx).1).events_eq,
    labels_flatMap fun x hx => (hblock x hx).2.labels_eq, List.range_eq_range',
    ← List.zipIdx_map_snd 0 code, List.map_map]
  rfl

/-- **The generated text has exactly the control flow of the bytecode.**  The blocks of a function
whose branches the check accepts define one label per instruction, in order, and no label twice.
Each block is faithful to its instruction, and goes to labels of the function only. -/
theorem blocks_control_flow (opts : Options) (entries : List Entry) (e : Entry)
    (hn : e.proto.body.code.length < 0x4000000000000000)
    (hok : check e.name e.proto.body.code = .ok ()) :
    (∀ s t : Int64, 0 ≤ s → 0 ≤ t → label s = label t → s = t) ∧
    ∃ lines, blocks { opts with comments := false } entries e = .ok lines ∧
      labels (events (Bytes.unlines lines)) =
        (List.range e.proto.body.code.length).map (fun pc => label (position pc)) ∧
      (labels (events (Bytes.unlines lines))).Nodup ∧
      ∀ (pc : Nat) (i : Instruction), e.proto.body.code[pc]? = some i →
        IsFaithful e.proto.body.code pc i
          (events (Bytes.unlines (block opts.policy e.proto.body.code pc i))) ∧
        ∀ t ∈ targets e.proto.body.code pc i,
          0 ≤ t ∧ t < e.proto.body.code.length ∧
            label (Int64.ofInt t) ∈ labels (events (Bytes.unlines lines)) := by
  have hwell := (check_eq_ok_iff_illBranched e.name hn).mp hok
  have hlabels := labels_blocks hn hwell opts.policy
  refine ⟨fun _ _ => label_injective, _, blocks_without_comments opts entries e, hlabels, ?_, ?_⟩
  · exact hlabels ▸ nodup_labels hn
  · intro pc i hi
    refine ⟨(isFaithful_block hn hwell hi opts.policy).2, fun t ht => ?_⟩
    obtain ⟨hlow, hhigh⟩ := targets_inside hwell hi t ht
    refine ⟨hlow, hhigh, ?_⟩
    rw [hlabels]
    refine List.mem_map.mpr ⟨t.toNat, List.mem_range.mpr (by omega), ?_⟩
    rw [position, ← Int64.ofInt_eq_ofNat, Int.toNat_of_nonneg hlow]

/-- A function with a test and its jump, a skip, a numeric loop and an unsupported operation in
it. -/
def loopSample : Entry :=
  let code : List Instruction :=
    [.ofABC Opcode.lt.tag 0 1 0 0, .ofSJ Opcode.jmp.tag 1, .ofABC Opcode.lFalseSkip.tag 0 0 0 0,
     .ofABx Opcode.forPrep.tag 2 1, .ofABC Opcode.add.tag 1 1 5 0, .ofABx Opcode.forLoop.tag 2 2,
     .ofABC Opcode.ret0.tag 0 0 0 0]
  ⟨0, ascii "magic_implementation_00", [], ⟨{ (default : FunctionBody) with code := code }, []⟩⟩

/-- The test goes past its jump or where the jump goes, and the loop goes back to its body. -/
theorem blocks_control_flow_loopSample :
    check loopSample.name loopSample.proto.body.code = .ok () ∧
      (∀ l, l ∈ gotos [] (events (Bytes.unlines (block .fallback loopSample.proto.body.code 0
          (.ofABC Opcode.lt.tag 0 1 0 0)))) ↔ l = ascii "label_02" ∨ l = ascii "label_03") ∧
      ∀ l, l ∈ gotos [] (events (Bytes.unlines (block .fallback loopSample.proto.body.code 5
          (.ofABx Opcode.forLoop.tag 2 2)))) ↔ l = ascii "label_04" := by
  have hok : check loopSample.name loopSample.proto.body.code = .ok () := rfl
  obtain ⟨-, lines, -, -, -, hfaithful⟩ :=
    blocks_control_flow { Options.default with policy := .fallback } [] loopSample (by decide) hok
  refine ⟨hok, fun l => ?_, fun l => ?_⟩
  · have hbranches := (hfaithful 0 (.ofABC Opcode.lt.tag 0 1 0 0) rfl).1.branches [] (by simp) l
    have htargets : targets loopSample.proto.body.code 0 (.ofABC Opcode.lt.tag 0 1 0 0) = [2, 3] := by
      decide
    have hlabels : label (Int64.ofInt 2) = ascii "label_02" ∧ label (Int64.ofInt 3) = ascii "label_03" := by
      decide +kernel
    simpa only [htargets, List.mem_cons, List.not_mem_nil, or_false, exists_eq_or_imp,
      exists_eq_left, hlabels] using hbranches
  · have hbranches := (hfaithful 5 (.ofABx Opcode.forLoop.tag 2 2) rfl).1.branches [] (by simp) l
    have htargets : targets loopSample.proto.body.code 5 (.ofABx Opcode.forLoop.tag 2 2) = [4] := by
      decide
    have hlabel : label (Int64.ofInt 4) = ascii "label_04" := by decide +kernel
    simpa only [htargets, List.mem_singleton, exists_eq_left, hlabel] using hbranches

end LuaToC.FunctionText
