import LuaToC.Proofs.Numeral
import LuaToC.Proofs.Unit.Branches
import LuaToC.Proofs.Unit.CText
import LuaToC.Unit.Statements

/-! # Where statements branch to

The statements of an operation are fixed text, but for the labels that five operations name.
The reader of C text is run on the fixed parts, and the lines with labels are read symbolically
(`lines_goto`).  `lines_statements` puts the parts together: what an instruction's statements
say, to the reader, is that they go to the words of `branchWords`, and nothing else.  The text
that stands in place of an unsupported instruction does not branch (`lines_substitute`).
-/
namespace LuaToC

open CText

/-! ## Numbers and labels as words -/

theorem Bytes.isWordByte_digit {d : Nat} (h : d < 16) : isWordByte (digit d) = true := by
  revert d
  decide

theorem Bytes.isWordByte_ofNat (n : Nat) : ∀ b ∈ ofNat n, isWordByte b = true := by
  intro b hb
  obtain ⟨d, hd, rfl⟩ := exists_digit_of_mem_digits hb
  exact isWordByte_digit (by omega)

namespace Branch

theorem label_of_nonneg {t : Int64} (h : 0 ≤ t) :
    label t = ascii "label_" ++ Bytes.twoDigits t.toInt.toNat := by
  have hnot : ¬ t < 0 := by
    rw [Int64.lt_iff_toInt_lt, Int.not_lt]
    exact Int64.le_iff_toInt_le.mp h
  rw [label, if_neg hnot]

theorem label_ne_nil (t : Int64) : label t ≠ [] := by
  intro h
  exact absurd (List.append_eq_nil_iff.mp h).1 (by decide)

/-- A label is one word. -/
theorem isWordByte_label {t : Int64} (h : 0 ≤ t) : ∀ b ∈ label t, isWordByte b = true := by
  have hname : ∀ b ∈ ascii "label_", isWordByte b = true := List.all_eq_true.mp (by decide)
  rw [label_of_nonneg h]
  intro b hb
  rcases List.mem_append.mp hb with hb | hb
  · exact hname b hb
  · obtain ⟨d, hd, rfl⟩ := Bytes.exists_digit_of_mem_padLeft hb
    exact Bytes.isWordByte_digit (by omega)

/-- A label determines its position. -/
theorem label_injective {s t : Int64} (hs : 0 ≤ s) (ht : 0 ≤ t) (h : label s = label t) :
    s = t := by
  rw [label_of_nonneg hs, label_of_nonneg ht] at h
  have hnat := Numeral.twoDigits_injective (List.append_cancel_left h)
  have hs' : 0 ≤ s.toInt := Int64.le_iff_toInt_le.mp hs
  have ht' : 0 ≤ t.toInt := Int64.le_iff_toInt_le.mp ht
  exact Int64.toInt_inj.mp (by omega)

/-- Labels begin with a small letter, so no macro of a block is one. -/
theorem label_ne {w : Bytes} (h : w.head? ≠ some (byte 'l')) (t : Int64) : label t ≠ w := by
  rintro rfl
  exact h rfl

end Branch

/-! ## Quoted words -/

/-- A literal is made of its characters.  Fixed text is read much faster through this, since a
literal holds its characters encoded. -/
theorem ascii_ofList (cs : List Char) :
    ascii (String.ofList cs) = cs.map fun c => c.toNat.toUInt8 := by
  rw [ascii, String.toList_ofList]

/-- A byte of a word is a character of its own, and stands for itself between quotes. -/
theorem Text.quotedScalar_of_isWordByte {b : UInt8} (h : isWordByte b = true) :
    b < 0x80 ∧ quotedScalar b.toNat = [b] := by
  have hall : ∀ n < 256, isWordByte n.toUInt8 = true →
      n.toUInt8 < 0x80 ∧ quotedScalar n = [n.toUInt8] := by decide +kernel
  have hb := hall b.toNat b.toNat_lt
  rw [show b.toNat.toUInt8 = b from UInt8.ofNat_toNat] at hb
  exact hb h

/-- So words are cut into their bytes. -/
theorem Utf8.pieces_of_isWordByte {w : Bytes} (hw : ∀ b ∈ w, isWordByte b = true) :
    pieces w = w.map fun b => .scalar b.toNat := by
  induction w with
  | nil => simp [pieces]
  | cons b w ih =>
    have hlt := (Text.quotedScalar_of_isWordByte (hw b List.mem_cons_self)).1
    have hdecode : decode b w = some (b.toNat, w) := by
      unfold decode
      rw [if_pos hlt]
    rw [pieces, List.map_cons, ← ih fun c hc => hw c (List.mem_cons_of_mem b hc)]
    split <;> simp_all

theorem Text.quoted_of_isWordByte {w : Bytes} (hw : ∀ b ∈ w, isWordByte b = true) :
    quoted w = [34] ++ w ++ [34] := by
  have hbody : w.flatMap (fun b => quotedScalar b.toNat) = w := by
    induction w with
    | nil => rfl
    | cons b w ih =>
      rw [List.flatMap_cons, (quotedScalar_of_isWordByte (hw b List.mem_cons_self)).2,
        ih fun c hc => hw c (List.mem_cons_of_mem b hc), List.cons_append, List.nil_append]
  rw [quoted, Utf8.pieces_of_isWordByte hw, List.flatMap_map]
  exact congrArg (fun body => [34] ++ body ++ [34]) hbody

/-- The name of an operation number is a word. -/
theorem OpTag.isWordByte_name (t : OpTag) : ∀ b ∈ t.name, isWordByte b = true := by
  unfold name
  split
  · rename_i op _
    rw [← List.all_eq_true]
    cases op <;>
    · unfold Opcode.mnemonic
      rw [ascii_ofList]
      decide
  · intro b hb
    have hunknown : ∀ b ∈ ascii "UNKNOWN_", isWordByte b = true := List.all_eq_true.mp (by decide)
    rcases List.mem_append.mp hb with hb | hb
    · exact hunknown b hb
    · exact Bytes.isWordByte_ofNat _ b hb

/-! ## What the statements of an operation say -/

namespace Statements

open Branch

theorem unlines_append (as bs : List Bytes) :
    Bytes.unlines (as ++ bs) = Bytes.unlines as ++ Bytes.unlines bs := List.flatMap_append

theorem code_cons (cs : List Char) (lines : List String) :
    code (String.ofList cs :: lines) = (cs.map fun c => c.toNat.toUInt8) :: code lines := by
  rw [code, List.map_cons, ascii_ofList, code]

/-- The operations whose statements name labels. -/
def placed : List Opcode := [.jmp, .forLoop, .forPrep, .tforPrep, .tforLoop]

/-- The macros through which the other operations branch. -/
def macrosOf (op : Opcode) : List Bytes :=
  if op = .lFalseSkip ∨ op = .loadKX then [ascii "LUA_AOT_SKIP1"]
  else if op ∈ tests then [ascii "LUA_AOT_SKIP1", ascii "LUA_AOT_NEXT_JUMP"]
  else []

theorem lines_condJump :
    Lines (Bytes.unlines condJump)
      [.goto (ascii "LUA_AOT_SKIP1"), .goto (ascii "LUA_AOT_NEXT_JUMP")] := by
  unfold condJump
  repeat rw [code_cons]
  decide +kernel

/-- A comparison followed by the end of a test. -/
theorem lines_append_condJump {text : List Bytes} (h : Lines (Bytes.unlines text) []) :
    Lines (Bytes.unlines (text ++ condJump))
      [.goto (ascii "LUA_AOT_SKIP1"), .goto (ascii "LUA_AOT_NEXT_JUMP")] := by
  rw [unlines_append]
  exact h.append lines_condJump

/-- The statements of an operation that names no labels branch through macros only, and are the
same everywhere. -/
theorem lines_ofOpcode {op : Opcode} (h : op ∉ placed) (pc : Nat) (i : Instruction) :
    Lines (Bytes.unlines ((ofOpcode pc i op).getD [])) ((macrosOf op).map .goto) := by
  cases op
  case jmp | forLoop | forPrep | tforPrep | tforLoop => exact absurd (by decide) h
  case eq | eqK | eqI | lt | le | ltI | leI | gtI | geI | test =>
    refine lines_append_condJump ?_
    repeat rw [code_cons]
    repeat rw [ascii_ofList]
    decide +kernel
  all_goals
    dsimp only [ofOpcode, Option.getD_some, Option.getD_none, returnMany, returnNone, returnOne,
      iteratorCall]
    repeat rw [code_cons]
    decide +kernel

/-- Blanks at the start of a line say nothing. -/
theorem reads_indent (n : Nat) : Reads .start (List.replicate n 32) [] .start := by
  induction n with
  | zero => rfl
  | succ n ih => exact Reads.append (a := [32]) rfl ih

/-- A line that goes to a position says so. -/
theorem lines_goto {t : Int64} (ht : 0 ≤ t) (indent : Nat) {remark : String}
    (hremark : Reads ⟨.plain, .statement .nothing⟩ (ascii remark ++ [Bytes.newline]) [] .start) :
    Lines (Bytes.unlines [goto indent t remark]) [.goto (label t)] := by
  have hgoto : Reads .start (ascii "goto ") [] ⟨.plain, .statement (.word (ascii "goto"))⟩ := by
    repeat rw [ascii_ofList]
    decide
  have hlabel := reads_word (.statement (.word (ascii "goto"))) (isWordByte_label ht) (label_ne_nil t)
  have hend : Reads ⟨.word (label t), .statement (.word (ascii "goto"))⟩ (ascii ";")
      [.goto (label t)] ⟨.plain, .statement .nothing⟩ := rfl
  have hline := (((reads_indent indent).append hgoto).append hlabel).append (hend.append hremark)
  rw [Lines, Bytes.unlines, List.flatMap_singleton, goto]
  simp only [List.append_assoc] at hline ⊢
  exact hline

theorem lines_goto_plain {t : Int64} (ht : 0 ≤ t) (indent : Nat) :
    Lines (Bytes.unlines [goto indent t ""]) [.goto (label t)] :=
  lines_goto ht indent (by decide)

theorem lines_goto_back {t : Int64} (ht : 0 ≤ t) (indent : Nat) :
    Lines (Bytes.unlines [goto indent t " /* jump back */"]) [.goto (label t)] := by
  refine lines_goto ht indent ?_
  rw [ascii_ofList]
  decide

theorem lines_goto_skip {t : Int64} (ht : 0 ≤ t) (indent : Nat) :
    Lines (Bytes.unlines [goto indent t " /* skip the loop */"]) [.goto (label t)] := by
  refine lines_goto ht indent ?_
  rw [ascii_ofList]
  decide

theorem lines_numericLoop {back : Int64} (h : 0 ≤ back) :
    Lines (Bytes.unlines (numericLoop back)) [.goto (label back), .goto (label back)] := by
  have hgoto := lines_goto_back h 8
  rw [numericLoop]
  simp only [unlines_append]
  refine (((Lines.append (?_ : Lines _ []) hgoto).append (?_ : Lines _ [])).append hgoto).append
    (?_ : Lines _ [])
  all_goals
    repeat rw [code_cons]
    decide +kernel

theorem lines_numericPrepare {skip : Int64} (h : 0 ≤ skip) :
    Lines (Bytes.unlines (numericPrepare skip)) [.goto (label skip), .goto (label skip)] := by
  have hgoto := lines_goto_skip h 8
  rw [numericPrepare]
  simp only [unlines_append]
  refine (((Lines.append (?_ : Lines _ []) hgoto).append (?_ : Lines _ [])).append hgoto).append
    (?_ : Lines _ [])
  all_goals
    repeat rw [code_cons]
    decide +kernel

/-- The statements of an operation that names labels go to its target, once or twice. -/
theorem lines_ofOpcode_placed {pc : Nat} {i : Instruction} {op : Opcode}
    (hop : i.opcode? = some op) (hplaced : op ∈ placed) (h : ∀ t, target? pc i = some t → 0 ≤ t) :
    ∃ t text n, target? pc i = some t ∧ ofOpcode pc i op = some text ∧
      Lines (Bytes.unlines text) (List.replicate (n + 1) (.goto (label t))) := by
  have hcases : op = .jmp ∨ op = .forLoop ∨ op = .forPrep ∨ op = .tforPrep ∨ op = .tforLoop := by
    simpa [placed] using hplaced
  unfold target? at h ⊢
  simp only [hop] at h ⊢
  rcases hcases with rfl | rfl | rfl | rfl | rfl
  · refine ⟨_, _, 0, rfl, rfl, ?_⟩
    rw [unlines_append]
    refine Lines.append (?_ : Lines _ []) (lines_goto_plain (h _ rfl) 4)
    decide
  · exact ⟨_, _, 1, rfl, rfl, lines_numericLoop (h _ rfl)⟩
  · exact ⟨_, _, 1, rfl, rfl, lines_numericPrepare (h _ rfl)⟩
  · refine ⟨_, _, 0, rfl, rfl, ?_⟩
    rw [unlines_append]
    refine Lines.append (?_ : Lines _ []) (lines_goto_plain (h _ rfl) 4)
    repeat rw [code_cons]
    decide +kernel
  · refine ⟨_, _, 0, rfl, rfl, ?_⟩
    rw [unlines_append, unlines_append]
    refine (Lines.append (?_ : Lines _ []) (lines_goto_back (h _ rfl) 6)).append (?_ : Lines _ [])
    all_goals
      repeat rw [code_cons]
      decide +kernel

/-- In a literal, bytes of words say nothing. -/
theorem reads_literal (p : Place) {w : Bytes} (hw : ∀ b ∈ w, isWordByte b = true) :
    Reads ⟨.quoted 34, p⟩ w [] ⟨.quoted 34, p⟩ := by
  induction w with
  | nil => rfl
  | cons b w ih =>
    have hb := hw b List.mem_cons_self
    have hquote : b ≠ 34 := by rintro rfl; exact absurd hb (by decide)
    have hslash : b ≠ 92 := by rintro rfl; exact absurd hb (by decide)
    have hstep : Reads ⟨.quoted 34, p⟩ [b] [] ⟨.quoted 34, p⟩ := by
      simp only [Reads, run, State.step, Mode.step, hquote, hslash, if_false]
      rfl
    exact hstep.append (ih fun c hc => hw c (List.mem_cons_of_mem b hc))

/-- What stands in place of an unsupported instruction does not branch. -/
theorem lines_substitute (policy : Policy) (tag : OpTag) :
    Lines (Bytes.unlines (substitute policy tag)) [] := by
  unfold substitute
  split
  · repeat rw [code_cons]
    decide +kernel
  · have hcall : Reads .start (ascii "    luaot_unsupported(L, " ++ [34]) []
        ⟨.quoted 34, .statement .nothing⟩ := by
      rw [ascii_ofList]
      decide
    have hname := reads_literal (.statement .nothing) tag.isWordByte_name
    have hend : Reads ⟨.quoted 34, .statement .nothing⟩ ([34] ++ (ascii ");" ++ [Bytes.newline])) []
        .start := by decide
    have hline := hcall.append (hname.append hend)
    rw [Lines, Bytes.unlines, List.flatMap_singleton, Text.quoted_of_isWordByte tag.isWordByte_name]
    simp only [List.append_assoc] at hline ⊢
    exact hline

/-- The words that the statements of an instruction go to. -/
def branchWords (pc : Nat) (i : Instruction) : List Bytes :=
  match i.opcode? with
  | some op => if op ∈ placed then (target? pc i).toList.map label else macrosOf op
  | none => []

/-- The statements of an instruction, or what stands in their place, branch as they should. -/
theorem lines_statements (policy : Policy) {pc : Nat} {i : Instruction}
    (h : ∀ t, target? pc i = some t → 0 ≤ t) :
    ∃ ws : List Bytes,
      Lines (Bytes.unlines ((supported? pc i).getD (substitute policy i.tag))) (ws.map .goto) ∧
        ∀ w, w ∈ ws ↔ w ∈ branchWords pc i := by
  unfold branchWords supported?
  cases hop : i.opcode? with
  | none => exact ⟨[], lines_substitute policy i.tag, fun _ => Iff.rfl⟩
  | some op =>
    simp only [Option.bind_some]
    by_cases hplaced : op ∈ placed
    · obtain ⟨t, text, n, ht, htext, hlines⟩ := lines_ofOpcode_placed hop hplaced h
      refine ⟨List.replicate (n + 1) (label t), ?_, fun w => ?_⟩
      · rw [htext, Option.getD_some, List.map_replicate]
        exact hlines
      · simp [hplaced, ht]
    · rw [if_neg hplaced]
      refine ⟨macrosOf op, ?_, fun _ => Iff.rfl⟩
      have hlines := lines_ofOpcode hplaced pc i
      cases htext : ofOpcode pc i op with
      | some text =>
        rw [htext] at hlines
        exact hlines
      | none =>
        -- Reading no statements says nothing, so the operation has no macros either.
        rw [htext] at hlines
        rw [← hlines.events_eq]
        exact lines_substitute policy i.tag

end Statements

end LuaToC
