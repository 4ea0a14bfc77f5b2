import LuaToC.Proofs.Text.CLiteral
import LuaToC.Unit.FunctionText

/-! # Texts on one line

A text without a line feed stays on the line that it is written to.  Numbers and labels are such texts,
and so is the literal of a constant, whatever bytes are in a string.  The lemmas about them are tagged
for `simp`, which then sees of a line that is put together from such texts and fixed ones that it is one
line.
-/
namespace LuaToC

/-- The text has no line feed. -/
def isOneLine (s : Bytes) : Bool := s.all (· != Bytes.newline)

theorem isOneLine_iff {s : Bytes} : isOneLine s = true ↔ Bytes.newline ∉ s := by
  rw [isOneLine, List.all_eq_true]
  constructor
  · intro h hmem
    exact absurd (h _ hmem) (by decide)
  · intro h b hb
    exact bne_iff_ne.mpr fun heq => h (heq ▸ hb)

theorem newline_notMem_join {sep : Bytes} (hsep : Bytes.newline ∉ sep) {parts : List Bytes}
    (hparts : ∀ p ∈ parts, Bytes.newline ∉ p) : Bytes.newline ∉ Bytes.join sep parts := by
  fun_induction Bytes.join sep parts with
  | case1 => exact List.not_mem_nil
  | case2 p => exact hparts p List.mem_cons_self
  | case3 p q ps ih =>
    have hrest := ih fun r hr => hparts r (List.mem_cons_of_mem p hr)
    simp [hparts p List.mem_cons_self, hsep, hrest]

/-! ## Numbers -/

theorem newline_ne_digit {d : Nat} (h : d < 16) : Bytes.newline ≠ Bytes.digit d := by
  revert d
  decide

/-- A numeral has digits only. -/
theorem newline_notMem_digits {b : Nat} (hb : b + 2 ≤ 16) (n : Nat) :
    Bytes.newline ∉ Bytes.digits b n := by
  intro hmem
  obtain ⟨d, hd, heq⟩ := Bytes.exists_digit_of_mem_digits hmem
  exact newline_ne_digit (by omega) heq

@[simp] theorem newline_notMem_ofNat (n : Nat) : Bytes.newline ∉ Bytes.ofNat n :=
  newline_notMem_digits (by decide) n

@[simp] theorem newline_notMem_hex (n : Nat) : Bytes.newline ∉ Bytes.hex n :=
  newline_notMem_digits (by decide) n

@[simp] theorem newline_notMem_twoDigits (n : Nat) : Bytes.newline ∉ Bytes.twoDigits n := by
  simp +decide [Bytes.twoDigits, Bytes.padLeft]

@[simp] theorem newline_notMem_hexByte (b : UInt8) : Bytes.newline ∉ Bytes.hexByte b := by
  simp +decide [Bytes.hexByte, Bytes.padLeft]

@[simp] theorem newline_notMem_hexText (i : Instruction) : Bytes.newline ∉ i.hexText := by
  simp +decide [Instruction.hexText, Bytes.padLeft]

@[simp] theorem newline_notMem_ofInt (n : Int) : Bytes.newline ∉ Bytes.ofInt n := by
  unfold Bytes.ofInt
  split <;> simp +decide

theorem newline_notMem_join_ofInt {sep : Bytes} (hsep : Bytes.newline ∉ sep) (ns : List Int) :
    Bytes.newline ∉ Bytes.join sep (ns.map Bytes.ofInt) := by
  refine newline_notMem_join hsep fun p hp => ?_
  obtain ⟨n, -, rfl⟩ := List.mem_map.mp hp
  exact newline_notMem_ofInt n

@[simp] theorem newline_notMem_numbers (ns : List Int) : Bytes.newline ∉ Annotation.numbers ns :=
  newline_notMem_join_ofInt (by decide) ns

@[simp] theorem newline_notMem_treePath (path : List Int) : Bytes.newline ∉ TreePath.text path :=
  newline_notMem_join_ofInt (by decide) path

@[simp] theorem newline_notMem_label (t : Int64) : Bytes.newline ∉ Branch.label t := by
  unfold Branch.label
  split <;> simp +decide

/-! ## Constants -/

theorem newline_notMem_scientific {ds : Bytes} (h : Bytes.newline ∉ ds) (x : Int) :
    Bytes.newline ∉ Decimal.scientific ds x := by
  have hsign : Bytes.newline ≠ if x < 0 then 45 else 43 := by split <;> decide
  unfold Decimal.scientific
  dsimp only
  split
  · simp +decide [hsign]
  · rw [List.mem_singleton] at h
    simp +decide [h, hsign]
  · rw [List.mem_cons, not_or] at h
    simp +decide [h, hsign]

theorem newline_notMem_positional {ds : Bytes} (h : Bytes.newline ∉ ds) (point : Int) :
    Bytes.newline ∉ Decimal.positional ds point := by
  have htake (n : Nat) : Bytes.newline ∉ ds.take n := fun hmem => h (List.mem_of_mem_take hmem)
  have hdrop (n : Nat) : Bytes.newline ∉ ds.drop n := fun hmem => h (List.mem_of_mem_drop hmem)
  unfold Decimal.positional
  split
  · simp +decide [h]
  split
  · simp +decide [h]
  · simp +decide [htake, hdrop]

@[simp] theorem newline_notMem_decimal (d : Decimal) : Bytes.newline ∉ d.text := by
  unfold Decimal.text
  split
  · decide
  dsimp only
  split
  · exact newline_notMem_scientific (newline_notMem_ofNat _) _
  · exact newline_notMem_positional (newline_notMem_ofNat _) _

@[simp] theorem newline_notMem_float (x : Binary64) : Bytes.newline ∉ x.text := by
  have htext (negative : Bool) (d : Decimal) :
      Bytes.newline ∉ (if negative then [45] else []) ++ d.text := by
    cases negative <;> simp +decide
  unfold Binary64.text
  split
  · decide
  split
  · split <;> decide
  · dsimp only
    generalize (if x.significand = 0 then _ else _ : Decimal) = d
    by_cases hwhole : Binary64.looksWhole ((if x.isNegative then [45] else []) ++ d.text) = true
    · rw [if_pos hwhole, List.mem_append, not_or]
      exact ⟨htext x.isNegative d, by decide⟩
    · rw [if_neg hwhole]
      exact htext x.isNegative d

@[simp] theorem newline_notMem_literal (s : Bytes) : Bytes.newline ∉ CLiteral.ofString s := by
  intro hmem
  simp only [CLiteral.ofString, List.mem_append, List.mem_singleton, List.mem_flatMap] at hmem
  rcases hmem with (heq | ⟨b, -, hb⟩) | heq
  · exact absurd heq (by decide)
  · exact absurd (CLiteral.printable_of_mem_escape hb).1 (by decide)
  · exact absurd heq (by decide)

@[simp] theorem newline_notMem_constant (k : Constant) : Bytes.newline ∉ k.text := by
  cases k with
  | bool b => cases b <;> decide
  | _ => simp +decide [Constant.text]

/-! ## Names -/

@[simp] theorem newline_notMem_oneLine (s : Bytes) : Bytes.newline ∉ FunctionText.oneLine s := by
  intro hmem
  obtain ⟨b, -, hb⟩ := List.mem_map.mp hmem
  split at hb
  · exact absurd hb (by decide)
  · rename_i hother
    exact hother (.inr hb)

theorem newline_notMem_nameOfUpvalue {f : FunctionBody}
    (h : ∀ u ∈ f.upvalues, Bytes.newline ∉ u.name) (n : Int64) :
    Bytes.newline ∉ f.nameOfUpvalue n := by
  unfold FunctionBody.nameOfUpvalue
  split
  · split
    · rename_i u hu
      split
      · decide
      · exact h u (List.mem_of_getElem? hu)
    · decide
  · decide

end LuaToC
