import LuaToC.Proofs.Unit.Branches

/-! # What branch errors say

When the check refuses a function it names an instruction, a target and a fault.  `Error.IsAccurate`
is what a reader takes from that: the instruction is the first ill-branched one of the function, and
the fault and the target are its own.

One kind of function is reported otherwise.  The check looks up the jump after a test as a number,
and a negative number stands for no jump.  So when a test is followed by a jump to a position in front
of the function, the test is said to have no jump after it (`JumpsInFront`).  `check_error_accurate`
says that errors are accurate in all other cases.
-/
namespace LuaToC.Branch

/-! ## Accurate errors -/

/-- The error states the fault of the instruction `i`, by the rule of its own operation: a target
outside the function, or no jump after a test. -/
def Error.Explains (e : Error) (code : List Instruction) (i : Instruction) : Prop :=
  e.fault.reason = [] ∧ (targets code e.pc i).head? = some e.target.toInt ∧
      (e.target.toInt < 0 ∨ code.length ≤ e.target.toInt) ∨
    e.fault.reason = ascii "test instruction not followed by JMP" ∧
      i.opcode?.any (· ∈ tests) = true ∧
      ∀ next, code[e.pc + 1]? = some next → next.opcode? ≠ some .jmp

/-- The error is about the first ill-branched instruction, and says what is wrong with it. -/
structure Error.IsAccurate (e : Error) (code : List Instruction) : Prop where
  named : ∃ i, code[e.pc]? = some i ∧ e.tag = i.tag ∧ IllBranched code e.pc i ∧ e.Explains code i
  first : ∀ pc < e.pc, ∀ i, code[pc]? = some i → ¬ IllBranched code pc i

/-- At `pc` stands a test, and the jump after it goes to a position in front of the function. -/
def JumpsInFront (code : List Instruction) (pc : Nat) : Prop :=
  (∃ i, code[pc]? = some i ∧ i.opcode?.any (· ∈ tests) = true) ∧
    ∃ next, code[pc + 1]? = some next ∧ next.opcode? = some .jmp ∧ (pc + 2 + next.sJ : Int) < 0

/-! ## Jumps after an instruction -/

theorem jumpsAfter_eq_nil_iff {code : List Instruction} {pc : Nat} :
    jumpsAfter code pc = [] ↔ ∀ next, code[pc + 1]? = some next → next.opcode? ≠ some .jmp := by
  unfold jumpsAfter
  cases hnext : code[pc + 1]? with
  | none => simp
  | some next =>
    cases hjump : next.isJump <;> simp_all [Instruction.isJump]

theorem jumpsAfter_eq_singleton_iff {code : List Instruction} {pc : Nat} {z : Int} :
    jumpsAfter code pc = [z] ↔
      ∃ next, code[pc + 1]? = some next ∧ next.opcode? = some .jmp ∧ (pc + 2 + next.sJ : Int) = z := by
  unfold jumpsAfter
  cases hnext : code[pc + 1]? with
  | none => simp
  | some next =>
    cases hjump : next.isJump <;> simp_all [Instruction.isJump]

/-! ## Defects -/

/-- What the unit finds wrong with an instruction that is no test: its own target is outside. -/
theorem targets_of_defect? {code : List Instruction} {pc : Nat} {i : Instruction} {t : Int64}
    {fault : Fault} (hpc : pc < 0x4000000000000000) (htest : i.tag.isTest = false)
    (h : defect? code pc i = some (t, fault)) :
    fault = .outOfRange ∧ targets code pc i = [t.toInt] ∧
      (t.toInt < 0 ∨ code.length ≤ t.toInt) := by
  cases hown : target? pc i with
  | none => simp [defect?, hown, htest] at h
  | some own =>
    obtain ⟨-, z, rfl, hz⟩ := ofInt_targets hown code
    have hbounds := targets_bounds hpc (hz ▸ List.mem_singleton_self z)
    have hvalue := toInt_ofInt hbounds.1 hbounds.2
    simp only [defect?, hown] at h
    split at h
    · cases h
    · rename_i houtside
      cases h
      rw [isInside_ofInt hbounds.1 hbounds.2] at houtside
      rw [hvalue]
      exact ⟨rfl, hz, by omega⟩

/-- And with a test: no jump is after it that the unit sees, or nothing is after the jump. -/
theorem fault_of_defect? {code : List Instruction} {pc : Nat} {i : Instruction} {t : Int64}
    {fault : Fault} (hpc : pc < 0x4000000000000000) (htest : i.tag.isTest = true)
    (h : defect? code pc i = some (t, fault)) :
    fault = .noJumpAfterTest ∧ t.toInt = pc + 1 ∧ (∀ z ∈ jumpsAfter code pc, z < 0) ∨
      fault = .outOfRange ∧ t.toInt = pc + 2 ∧ code.length ≤ pc + 2 ∧
        ∃ z, jumpsAfter code pc = [z] ∧ 0 ≤ z := by
  simp only [defect?, target?_of_isTest htest, htest, if_true] at h
  split at h
  · rename_i hnegative
    cases h
    left
    refine ⟨rfl, ?_, ?_⟩
    · have hafter : position pc + 1 = Int64.ofInt (pc + 1) := by
        rw [Int64.ofInt_add, Int64.ofInt_eq_ofNat]
        rfl
      rw [hafter]
      exact toInt_ofInt (by omega) (by omega)
    · intro z hz
      refine Int.not_le.mp fun hnonneg => ?_
      refine absurd hnegative ((not_following_neg_iff hpc).mpr ⟨z, ?_, hnonneg⟩)
      rcases jumpsAfter_cases code pc with hnil | ⟨_, _, _, _, y, hy⟩
      · simp [hnil] at hz
      · rw [hy, List.mem_singleton] at hz
        rw [hy, hz]
  · rename_i hnonneg
    split at h
    · cases h
    · rename_i houtside
      cases h
      right
      rw [position_add_two, isInside_ofInt (by omega) (by omega)] at houtside
      rw [position_add_two, toInt_ofInt (by omega) (by omega)]
      exact ⟨rfl, rfl, by omega, (not_following_neg_iff hpc).mp hnonneg⟩

/-! ## Errors -/

/-- An error of the check is about the first instruction with a defect, and states the defect. -/
theorem exists_defect_of_check_eq_error {name : Bytes} {code : List Instruction} {e : Error}
    (h : check name code = .error e) :
    ∃ i, code[e.pc]? = some i ∧ e.tag = i.tag ∧ defect? code e.pc i = some (e.target, e.fault) ∧
      ∀ pc < e.pc, ∀ j, code[pc]? = some j → defect? code pc j = none := by
  dsimp only [check] at h
  split at h
  · rename_i e' he
    cases h
    obtain ⟨before, ⟨i, pc⟩, after, hsplit, hdefect, hbefore⟩ := List.findSome?_eq_some_iff.mp he
    obtain ⟨⟨target, fault⟩, hfound, rfl⟩ := Option.map_eq_some_iff.mp hdefect
    have hhere : code.zipIdx[before.length]? = some (i, pc) := by simp [hsplit]
    have hpc : before.length = pc := by
      rw [List.getElem?_zipIdx, Option.map_eq_some_iff] at hhere
      obtain ⟨_, -, hpair⟩ := hhere
      exact (Nat.zero_add _).symm.trans (Prod.mk.inj hpair).2
    have hi : code[pc]? = some i :=
      List.mem_zipIdx_iff_getElem?.mp (hsplit ▸ List.mem_append_right _ List.mem_cons_self)
    refine ⟨i, hi, rfl, hfound, fun k hk j hj => ?_⟩
    -- The instructions before it are the first ones of the split.
    have hmem : (j, k) ∈ before := by
      have hearlier : code.zipIdx[k]? = some (j, k) := by
        rw [List.getElem?_zipIdx, hj, Nat.zero_add]
        rfl
      rw [hsplit, List.getElem?_append_left (by rw [hpc]; exact hk)] at hearlier
      exact List.mem_of_getElem? hearlier
    exact Option.map_eq_none_iff.mp (hbefore (j, k) hmem)
  · cases h

/-- An instruction with a defect that is no test is ill-branched, and the defect explains why. -/
theorem explains_of_not_isTest {code : List Instruction} {i : Instruction} {e : Error}
    (hpc : e.pc < 0x4000000000000000) (htest : i.tag.isTest = false)
    (h : defect? code e.pc i = some (e.target, e.fault)) :
    IllBranched code e.pc i ∧ e.Explains code i := by
  obtain ⟨hfault, htargets, houtside⟩ := targets_of_defect? hpc htest h
  constructor
  · rw [IllBranched, any_mem_tests, htest, if_neg Bool.false_ne_true, htargets]
    exact ⟨_, List.mem_singleton_self _, houtside⟩
  · left
    rw [hfault, htargets]
    exact ⟨rfl, rfl, houtside⟩

/-- A test with a defect is ill-branched, unless the jump after it goes in front of the function. -/
theorem explains_of_isTest {code : List Instruction} {i : Instruction} {e : Error}
    (hpc : e.pc < 0x4000000000000000) (htest : i.tag.isTest = true)
    (hfront : ∀ z, jumpsAfter code e.pc = [z] → 0 ≤ z)
    (h : defect? code e.pc i = some (e.target, e.fault)) :
    IllBranched code e.pc i ∧ e.Explains code i := by
  rw [IllBranched, any_mem_tests, htest, if_pos rfl]
  rcases fault_of_defect? hpc htest h with ⟨hfault, -, hnegative⟩ | ⟨hfault, htarget, hend, -⟩
  -- A jump that the check does not see would be one in front of the function.
  · have hnil : jumpsAfter code e.pc = [] := by
      rcases jumpsAfter_cases code e.pc with hnil | ⟨_, _, _, _, z, hz⟩
      · exact hnil
      · have hlow := hnegative z (by simp [hz])
        have hhigh := hfront z hz
        omega
    refine ⟨Or.inl hnil, Or.inr ⟨?_, ?_, jumpsAfter_eq_nil_iff.mp hnil⟩⟩
    · rw [hfault]
      rfl
    · rw [any_mem_tests, htest]
  · refine ⟨Or.inr hend, Or.inl ⟨?_, ?_, ?_⟩⟩
    · rw [hfault]
      rfl
    · rw [targets_of_isTest htest, htarget]
      rfl
    · omega

theorem jumpsInFront_iff {code : List Instruction} {pc : Nat} {i : Instruction}
    (hi : code[pc]? = some i) :
    JumpsInFront code pc ↔ i.tag.isTest = true ∧ ∃ z, jumpsAfter code pc = [z] ∧ z < 0 := by
  constructor
  · rintro ⟨⟨j, hj, htest⟩, next, hnext, hjump, hneg⟩
    obtain rfl : i = j := Option.some.inj (hi.symm.trans hj)
    rw [any_mem_tests] at htest
    exact ⟨htest, _, jumpsAfter_eq_singleton_iff.mpr ⟨next, hnext, hjump, rfl⟩, hneg⟩
  · rintro ⟨htest, z, hz, hneg⟩
    obtain ⟨next, hnext, hjump, rfl⟩ := jumpsAfter_eq_singleton_iff.mp hz
    exact ⟨⟨i, hi, (any_mem_tests i).trans htest⟩, next, hnext, hjump, hneg⟩

/-- A jump in front of the function is ill-branched itself. -/
theorem illBranched_of_neg {code : List Instruction} {pc : Nat} {i : Instruction}
    (hjump : i.opcode? = some .jmp) (hneg : (pc + 1 + i.sJ : Int) < 0) : IllBranched code pc i := by
  have htargets : targets code pc i = [(pc + 1 + i.sJ : Int)] := by simp only [targets, hjump]
  rw [IllBranched, hjump, htargets]
  exact ⟨_, List.mem_singleton_self _, Or.inl hneg⟩

/-- An error that denies the jump after a test explains nothing when the jump is there. -/
theorem not_explains_of_jump {code : List Instruction} {i : Instruction} {e : Error}
    (hfault : e.fault = .noJumpAfterTest) {next : Instruction} (hnext : code[e.pc + 1]? = some next)
    (hjump : next.opcode? = some .jmp) : ¬ e.Explains code i := by
  rintro (⟨hreason, -⟩ | ⟨-, -, hnone⟩)
  · rw [hfault] at hreason
    exact absurd hreason (by decide)
  · exact hnone next hnext hjump

/-- **An error of the check states a real defect, with one exception.**  It names the first
ill-branched instruction and says what is wrong with it, just when that is not a test whose jump goes
in front of the function.  Of such a test it says that no jump follows; the jump is there, and it is
the jump that is ill-branched.  In both cases no instruction before the named one is. -/
theorem check_error_accurate (name : Bytes) {code : List Instruction}
    (hn : code.length < 0x4000000000000000) {e : Error} (h : check name code = .error e) :
    e.function = name ∧ (e.IsAccurate code ↔ ¬ JumpsInFront code e.pc) ∧
      (∀ pc < e.pc, ∀ i, code[pc]? = some i → ¬ IllBranched code pc i) ∧
      (JumpsInFront code e.pc →
        e.fault = .noJumpAfterTest ∧ e.target.toInt = e.pc + 1 ∧
          ∃ next, code[e.pc + 1]? = some next ∧ next.opcode? = some .jmp ∧
            IllBranched code (e.pc + 1) next) := by
  obtain ⟨i, hi, htag, hdefect, hbefore⟩ := exists_defect_of_check_eq_error h
  have hlt := (List.getElem?_eq_some_iff.mp hi).1
  have hpc : e.pc < 0x4000000000000000 := by omega
  have hfirst : ∀ pc < e.pc, ∀ j, code[pc]? = some j → ¬ IllBranched code pc j :=
    fun pc hlt j hj => not_illBranched_of_defect?_eq_none (by omega) (hbefore pc hlt j hj)
  have hexception : JumpsInFront code e.pc →
      e.fault = .noJumpAfterTest ∧ e.target.toInt = e.pc + 1 ∧
        ∃ next, code[e.pc + 1]? = some next ∧ next.opcode? = some .jmp ∧
          IllBranched code (e.pc + 1) next := by
    intro hfront
    obtain ⟨htest, z, hz, hneg⟩ := (jumpsInFront_iff hi).mp hfront
    obtain ⟨next, hnext, hjump, rfl⟩ := jumpsAfter_eq_singleton_iff.mp hz
    rcases fault_of_defect? hpc htest hdefect with ⟨hfault, htarget, -⟩ | ⟨-, -, -, y, hy, hnonneg⟩
    · exact ⟨hfault, htarget, next, hnext, hjump, illBranched_of_neg hjump (by omega)⟩
    · rw [hz, List.singleton_inj] at hy
      omega
  refine ⟨function_of_check_eq_error h, ⟨fun haccurate hfront => ?_, fun hfront => ?_⟩, hfirst,
    hexception⟩
  · obtain ⟨hfault, -, next, hnext, hjump, -⟩ := hexception hfront
    obtain ⟨j, -, -, -, hexplains⟩ := haccurate.named
    exact not_explains_of_jump hfault hnext hjump hexplains
  · refine ⟨⟨i, hi, htag, ?_⟩, hfirst⟩
    cases htest : i.tag.isTest with
    | false => exact explains_of_not_isTest hpc htest hdefect
    | true =>
      refine explains_of_isTest hpc htest (fun z hz => Int.not_lt.mp fun hneg => hfront ?_) hdefect
      exact (jumpsInFront_iff hi).mpr ⟨htest, z, hz, hneg⟩

/-- A generic loop whose start jumps out of the function, after a test with its jump. -/
def skippedLoopSample : List Instruction :=
  [.ofABC Opcode.test.tag 0 0 0 0, .ofSJ Opcode.jmp.tag 1, .ofABx Opcode.tforPrep.tag 0 7,
   .ofABC Opcode.ret0.tag 0 1 1 0]

/-- The third instruction of the sample is named, with the position that it jumps to. -/
theorem check_error_accurate_skippedLoopSample :
    ∃ e, check (ascii "f") skippedLoopSample = .error e ∧ e.pc = 2 ∧ e.target.toInt = 10 ∧
      e.IsAccurate skippedLoopSample := by
  have hcheck : check (ascii "f") skippedLoopSample =
      .error ⟨ascii "f", 2, Opcode.tforPrep.tag, 10, .outOfRange⟩ := rfl
  have hfront : ¬ JumpsInFront skippedLoopSample 2 := by
    rintro ⟨⟨i, hi, htest⟩, -⟩
    cases hi
    exact absurd htest (by decide)
  exact ⟨_, hcheck, rfl, rfl, (check_error_accurate (ascii "f") (by decide) hcheck).2.1.mpr hfront⟩

/-- A test, a jump far back, and an instruction after them. -/
def farBackSample : List Instruction :=
  [.ofABC Opcode.test.tag 0 0 0 0, .ofSJ Opcode.jmp.tag (-100), .ofABC Opcode.ret0.tag 0 1 1 0]

/-- The test of the sample is said to have no jump after it.  It has one, so the error is not
accurate: the jump should have been named, with its target. -/
theorem check_error_farBackSample :
    check (ascii "f") farBackSample =
        .error ⟨ascii "f", 0, Opcode.test.tag, 1, .noJumpAfterTest⟩ ∧
      jumpsAfter farBackSample 0 = [-98] ∧
      ¬ Error.IsAccurate ⟨ascii "f", 0, Opcode.test.tag, 1, .noJumpAfterTest⟩ farBackSample := by
  have hnext : farBackSample[1]? = some (.ofSJ Opcode.jmp.tag (-100)) := rfl
  refine ⟨rfl, by decide, fun haccurate => ?_⟩
  obtain ⟨i, -, -, -, hexplains⟩ := haccurate.named
  exact not_explains_of_jump rfl hnext (by decide) hexplains

end LuaToC.Branch
