import LuaToC.Unit.Branch

/-! # Where branches go

`targets` says, over the integers, where an instruction of Lua 5.4 may go other than on to the
next one.  The unit works with 64-bit positions instead; `ofInt_targets` and
`following_of_jumpsAfter` say that its positions are those of the rules, and for functions of
less than `0x4000000000000000` instructions no position wraps (`isInside_ofInt`).

`IllBranched` is the fault of a single instruction, and `check_eq_ok_iff_illBranched` says that the check
accepts exactly the functions without one.  The check is not the same instruction by instruction:
a test whose jump goes to a negative position is reported at the test, although the fault is the
jump's.  What it accepts is the same, since it reads the jump as well.
-/
namespace LuaToC.Branch

/-! ## The rules -/

/-- The operations that decide whether the jump after them is taken. -/
def tests : List Opcode :=
  [.eq, .lt, .le, .eqK, .eqI, .ltI, .leI, .gtI, .geI, .test, .testSet]

/-- Where the jump after the instruction at `pc` goes, if there is one. -/
def jumpsAfter (code : List Instruction) (pc : Nat) : List Int :=
  match code[pc + 1]? with
  | some next => if next.isJump then [pc + 2 + next.sJ] else []
  | none => []

/-- Where the instruction `i` at `pc` may go other than on to the next one. -/
def targets (code : List Instruction) (pc : Nat) (i : Instruction) : List Int :=
  match i.opcode? with
  | some .jmp => [pc + 1 + i.sJ]
  | some .forLoop | some .tforLoop => [pc + 1 - i.bx]
  | some .forPrep => [pc + 2 + i.bx]
  | some .tforPrep => [pc + 1 + i.bx]
  | some .lFalseSkip | some .loadKX => [pc + 2]
  | some op => if op ∈ tests then (pc + 2 : Int) :: jumpsAfter code pc else []
  | none => []

/-- The instruction is a test without a jump after it or without an instruction after the jump,
or it may go out of the function by itself. -/
def IllBranched (code : List Instruction) (pc : Nat) (i : Instruction) : Prop :=
  if i.opcode?.any (· ∈ tests) then jumpsAfter code pc = [] ∨ code.length ≤ pc + 2
  else ∃ t ∈ targets code pc i, t < 0 ∨ code.length ≤ t

instance (code : List Instruction) (pc : Nat) (i : Instruction) :
    Decidable (IllBranched code pc i) := by
  delta IllBranched
  infer_instance

/-! ## Positions -/

theorem jump_ofInt (pc : Nat) (s : Int) :
    jump (position pc) (Int64.ofInt s) = Int64.ofInt (pc + 1 + s) := by
  rw [Int64.ofInt_add, Int64.ofInt_add, Int64.ofInt_eq_ofNat]
  rfl

theorem loopBack_ofInt (pc bx : Nat) :
    loopBack (position pc) (Int64.ofNat bx) = Int64.ofInt (pc + 1 - bx) := by
  rw [Int64.ofInt_sub, Int64.ofInt_add, Int64.ofInt_eq_ofNat, Int64.ofInt_eq_ofNat]
  rfl

theorem forward_ofInt (pc bx : Nat) :
    forward (position pc) (Int64.ofNat bx) = Int64.ofInt (pc + 1 + bx) := by
  rw [Int64.ofInt_add, Int64.ofInt_add, Int64.ofInt_eq_ofNat, Int64.ofInt_eq_ofNat]
  rfl

theorem loopSkip_ofInt (pc bx : Nat) :
    loopSkip (position pc) (Int64.ofNat bx) = Int64.ofInt (pc + 2 + bx) := by
  have hforward : loopSkip (position pc) (Int64.ofNat bx) =
      forward (position pc) (Int64.ofNat bx) + 1 := rfl
  rw [hforward, forward_ofInt, show (pc + 2 + bx : Int) = pc + 1 + bx + 1 by omega,
    Int64.ofInt_add (_ + _) 1]
  rfl

theorem position_add_two (pc : Nat) : position pc + 2 = Int64.ofInt (pc + 2) := by
  rw [Int64.ofInt_add, Int64.ofInt_eq_ofNat]
  rfl

theorem toInt_ofInt {t : Int} (hlow : -0x8000000000000000 ≤ t) (hhigh : t < 0x8000000000000000) :
    (Int64.ofInt t).toInt = t :=
  Int64.toInt_ofInt_of_le hlow hhigh

/-- A position that does not wrap is inside a function when its number is. -/
theorem isInside_ofInt {n : Nat} {t : Int} (hlow : -0x8000000000000000 ≤ t)
    (hhigh : t < 0x8000000000000000) :
    isInside n (Int64.ofInt t) = true ↔ 0 ≤ t ∧ t < n := by
  rw [isInside, Bool.and_eq_true, decide_eq_true_iff, decide_eq_true_iff, Int64.le_iff_toInt_le,
    toInt_ofInt hlow hhigh]
  rfl

/-! ## Targets as positions -/

theorem any_mem_tests (i : Instruction) : i.opcode?.any (· ∈ tests) = i.tag.isTest := by
  rw [OpTag.isTest, Instruction.opcode?]
  cases i.tag.opcode? with
  | none => rfl
  | some op => cases op <;> rfl

/-- An instruction with a target of its own has no other, and is no test. -/
theorem ofInt_targets {pc : Nat} {i : Instruction} {t : Int64} (h : target? pc i = some t)
    (code : List Instruction) :
    i.tag.isTest = false ∧ ∃ z, t = Int64.ofInt z ∧ targets code pc i = [z] := by
  rw [← any_mem_tests]
  unfold target? at h
  unfold targets
  cases hop : i.opcode? with
  | none => simp [hop] at h
  | some op =>
    rw [hop] at h
    cases op <;> simp only [Option.some.injEq, reduceCtorEq] at h
    case jmp => exact ⟨rfl, _, by rw [← h, jump_ofInt], rfl⟩
    case forLoop => exact ⟨rfl, _, by rw [← h, loopBack_ofInt], rfl⟩
    case tforLoop => exact ⟨rfl, _, by rw [← h, loopBack_ofInt], rfl⟩
    case forPrep => exact ⟨rfl, _, by rw [← h, loopSkip_ofInt], rfl⟩
    case tforPrep => exact ⟨rfl, _, by rw [← h, forward_ofInt], rfl⟩
    case lFalseSkip => exact ⟨rfl, _, by rw [← h, position_add_two], rfl⟩
    case loadKX => exact ⟨rfl, _, by rw [← h, position_add_two], rfl⟩

/-- An instruction without a target of its own branches only if it is a test. -/
theorem targets_of_target?_eq_none {pc : Nat} {i : Instruction} (h : target? pc i = none)
    (code : List Instruction) :
    targets code pc i = if i.tag.isTest then (pc + 2 : Int) :: jumpsAfter code pc else [] := by
  rw [← any_mem_tests]
  unfold target? at h
  unfold targets
  cases hop : i.opcode? with
  | none => rfl
  | some op =>
    rw [hop] at h
    cases op <;> first | rfl | simp only [reduceCtorEq] at h

/-- A test has no target of its own. -/
theorem target?_of_isTest {i : Instruction} (htest : i.tag.isTest = true) (pc : Nat) :
    target? pc i = none := by
  cases ht : target? pc i with
  | none => rfl
  | some t => exact absurd htest (by rw [(ofInt_targets ht []).1]; decide)

/-- A test goes past the jump after it or where the jump goes. -/
theorem targets_of_isTest {i : Instruction} (htest : i.tag.isTest = true)
    (code : List Instruction) (pc : Nat) :
    targets code pc i = (pc + 2 : Int) :: jumpsAfter code pc := by
  rw [targets_of_target?_eq_none (target?_of_isTest htest pc), htest, if_pos rfl]

/-- The jump after an instruction, as the unit finds it. -/
theorem following_of_jumpsAfter {code : List Instruction} {pc : Nat} {z : Int}
    (h : jumpsAfter code pc = [z]) : following code pc = Int64.ofInt z := by
  unfold jumpsAfter at h
  unfold following
  cases hnext : code[pc + 1]? with
  | none =>
    rw [hnext] at h
    cases h
  | some next =>
    rw [hnext] at h
    dsimp only at h ⊢
    by_cases hjump : next.isJump = true
    · rw [if_pos hjump] at h ⊢
      rw [jump_ofInt, ← List.singleton_inj.mp h]
      rfl
    · rw [if_neg hjump] at h
      cases h

theorem following_of_jumpsAfter_eq_nil {code : List Instruction} {pc : Nat}
    (h : jumpsAfter code pc = []) : following code pc = -1 := by
  unfold jumpsAfter at h
  unfold following
  cases hnext : code[pc + 1]? with
  | none => rfl
  | some next =>
    rw [hnext] at h
    dsimp only at h ⊢
    by_cases hjump : next.isJump = true
    · rw [if_pos hjump] at h
      cases h
    · rw [if_neg hjump]

/-- Either no jump follows, or the next instruction is one and has the target as its only one. -/
theorem jumpsAfter_cases (code : List Instruction) (pc : Nat) :
    jumpsAfter code pc = [] ∨
      ∃ next, code[pc + 1]? = some next ∧ next.tag.isTest = false ∧
        jumpsAfter code pc = targets code (pc + 1) next ∧ ∃ z, jumpsAfter code pc = [z] := by
  unfold jumpsAfter
  split
  · rename_i next hnext
    split
    · rename_i hjump
      have hop : next.opcode? = some .jmp := by simpa [Instruction.isJump] using hjump
      have hnot : next.tag.isTest = false := by rw [← any_mem_tests, hop]; rfl
      refine Or.inr ⟨next, hnext, hnot, ?_, _, rfl⟩
      simp only [targets, hop, List.cons.injEq, and_true]
      omega
    · exact Or.inl rfl
  · exact Or.inl rfl

/-! ## No position wraps -/

theorem sJ_bounds (i : Instruction) : -16777215 ≤ i.sJ ∧ i.sJ ≤ 16777216 := by
  have hfield : i.field 7 25 < 33554432 := Nat.mod_lt _ (by decide)
  unfold Instruction.sJ Instruction.offsetSJ
  omega

theorem bx_lt (i : Instruction) : i.bx < 131072 := Nat.mod_lt _ (by decide)

theorem jumpsAfter_bounds {code : List Instruction} {pc : Nat} {t : Int}
    (hpc : pc < 0x4000000000000000) (ht : t ∈ jumpsAfter code pc) :
    -0x8000000000000000 ≤ t ∧ t < 0x8000000000000000 := by
  unfold jumpsAfter at ht
  split at ht
  · rename_i next hnext
    split at ht
    · have hsJ := sJ_bounds next
      have hz := List.mem_singleton.mp ht
      omega
    · exact absurd ht List.not_mem_nil
  · exact absurd ht List.not_mem_nil

theorem targets_bounds {code : List Instruction} {pc : Nat} {i : Instruction} {t : Int}
    (hpc : pc < 0x4000000000000000) (ht : t ∈ targets code pc i) :
    -0x8000000000000000 ≤ t ∧ t < 0x8000000000000000 := by
  have hsJ := sJ_bounds i
  have hbx := bx_lt i
  unfold targets at ht
  split at ht
  case h_8 op _ _ _ _ _ _ _ =>
    split at ht
    · rcases List.mem_cons.mp ht with rfl | ht
      · omega
      · exact jumpsAfter_bounds hpc ht
    · exact absurd ht List.not_mem_nil
  case h_9 => exact absurd ht List.not_mem_nil
  all_goals
    have hz := List.mem_singleton.mp ht
    omega

/-! ## Faults of single instructions -/

/-- Any instruction but a test has to keep its targets inside. -/
theorem not_illBranched_iff {code : List Instruction} {pc : Nat} {i : Instruction}
    (htest : i.tag.isTest = false) :
    ¬ IllBranched code pc i ↔ ∀ t ∈ targets code pc i, 0 ≤ t ∧ t < code.length := by
  rw [IllBranched, any_mem_tests, htest, if_neg Bool.false_ne_true]
  constructor
  · intro h t ht
    constructor
    · exact Int.not_lt.mp fun hneg => h ⟨t, ht, Or.inl hneg⟩
    · exact Int.not_le.mp fun hlarge => h ⟨t, ht, Or.inr hlarge⟩
  · rintro h ⟨t, ht, hneg | hlarge⟩
    · exact Int.not_lt.mpr (h t ht).1 hneg
    · exact Int.not_le.mpr (h t ht).2 hlarge

/-- A test has to have a jump after it and an instruction after that. -/
theorem not_illBranched_test_iff {code : List Instruction} {pc : Nat} {i : Instruction}
    (htest : i.tag.isTest = true) :
    ¬ IllBranched code pc i ↔ jumpsAfter code pc ≠ [] ∧ pc + 2 < code.length := by
  rw [IllBranched, any_mem_tests, htest, if_pos rfl, not_or, Nat.not_le]

/-- The unit finds the faults of all instructions but tests as they are. -/
theorem defect?_eq_none_iff {code : List Instruction} {pc : Nat} {i : Instruction}
    (hpc : pc < 0x4000000000000000) (htest : i.tag.isTest = false) :
    defect? code pc i = none ↔ ¬ IllBranched code pc i := by
  rw [not_illBranched_iff htest]
  cases ht : target? pc i with
  | some t =>
    obtain ⟨-, z, rfl, hz⟩ := ofInt_targets ht code
    have hbounds := targets_bounds hpc (hz ▸ List.mem_singleton_self z)
    have hinside : defect? code pc i = none ↔ isInside code.length (Int64.ofInt z) = true := by
      simp only [defect?, ht]
      split <;> simp_all
    rw [hinside, isInside_ofInt hbounds.1 hbounds.2, hz, List.forall_mem_singleton]
  | none =>
    rw [targets_of_target?_eq_none ht, htest]
    simp [defect?, ht, htest]

/-- The unit takes a jump to a negative position for no jump at all. -/
theorem not_following_neg_iff {code : List Instruction} {pc : Nat}
    (hpc : pc < 0x4000000000000000) :
    ¬ following code pc < 0 ↔ ∃ z, jumpsAfter code pc = [z] ∧ 0 ≤ z := by
  rcases jumpsAfter_cases code pc with hnil | ⟨_, _, _, _, z, hz⟩
  · rw [following_of_jumpsAfter_eq_nil hnil, hnil]
    simp
  · have hbounds := jumpsAfter_bounds hpc (hz ▸ List.mem_singleton_self z)
    rw [following_of_jumpsAfter hz, Int64.lt_iff_toInt_lt, toInt_ofInt hbounds.1 hbounds.2, hz]
    simp

/-- In a test the unit finds a fault also when the jump after it goes to a negative position. -/
theorem defect?_test_eq_none_iff {code : List Instruction} {pc : Nat} {i : Instruction}
    (hpc : pc < 0x4000000000000000) (htest : i.tag.isTest = true) :
    defect? code pc i = none ↔
      (∃ z, jumpsAfter code pc = [z] ∧ 0 ≤ z) ∧ pc + 2 < code.length := by
  have hnone := target?_of_isTest htest pc
  have hdefect : defect? code pc i = none ↔
      ¬ following code pc < 0 ∧ isInside code.length (position pc + 2) = true := by
    simp only [defect?, hnone, htest, if_true]
    split
    · simp_all
    · split <;> simp_all
  rw [hdefect, not_following_neg_iff hpc, position_add_two, isInside_ofInt (by omega) (by omega)]
  have hskip : (0 ≤ (pc + 2 : Int) ∧ (pc + 2 : Int) < code.length) ↔ pc + 2 < code.length := by omega
  rw [hskip]

/-- An instruction in which the unit finds nothing wrong is not ill-branched. -/
theorem not_illBranched_of_defect?_eq_none {code : List Instruction} {pc : Nat} {i : Instruction}
    (hpc : pc < 0x4000000000000000) (h : defect? code pc i = none) : ¬ IllBranched code pc i := by
  cases htest : i.tag.isTest with
  | false => exact (defect?_eq_none_iff hpc htest).mp h
  | true =>
    obtain ⟨⟨z, hz, -⟩, hskip⟩ := (defect?_test_eq_none_iff hpc htest).mp h
    exact (not_illBranched_test_iff htest).mpr ⟨by simp [hz], hskip⟩

/-! ## The check -/

/-- The check accepts a function in which no instruction is found to have a defect. -/
theorem check_eq_ok_iff_defect (name : Bytes) (code : List Instruction) :
    check name code = .ok () ↔
      ∀ (pc : Nat) (i : Instruction), code[pc]? = some i → defect? code pc i = none := by
  dsimp only [check]
  constructor
  · intro h pc i hi
    split at h
    · cases h
    · rename_i hnone
      have hmem : (i, pc) ∈ code.zipIdx := List.mem_zipIdx_iff_getElem?.mpr hi
      exact Option.map_eq_none_iff.mp (List.findSome?_eq_none_iff.mp hnone (i, pc) hmem)
  · intro h
    split
    · rename_i e he
      obtain ⟨⟨i, pc⟩, hmem, hsome⟩ := List.exists_of_findSome?_eq_some he
      rw [h pc i (List.mem_zipIdx_iff_getElem?.mp hmem)] at hsome
      cases hsome
    · rfl

/-- An error of the check is about the function that was checked. -/
theorem function_of_check_eq_error {name : Bytes} {code : List Instruction} {e : Error}
    (h : check name code = .error e) : e.function = name := by
  dsimp only [check] at h
  split at h
  · rename_i e' he
    obtain ⟨⟨i, pc⟩, -, hsome⟩ := List.exists_of_findSome?_eq_some he
    obtain ⟨d, -, hd⟩ := Option.map_eq_some_iff.mp hsome
    cases h
    rw [← hd]
  · cases h

/-- Where no instruction is ill-branched, all targets are inside: those of a test are the
position after its jump and the target of the jump, which is well-branched itself. -/
theorem targets_inside {code : List Instruction}
    (h : ∀ (pc : Nat) (i : Instruction), code[pc]? = some i → ¬ IllBranched code pc i)
    {pc : Nat} {i : Instruction} (hi : code[pc]? = some i) :
    ∀ t ∈ targets code pc i, 0 ≤ t ∧ t < code.length := by
  cases htest : i.tag.isTest with
  | false => exact (not_illBranched_iff htest).mp (h pc i hi)
  | true =>
    obtain ⟨hjump, hskip⟩ := (not_illBranched_test_iff htest).mp (h pc i hi)
    rcases jumpsAfter_cases code pc with hnil | ⟨next, hnext, hnot, htargets, -⟩
    · exact absurd hnil hjump
    · have hinside := (not_illBranched_iff hnot).mp (h (pc + 1) next hnext)
      rw [targets_of_isTest htest, htargets]
      intro t ht
      rcases List.mem_cons.mp ht with rfl | ht
      · omega
      · exact hinside t ht

/-- **The check accepts a function when no instruction of it is ill-branched.** -/
theorem check_eq_ok_iff_illBranched (name : Bytes) {code : List Instruction}
    (hn : code.length < 0x4000000000000000) :
    check name code = .ok () ↔
      ∀ (pc : Nat) (i : Instruction), code[pc]? = some i → ¬ IllBranched code pc i := by
  rw [check_eq_ok_iff_defect]
  constructor
  · intro h pc i hi
    have hpc := (List.getElem?_eq_some_iff.mp hi).1
    exact not_illBranched_of_defect?_eq_none (by omega) (h pc i hi)
  · intro h pc i hi
    have hpc := (List.getElem?_eq_some_iff.mp hi).1
    cases htest : i.tag.isTest with
    | false => exact (defect?_eq_none_iff (by omega) htest).mpr (h pc i hi)
    | true =>
      obtain ⟨hjump, hskip⟩ := (not_illBranched_test_iff htest).mp (h pc i hi)
      rcases jumpsAfter_cases code pc with hnil | ⟨_, _, _, _, z, hz⟩
      · exact absurd hnil hjump
      · -- The check asks for more here than the fault does, and the jump itself provides it.
        have hmem : z ∈ targets code pc i := by simp [targets_of_isTest htest, hz]
        have hnonneg := (targets_inside h hi z hmem).1
        exact (defect?_test_eq_none_iff (by omega) htest).mpr ⟨⟨z, hz, hnonneg⟩, hskip⟩

end LuaToC.Branch
