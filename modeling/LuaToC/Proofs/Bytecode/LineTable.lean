import LuaToC.Bytecode.LineTable

/-! # Lines read from a line table

The search for the checkpoint to count from starts at a guess and goes down and then up.
`base_cases` says where it ends, whatever the checkpoints are: at one that is not after the
instruction while the next one is, or ahead of the first instruction.  With checkpoints in order this
is the last one at or before the instruction (`pc_le_base`), however far the guess was off.

`lineOf_eq` puts a lookup in terms of natural numbers.  From it follows that a table gives back the
lines that it was made for (`lineOf_eq_line`).  The sum over the differences is telescoped by
induction on their number; between the base and the instruction no checkpoint interrupts it.
-/
namespace LuaToC.FunctionBody

/-! ## The search -/

/-- Going down stops at a checkpoint that is not after `pc`, if the first one is not. -/
theorem pc_le_of_stepDown {cs : List Checkpoint} {pc : Int64} {i : Nat}
    (hfirst : ∀ c, cs[0]? = some c → c.pc ≤ pc) (hi : i < cs.length) {c : Checkpoint}
    (hc : cs[stepDown cs pc i]? = some c) : c.pc ≤ pc := by
  induction i with
  | zero => exact hfirst c hc
  | succ i ih =>
    rw [stepDown, List.getElem?_eq_getElem hi] at hc
    dsimp only at hc
    split at hc
    · exact ih (by omega) hc
    · rename_i hnot
      rw [List.getElem?_eq_getElem hi, Option.some.injEq] at hc
      rw [← hc]
      exact Int64.not_lt.mp hnot

theorem stepDown_le (cs : List Checkpoint) (pc : Int64) (i : Nat) : stepDown cs pc i ≤ i := by
  induction i with
  | zero => exact Nat.le_refl _
  | succ i ih =>
    rw [stepDown]
    split
    · split
      · exact Nat.le_succ_of_le ih
      · exact Nat.le_refl _
    · exact Nat.le_succ_of_le ih

/-- Going up stops at a checkpoint that is not after `pc` while the next one is. -/
theorem exists_stepUp {pc : Int64} {c : Checkpoint} (ds : List Checkpoint) (hc : c.pc ≤ pc) :
    ∃ i, (c :: ds)[i]? = some (stepUp pc c ds) ∧ (stepUp pc c ds).pc ≤ pc ∧
      ∀ next, (c :: ds)[i + 1]? = some next → pc < next.pc := by
  induction ds generalizing c with
  | nil => exact ⟨0, rfl, hc, fun next hnext => by cases hnext⟩
  | cons d ds ih =>
    rw [stepUp]
    split
    · rename_i hd
      obtain ⟨i, hi, hle, hnext⟩ := ih hd
      exact ⟨i + 1, hi, hle, hnext⟩
    · rename_i hd
      refine ⟨0, rfl, hc, fun next hnext => ?_⟩
      obtain rfl : d = next := Option.some.inj hnext
      exact Int64.not_le.mp hd

/-- The base is ahead of the first instruction when `pc` is before all checkpoints.  Otherwise it is a
checkpoint that is not after `pc`, and the next one is. -/
theorem base_cases (f : FunctionBody) (pc : Int64) :
    f.base pc = ⟨-1, f.lineDefined⟩ ∧ (∀ first, f.checkpoints[0]? = some first → pc < first.pc) ∨
      ∃ i, f.checkpoints[i]? = some (f.base pc) ∧ (f.base pc).pc ≤ pc ∧
        ∀ next, f.checkpoints[i + 1]? = some next → pc < next.pc := by
  unfold base
  cases f.checkpoints with
  | nil => exact Or.inl ⟨rfl, fun first hfirst => by cases hfirst⟩
  | cons first rest =>
    dsimp only
    split
    · rename_i hbefore
      left
      refine ⟨rfl, fun c hc => ?_⟩
      obtain rfl : first = c := Option.some.inj hc
      exact hbefore
    · rename_i hnot
      right
      generalize hguess : min (pc / checkpointSpacing - 1).toInt.toNat rest.length = guess
      have hlt : guess < (first :: rest).length := by
        rw [List.length_cons]
        omega
      have hdown := stepDown_le (first :: rest) pc guess
      -- The guess is cut down to the table, so there is a checkpoint to go up from.
      split
      · rename_i c cs hdrop
        have hshift (k : Nat) : (first :: rest)[stepDown (first :: rest) pc guess + k]? =
            (c :: cs)[k]? := by
          rw [← hdrop, List.getElem?_drop]
        have hc : c.pc ≤ pc := by
          refine pc_le_of_stepDown (fun d hd => ?_) hlt (hshift 0)
          obtain rfl : first = d := Option.some.inj hd
          exact Int64.not_lt.mp hnot
        obtain ⟨i, hi, hle, hnext⟩ := exists_stepUp cs hc
        refine ⟨stepDown (first :: rest) pc guess + i, ?_, hle, fun next h => ?_⟩
        · rw [hshift, hi]
        · rw [Nat.add_assoc, hshift] at h
          exact hnext next h
      · rename_i hdrop
        have hlen := congrArg List.length hdrop
        rw [List.length_drop, List.length_nil] at hlen
        omega

theorem pc_le_of_index_le {cs : List Checkpoint} (hsorted : cs.Pairwise fun c d => c.pc < d.pc)
    {j k : Nat} {c d : Checkpoint} (hc : cs[j]? = some c) (hd : cs[k]? = some d) (hle : j ≤ k) :
    c.pc ≤ d.pc := by
  obtain ⟨hj, rfl⟩ := List.getElem?_eq_some_iff.mp hc
  obtain ⟨hk, rfl⟩ := List.getElem?_eq_some_iff.mp hd
  rcases Nat.lt_or_eq_of_le hle with hlt | rfl
  · exact Int64.le_of_lt (List.pairwise_iff_getElem.mp hsorted j k hj hk hlt)
  · exact Int64.le_refl _

/-- With checkpoints in order, the base is the last one that is not after `pc`. -/
theorem pc_le_base {f : FunctionBody} (hsorted : f.checkpoints.Pairwise fun c d => c.pc < d.pc)
    {pc : Int64} {c : Checkpoint} (hc : c ∈ f.checkpoints) (hle : c.pc ≤ pc) :
    c.pc ≤ (f.base pc).pc := by
  obtain ⟨k, hk⟩ := List.mem_iff_getElem?.mp hc
  have hlt := (List.getElem?_eq_some_iff.mp hk).1
  -- A checkpoint at or before `k` that is after `pc` would push `c` past it.
  have hnone {j : Nat} (hj : j ≤ k) (hafter : ∀ d, f.checkpoints[j]? = some d → pc < d.pc) : False := by
    have hd := List.getElem?_eq_getElem (Nat.lt_of_le_of_lt hj hlt)
    have hpast := Int64.lt_of_lt_of_le (hafter _ hd) (pc_le_of_index_le hsorted hd hk hj)
    exact Int64.not_le.mpr hpast hle
  rcases f.base_cases pc with ⟨-, hfirst⟩ | ⟨i, hi, -, hnext⟩
  · exact absurd hfirst (hnone (Nat.zero_le k))
  · by_cases hki : k ≤ i
    · exact pc_le_of_index_le hsorted hk hi hki
    · exact absurd hnext (hnone (Nat.lt_of_not_le hki))

/-! ## Lookups -/

/-- The first position whose difference counts: the one after the base. -/
def countFrom (f : FunctionBody) (pc : Nat) : Nat := ((f.base (Int64.ofNat pc)).pc.toInt + 1).toNat

section

variable {f : FunctionBody} {pc : Nat} (hpc : pc + 1 < 0x8000000000000000)
  (hcheckpoints : ∀ c ∈ f.checkpoints, 0 ≤ c.pc)
include hpc hcheckpoints

/-- The base is at or before the instruction, and at most one position ahead of the first. -/
theorem base_bounds :
    -1 ≤ (f.base (Int64.ofNat pc)).pc.toInt ∧ (f.base (Int64.ofNat pc)).pc.toInt ≤ pc := by
  have hvalue : (Int64.ofNat pc).toInt = pc := Int64.toInt_ofNat_of_lt (by omega)
  rcases f.base_cases (Int64.ofNat pc) with ⟨hbase, -⟩ | ⟨i, hi, hle, -⟩
  · have hahead : (f.base (Int64.ofNat pc)).pc.toInt = -1 := by rw [hbase]; rfl
    omega
  · have hnonneg : 0 ≤ (f.base (Int64.ofNat pc)).pc.toInt :=
      Int64.le_iff_toInt_le.mp (hcheckpoints _ (List.mem_of_getElem? hi))
    rw [Int64.le_iff_toInt_le, hvalue] at hle
    omega

theorem toInt_base_add_one :
    ((f.base (Int64.ofNat pc)).pc + 1).toInt = f.countFrom pc := by
  have hbounds := base_bounds hpc hcheckpoints
  rw [Int64.toInt_add, show (1 : Int64).toInt = 1 from rfl, countFrom,
    Int.bmod_eq_of_le (by omega) (by omega)]
  omega

theorem countFrom_le : f.countFrom pc ≤ pc + 1 := by
  have hbounds := base_bounds hpc hcheckpoints
  unfold countFrom
  omega

/-- A lookup adds up the differences after the base.  It fails when there are some to add and the
table does not reach the instruction. -/
theorem lineOf_eq {deltas : List Int8} (htable : f.lineInfo = some deltas) :
    f.lineOf (Int64.ofNat pc) =
      if deltas.length ≤ pc ∧ f.countFrom pc ≠ pc + 1 then .error ⟨Int64.ofNat pc⟩
      else .ok (((deltas.drop (f.countFrom pc)).take (pc + 1 - f.countFrom pc)).foldl
        (fun line d => line + d.toInt64) (f.base (Int64.ofNat pc)).line) := by
  have hvalue : (Int64.ofNat pc).toInt = pc := Int64.toInt_ofNat_of_lt (by omega)
  have hstart := toInt_base_add_one hpc hcheckpoints
  have hle := countFrom_le hpc hcheckpoints
  simp only [lineOf, htable, Int64.lt_iff_toInt_lt, hvalue, hstart, Int.toNat_natCast]
  rw [show (0 : Int64).toInt = 0 from rfl]
  by_cases hhere : f.countFrom pc = pc + 1
  · rw [if_pos (by omega), if_neg (by omega), hhere, Nat.sub_self, List.take_zero, List.foldl_nil]
  · rw [if_neg (by omega)]
    by_cases hshort : deltas.length ≤ pc
    · rw [if_pos (by omega), if_pos ⟨hshort, hhere⟩]
    · rw [if_neg (by omega), if_neg (fun h => hshort h.1),
        show pc - f.countFrom pc + 1 = pc + 1 - f.countFrom pc by omega]

end

/-! ## Tables made for given lines -/

/-- The line before the instruction at `pc` when the instructions are on the given lines; before the
first one it is the line of the definition. -/
def lineBefore (f : FunctionBody) (line : Nat → Int64) : Nat → Int64
  | 0 => f.lineDefined
  | pc + 1 => line pc

/-- The line table `deltas` and the checkpoints of the function are consistent with the given lines.
Checkpoints are in order, inside the table, and have the lines of their instructions.  Every other
instruction has the difference of its line from the line before it; at a checkpoint the table may
have anything. -/
structure Records (f : FunctionBody) (deltas : List Int8) (line : Nat → Int64) : Prop where
  table : f.lineInfo = some deltas
  increasing : f.checkpoints.Pairwise fun c d => c.pc < d.pc
  inside : ∀ c ∈ f.checkpoints, 0 ≤ c.pc.toInt ∧ c.pc.toInt < deltas.length
  checkpoint : ∀ c ∈ f.checkpoints, c.line = line c.pc.toInt.toNat
  difference : ∀ (pc : Nat) (d : Int8), deltas[pc]? = some d →
    (∀ c ∈ f.checkpoints, c.pc.toInt ≠ pc) → d.toInt64 = line pc - f.lineBefore line pc

namespace Records

variable {f : FunctionBody} {deltas : List Int8} {line : Nat → Int64} (h : f.Records deltas line)
include h

theorem nonneg : ∀ c ∈ f.checkpoints, 0 ≤ c.pc :=
  fun c hc => Int64.le_iff_toInt_le.mpr (h.inside c hc).1

/-- Where no checkpoint interrupts them, differences lead from the line before the first of them to
the line of the last. -/
theorem foldl_differences {start n : Nat} (hend : start + n ≤ deltas.length)
    (hnone : ∀ c ∈ f.checkpoints, c.pc.toInt < start ∨ start + n ≤ c.pc.toInt) :
    ((deltas.drop start).take n).foldl (fun line d => line + d.toInt64) (f.lineBefore line start) =
      f.lineBefore line (start + n) := by
  induction n with
  | zero => rw [List.take_zero, List.foldl_nil, Nat.add_zero]
  | succ n ih =>
    -- The last difference is at no checkpoint, so it leads from the line before it to its own.
    have hget : deltas[start + n]? = some deltas[start + n] := List.getElem?_eq_getElem (by omega)
    have hdifference := h.difference (start + n) _ hget fun c hc => by
      have := hnone c hc
      omega
    rw [List.take_add_one, List.foldl_append, List.getElem?_drop, hget,
      ih (by omega) fun c hc => by have := hnone c hc; omega, Option.toList_some, List.foldl_cons,
      List.foldl_nil, hdifference, Int64.add_comm, Int64.sub_add_cancel]
    rfl

/-- Counting starts with the line of the instruction at the base. -/
theorem line_base (pc : Nat) :
    (f.base (Int64.ofNat pc)).line = f.lineBefore line (f.countFrom pc) := by
  rcases f.base_cases (Int64.ofNat pc) with ⟨hbase, -⟩ | ⟨i, hi, -⟩
  · have hfrom : f.countFrom pc = 0 := by rw [countFrom, hbase]; rfl
    rw [hfrom, hbase]
    rfl
  · have hmem := List.mem_of_getElem? hi
    have hnonneg := (h.inside _ hmem).1
    have hfrom : f.countFrom pc = (f.base (Int64.ofNat pc)).pc.toInt.toNat + 1 := by
      unfold countFrom
      omega
    rw [hfrom]
    exact h.checkpoint _ hmem

/-- No checkpoint is between the base and the instruction. -/
theorem pc_notBetween {pc : Nat} (hpc : pc + 1 < 0x8000000000000000) :
    ∀ c ∈ f.checkpoints, c.pc.toInt < f.countFrom pc ∨ pc + 1 ≤ c.pc.toInt := by
  intro c hc
  by_cases hle : c.pc ≤ Int64.ofNat pc
  · have hlast := Int64.le_iff_toInt_le.mp (pc_le_base h.increasing hc hle)
    left
    unfold countFrom
    omega
  · rw [Int64.le_iff_toInt_le, Int64.toInt_ofNat_of_lt (by omega)] at hle
    right
    omega

/-- **A line table gives back the lines that it was made for.**  However the checkpoints are spaced,
the line of every instruction of the table is found. -/
theorem lineOf_eq_line (hlength : deltas.length < 0x8000000000000000) {pc : Nat}
    (hpc : pc < deltas.length) : f.lineOf (Int64.ofNat pc) = .ok (line pc) := by
  have hlt : pc + 1 < 0x8000000000000000 := by omega
  have hbetween := h.pc_notBetween hlt
  obtain ⟨n, hn⟩ := Nat.exists_eq_add_of_le (countFrom_le hlt h.nonneg)
  have hsum := h.foldl_differences (by omega : f.countFrom pc + n ≤ deltas.length) fun c hc => by
    have := hbetween c hc
    omega
  rw [lineOf_eq hlt h.nonneg h.table, if_neg (fun hshort => by omega), h.line_base, hn,
    Nat.add_sub_cancel_left, hsum, ← hn]
  rfl

end Records

/-- Two hundred and sixty instructions on a line each, with two checkpoints side by side far from where
the search starts. -/
def irregularSample : FunctionBody :=
  { (default : FunctionBody) with
    lineInfo := some (List.replicate 260 1)
    checkpoints := [⟨200, 5000⟩, ⟨201, 7000⟩] }

/-- The lines of the sample. -/
def irregularLine (pc : Nat) : Int64 :=
  if pc < 200 then Int64.ofNat (pc + 1) else if pc = 200 then 5000 else Int64.ofNat (pc + 6799)

theorem records_irregularSample :
    irregularSample.Records (List.replicate 260 1) irregularLine where
  table := rfl
  increasing := by decide
  inside := by
    rw [List.length_replicate]
    decide
  checkpoint := by decide
  difference := by
    intro pc d hd hnone
    obtain rfl : d = 1 := List.eq_of_mem_replicate (List.mem_of_getElem? hd)
    have hfirst : (200 : Int) ≠ pc := hnone ⟨200, 5000⟩ (by decide)
    have hsecond : (201 : Int) ≠ pc := hnone ⟨201, 7000⟩ (by decide)
    have hstep (n : Nat) : (1 : Int8).toInt64 = Int64.ofNat (n + 1) - Int64.ofNat n := by
      rw [Int64.ofNat_add, Int64.add_comm, Int64.add_sub_cancel]
      rfl
    cases pc with
    | zero => decide
    | succ pc =>
      rw [lineBefore, irregularLine, irregularLine]
      by_cases hlow : pc + 1 < 200
      · rw [if_pos hlow, if_pos (by omega)]
        exact hstep (pc + 1)
      · rw [if_neg hlow, if_neg (by omega), if_neg (by omega), if_neg (by omega),
          show pc + 1 + 6799 = pc + 6799 + 1 by omega]
        exact hstep (pc + 6799)

/-- The last line of the sample is found from the second checkpoint, and the one before the first
checkpoint from the line of the definition. -/
theorem lineOf_irregularSample :
    irregularSample.lineOf 259 = .ok 7058 ∧ irregularSample.lineOf 199 = .ok 200 := by
  have hlength : (List.replicate 260 (1 : Int8)).length = 260 := List.length_replicate
  have hlines {pc : Nat} (hpc : pc < 260) :
      irregularSample.lineOf (Int64.ofNat pc) = .ok (irregularLine pc) :=
    records_irregularSample.lineOf_eq_line (by rw [hlength]; decide) (by rw [hlength]; exact hpc)
  exact ⟨hlines (by decide : 259 < 260), hlines (by decide : 199 < 260)⟩

end LuaToC.FunctionBody
