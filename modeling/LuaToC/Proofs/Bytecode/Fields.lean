import LuaToC.Bytecode.Instruction

/-! # Operands of an instruction word

The five layouts divide the same thirty-two bits.  Operands in their ranges do not overlap, so a
word is the sum of its shifted operands (`toNat_ofABC`, `toNat_ofABx`, `toNat_ofAx`), and the fields
of such a sum are the operands.  The other way round, a word is the sum of its own fields in every
layout, so what is read from a word writes it again (`layouts_round_trip`).  The signed layouts are
the unsigned ones with the offset added.
-/
namespace LuaToC.Instruction

/-! ## Words as sums -/

/-- The operand is `n`, a number below `bound`. -/
structure Fits (bound : Nat) (x : Int64) (n : Nat) : Prop where
  toInt_eq : x.toInt = n
  lt : n < bound

section

variable {op : OpTag} {a b c k bx ax : Int64} {na nb nc nk nbx nax : Nat}

theorem Fits.toNat_toUInt32 {bound n : Nat} {x : Int64} (h : Fits bound x n)
    (hbound : bound ≤ 4294967296) : x.toUInt64.toUInt32.toNat = n := by
  have hlt := h.lt
  have hnonneg : 0 ≤ x := by
    rw [Int64.le_iff_toInt_le, h.toInt_eq]
    exact Int.natCast_nonneg n
  have hclamp : x.toNatClampNeg = n := by
    rw [← Int64.toNat_toInt, h.toInt_eq, Int.toNat_natCast]
  rw [UInt64.toNat_toUInt32, Int64.toNat_toUInt64_of_le hnonneg, hclamp]
  exact Nat.mod_eq_of_lt (Nat.lt_of_lt_of_le hlt hbound)

/-- An operand above all bits of a word is added to it. -/
theorem toNat_or_shifted (low pos : UInt32) (scale : Nat) {bound n : Nat} {x : Int64}
    (hscale : scale = Nat.pow 2 pos.toNat) (hpos : pos.toNat < 32) (hlow : low.toNat < scale)
    (hx : Fits bound x n) (hroom : bound * scale ≤ 4294967296) :
    (low ||| shifted x pos).toNat = low.toNat + n * scale := by
  subst hscale
  have hpositive : 0 < Nat.pow 2 pos.toNat := Nat.pow_pos (by decide)
  have hbound : bound ≤ 4294967296 :=
    Nat.le_trans (Nat.le_mul_of_pos_right bound hpositive) hroom
  have hsmall : n * Nat.pow 2 pos.toNat < 4294967296 :=
    Nat.lt_of_lt_of_le (Nat.mul_lt_mul_of_pos_right hx.lt hpositive) hroom
  have hshift : (shifted x pos).toNat = n <<< pos.toNat := by
    rw [shifted, UInt32.toNat_shiftLeft, hx.toNat_toUInt32 hbound, Nat.mod_eq_of_lt hpos]
    refine Nat.mod_eq_of_lt ?_
    rw [Nat.shiftLeft_eq]
    exact hsmall
  rw [UInt32.toNat_or, hshift, Nat.or_comm, ← Nat.shiftLeft_add_eq_or_of_lt hlow, Nat.shiftLeft_eq,
    Nat.add_comm]
  rfl

theorem toNat_ofAx (hop : op.val.toNat < 128) (hax : Fits 33554432 ax nax) :
    (ofAx op ax).word.toNat = op.val.toNat + nax * 128 := by
  have hlow : op.val.toUInt32.toNat = op.val.toNat := UInt8.toNat_toUInt32 _
  rw [ofAx, toNat_or_shifted _ 7 128 rfl (by decide) (hlow ▸ hop) hax (by decide), hlow]

theorem toNat_ofABx (hop : op.val.toNat < 128) (ha : Fits 256 a na) (hbx : Fits 131072 bx nbx) :
    (ofABx op a bx).word.toNat = op.val.toNat + na * 128 + nbx * 32768 := by
  have hna := ha.lt
  have hlow : op.val.toUInt32.toNat = op.val.toNat := UInt8.toNat_toUInt32 _
  have hop_a := toNat_or_shifted op.val.toUInt32 7 128 rfl (by decide) (hlow ▸ hop) ha (by decide)
  rw [hlow] at hop_a
  rw [ofABx, toNat_or_shifted _ 15 32768 rfl (by decide) (by omega) hbx (by decide), hop_a]

theorem toNat_ofABC (hop : op.val.toNat < 128) (ha : Fits 256 a na) (hb : Fits 256 b nb)
    (hc : Fits 256 c nc) (hk : Fits 2 k nk) :
    (ofABC op a b c k).word.toNat =
      op.val.toNat + na * 128 + nk * 32768 + nb * 65536 + nc * 16777216 := by
  have hna := ha.lt
  have hnb := hb.lt
  have hnk := hk.lt
  -- The flag is written last, but its bit is between those of the first two operands.
  have horder : (ofABC op a b c k).word =
      (ofABx op a k).word ||| shifted b 16 ||| shifted c 24 := by
    simp only [ofABC, ofABx, UInt32.or_assoc]
    rw [UInt32.or_comm (shifted k 15), UInt32.or_assoc]
  have hk' : Fits 131072 k nk := ⟨hk.toInt_eq, by omega⟩
  have hop_a_k := toNat_ofABx hop ha hk'
  have hop_a_k_b := toNat_or_shifted (ofABx op a k).word 16 65536 rfl (by decide) (by omega) hb
    (by decide)
  rw [horder, toNat_or_shifted _ 24 16777216 rfl (by decide) (by omega) hc (by decide), hop_a_k_b,
    hop_a_k]

end

/-! ## Operands in their ranges -/

/-- The number is from `lo` to `hi`. -/
def Within (lo hi : Int) (x : Int64) : Prop := lo ≤ x.toInt ∧ x.toInt ≤ hi

instance (lo hi : Int) (x : Int64) : Decidable (Within lo hi x) :=
  inferInstanceAs (Decidable (_ ∧ _))

theorem Within.exists_fits {hi : Int} {x : Int64} (bound : Nat) (hbound : hi < bound)
    (h : Within 0 hi x) : ∃ n, Fits bound x n := by
  obtain ⟨hnonneg, hle⟩ := h
  exact ⟨x.toInt.toNat, by omega, by omega⟩

/-- An offset is added to a signed operand without wrapping around. -/
theorem Within.toInt_add {lo hi : Int} {x : Int64} (offset : Nat) (hlo : 0 ≤ lo + offset)
    (hhi : hi + offset < 4294967296) (hoffset : offset < 4294967296) (h : Within lo hi x) :
    (x + Int64.ofNat offset).toInt = x.toInt + offset := by
  obtain ⟨hlow, hle⟩ := h
  rw [Int64.toInt_add, Int64.toInt_ofNat_of_lt (by omega)]
  exact Int.bmod_eq_of_le (by omega) (by omega)

/-! ## Fields of words -/

/-- A field is a range of bits. -/
theorem field_eq_extract (i : Instruction) (pos size : Nat) :
    i.field pos size = (i.word.toBitVec.extractLsb' pos size).toNat := by
  rw [BitVec.extractLsb'_toNat, Nat.shiftRight_eq_div_pow]
  rfl

/-- The operands of a word are parts of its number. -/
theorem operands_eq (i : Instruction) :
    i.a = i.word.toNat / 128 % 256 ∧ i.k = i.word.toNat / 32768 % 2 ∧
      i.b = i.word.toNat / 65536 % 256 ∧ i.c = i.word.toNat / 16777216 % 256 ∧
      i.bx = i.word.toNat / 32768 % 131072 ∧ i.ax = i.word.toNat / 128 % 33554432 :=
  ⟨rfl, rfl, rfl, rfl, rfl, rfl⟩

theorem toNat_tag (i : Instruction) : i.tag.val.toNat = i.word.toNat % 128 := by
  have hsmall : i.word.toNat / 1 % 128 < 256 := by omega
  change (i.word.toNat / 1 % 128).toUInt8.toNat = _
  rw [Nat.toUInt8_eq, UInt8.toNat_ofNat_of_lt' hsmall, Nat.div_one]

theorem tag_eq_of_toNat {i : Instruction} {op : OpTag} (h : i.word.toNat % 128 = op.val.toNat) :
    i.tag = op := by
  rw [← toNat_tag] at h
  exact congrArg OpTag.mk (UInt8.toNat_inj.mp h)

theorem eq_of_toNat {i j : Instruction} (h : i.word.toNat = j.word.toNat) : i = j :=
  congrArg Instruction.mk (UInt32.toNat_inj.mp h)

section

variable {op : OpTag} {a b c k bx ax : Int64}

theorem fields_ofAx (hop : op.val.toNat < 128) (hax : Within 0 33554431 ax) :
    (ofAx op ax).tag = op ∧ (ofAx op ax).ax = ax.toInt := by
  obtain ⟨nax, hax⟩ := hax.exists_fits 33554432 (by decide)
  have hword := toNat_ofAx hop hax
  obtain ⟨-, -, -, -, -, hfield⟩ := operands_eq (ofAx op ax)
  obtain ⟨hint, hlt⟩ := hax
  exact ⟨tag_eq_of_toNat (by omega), by omega⟩

theorem fields_ofABx (hop : op.val.toNat < 128) (ha : Within 0 255 a) (hbx : Within 0 131071 bx) :
    let i := ofABx op a bx
    i.tag = op ∧ i.a = a.toInt ∧ i.bx = bx.toInt := by
  intro i
  obtain ⟨na, ha⟩ := ha.exists_fits 256 (by decide)
  obtain ⟨nbx, hbx⟩ := hbx.exists_fits 131072 (by decide)
  have hword : i.word.toNat = _ := toNat_ofABx hop ha hbx
  obtain ⟨hfieldA, -, -, -, hfieldBx, -⟩ := operands_eq i
  obtain ⟨hintA, hltA⟩ := ha
  obtain ⟨hintBx, hltBx⟩ := hbx
  exact ⟨tag_eq_of_toNat (by omega), by omega, by omega⟩

theorem fields_ofABC (hop : op.val.toNat < 128) (ha : Within 0 255 a) (hb : Within 0 255 b)
    (hc : Within 0 255 c) (hk : Within 0 1 k) :
    let i := ofABC op a b c k
    i.tag = op ∧ i.a = a.toInt ∧ i.b = b.toInt ∧ i.c = c.toInt ∧ i.k = k.toInt := by
  intro i
  obtain ⟨na, ha⟩ := ha.exists_fits 256 (by decide)
  obtain ⟨nb, hb⟩ := hb.exists_fits 256 (by decide)
  obtain ⟨nc, hc⟩ := hc.exists_fits 256 (by decide)
  obtain ⟨nk, hk⟩ := hk.exists_fits 2 (by decide)
  have hword : i.word.toNat = _ := toNat_ofABC hop ha hb hc hk
  obtain ⟨hfieldA, hfieldK, hfieldB, hfieldC, -, -⟩ := operands_eq i
  obtain ⟨hintA, hltA⟩ := ha
  obtain ⟨hintB, hltB⟩ := hb
  obtain ⟨hintC, hltC⟩ := hc
  obtain ⟨hintK, hltK⟩ := hk
  exact ⟨tag_eq_of_toNat (by omega), by omega, by omega, by omega, by omega⟩

/-- The signed layouts differ from the unsigned ones in the offset only. -/
theorem fields_ofAsBx {sbx : Int64} (hop : op.val.toNat < 128) (ha : Within 0 255 a)
    (hsbx : Within (-65535) 65536 sbx) :
    let i := ofAsBx op a sbx
    i.tag = op ∧ i.a = a.toInt ∧ i.sBx = sbx.toInt := by
  intro i
  have hsum := hsbx.toInt_add offsetSBx (by decide) (by decide) (by decide)
  have hwithin : Within 0 131071 (sbx + Int64.ofNat offsetSBx) := by
    obtain ⟨hlo, hhi⟩ := hsbx
    rw [Within, hsum, offsetSBx]
    omega
  obtain ⟨htag, ha', hbx⟩ := fields_ofABx hop ha hwithin
  exact ⟨htag, ha', Int.sub_eq_iff_eq_add.mpr (hbx.trans hsum)⟩

theorem fields_ofSJ {sj : Int64} (hop : op.val.toNat < 128) (hsj : Within (-16777215) 16777216 sj) :
    (ofSJ op sj).tag = op ∧ (ofSJ op sj).sJ = sj.toInt := by
  have hsum := hsj.toInt_add offsetSJ (by decide) (by decide) (by decide)
  have hwithin : Within 0 33554431 (sj + Int64.ofNat offsetSJ) := by
    obtain ⟨hlo, hhi⟩ := hsj
    rw [Within, hsum, offsetSJ]
    omega
  obtain ⟨htag, hax⟩ := fields_ofAx hop hwithin
  exact ⟨htag, Int.sub_eq_iff_eq_add.mpr (hax.trans hsum)⟩

end

/-! ## Words from their own fields -/

section

variable (i : Instruction)

theorem tag_lt : i.tag.val.toNat < 128 := by
  rw [toNat_tag]
  omega

theorem ofAx_of_fits {ax : Int64} (hax : Fits 33554432 ax i.ax) : ofAx i.tag ax = i := by
  apply eq_of_toNat
  have hword := i.word.toNat_lt
  obtain ⟨-, -, -, -, -, hfield⟩ := operands_eq i
  rw [toNat_ofAx i.tag_lt hax, toNat_tag]
  omega

theorem ofABx_of_fits {a bx : Int64} (ha : Fits 256 a i.a) (hbx : Fits 131072 bx i.bx) :
    ofABx i.tag a bx = i := by
  apply eq_of_toNat
  have hword := i.word.toNat_lt
  obtain ⟨hfieldA, -, -, -, hfieldBx, -⟩ := operands_eq i
  rw [toNat_ofABx i.tag_lt ha hbx, toNat_tag]
  omega

theorem ofABC_of_fits {a b c k : Int64} (ha : Fits 256 a i.a) (hb : Fits 256 b i.b)
    (hc : Fits 256 c i.c) (hk : Fits 2 k i.k) : ofABC i.tag a b c k = i := by
  apply eq_of_toNat
  have hword := i.word.toNat_lt
  obtain ⟨hfieldA, hfieldK, hfieldB, hfieldC, -, -⟩ := operands_eq i
  rw [toNat_ofABC i.tag_lt ha hb hc hk, toNat_tag]
  omega

theorem fits_field (pos size : Nat) (hsize : Nat.pow 2 size ≤ 4294967296) :
    Fits (Nat.pow 2 size) (Int64.ofNat (i.field pos size)) (i.field pos size) := by
  have hlt : i.field pos size < Nat.pow 2 size := Nat.mod_lt _ (Nat.pow_pos (by decide))
  exact ⟨Int64.toInt_ofNat_of_lt (by omega), hlt⟩

/-- The offset that reading takes off is added again. -/
theorem fits_field_sub (pos size offset : Nat) (hsize : Nat.pow 2 size ≤ 4294967296) :
    Fits (Nat.pow 2 size) (Int64.ofInt (i.field pos size - offset) + Int64.ofNat offset)
      (i.field pos size) := by
  rw [← Int64.ofInt_eq_ofNat, ← Int64.ofInt_add, Int.sub_add_cancel, Int64.ofInt_eq_ofNat]
  exact fits_field i pos size hsize

end

/-- **Operands and words determine each other** in each of the five layouts.  Operands in their
ranges are read back from the word that they are written to; every word is written again from what
is read from it; and the signed operands are ranges of bits less their offset. -/
theorem layouts_round_trip :
    (∀ op : OpTag, op.val.toNat < 128 →
      (∀ a b c k : Int64, Within 0 255 a → Within 0 255 b → Within 0 255 c → Within 0 1 k →
        let i := ofABC op a b c k
        i.tag = op ∧ i.a = a.toInt ∧ i.b = b.toInt ∧ i.c = c.toInt ∧ i.k = k.toInt) ∧
      (∀ a bx : Int64, Within 0 255 a → Within 0 131071 bx →
        let i := ofABx op a bx
        i.tag = op ∧ i.a = a.toInt ∧ i.bx = bx.toInt) ∧
      (∀ a sbx : Int64, Within 0 255 a → Within (-65535) 65536 sbx →
        let i := ofAsBx op a sbx
        i.tag = op ∧ i.a = a.toInt ∧ i.sBx = sbx.toInt) ∧
      (∀ ax : Int64, Within 0 33554431 ax →
        let i := ofAx op ax
        i.tag = op ∧ i.ax = ax.toInt) ∧
      (∀ sj : Int64, Within (-16777215) 16777216 sj →
        let i := ofSJ op sj
        i.tag = op ∧ i.sJ = sj.toInt)) ∧
    ∀ i : Instruction,
      ofABC i.tag (.ofNat i.a) (.ofNat i.b) (.ofNat i.c) (.ofNat i.k) = i ∧
      ofABx i.tag (.ofNat i.a) (.ofNat i.bx) = i ∧
      ofAsBx i.tag (.ofNat i.a) (.ofInt i.sBx) = i ∧
      ofAx i.tag (.ofNat i.ax) = i ∧
      ofSJ i.tag (.ofInt i.sJ) = i ∧
      i.sB = (i.word.toBitVec.extractLsb' 16 8).toNat - 127 ∧
      i.sC = (i.word.toBitVec.extractLsb' 24 8).toNat - 127 ∧
      i.sBx = (i.word.toBitVec.extractLsb' 15 17).toNat - 65535 ∧
      i.sJ = (i.word.toBitVec.extractLsb' 7 25).toNat - 16777215 := by
  constructor
  · intro op hop
    exact ⟨fun a b c k => fields_ofABC hop, fun a bx => fields_ofABx hop,
      fun a sbx => fields_ofAsBx hop, fun ax => fields_ofAx hop, fun sj => fields_ofSJ hop⟩
  · intro i
    have ha := fits_field i 7 8 (by decide)
    have hb := fits_field i 16 8 (by decide)
    have hc := fits_field i 24 8 (by decide)
    have hk := fits_field i 15 1 (by decide)
    refine ⟨ofABC_of_fits i ha hb hc hk, ofABx_of_fits i ha (fits_field i 15 17 (by decide)),
      ofABx_of_fits i ha (fits_field_sub i 15 17 offsetSBx (by decide)),
      ofAx_of_fits i (fits_field i 7 25 (by decide)),
      ofAx_of_fits i (fits_field_sub i 7 25 offsetSJ (by decide)), ?_, ?_, ?_, ?_⟩
    all_goals
      rw [← field_eq_extract]
      rfl

/-- The jump as far back as it can go, and the largest operands beside each other. -/
theorem layouts_round_trip_extremes :
    (Opcode.jmp.tag.val.toNat < 128 ∧ Within (-16777215) 16777216 (-16777215) ∧
      (ofSJ Opcode.jmp.tag (-16777215)).sJ = (-16777215 : Int64).toInt) ∧
    (Within 0 255 255 ∧ Within 0 1 1 ∧
      let i := ofABC ⟨127⟩ 255 255 255 1
      i.tag = ⟨127⟩ ∧ i.a = (255 : Int64).toInt ∧ i.b = (255 : Int64).toInt ∧
        i.c = (255 : Int64).toInt ∧ i.k = (1 : Int64).toInt) := by
  have hjump : Opcode.jmp.tag.val.toNat < 128 := by decide
  have hback : Within (-16777215) 16777216 (-16777215) := by decide
  have hbyte : Within 0 255 255 := by decide
  have hflag : Within 0 1 1 := by decide
  obtain ⟨-, -, -, -, hsJ⟩ := layouts_round_trip.1 Opcode.jmp.tag hjump
  obtain ⟨hABC, -⟩ := layouts_round_trip.1 ⟨127⟩ (by decide)
  exact ⟨⟨hjump, hback, (hsJ _ hback).2⟩, hbyte, hflag, hABC _ _ _ _ hbyte hbyte hbyte hflag⟩

end LuaToC.Instruction
