import LuaToC.Bytecode.Constant
import LuaToC.Proofs.Decimal.Literal

/-! # Float constants survive as literals

The shortest decimal of a double is found by comparing whole numbers: a decimal `d · 10^k` and an end
of the double's interval are both multiplied by a common scale (`cast_decimalSide`, `cast_binarySide`).
So a decimal that reads back lies in the interval of numbers that are rounded to the double
(`interval_of_readsBack`).  Where no decimal of seventeen digits is found, all digits are written, and
that is the double itself (`interval_shortest`).  Whichever decimal is written, the double is nearest to
it (`isNearest_writtenDecimal`).
-/
namespace LuaToC

open Binary64 (Interval unit)

namespace Decimal

/-! ## Comparisons without rounding -/

/-- What both sides of a comparison of `d · 10^k` and `x · 2^e` are multiplied by. -/
def commonScale (k e : Int) : ℚ := 10 ^ (-k).toNat * 2 ^ (-e).toNat

theorem commonScale_pos (k e : Int) : 0 < commonScale k e :=
  mul_pos (pow_pos (by norm_num) _) (pow_pos (by norm_num) _)

theorem pow_toNat {b : ℚ} (hb : b ≠ 0) (k : Int) : b ^ k.toNat = b ^ k * b ^ (-k).toNat := by
  rw [← zpow_natCast, ← zpow_natCast, ← zpow_add₀ hb]
  congr 1
  omega

theorem cast_decimalSide (d : Nat) (k e : Int) :
    (decimalSide d k e : ℚ) = d * 10 ^ k * commonScale k e := by
  have hpow := pow_toNat (b := 10) (by norm_num) k
  unfold decimalSide commonScale
  rw [Nat.pow_eq, Nat.pow_eq]
  push_cast
  rw [hpow]
  ring

theorem cast_binarySide (x : Nat) (k e : Int) :
    (binarySide x k e : ℚ) = x * 2 ^ e * commonScale k e := by
  have hpow := pow_toNat (b := 2) (by norm_num) e
  unfold binarySide commonScale
  rw [Nat.pow_eq, Nat.pow_eq]
  push_cast
  rw [hpow]
  ring

theorem decimalSide_lt_iff {d x : Nat} {k e : Int} :
    decimalSide d k e < binarySide x k e ↔ (d : ℚ) * 10 ^ k < x * 2 ^ e := by
  rw [← Nat.cast_lt (α := ℚ), cast_decimalSide, cast_binarySide,
    mul_lt_mul_iff_of_pos_right (commonScale_pos k e)]

theorem lt_decimalSide_iff {d x : Nat} {k e : Int} :
    binarySide x k e < decimalSide d k e ↔ (x : ℚ) * 2 ^ e < d * 10 ^ k := by
  rw [← Nat.cast_lt (α := ℚ), cast_decimalSide, cast_binarySide,
    mul_lt_mul_iff_of_pos_right (commonScale_pos k e)]

theorem decimalSide_eq_iff {d x : Nat} {k e : Int} :
    decimalSide d k e = binarySide x k e ↔ (d : ℚ) * 10 ^ k = x * 2 ^ e := by
  rw [← Nat.cast_inj (R := ℚ), cast_decimalSide, cast_binarySide,
    mul_left_inj' (commonScale_pos k e).ne']

/-! ## The interval of a double -/

/-- A quarter of the last place. -/
theorem quarter_eq (p x : Nat) : (x : ℚ) * 2 ^ ((p : ℤ) - 1074 - 2) = x / 4 * unit p := by
  rw [Binary64.unit_eq, zpow_sub₀ two_ne_zero ((p : ℤ) - 1074) 2]
  norm_num
  ring

theorem lowerQuarters_eq {p m : Nat} (hm : 0 < m) :
    (lowerQuarters m ((p : ℤ) - 1074) : ℚ) / 4 = Binary64.lowerEnd p m := by
  have hscale : -1074 < (p : ℤ) - 1074 ↔ 0 < p := by omega
  unfold lowerQuarters Binary64.lowerEnd
  simp only [hscale]
  split
  · rw [Nat.cast_sub (by omega)]
    push_cast
    ring
  · rw [Nat.cast_sub (by omega)]
    push_cast
    ring

theorem upperQuarters_eq (m : Nat) : (upperQuarters m : ℚ) / 4 = m + 1 / 2 := by
  unfold upperQuarters
  push_cast
  ring

/-- A decimal that reads back lies in the interval of the double. -/
theorem interval_of_readsBack {p m d : Nat} {k : Int} (hm : 0 < m)
    (h : readsBack m ((p : ℤ) - 1074) d k = true) : Interval p m (d * 10 ^ k / unit p) := by
  have hunit := Binary64.unit_pos p
  simp only [readsBack, Bool.or_eq_true, Bool.and_eq_true, decide_eq_true_eq, lt_decimalSide_iff,
    decimalSide_lt_iff, decimalSide_eq_iff, quarter_eq, lowerQuarters_eq hm, upperQuarters_eq] at h
  have hlow : Binary64.lowerEnd p m < m + 1 / 2 := by
    unfold Binary64.lowerEnd
    split <;> linarith
  rcases h with ⟨hlower, hupper⟩ | ⟨heven, hlower | hupper⟩
  · exact ⟨.inl ((lt_div_iff₀ hunit).mpr hlower), .inl ((div_lt_iff₀ hunit).mpr hupper)⟩
  · rw [hlower, mul_div_cancel_right₀ _ hunit.ne']
    exact ⟨.inr ⟨rfl, heven⟩, .inl hlow⟩
  · rw [hupper, mul_div_cancel_right₀ _ hunit.ne']
    exact ⟨.inl hlow, .inr ⟨rfl, heven⟩⟩

/-- A grid point is taken only when it reads back. -/
theorem readsBack_of_onGrid {m d : Nat} {q k : Int} (h : onGrid m q k = some d) :
    readsBack m q d k = true := by
  unfold onGrid at h
  dsimp only at h
  split at h
  · rename_i hlow _
    cases h
    exact hlow
  · rename_i _ hhigh
    cases h
    exact hhigh
  · cases h
  · rename_i hlow hhigh
    split at h
    · cases h
      exact hlow
    · split at h
      · cases h
        exact hhigh
      · -- At a tie the even neighbour is taken, and both read back.
        cases h
        rcases Nat.mod_two_eq_zero_or_one (binarySide (4 * m) k (q - 2) / decimalSide 1 k (q - 2))
          with heven | hodd
        · rw [heven]
          exact hlow
        · rw [hodd]
          exact hhigh

/-! ## The shortest decimal -/

theorem value_strip (d : Nat) (k : Int) : (strip d k).value = d * 10 ^ k := by
  fun_induction strip d k with
  | case1 d k h ih =>
    have hten : (d : ℚ) = (d / 10 : Nat) * 10 := by
      have heq : d = d / 10 * 10 := by omega
      exact_mod_cast heq
    rw [ih, hten, zpow_add_one₀ (by norm_num)]
    ring
  | case2 d k h => rfl

theorem value_exact (m : Nat) (q : Int) : (exact m q).value = m * 2 ^ q := by
  unfold exact
  split
  · rename_i hq
    obtain ⟨n, rfl⟩ := Int.eq_ofNat_of_zero_le hq
    simp [value]
  · obtain ⟨n, rfl⟩ : ∃ n : Nat, q = -(n : Int) := ⟨(-q).toNat, by omega⟩
    have hten : (10 : ℚ) ^ (-(n : ℤ)) = 2 ^ (-(n : ℤ)) * 5 ^ (-(n : ℤ)) := by
      rw [← mul_zpow]
      norm_num
    have hfive : (5 : ℚ) ^ n * 5 ^ (-(n : ℤ)) = 1 := by
      rw [← zpow_natCast, ← zpow_add₀ (by norm_num), add_neg_cancel, zpow_zero]
    rw [value, neg_neg, Int.toNat_natCast, Nat.pow_eq, hten]
    push_cast
    calc (m : ℚ) * 5 ^ n * (2 ^ (-(n : ℤ)) * 5 ^ (-(n : ℤ)))
        = m * 2 ^ (-(n : ℤ)) * (5 ^ n * 5 ^ (-(n : ℤ))) := by ring
      _ = m * 2 ^ (-(n : ℤ)) := by rw [hfive, mul_one]

/-- The shortest decimal lies in the interval of the double. -/
theorem interval_shortest {p m : Nat} (hm : 0 < m) :
    Interval p m ((shortest m ((p : ℤ) - 1074)).value / unit p) := by
  unfold shortest
  dsimp only
  cases hfound : (List.range 17).findSome? fun (i : Nat) =>
      (onGrid m ((p : ℤ) - 1074) (leadingExponent m ((p : ℤ) - 1074) - i)).map fun d =>
        strip d (leadingExponent m ((p : ℤ) - 1074) - i) with
  | none =>
    have hunit := Binary64.unit_pos p
    rw [Option.getD_none, value_exact, ← Binary64.unit_eq, mul_div_cancel_right₀ _ hunit.ne']
    exact Binary64.interval_self p m
  | some d =>
    obtain ⟨i, -, hi⟩ := List.exists_of_findSome?_eq_some hfound
    obtain ⟨n, hn, rfl⟩ := Option.map_eq_some_iff.mp hi
    rw [Option.getD_some, value_strip]
    exact interval_of_readsBack hm (readsBack_of_onGrid hn)

end Decimal

namespace Binary64

/-! ## The text of a double -/

/-- The decimal that is written for a finite number without its sign. -/
def writtenDecimal (x : Binary64) : Decimal :=
  if x.significand = 0 then ⟨0, 0⟩ else Decimal.shortest x.significand x.exponent

theorem interval_writtenDecimal (x : Binary64) :
    Interval (scaleOf x.magnitude) (significandOf x.magnitude)
      (x.writtenDecimal.value / unit (scaleOf x.magnitude)) := by
  unfold writtenDecimal
  rw [significand_eq, exponent_eq]
  split
  · rename_i hzero
    have hvalue : (Decimal.mk 0 0).value = 0 := by simp [Decimal.value]
    rw [hzero, hvalue, zero_div]
    exact interval_self _ 0
  · rename_i hpos
    exact Decimal.interval_shortest (Nat.pos_of_ne_zero hpos)

/-- A number is nearest to the decimal that is written for it. -/
theorem isNearest_writtenDecimal {x : Binary64} (h : x.isNaN = false) :
    IsNearest x.writtenDecimal.value x.magnitude := by
  have hbetween := (interval_writtenDecimal x).between (significandOf_lt _)
    (scaleOf_eq_zero_or_le_significandOf _)
  rw [div_mul_cancel₀ _ (unit_pos _).ne', ← eq_scaleOf_add_significandOf] at hbetween
  exact hbetween.isNearest (magnitude_le_infinity h)

/-- A finite number is written as its sign and its decimal, with a point where it is needed. -/
theorem text_of_finite {x : Binary64} (hnan : x.isNaN = false) (hfinite : x.isInfinite = false) :
    x.text = (if x.isNegative then [45] else []) ++
      DecimalLiteral.withPoint x.writtenDecimal.text := by
  unfold text DecimalLiteral.withPoint
  rw [hnan, hfinite, if_neg Bool.false_ne_true, if_neg Bool.false_ne_true]
  dsimp only
  rw [← writtenDecimal, DecimalLiteral.looksWhole_sign_append]
  split
  · exact List.append_assoc _ _ _
  · rfl

/-- The number that is written for infinity is too large for any other word. -/
theorem isNearest_overflow : IsNearest (Decimal.mk 1 9999).value infinity := by
  refine isNearest_infinity ?_
  have hvalue : (Decimal.mk 1 9999).value = 10 ^ 9999 := by
    rw [Decimal.value, Nat.cast_one, one_mul]
    exact zpow_natCast 10 9999
  rw [valueOf_infinity, hvalue]
  calc (2 : ℚ) ^ 1024 ≤ 10 ^ 1024 := pow_le_pow_left₀ (by norm_num) (by norm_num) 1024
    _ ≤ 10 ^ 9999 := pow_le_pow_right₀ (by norm_num) (by norm_num)

theorem read?_infinite (negative : Bool) :
    DecimalLiteral.read? (if negative then ascii "-1e9999" else ascii "1e9999") =
      some (ofRat negative (Decimal.mk 1 9999).value) := by
  cases negative with
  | true => rfl
  | false => rfl

/-- The literal of a number is read as the number. -/
theorem read?_text {x : Binary64} (h : x.isNaN = false) : DecimalLiteral.read? x.text = some x := by
  cases hfinite : x.isInfinite with
  | true =>
    have htext : x.text = if x.isNegative then ascii "-1e9999" else ascii "1e9999" := by
      unfold text
      rw [h, hfinite, if_neg Bool.false_ne_true, if_pos rfl]
    have hnearest := isNearest_overflow
    rw [← magnitude_of_isInfinite hfinite] at hnearest
    rw [htext, read?_infinite, ofRat_of_isNearest (Decimal.value_nonneg _) hnearest]
  | false =>
    obtain ⟨p, htext, hp, -⟩ := DecimalLiteral.exists_parts_withPoint x.writtenDecimal
    rw [text_of_finite h hfinite, ← htext, DecimalLiteral.read?_sign_append hp,
      ofRat_of_isNearest (Decimal.value_nonneg _) (isNearest_writtenDecimal h)]

/-- Every literal shows that it is one of a float. -/
theorem mem_text (x : Binary64) : 46 ∈ x.text ∨ 101 ∈ x.text := by
  cases hnan : x.isNaN with
  | true =>
    left
    rw [text, hnan, if_pos rfl]
    decide
  | false =>
    cases hfinite : x.isInfinite with
    | true =>
      right
      rw [text, hnan, hfinite, if_neg Bool.false_ne_true, if_pos rfl]
      split <;> decide
    | false =>
      obtain ⟨p, htext, -, hfloat⟩ := DecimalLiteral.exists_parts_withPoint x.writtenDecimal
      rw [text_of_finite hnan hfinite, ← htext]
      exact hfloat.mem_text.imp (List.mem_append_right _) (List.mem_append_right _)

end Binary64

namespace Constant

/-- **Float constants survive as literals.**  The text of every float that is not a NaN, read as a
decimal literal and rounded to the nearest double, is the float itself, bit by bit.  The text of every
float has a point or an exponent and is no text of an integer, and floats with the same text are the
same unless they are NaNs. -/
theorem read?_text_float :
    (∀ x : Binary64, x.isNaN = false → DecimalLiteral.read? (Constant.float x).text = some x) ∧
      (∀ x : Binary64, byte '.' ∈ (Constant.float x).text ∨ byte 'e' ∈ (Constant.float x).text) ∧
      (∀ (x : Binary64) (n : Int64), (Constant.float x).text ≠ (Constant.int n).text) ∧
      ∀ x y : Binary64, x.isNaN = false → y.isNaN = false → x ≠ y →
        (Constant.float x).text ≠ (Constant.float y).text := by
  refine ⟨fun x hx => Binary64.read?_text hx, Binary64.mem_text, fun x n heq => ?_,
    fun x y hx hy hne heq => hne ?_⟩
  · have hfloat := DecimalLiteral.looksWhole_of_mem (Binary64.mem_text x)
    have hint := DecimalLiteral.looksWhole_ofInt n.toInt
    have htext : x.text = Bytes.ofInt n.toInt := heq
    rw [← htext, hfloat] at hint
    cases hint
  · have hread := Binary64.read?_text hx
    have htext : x.text = y.text := heq
    rw [htext, Binary64.read?_text hy] at hread
    exact (Option.some.inj hread).symm

/-- The two zeros, the smallest number, the largest one, a power of two and infinity. -/
theorem read?_text_float_extremes :
    (∀ bits ∈ [0, 0x8000000000000000, 1, 0x7fefffffffffffff, 0x3ff0000000000000, 0x7ff0000000000000],
      DecimalLiteral.read? (Constant.float ⟨bits⟩).text = some ⟨bits⟩) ∧
      (Constant.float ⟨0⟩).text ≠ (Constant.float ⟨0x8000000000000000⟩).text := by
  have hnumber : ∀ bits ∈
      [0, 0x8000000000000000, 1, 0x7fefffffffffffff, 0x3ff0000000000000, 0x7ff0000000000000],
      (!(Binary64.mk bits).isNaN) = true := List.all_eq_true.mp rfl
  refine ⟨fun bits hbits => ?_, ?_⟩
  · exact read?_text_float.1 ⟨bits⟩ ((Bool.not_eq_true' _).mp (hnumber bits hbits))
  · exact read?_text_float.2.2.2 ⟨0⟩ ⟨0x8000000000000000⟩ rfl rfl (by decide)

end Constant
end LuaToC
