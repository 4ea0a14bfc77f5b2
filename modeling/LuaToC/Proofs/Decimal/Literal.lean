import LuaToC.Decimal.FloatText
import LuaToC.Proofs.Decimal.Rounding
import LuaToC.Proofs.Numeral

/-! # Decimal literals

`DecimalLiteral.read?` reads a decimal literal: an optional sign, digits with an optional point among
them, and an optional exponent.  The digits and the exponent give an exact rational number, which is
rounded to the nearest double, and the sign is kept for zero too.

The text of a decimal is put together from three parts (`Parts`), whether it is positional or has an
exponent (`exists_parts_text`), and a text of such parts is read as the number that they stand for
(`Parts.Denotes.unsigned?_text`).  A text that looks like a whole number gets a point and a zero, which
is one more part and leaves the number as it is (`exists_parts_withPoint`).
-/
namespace LuaToC

/-- The number `digits · 10^exponent`. -/
def Decimal.value (d : Decimal) : ℚ := d.digits * 10 ^ d.exponent

theorem Decimal.value_nonneg (d : Decimal) : 0 ≤ d.value :=
  mul_nonneg (Nat.cast_nonneg _) (zpow_nonneg (by norm_num) _)

namespace DecimalLiteral

/-! ## The grammar -/

def isDigit (b : UInt8) : Bool := 48 ≤ b && b ≤ 57

/-- A whole number of at least one digit. -/
def digits? (s : Bytes) : Option Nat := if s = [] then none else Numeral.value? 10 0 s

/-- The sign in front, if there is one, says whether a number is negative; the rest follows. -/
def splitSign : Bytes → Bool × Bytes
  | 45 :: rest => (true, rest)
  | 43 :: rest => (false, rest)
  | s => (false, s)

/-- What follows the digits: nothing, or an exponent with an optional sign. -/
def exponent? : Bytes → Option Int
  | [] => some 0
  | 101 :: rest | 69 :: rest =>
    (digits? (splitSign rest).2).map fun (n : Nat) => if (splitSign rest).1 then -(n : Int) else n
  | _ => none

/-- The digits after the point, if there is a point, and what follows them. -/
def splitFraction : Bytes → Bytes × Bytes
  | 46 :: rest => (rest.takeWhile isDigit, rest.dropWhile isDigit)
  | s => ([], s)

/-- A literal without a sign. -/
def unsigned? (s : Bytes) : Option Decimal :=
  let rest := splitFraction (s.dropWhile isDigit)
  (digits? (s.takeWhile isDigit ++ rest.1)).bind fun n =>
    (exponent? rest.2).map fun e => ⟨n, e - rest.1.length⟩

/-- The double nearest to a literal, of the literal's sign (`Binary64.isNearest_nearest`). -/
def read? (s : Bytes) : Option Binary64 :=
  (unsigned? (splitSign s).2).map fun d => Binary64.ofRat (splitSign s).1 d.value

/-! ## Digits -/

theorem isDigit_of_mem_ofNat {n : Nat} : ∀ b ∈ Bytes.ofNat n, isDigit b = true := by
  intro b hb
  obtain ⟨d, hd, rfl⟩ := Bytes.exists_digit_of_mem_digits hb
  clear hb
  revert d
  decide

theorem isDigit_zero : ∀ b ∈ [(48 : UInt8)], isDigit b = true := List.all_eq_true.mp rfl

theorem isDigit_of_mem_replicate {n : Nat} : ∀ b ∈ List.replicate n (48 : UInt8), isDigit b = true := by
  intro b hb
  rw [List.eq_of_mem_replicate hb]
  rfl

theorem digits?_ofNat (n : Nat) : digits? (Bytes.ofNat n) = some n := by
  rw [digits?, Bytes.ofNat, if_neg (Bytes.digits_ne_nil 8 n)]
  exact Numeral.value?_digits (by decide) n

theorem append_ofNat_ne_nil (s : Bytes) (n : Nat) : s ++ Bytes.ofNat n ≠ [] := by
  intro h
  exact Bytes.digits_ne_nil 8 n (List.append_eq_nil_iff.mp h).2

theorem digits?_twoDigits (n : Nat) : digits? (Bytes.twoDigits n) = some n := by
  have hne : Bytes.twoDigits n ≠ [] := append_ofNat_ne_nil _ n
  rw [digits?, if_neg hne, Numeral.value?_twoDigits]

/-- Zeros in front of a number leave it as it is. -/
theorem digits?_zeros_append (k n : Nat) :
    digits? (List.replicate k 48 ++ Bytes.ofNat n) = some n := by
  have hpad : List.replicate k 48 ++ Bytes.ofNat n =
      Bytes.padLeft 48 (k + (Bytes.ofNat n).length) (Bytes.ofNat n) := by
    rw [Bytes.padLeft, Nat.add_sub_cancel]
  rw [digits?, if_neg (append_ofNat_ne_nil _ n), hpad, Numeral.value?_padLeft 10 _ _ (by decide)]
  exact Numeral.value?_digits (by decide) n

/-- A zero after a number is ten times the number. -/
theorem digits?_append_zero {s : Bytes} {n : Nat} (h : digits? s = some n) :
    digits? (s ++ [48]) = some (n * 10) := by
  rw [digits?] at h ⊢
  split at h
  · cases h
  · rw [if_neg (by simp), Numeral.value?_append, h]
    rfl

theorem digits?_append_zeros {s : Bytes} {n : Nat} (h : digits? s = some n) (k : Nat) :
    digits? (s ++ List.replicate k 48) = some (n * 10 ^ k) := by
  induction k with
  | zero => rw [List.replicate_zero, List.append_nil, h, pow_zero, Nat.mul_one]
  | succ k ih =>
    rw [List.replicate_succ', ← List.append_assoc, digits?_append_zero ih, pow_succ, Nat.mul_assoc]

/-! ## Parts of a literal -/

/-- The digits before and after the point, and the exponent. -/
structure Parts where
  whole : Bytes
  fraction : Bytes
  exponent : Option Int

/-- The exponent with its sign, if there is one. -/
def exponentText : Option Int → Bytes
  | none => []
  | some x => 101 :: (if x < 0 then 45 else 43) :: Bytes.twoDigits x.natAbs

/-- The point and the digits after it, if there are any. -/
def fractionText (f : Bytes) : Bytes := if f = [] then [] else 46 :: f

namespace Parts

/-- The parts one after the other. -/
def text (p : Parts) : Bytes := p.whole ++ (fractionText p.fraction ++ exponentText p.exponent)

/-- The parts are digits where they should be, and stand for the number `r`. -/
structure Denotes (p : Parts) (r : ℚ) : Prop where
  whole : ∀ b ∈ p.whole, isDigit b = true
  fraction : ∀ b ∈ p.fraction, isDigit b = true
  value : ∃ n, digits? (p.whole ++ p.fraction) = some n ∧
    r = n * 10 ^ (p.exponent.getD 0 - p.fraction.length)

/-- The parts show that the number is no integer constant: there is a point or an exponent. -/
def IsFloat (p : Parts) : Prop := p.fraction ≠ [] ∨ p.exponent ≠ none

end Parts

theorem exponent?_exponentText (e : Option Int) : exponent? (exponentText e) = some (e.getD 0) := by
  cases e with
  | none => rfl
  | some x =>
    by_cases hx : x < 0
    · have hsign : splitSign (45 :: Bytes.twoDigits x.natAbs) = (true, Bytes.twoDigits x.natAbs) := rfl
      rw [exponentText, if_pos hx, exponent?, hsign, digits?_twoDigits, Option.map_some, if_pos rfl,
        Option.getD_some, Int.ofNat_natAbs_of_nonpos (by omega), Int.neg_neg]
    · have hsign : splitSign (43 :: Bytes.twoDigits x.natAbs) = (false, Bytes.twoDigits x.natAbs) := rfl
      rw [exponentText, if_neg hx, exponent?, hsign, digits?_twoDigits, Option.map_some,
        if_neg Bool.false_ne_true, Option.getD_some, Int.natAbs_of_nonneg (by omega)]

/-- Digits end where another byte comes. -/
theorem span_isDigit {s t : Bytes} (hs : ∀ b ∈ s, isDigit b = true)
    (ht : t = [] ∨ ∃ b rest, t = b :: rest ∧ isDigit b = false) :
    (s ++ t).takeWhile isDigit = s ∧ (s ++ t).dropWhile isDigit = t := by
  rw [List.takeWhile_append_of_pos hs, List.dropWhile_append_of_pos hs]
  rcases ht with rfl | ⟨b, rest, rfl, hb⟩
  · exact ⟨List.append_nil s, rfl⟩
  · rw [List.takeWhile_cons_of_neg (by simp [hb]), List.dropWhile_cons_of_neg (by simp [hb])]
    exact ⟨List.append_nil s, rfl⟩

theorem exponentText_cases (e : Option Int) :
    exponentText e = [] ∨ ∃ rest, exponentText e = 101 :: rest := by
  cases e with
  | none => exact .inl rfl
  | some x => exact .inr ⟨_, rfl⟩

theorem splitFraction_text (f : Bytes) (hf : ∀ b ∈ f, isDigit b = true) (e : Option Int) :
    splitFraction (fractionText f ++ exponentText e) = (f, exponentText e) := by
  have hend : exponentText e = [] ∨ ∃ b rest, exponentText e = b :: rest ∧ isDigit b = false :=
    (exponentText_cases e).imp_right fun ⟨rest, hrest⟩ => ⟨101, rest, hrest, rfl⟩
  unfold fractionText
  split
  · rename_i hnil
    rw [hnil, List.nil_append]
    rcases exponentText_cases e with he | ⟨rest, he⟩
    · rw [he]
      rfl
    · rw [he]
      rfl
  · obtain ⟨htake, hdrop⟩ := span_isDigit hf hend
    rw [List.cons_append, splitFraction, htake, hdrop]

/-- Neither a point nor an exponent begins with a digit. -/
theorem fractionText_append_cases (f : Bytes) (e : Option Int) :
    fractionText f ++ exponentText e = [] ∨
      ∃ b rest, fractionText f ++ exponentText e = b :: rest ∧ isDigit b = false := by
  unfold fractionText
  split
  · rcases exponentText_cases e with hnil | ⟨rest, hrest⟩
    · exact .inl hnil
    · exact .inr ⟨101, rest, hrest, rfl⟩
  · exact .inr ⟨46, _, rfl, rfl⟩

/-- The text of parts is read as the number that they stand for. -/
theorem Parts.Denotes.unsigned?_text {p : Parts} {r : ℚ} (h : p.Denotes r) :
    ∃ d, unsigned? p.text = some d ∧ d.value = r := by
  obtain ⟨n, hn, hr⟩ := h.value
  obtain ⟨htake, hdrop⟩ := span_isDigit h.whole (fractionText_append_cases p.fraction p.exponent)
  refine ⟨⟨n, p.exponent.getD 0 - p.fraction.length⟩, ?_, hr.symm⟩
  rw [unsigned?, Parts.text, htake, hdrop, splitFraction_text _ h.fraction]
  dsimp only
  rw [hn, exponent?_exponentText]
  rfl

/-! ## Decimals -/

theorem ten_zpow_natCast (k : Nat) : ((10 ^ k : Nat) : ℚ) = 10 ^ (k : ℤ) := by
  rw [zpow_natCast]
  push_cast
  rfl

/-- The text with an exponent. -/
theorem exists_parts_scientific (n : Nat) (x : Int) :
    ∃ p : Parts, p.text = Decimal.scientific (Bytes.ofNat n) x ∧
      p.Denotes (n * 10 ^ (x + 1 - (Bytes.ofNat n).length)) := by
  have hdigits := isDigit_of_mem_ofNat (n := n)
  have hvalue := digits?_ofNat n
  obtain ⟨d, rest, hds⟩ := List.exists_cons_of_ne_nil (Bytes.digits_ne_nil 8 n)
  rw [← Bytes.ofNat] at hds
  rw [hds] at hdigits hvalue ⊢
  refine ⟨⟨[d], rest, some x⟩, ?_, ?_, ?_, n, hvalue, ?_⟩
  · cases rest with
    | nil => rfl
    | cons c rest => simp [Parts.text, fractionText, exponentText, Decimal.scientific]
  · intro b hb
    exact hdigits b (List.mem_cons.mpr (.inl (List.mem_singleton.mp hb)))
  · intro b hb
    exact hdigits b (List.mem_cons_of_mem d hb)
  · rw [Option.getD_some, List.length_cons]
    congr 2
    push_cast
    ring

/-- The text without an exponent. -/
theorem exists_parts_positional (n : Nat) (point : Int) :
    ∃ p : Parts, p.text = Decimal.positional (Bytes.ofNat n) point ∧
      p.Denotes (n * 10 ^ (point - (Bytes.ofNat n).length)) := by
  have hdigits := isDigit_of_mem_ofNat (n := n)
  have hvalue := digits?_ofNat n
  unfold Decimal.positional
  split
  · -- All digits are after the point, with zeros in front of them.
    rename_i hpoint
    refine ⟨⟨[48], List.replicate (-point).toNat 48 ++ Bytes.ofNat n, none⟩, ?_, ?_, ?_, n, ?_, ?_⟩
    · rw [Parts.text, fractionText, if_neg (append_ofNat_ne_nil _ n)]
      simp [exponentText, ascii]
    · exact isDigit_zero
    · intro b hb
      exact (List.mem_append.mp hb).elim (isDigit_of_mem_replicate b) (hdigits b)
    · rw [← List.append_assoc, List.singleton_append, ← List.replicate_succ]
      exact digits?_zeros_append _ n
    · rw [List.length_append, List.length_replicate, Option.getD_none]
      congr 2
      push_cast
      omega
  · rename_i hpoint
    split
    · -- All digits are before the point, and zeros after them.
      rename_i hlength
      let zeros := point.toNat - (Bytes.ofNat n).length
      refine ⟨⟨Bytes.ofNat n ++ List.replicate zeros 48, [], none⟩, ?_, ?_, ?_, n * 10 ^ zeros, ?_, ?_⟩
      · simp [Parts.text, fractionText, exponentText, zeros]
      · intro b hb
        exact (List.mem_append.mp hb).elim (hdigits b) (isDigit_of_mem_replicate b)
      · intro b hb
        cases hb
      · rw [List.append_nil]
        exact digits?_append_zeros hvalue zeros
      · rw [Nat.cast_mul, ten_zpow_natCast, Option.getD_none, List.length_nil, Int.ofNat_zero, sub_zero,
          zpow_zero, mul_one]
        congr 2
        omega
    · rename_i hlength
      refine ⟨⟨(Bytes.ofNat n).take point.toNat, (Bytes.ofNat n).drop point.toNat, none⟩, ?_, ?_, ?_, n,
        ?_, ?_⟩
      · have hne : (Bytes.ofNat n).drop point.toNat ≠ [] := by
          intro h
          exact hlength (List.drop_eq_nil_iff.mp h)
        rw [Parts.text, fractionText, if_neg hne]
        simp [exponentText]
      · intro b hb
        exact hdigits b (List.mem_of_mem_take hb)
      · intro b hb
        exact hdigits b (List.mem_of_mem_drop hb)
      · rw [List.take_append_drop, hvalue]
      · rw [List.length_drop, Option.getD_none]
        congr 2
        omega

/-- The text of a decimal has the three parts, and they stand for the decimal. -/
theorem exists_parts_text (d : Decimal) : ∃ p : Parts, p.text = d.text ∧ p.Denotes d.value := by
  unfold Decimal.text
  split
  · rename_i hzero
    refine ⟨⟨[48], [], none⟩, rfl, isDigit_zero, fun b hb => absurd hb List.not_mem_nil, 0, rfl, ?_⟩
    rw [Decimal.value, hzero]
    simp
  · dsimp only
    have hexponent : (Bytes.ofNat d.digits).length + d.exponent - 1 + 1 -
        (Bytes.ofNat d.digits).length = d.exponent := by omega
    split
    · obtain ⟨p, htext, hp⟩ := exists_parts_scientific d.digits
        ((Bytes.ofNat d.digits).length + d.exponent - 1)
      rw [hexponent] at hp
      exact ⟨p, htext, hp⟩
    · obtain ⟨p, htext, hp⟩ := exists_parts_positional d.digits
        ((Bytes.ofNat d.digits).length + d.exponent - 1 + 1)
      rw [hexponent] at hp
      exact ⟨p, htext, hp⟩

/-! ## The point that makes a float of a whole number -/

/-- The text with a point and a zero where it would read as a whole number. -/
def withPoint (s : Bytes) : Bytes := if Binary64.looksWhole s then s ++ ascii ".0" else s

theorem looksWhole_of_isDigit {s : Bytes} (hs : ∀ b ∈ s, isDigit b = true) :
    Binary64.looksWhole s = true := by
  refine List.all_eq_true.mpr fun b hb => ?_
  have hdigit := hs b hb
  rw [isDigit] at hdigit
  rw [hdigit, Bool.or_true]

theorem looksWhole_of_mem {s : Bytes} (h : 46 ∈ s ∨ 101 ∈ s) : Binary64.looksWhole s = false := by
  rcases h with h | h
  · exact List.all_eq_false.mpr ⟨46, h, by decide⟩
  · exact List.all_eq_false.mpr ⟨101, h, by decide⟩

theorem looksWhole_ofInt (n : Int) : Binary64.looksWhole (Bytes.ofInt n) = true := by
  have hdigits : Binary64.looksWhole (Bytes.ofNat n.natAbs) = true :=
    looksWhole_of_isDigit isDigit_of_mem_ofNat
  unfold Bytes.ofInt
  split
  · exact hdigits
  · exact hdigits

theorem looksWhole_sign_append (negative : Bool) (s : Bytes) :
    Binary64.looksWhole ((if negative then [45] else []) ++ s) = Binary64.looksWhole s := by
  cases negative with
  | true => rfl
  | false => rfl

/-- A point or an exponent is seen in the text. -/
theorem Parts.IsFloat.mem_text {p : Parts} (h : p.IsFloat) : 46 ∈ p.text ∨ 101 ∈ p.text := by
  rcases h with h | h
  · left
    rw [Parts.text, fractionText, if_neg h]
    simp
  · right
    obtain ⟨x, hx⟩ := Option.ne_none_iff_exists'.mp h
    rw [Parts.text, hx, exponentText]
    simp

/-- With a point where it is needed, the text of a decimal has parts of a float that stand for the
decimal. -/
theorem exists_parts_withPoint (d : Decimal) :
    ∃ p : Parts, p.text = withPoint d.text ∧ p.Denotes d.value ∧ p.IsFloat := by
  obtain ⟨p, htext, hp⟩ := exists_parts_text d
  by_cases hfloat : p.IsFloat
  · refine ⟨p, ?_, hp, hfloat⟩
    rw [withPoint, ← htext, looksWhole_of_mem hfloat.mem_text, if_neg Bool.false_ne_true]
  · -- The digits are all there is, and a zero after the point is ten times as many of a tenth.
    obtain ⟨hfraction, hexponent⟩ := not_or.mp hfloat
    have hfraction := not_not.mp hfraction
    have hexponent := not_not.mp hexponent
    obtain ⟨n, hn, hvalue⟩ := hp.value
    rw [hfraction, List.append_nil] at hn
    rw [hfraction, hexponent] at hvalue
    have hwhole : d.text = p.whole := by
      rw [← htext, Parts.text, hfraction, hexponent]
      exact List.append_nil p.whole
    refine ⟨⟨p.whole, [48], none⟩, ?_,
      ⟨hp.whole, isDigit_zero, n * 10, digits?_append_zero hn, ?_⟩, .inl (List.cons_ne_nil _ _)⟩
    · rw [withPoint, hwhole, looksWhole_of_isDigit hp.whole, if_pos rfl]
      rfl
    · rw [hvalue]
      simp

theorem splitSign_cons {b : UInt8} (hminus : b ≠ 45) (hplus : b ≠ 43) (rest : Bytes) :
    splitSign (b :: rest) = (false, b :: rest) := by
  unfold splitSign
  split
  · rename_i heq
    exact absurd (List.cons.inj heq).1 hminus
  · rename_i heq
    exact absurd (List.cons.inj heq).1 hplus
  · rfl

/-- A literal without a sign begins with a digit or a point. -/
theorem Parts.Denotes.splitSign_text {p : Parts} {r : ℚ} (h : p.Denotes r) :
    splitSign p.text = (false, p.text) := by
  obtain ⟨whole, fraction, exponent⟩ := p
  cases whole with
  | nil =>
    have hne : fraction ≠ [] := by
      rintro rfl
      obtain ⟨n, hn, -⟩ := h.value
      cases hn
    rw [Parts.text, fractionText, if_neg hne]
    exact splitSign_cons (by decide) (by decide) _
  | cons b rest =>
    have hdigit := h.whole b List.mem_cons_self
    refine splitSign_cons ?_ ?_ _
    · rintro rfl
      exact absurd hdigit (by decide)
    · rintro rfl
      exact absurd hdigit (by decide)

/-- A literal with a sign is read as the literal without it, and then rounded with its sign. -/
theorem read?_sign_append {p : Parts} {r : ℚ} (h : p.Denotes r) (negative : Bool) :
    read? ((if negative then [45] else []) ++ p.text) = some (Binary64.ofRat negative r) := by
  obtain ⟨d, hd, hvalue⟩ := h.unsigned?_text
  have hsplit : splitSign ((if negative then [45] else []) ++ p.text) = (negative, p.text) := by
    cases negative with
    | true => rfl
    | false => exact h.splitSign_text
  rw [read?, hsplit]
  dsimp only
  rw [hd, Option.map_some, hvalue]

end DecimalLiteral
end LuaToC
