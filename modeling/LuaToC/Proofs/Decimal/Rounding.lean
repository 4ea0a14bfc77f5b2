import LuaToC.Decimal.Binary64
import Mathlib.Data.Rat.Floor
import Mathlib.Tactic.Linarith
import Mathlib.Tactic.Ring

/-! # Rounding to double precision

The words without a sign bit, from zero to `infinity`, are in the order of the numbers that they stand
for (`valueOf_strictMono`), and infinity takes the place of `2^1024`, the number that would come next.
So rounding to the nearest number is rounding to the nearest of these words, and a number is even
when its word is (`IsNearest`).  There is just one such word (`IsNearest.unique`).

`nearest` computes it: the number is scaled until it has 53 digits before the point, or as far as the
smallest numbers allow, and then rounded to a whole number.
-/
namespace LuaToC.Binary64

/-! ## Words and their values -/

/-- The word of infinity. -/
def infinity : Nat := 0x7ff0000000000000

/-- The significand of the number with a word. -/
def significandOf (b : Nat) : Nat :=
  if b / 0x10000000000000 = 0 then b else b % 0x10000000000000 + 0x10000000000000

/-- How often the significand is doubled.  The smallest numbers and those of the first binade have the
same scale. -/
def scaleOf (b : Nat) : Nat := b / 0x10000000000000 - 1

/-- The smallest positive number. -/
def smallest : ℚ := 2 ^ (-1074 : ℤ)

/-- The distance between numbers of a scale. -/
def unit (p : Nat) : ℚ := 2 ^ p * smallest

/-- The number with a word, and `2^1024` for infinity. -/
def valueOf (b : Nat) : ℚ := significandOf b * unit (scaleOf b)

theorem smallest_pos : 0 < smallest := zpow_pos two_pos _

theorem unit_pos (p : Nat) : 0 < unit p := mul_pos (pow_pos two_pos p) smallest_pos

theorem unit_succ (p : Nat) : unit (p + 1) = 2 * unit p := by
  unfold unit
  rw [pow_succ]
  ring

theorem unit_eq (p : Nat) : unit p = 2 ^ ((p : ℤ) - 1074) := by
  rw [unit, smallest, ← zpow_natCast, ← zpow_add₀ two_ne_zero, sub_eq_add_neg]

theorem eq_scaleOf_add_significandOf (b : Nat) :
    b = scaleOf b * 0x10000000000000 + significandOf b := by
  unfold scaleOf significandOf
  split <;> omega

theorem significandOf_lt (b : Nat) : significandOf b < 0x20000000000000 := by
  unfold significandOf
  split <;> omega

/-- Only the smallest scale has numbers without a leading one. -/
theorem scaleOf_eq_zero_or_le_significandOf (b : Nat) :
    scaleOf b = 0 ∨ 0x10000000000000 ≤ significandOf b := by
  unfold scaleOf significandOf
  split <;> omega

/-- The word of a significand and a scale, up to the first number of the next scale. -/
theorem valueOf_word {p n : Nat} (hn : n ≤ 0x20000000000000) (hp : p = 0 ∨ 0x10000000000000 ≤ n) :
    valueOf (p * 0x10000000000000 + n) = n * unit p := by
  rcases Nat.lt_or_ge n 0x20000000000000 with hlt | hge
  · have hscale : scaleOf (p * 0x10000000000000 + n) = p := by
      unfold scaleOf
      omega
    have hsignificand : significandOf (p * 0x10000000000000 + n) = n := by
      have hword := eq_scaleOf_add_significandOf (p * 0x10000000000000 + n)
      rw [hscale] at hword
      omega
    rw [valueOf, hscale, hsignificand]
  · obtain rfl : n = 0x20000000000000 := Nat.le_antisymm hn hge
    have hscale : scaleOf (p * 0x10000000000000 + 0x20000000000000) = p + 1 := by
      unfold scaleOf
      omega
    have hsignificand :
        significandOf (p * 0x10000000000000 + 0x20000000000000) = 0x10000000000000 := by
      have hword := eq_scaleOf_add_significandOf (p * 0x10000000000000 + 0x20000000000000)
      rw [hscale] at hword
      omega
    rw [valueOf, hscale, hsignificand, unit_succ]
    push_cast
    ring

theorem valueOf_infinity : valueOf infinity = 2 ^ 1024 := by
  have hword : valueOf infinity = (0x10000000000000 : Nat) * unit 2046 :=
    valueOf_word (p := 2046) (n := 0x10000000000000) (by decide) (.inr (le_refl _))
  have hfirst : ((0x10000000000000 : Nat) : ℚ) = 2 ^ (52 : ℤ) := by norm_num
  rw [hword, hfirst, unit_eq, ← zpow_add₀ two_ne_zero]
  exact zpow_natCast 2 1024

/-- The next word has the next number of the scale. -/
theorem valueOf_succ (b : Nat) : valueOf (b + 1) = valueOf b + unit (scaleOf b) := by
  have hlt := significandOf_lt b
  have hscale := scaleOf_eq_zero_or_le_significandOf b
  have hnext : b + 1 = scaleOf b * 0x10000000000000 + (significandOf b + 1) := by
    have hword := eq_scaleOf_add_significandOf b
    omega
  rw [hnext, valueOf_word hlt (hscale.imp_right Nat.le_succ_of_le), valueOf]
  push_cast
  ring

/-- Words are in the order of the numbers. -/
theorem valueOf_strictMono : StrictMono valueOf := by
  refine strictMono_nat_of_lt_succ fun b => ?_
  have hpos := unit_pos (scaleOf b)
  rw [valueOf_succ]
  linarith

/-! ## Nearest words -/

/-- The word has the number nearest to `r`, and an even one where another is as near. -/
structure IsNearest (r : ℚ) (b : Nat) : Prop where
  le : b ≤ infinity
  nearest : ∀ c ≤ infinity, |r - valueOf b| ≤ |r - valueOf c|
  even : ∀ c ≤ infinity, c ≠ b → |r - valueOf b| = |r - valueOf c| → b % 2 = 0

theorem abs_sub_le_iff_add_le {r u v : ℚ} (h : u < v) : |r - v| ≤ |r - u| ↔ u + v ≤ 2 * r := by
  constructor
  · intro hle
    by_contra hlt
    rcases abs_cases (r - v) with ⟨hv, _⟩ | ⟨hv, _⟩ <;>
      rcases abs_cases (r - u) with ⟨hu, _⟩ | ⟨hu, _⟩ <;> linarith
  · intro hle
    have hu : |r - u| = r - u := abs_of_nonneg (by linarith)
    rw [hu, abs_le]
    constructor <;> linarith

theorem abs_sub_le_iff_le_add {r u v : ℚ} (h : u < v) : |r - u| ≤ |r - v| ↔ 2 * r ≤ u + v := by
  constructor
  · intro hle
    by_contra hlt
    rcases abs_cases (r - v) with ⟨hv, _⟩ | ⟨hv, _⟩ <;>
      rcases abs_cases (r - u) with ⟨hu, _⟩ | ⟨hu, _⟩ <;> linarith
  · intro hle
    have hv : |r - v| = v - r := by
      rw [abs_sub_comm]
      exact abs_of_nonneg (by linarith)
    rw [hv, abs_le]
    constructor <;> linarith

/-- Two numbers are as near when `r` is half-way between them. -/
theorem abs_sub_eq_iff {r u v : ℚ} (h : u < v) : |r - u| = |r - v| ↔ u + v = 2 * r := by
  rw [le_antisymm_iff, abs_sub_le_iff_add_le h, abs_sub_le_iff_le_add h]
  constructor
  · rintro ⟨hle, hge⟩
    exact le_antisymm hge hle
  · intro heq
    exact ⟨heq.ge, heq.le⟩

/-- No two words are nearest. -/
theorem IsNearest.unique {r : ℚ} {b c : Nat} (hb : IsNearest r b) (hc : IsNearest r c) : b = c := by
  wlog hlt : b < c generalizing b c
  · rcases Nat.lt_or_ge c b with hgt | hle
    · exact (this hc hb hgt).symm
    · omega
  have hvalue := valueOf_strictMono hlt
  have heq : |r - valueOf b| = |r - valueOf c| :=
    le_antisymm (hb.nearest c hc.le) (hc.nearest b hb.le)
  have hmiddle := (abs_sub_eq_iff hvalue).mp heq
  -- Both are even, so there is a word between them, and it is nearer.
  have hbeven := hb.even c hc.le (by omega) heq
  have hceven := hc.even b hb.le (by omega) heq.symm
  have hbetween : b < b + 1 ∧ b + 1 < c := by omega
  have hle := hc.le
  have hlow := valueOf_strictMono hbetween.1
  have hhigh := valueOf_strictMono hbetween.2
  have hnearer := (abs_sub_le_iff_le_add hlow).mp (hb.nearest (b + 1) (by omega))
  linarith

/-- `r` is not below the middle between the word and the one before it, and not above the middle
between the word and the one after it; and at a middle the word is even. -/
structure Between (r : ℚ) (b : Nat) : Prop where
  lower : ∀ c, c + 1 = b →
    valueOf c + valueOf b < 2 * r ∨ valueOf c + valueOf b = 2 * r ∧ b % 2 = 0
  upper : 2 * r < valueOf b + valueOf (b + 1) ∨ 2 * r = valueOf b + valueOf (b + 1) ∧ b % 2 = 0

/-- A word is as near as those below it, if it is as near as the one before it. -/
theorem nearest_of_lower {r : ℚ} {b : Nat}
    (h : ∀ c, c + 1 = b →
      valueOf c + valueOf b < 2 * r ∨ valueOf c + valueOf b = 2 * r ∧ b % 2 = 0)
    {c : Nat} (hc : c < b) :
    |r - valueOf b| ≤ |r - valueOf c| ∧ (|r - valueOf b| = |r - valueOf c| → b % 2 = 0) := by
  obtain ⟨d, rfl⟩ : ∃ d, b = d + 1 := ⟨b - 1, by omega⟩
  have hvalue := valueOf_strictMono hc
  have hle : valueOf c ≤ valueOf d := valueOf_strictMono.monotone (by omega)
  refine ⟨(abs_sub_le_iff_add_le hvalue).mpr ?_, fun heq => ?_⟩
  · rcases h d rfl with hlt | ⟨htie, -⟩ <;> linarith
  · have hmiddle := (abs_sub_eq_iff hvalue).mp heq.symm
    rcases h d rfl with hlt | ⟨-, heven⟩
    · linarith
    · exact heven

theorem nearest_of_upper {r : ℚ} {b : Nat}
    (h : 2 * r < valueOf b + valueOf (b + 1) ∨ 2 * r = valueOf b + valueOf (b + 1) ∧ b % 2 = 0)
    {c : Nat} (hc : b < c) :
    |r - valueOf b| ≤ |r - valueOf c| ∧ (|r - valueOf b| = |r - valueOf c| → b % 2 = 0) := by
  have hvalue := valueOf_strictMono hc
  have hle : valueOf (b + 1) ≤ valueOf c := valueOf_strictMono.monotone hc
  refine ⟨(abs_sub_le_iff_le_add hvalue).mpr ?_, fun heq => ?_⟩
  · rcases h with hlt | ⟨htie, -⟩ <;> linarith
  · have hmiddle := (abs_sub_eq_iff hvalue).mp heq
    rcases h with hlt | ⟨-, heven⟩
    · linarith
    · exact heven

theorem Between.isNearest {r : ℚ} {b : Nat} (h : Between r b) (hle : b ≤ infinity) :
    IsNearest r b where
  le := hle
  nearest c _ := by
    rcases lt_trichotomy c b with hlt | rfl | hgt
    · exact (nearest_of_lower h.lower hlt).1
    · exact le_refl _
    · exact (nearest_of_upper h.upper hgt).1
  even c _ hne := by
    rcases Nat.lt_or_gt_of_ne hne with hlt | hgt
    · exact (nearest_of_lower h.lower hlt).2
    · exact (nearest_of_upper h.upper hgt).2

/-- A number that is too large is rounded to infinity. -/
theorem isNearest_infinity {r : ℚ} (hr : valueOf infinity ≤ r) : IsNearest r infinity := by
  have hlower : ∀ c, c + 1 = infinity → valueOf c + valueOf infinity < 2 * r ∨
      valueOf c + valueOf infinity = 2 * r ∧ infinity % 2 = 0 := by
    intro c hc
    have hvalue : valueOf c < valueOf infinity := valueOf_strictMono (by omega)
    left
    linarith
  refine ⟨le_refl _, fun c hc => ?_, fun c hc hne _ => by decide⟩
  rcases Nat.eq_or_lt_of_le hc with rfl | hlt
  · exact le_refl _
  · exact (nearest_of_lower hlower hlt).1

theorem Between.isNearest_infinity {r : ℚ} {b : Nat} (h : Between r b) (hle : infinity ≤ b) :
    IsNearest r infinity := by
  rcases Nat.eq_or_lt_of_le hle with rfl | hlt
  · exact h.isNearest (le_refl _)
  obtain ⟨d, rfl⟩ : ∃ d, b = d + 1 := ⟨b - 1, by omega⟩
  have hd : valueOf infinity ≤ valueOf d := valueOf_strictMono.monotone (by omega)
  have hstep := valueOf_strictMono (Nat.lt_succ_self d)
  refine Binary64.isNearest_infinity ?_
  rcases h.lower d rfl with hlt | ⟨heq, -⟩ <;> linarith

/-! ## The interval of a word -/

/-- Where the numbers begin that are rounded to a significand: half a unit below it, and a quarter
below the first significand of a scale, since the units of the scale before are half as large. -/
def lowerEnd (p n : Nat) : ℚ := if n = 0x10000000000000 ∧ 0 < p then n - 1 / 4 else n - 1 / 2

/-- `s` is rounded to the whole number `n` on the scale `p`. -/
structure Interval (p n : Nat) (s : ℚ) : Prop where
  lower : lowerEnd p n < s ∨ lowerEnd p n = s ∧ n % 2 = 0
  upper : s < n + 1 / 2 ∨ s = n + 1 / 2 ∧ n % 2 = 0

theorem interval_self (p m : Nat) : Interval p m m := by
  constructor
  · left
    unfold lowerEnd
    split <;> linarith
  · left
    linarith

theorem Interval.between {p n : Nat} {s : ℚ} (h : Interval p n s) (hn : n < 0x20000000000000)
    (hp : p = 0 ∨ 0x10000000000000 ≤ n) : Between (s * unit p) (p * 0x10000000000000 + n) := by
  have hunit := unit_pos p
  have hvalue := valueOf_word hn.le hp
  have hparity : (p * 0x10000000000000 + n) % 2 = n % 2 := by omega
  constructor
  · intro c hc
    -- The sum of the two numbers is twice the lower end.
    have hsum : valueOf c + valueOf (p * 0x10000000000000 + n) = 2 * (lowerEnd p n * unit p) := by
      unfold lowerEnd
      split
      · rename_i hfirst
        obtain ⟨rfl, hpos⟩ := hfirst
        obtain ⟨q, rfl⟩ : ∃ q, p = q + 1 := ⟨p - 1, by omega⟩
        have hc' : c = q * 0x10000000000000 + 0x1fffffffffffff := by omega
        rw [hvalue, hc', valueOf_word (by omega) (by omega), unit_succ]
        push_cast
        ring
      · obtain ⟨m, rfl⟩ : ∃ m, n = m + 1 := ⟨n - 1, by omega⟩
        have hc' : c = p * 0x10000000000000 + m := by omega
        rw [hvalue, hc', valueOf_word (by omega) (by omega)]
        push_cast
        ring
    rw [hsum, hparity]
    rcases h.lower with hlt | ⟨heq, heven⟩
    · left
      have hscaled := mul_lt_mul_of_pos_right hlt hunit
      linarith
    · right
      exact ⟨by rw [heq], heven⟩
  · have hnext : valueOf (p * 0x10000000000000 + n + 1) = (n + 1) * unit p := by
      rw [Nat.add_assoc, valueOf_word hn (by omega)]
      push_cast
      ring
    rw [hvalue, hnext, hparity]
    rcases h.upper with hlt | ⟨heq, heven⟩
    · left
      have hscaled := mul_lt_mul_of_pos_right hlt hunit
      linarith
    · right
      refine ⟨?_, heven⟩
      rw [heq]
      ring

/-! ## Rounding -/

/-- The whole number nearest to a number that is not negative, and the even one of two. -/
def roundEven (s : ℚ) : Nat :=
  if s < ⌊s⌋₊ + 1 / 2 then ⌊s⌋₊
  else if ⌊s⌋₊ + 1 / 2 < s then ⌊s⌋₊ + 1
  else ⌊s⌋₊ + ⌊s⌋₊ % 2

/-- The word nearest to a number that is not negative. -/
def nearest (r : ℚ) : Nat :=
  let p := Nat.log2 ⌊r / smallest⌋₊ - 52
  min (p * 0x10000000000000 + roundEven (r / unit p)) infinity

theorem roundEven_spec {s : ℚ} (hs : 0 ≤ s) :
    (roundEven s - 1 / 2 < s ∨ roundEven s - 1 / 2 = s ∧ roundEven s % 2 = 0) ∧
      (s < roundEven s + 1 / 2 ∨ s = roundEven s + 1 / 2 ∧ roundEven s % 2 = 0) := by
  have hfloor := Nat.floor_le hs
  have hlt := Nat.lt_floor_add_one s
  unfold roundEven
  split
  · rename_i hbelow
    exact ⟨.inl (by linarith), .inl hbelow⟩
  · split
    · rename_i habove
      push_cast
      exact ⟨.inl (by linarith), .inl (by linarith)⟩
    · have htie : s = ⌊s⌋₊ + 1 / 2 := by linarith
      rcases Nat.mod_two_eq_zero_or_one ⌊s⌋₊ with heven | hodd
      · rw [heven, Nat.add_zero]
        exact ⟨.inl (by linarith), .inr ⟨htie, heven⟩⟩
      · rw [hodd]
        push_cast
        exact ⟨.inr ⟨by linarith, by omega⟩, .inl (by linarith)⟩

theorem le_roundEven {s : ℚ} {n : Nat} (h : n ≤ s) : n ≤ roundEven s := by
  have hfloor := Nat.le_floor h
  unfold roundEven
  split
  · exact hfloor
  · split <;> omega

theorem roundEven_le {s : ℚ} {n : Nat} (hs : 0 ≤ s) (h : s < n) : roundEven s ≤ n := by
  have hfloor := (Nat.floor_lt hs).mpr h
  unfold roundEven
  split
  · omega
  · split <;> omega

/-- Scaled, a number has 53 digits before the point, or fewer on the smallest scale. -/
theorem scaled_bounds {r : ℚ} (hr : 0 ≤ r) {p : Nat} (hp : p = Nat.log2 ⌊r / smallest⌋₊ - 52) :
    r / unit p < 0x20000000000000 ∧ (p = 0 ∨ 0x10000000000000 ≤ r / unit p) := by
  have hscaled : r / unit p = r / smallest / 2 ^ p := by rw [unit, div_div, mul_comm]
  have hpow : (0 : ℚ) < 2 ^ p := pow_pos two_pos p
  have ht : 0 ≤ r / smallest := div_nonneg hr smallest_pos.le
  generalize r / smallest = t at hp hscaled ht
  rw [hscaled]
  constructor
  · have hlog : ⌊t⌋₊ + 1 ≤ 2 ^ (p + 53) :=
      (Nat.succ_le_of_lt Nat.lt_log2_self).trans (Nat.pow_le_pow_right two_pos (by omega))
    have hcast : (⌊t⌋₊ : ℚ) + 1 ≤ 2 ^ (p + 53) := by exact_mod_cast hlog
    rw [div_lt_iff₀ hpow]
    calc t < ⌊t⌋₊ + 1 := Nat.lt_floor_add_one t
      _ ≤ 2 ^ (p + 53) := hcast
      _ = 0x20000000000000 * 2 ^ p := by rw [pow_add, mul_comm]; norm_num
  · rcases Nat.eq_zero_or_pos p with hzero | hpos
    · exact .inl hzero
    have hne : ⌊t⌋₊ ≠ 0 := by
      intro hzero
      rw [hzero] at hp
      exact absurd (hp.trans (by decide)) (Nat.ne_of_gt hpos)
    have hlog : 2 ^ (p + 52) ≤ ⌊t⌋₊ := by
      rw [show p + 52 = Nat.log2 ⌊t⌋₊ by omega]
      exact Nat.log2_self_le hne
    have hcast : (2 : ℚ) ^ (p + 52) ≤ ⌊t⌋₊ := by exact_mod_cast hlog
    right
    rw [le_div_iff₀ hpow]
    calc (0x10000000000000 : ℚ) * 2 ^ p = 2 ^ (p + 52) := by rw [pow_add, mul_comm]; norm_num
      _ ≤ ⌊t⌋₊ := hcast
      _ ≤ t := Nat.floor_le ht

theorem between_nearest {r : ℚ} (hr : 0 ≤ r) {p : Nat}
    (hp : p = Nat.log2 ⌊r / smallest⌋₊ - 52) :
    Between r (p * 0x10000000000000 + roundEven (r / unit p)) := by
  have hunit := unit_pos p
  have hs : 0 ≤ r / unit p := div_nonneg hr hunit.le
  have hr' : r / unit p * unit p = r := div_mul_cancel₀ r hunit.ne'
  obtain ⟨hlt, hge⟩ := scaled_bounds hr hp
  obtain ⟨hlower, hupper⟩ := roundEven_spec hs
  have hle : roundEven (r / unit p) ≤ 0x20000000000000 := roundEven_le hs (by exact_mod_cast hlt)
  have hscale : p = 0 ∨ 0x10000000000000 ≤ roundEven (r / unit p) :=
    hge.imp_right fun h => le_roundEven (by exact_mod_cast h)
  generalize roundEven (r / unit p) = n at hlower hupper hle hscale
  generalize r / unit p = s at hs hr' hlt hge hlower hupper
  rcases Nat.lt_or_ge n 0x20000000000000 with hn | hn
  · have hinterval : Interval p n s := by
      refine ⟨?_, hupper⟩
      unfold lowerEnd
      split
      · rename_i hfirst
        obtain ⟨rfl, hpos⟩ := hfirst
        have hge := hge.resolve_left (by omega)
        left
        push_cast
        linarith
      · exact hlower
    rw [← hr']
    exact hinterval.between hn hscale
  · -- The number is rounded up to the first one of the next scale.
    obtain rfl : n = 0x20000000000000 := Nat.le_antisymm hle hn
    have hinterval : Interval (p + 1) 0x10000000000000 (s / 2) := by
      constructor
      · rw [lowerEnd, if_pos ⟨rfl, Nat.succ_pos p⟩]
        push_cast at hlower ⊢
        rcases hlower with hlt | ⟨heq, -⟩
        · left
          linarith
        · right
          exact ⟨by linarith, by decide⟩
      · left
        push_cast
        linarith
    have hbetween := hinterval.between (by decide) (.inr (le_refl _))
    rw [unit_succ, show s / 2 * (2 * unit p) = s * unit p by ring, hr'] at hbetween
    rw [show p * 0x10000000000000 + 0x20000000000000 =
      (p + 1) * 0x10000000000000 + 0x10000000000000 by omega]
    exact hbetween

/-- **Rounding gives the nearest word.** -/
theorem isNearest_nearest {r : ℚ} (hr : 0 ≤ r) : IsNearest r (nearest r) := by
  have hbetween := between_nearest hr rfl
  unfold nearest
  dsimp only
  rcases Nat.le_total ((Nat.log2 ⌊r / smallest⌋₊ - 52) * 0x10000000000000 +
      roundEven (r / unit (Nat.log2 ⌊r / smallest⌋₊ - 52))) infinity with hle | hge
  · rw [Nat.min_eq_left hle]
    exact hbetween.isNearest hle
  · rw [Nat.min_eq_right hge]
    exact hbetween.isNearest_infinity hge

/-! ## Signs -/

/-- The word of a number without its sign. -/
def magnitude (x : Binary64) : Nat := x.bits.toNat % 0x8000000000000000

/-- The number with a sign and a word. -/
def ofMagnitude (negative : Bool) (b : Nat) : Binary64 :=
  ⟨((if negative then 0x8000000000000000 else 0) + b).toUInt64⟩

theorem ofMagnitude_magnitude (x : Binary64) : ofMagnitude x.isNegative x.magnitude = x := by
  obtain ⟨bits⟩ := x
  have hlt := bits.toNat_lt
  have hword : (if (Binary64.mk bits).isNegative then 0x8000000000000000 else 0) +
      (Binary64.mk bits).magnitude = bits.toNat := by
    unfold isNegative magnitude
    dsimp only
    by_cases hsign : 0x8000000000000000 ≤ bits.toNat
    · rw [decide_eq_true hsign, if_pos rfl]
      omega
    · rw [decide_eq_false hsign, if_neg Bool.false_ne_true]
      omega
  rw [ofMagnitude, hword]
  exact congrArg Binary64.mk (UInt64.toNat_inj.mp (UInt64.toNat_ofNat_of_lt' hlt))

theorem magnitude_le_infinity {x : Binary64} (h : x.isNaN = false) : x.magnitude ≤ infinity := by
  unfold isNaN exponentBits fraction at h
  unfold magnitude infinity
  rw [Bool.and_eq_false_iff, decide_eq_false_iff_not, decide_eq_false_iff_not] at h
  omega

theorem magnitude_of_isInfinite {x : Binary64} (h : x.isInfinite = true) : x.magnitude = infinity := by
  unfold isInfinite exponentBits fraction at h
  unfold magnitude infinity
  rw [Bool.and_eq_true, decide_eq_true_iff, decide_eq_true_iff] at h
  omega

theorem significand_eq (x : Binary64) : x.significand = significandOf x.magnitude := by
  unfold significand exponentBits fraction significandOf magnitude
  split <;> split <;> omega

theorem exponent_eq (x : Binary64) : x.exponent = (scaleOf x.magnitude : ℤ) - 1074 := by
  unfold exponent exponentBits scaleOf magnitude
  split <;> omega

/-- A number of the given sign and nearest to `r`, which is not negative itself. -/
def ofRat (negative : Bool) (r : ℚ) : Binary64 := ofMagnitude negative (nearest r)

/-- A number is what its sign and anything it is nearest to are rounded to. -/
theorem ofRat_of_isNearest {x : Binary64} {r : ℚ} (hr : 0 ≤ r) (h : IsNearest r x.magnitude) :
    ofRat x.isNegative r = x := by
  rw [ofRat, (isNearest_nearest hr).unique h, ofMagnitude_magnitude]

end LuaToC.Binary64
