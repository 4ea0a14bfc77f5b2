import LuaToC.Text.Bytes

/-! # Numerals read back

`Bytes.digits` writes a number in some base.  This module has the reader that goes with it:
`Numeral.value?` adds up digits from the most significant one on and refuses any other byte.
Reading a numeral gives the number (`value?_digits`), zeros in front of it change nothing
(`value?_padLeft`), and so a padded numeral determines its number (`twoDigits_injective`).
-/
namespace LuaToC
namespace Numeral

/-- The value of a decimal or hexadecimal digit, lower case. -/
def digit? (b : UInt8) : Option Nat :=
  if 48 ≤ b ∧ b ≤ 57 then some (b.toNat - 48)
  else if 97 ≤ b ∧ b ≤ 102 then some (b.toNat - 87)
  else none

/-- The number that the digits in `base` stand for after `n` was read; no other bytes are
allowed. -/
def value? (base n : Nat) : Bytes → Option Nat
  | [] => some n
  | b :: s =>
    match digit? b with
    | some d => if d < base then value? base (n * base + d) s else none
    | none => none

/-- A hexadecimal number as C writes it. -/
def hexLiteral? : Bytes → Option Nat
  | 48 :: 120 :: d :: s => value? 16 0 (d :: s)
  | _ => none

theorem digit?_digit {d : Nat} (h : d < 16) : digit? (Bytes.digit d) = some d := by
  revert d
  decide

theorem value?_append (base n : Nat) (s t : Bytes) :
    value? base n (s ++ t) = (value? base n s).bind (value? base · t) := by
  induction s generalizing n with
  | nil => rfl
  | cons b s ih =>
    simp only [List.cons_append, value?]
    split
    · split
      · exact ih _
      · rfl
    · rfl

theorem value?_digit {base n d : Nat} (hd : d < base) (hbase : base ≤ 16) :
    value? base n [Bytes.digit d] = some (n * base + d) := by
  rw [value?, digit?_digit (by omega)]
  exact if_pos hd

/-- Reading a numeral gives the number that it was written for. -/
theorem value?_digits {b : Nat} (hb : b + 2 ≤ 16) (n : Nat) :
    value? (b + 2) 0 (Bytes.digits b n) = some n := by
  induction n using Nat.strongRecOn with
  | ind n ih =>
    rw [Bytes.digits]
    split
    · rename_i h
      rw [value?_digit h hb, Nat.zero_mul, Nat.zero_add]
    · have hlt : n / (b + 2) < n := Nat.div_lt_self (by omega) (by omega)
      rw [value?_append, ih _ hlt, Option.bind_some,
        value?_digit (Nat.mod_lt _ (by omega)) hb, Nat.div_add_mod' n (b + 2)]

/-- Zeros in front of a numeral change nothing. -/
theorem value?_padLeft (base width : Nat) (s : Bytes) (hbase : 0 < base) :
    value? base 0 (Bytes.padLeft 48 width s) = value? base 0 s := by
  have hzeros (k : Nat) : value? base 0 (List.replicate k 48) = some 0 := by
    induction k with
    | zero => rfl
    | succ k ih =>
      rw [List.replicate_succ, value?, show digit? 48 = some 0 from rfl]
      simpa [hbase] using ih
  rw [Bytes.padLeft, value?_append, hzeros]
  rfl

theorem value?_twoDigits (n : Nat) : value? 10 0 (Bytes.twoDigits n) = some n := by
  rw [Bytes.twoDigits, value?_padLeft 10 2 _ (by decide)]
  exact value?_digits (by decide) n

/-- A decimal numeral of at least two digits determines its number. -/
theorem twoDigits_injective {m n : Nat} (h : Bytes.twoDigits m = Bytes.twoDigits n) : m = n := by
  have hvalue := congrArg (value? 10 0) h
  rw [value?_twoDigits, value?_twoDigits] at hvalue
  exact Option.some.inj hvalue

end Numeral

namespace Bytes

theorem digits_ne_nil (b n : Nat) : digits b n ≠ [] := by
  rw [digits]
  split <;> simp

/-- A numeral has digits of its base only. -/
theorem exists_digit_of_mem_digits {b n : Nat} {c : UInt8} (h : c ∈ digits b n) :
    ∃ d < b + 2, c = digit d := by
  induction n using Nat.strongRecOn with
  | ind n ih =>
    rw [digits] at h
    split at h
    · rename_i hlt
      exact ⟨n, hlt, List.mem_singleton.mp h⟩
    · rcases List.mem_append.mp h with h | h
      · exact ih _ (Nat.div_lt_self (by omega) (by omega)) h
      · exact ⟨n % (b + 2), Nat.mod_lt _ (by omega), List.mem_singleton.mp h⟩

/-- So has a numeral with zeros in front of it. -/
theorem exists_digit_of_mem_padLeft {b n width : Nat} {c : UInt8}
    (h : c ∈ padLeft 48 width (digits b n)) : ∃ d < b + 2, c = digit d := by
  rcases List.mem_append.mp h with h | h
  · exact ⟨0, by omega, List.eq_of_mem_replicate h⟩
  · exact exists_digit_of_mem_digits h

end Bytes
end LuaToC
