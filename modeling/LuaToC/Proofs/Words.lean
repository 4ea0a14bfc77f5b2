import LuaToC.Chunk.Format

/-! # Words of fixed width

A 32-bit or a 64-bit word is written as its base-256 digits.  This module proves that the
digits have the word's own number of bytes and that reading them in the order in which they
were written gives the word back, for both byte orders.  Hence the digits determine the word,
which is what the fingerprints of functions rest on.  The other way round, any eight bytes are the
digits of the word that they stand for (`putUInt64_number`).
-/
namespace LuaToC
namespace Bytes

@[simp] theorem length_ofUInt64 (x : UInt64) : (ofUInt64 x).length = 8 := by
  simp [ofUInt64]

@[simp] theorem length_ofUInt32 (x : UInt32) : (ofUInt32 x).length = 4 := by
  simp [ofUInt32]

/-- The last `k` base-256 digits of `n`, read from the least significant one on, are `n` cut
to `k` digits. -/
theorem toNatLE_digits (k n : Nat) :
    toNatLE ((List.range k).map fun i => (n / Nat.pow 256 i).toUInt8) = n % Nat.pow 256 k := by
  induction k generalizing n with
  | zero => exact (Nat.mod_one n).symm
  | succ k ih =>
    have hshift (i : Nat) : n / Nat.pow 256 (i + 1) = n / 256 / Nat.pow 256 i := by
      rw [Nat.div_div_eq_div_mul, Nat.mul_comm]
      rfl
    have htail : toNatLE ((List.range k).map fun i => (n / Nat.pow 256 (i + 1)).toUInt8) =
        n / 256 % Nat.pow 256 k := by
      simp only [hshift]
      exact ih (n / 256)
    have hhead : (n / Nat.pow 256 0).toUInt8.toNat = n % 256 := by
      rw [show Nat.pow 256 0 = 1 from rfl, Nat.div_one]
      exact UInt8.toNat_ofNat'
    have hsplit : n % Nat.pow 256 (k + 1) = n % 256 + 256 * (n / 256 % Nat.pow 256 k) := by
      rw [show Nat.pow 256 (k + 1) = 256 * Nat.pow 256 k from Nat.mul_comm ..]
      exact Nat.mod_mul
    rw [List.range_succ_eq_map, List.map_cons, List.map_map]
    change (n / Nat.pow 256 0).toUInt8.toNat +
      256 * toNatLE ((List.range k).map fun i => (n / Nat.pow 256 (i + 1)).toUInt8) = _
    rw [hhead, htail, hsplit]

@[simp] theorem toNatLE_ofUInt64 (x : UInt64) : toNatLE (ofUInt64 x) = x.toNat := by
  rw [ofUInt64, toNatLE_digits]
  exact Nat.mod_eq_of_lt x.toNat_lt

@[simp] theorem toNatLE_ofUInt32 (x : UInt32) : toNatLE (ofUInt32 x) = x.toNat := by
  rw [ofUInt32, toNatLE_digits]
  exact Nat.mod_eq_of_lt x.toNat_lt

/-- Reading from the most significant digit on undoes a reversal. -/
@[simp] theorem toNatBE_reverse (s : Bytes) : toNatBE s.reverse = toNatLE s := by
  unfold toNatBE toNatLE
  rw [List.foldl_reverse]
  congr
  funext b n
  exact Nat.add_comm ..

/-- The digits of a 64-bit word determine it. -/
theorem ofUInt64_injective {x y : UInt64} (h : ofUInt64 x = ofUInt64 y) : x = y := by
  have hn := congrArg toNatLE h
  rw [toNatLE_ofUInt64, toNatLE_ofUInt64] at hn
  exact UInt64.toNat_inj.mp hn

/-- The digits of a 32-bit word determine it. -/
theorem ofUInt32_injective {x y : UInt32} (h : ofUInt32 x = ofUInt32 y) : x = y := by
  have hn := congrArg toNatLE h
  rw [toNatLE_ofUInt32, toNatLE_ofUInt32] at hn
  exact UInt32.toNat_inj.mp hn

theorem toNatLE_lt (s : Bytes) : toNatLE s < Nat.pow 256 s.length := by
  induction s with
  | nil => exact Nat.one_pos
  | cons b s ih =>
    have hb := b.toNat_lt
    have hpow : Nat.pow 256 (b :: s).length = 256 * Nat.pow 256 s.length := Nat.mul_comm ..
    change b.toNat + 256 * toNatLE s < _
    rw [hpow]
    omega

/-- Byte strings of one length that stand for the same number are equal. -/
theorem eq_of_toNatLE {s t : Bytes} (hlen : s.length = t.length) (h : toNatLE s = toNatLE t) :
    s = t := by
  induction s generalizing t with
  | nil => exact (List.eq_nil_of_length_eq_zero hlen.symm).symm
  | cons b s ih =>
    match t with
    | c :: t =>
      have hb := b.toNat_lt
      have hc := c.toNat_lt
      change b.toNat + 256 * toNatLE s = c.toNat + 256 * toNatLE t at h
      have hhead : b = c := UInt8.toNat_inj.mp (by omega)
      have htail : s = t := ih (Nat.succ.inj hlen) (by omega)
      rw [hhead, htail]

/-- Eight bytes are the digits of the word that they stand for. -/
theorem ofUInt64_toNatLE {s : Bytes} (hlen : s.length = 8) :
    ofUInt64 (toNatLE s).toUInt64 = s := by
  have hlt := toNatLE_lt s
  rw [hlen] at hlt
  refine eq_of_toNatLE (by rw [length_ofUInt64, hlen]) ?_
  rw [toNatLE_ofUInt64]
  exact UInt64.toNat_ofNat_of_lt' hlt

end Bytes

namespace Chunk.ByteOrder

@[simp] theorem length_putUInt64 (o : ByteOrder) (x : UInt64) : (o.putUInt64 x).length = 8 := by
  cases o <;> simp [putUInt64]

@[simp] theorem length_putUInt32 (o : ByteOrder) (x : UInt32) : (o.putUInt32 x).length = 4 := by
  cases o <;> simp [putUInt32]

@[simp] theorem number_putUInt64 (o : ByteOrder) (x : UInt64) :
    o.number (o.putUInt64 x) = x.toNat := by
  cases o <;> simp [number, putUInt64]

@[simp] theorem number_putUInt32 (o : ByteOrder) (x : UInt32) :
    o.number (o.putUInt32 x) = x.toNat := by
  cases o <;> simp [number, putUInt32]

/-- Eight bytes are what is written for the word that is read from them. -/
theorem putUInt64_number (o : ByteOrder) {s : Bytes} (hlen : s.length = 8) :
    o.putUInt64 (o.number s).toUInt64 = s := by
  cases o with
  | little => exact Bytes.ofUInt64_toNatLE hlen
  | big =>
    have hback : Bytes.toNatBE s = Bytes.toNatLE s.reverse := by
      rw [← Bytes.toNatBE_reverse, List.reverse_reverse]
    rw [number, putUInt64, hback, Bytes.ofUInt64_toNatLE (by rw [List.length_reverse, hlen]),
      List.reverse_reverse]

end Chunk.ByteOrder
end LuaToC
