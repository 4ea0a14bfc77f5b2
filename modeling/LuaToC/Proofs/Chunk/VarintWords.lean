import LuaToC.Chunk.Reader
import LuaToC.Proofs.Chunk.Varint
import Mathlib.Data.Nat.Bitwise

/-! # Variable-length numbers in 64-bit words

`Varint.encode` and `Varint.decode` work with exact numbers.  A machine has a buffer of ten bytes
that it fills from the end, and one word to which it shifts the groups; `store?` and `load` do that.
Ten bytes are enough for every word (`store?_eq_encode`), and since a group is only read while the
number so far is below the limit less one group, no shift loses a bit (`decode_eq_load`).

What is read as a number is its written form with groups of zeros before it, and nothing else
(`Spells.eq_zeros_append`); so the written form is the shortest.
-/
namespace LuaToC.Varint

/-! ## Numbers that are too large -/

/-- Reading stops at the groups of a number that is not below the bound, at the latest at the group
after them. -/
theorem decodeFrom_leading_of_le {bound n : Nat} (h : bound ≤ n) (b : UInt8) (s : Bytes) :
    decodeFrom bound 0 (leading n ++ b :: s) = .error .overflow := by
  induction n using Nat.strongRecOn generalizing b s with
  | ind n ih =>
    by_cases hn : n = 0
    · subst hn
      rw [leading_zero, List.nil_append, decodeFrom, if_pos h]
    · rw [leading_pos hn, List.append_assoc, List.singleton_append]
      by_cases hshort : bound ≤ n / 128
      · exact ih (n / 128) (by omega) hshort _ _
      · rw [decodeFrom_leading (by omega), decodeFrom_group (by omega) (Nat.mod_lt _ (by decide))]
        rw [show n / 128 * 128 + n % 128 = n by omega, decodeFrom, if_pos h]

theorem decode_encode_of_le {limit : Nat} {x : UInt64} (h : limit / 128 ≤ x.toNat / 128)
    (s : Bytes) : decode limit (encode x ++ s) = .error .overflow := by
  rw [decode, encode, List.append_assoc, List.singleton_append, decodeFrom_leading_of_le h]

/-! ## All spellings -/

theorem toUInt8_of_last {b : UInt8} (hb : 128 ≤ b) : (b.toNat % 128 + 128).toUInt8 = b := by
  have hlow := UInt8.le_iff_toNat_le.mp hb
  have hhigh := b.toNat_lt
  change 128 ≤ b.toNat at hlow
  rw [show b.toNat % 128 + 128 = b.toNat by omega]
  exact UInt8.ofNat_toNat

theorem toUInt8_of_group {b : UInt8} (hb : ¬ 128 ≤ b) : (b.toNat % 128).toUInt8 = b := by
  rw [UInt8.le_iff_toNat_le] at hb
  change ¬ 128 ≤ b.toNat at hb
  rw [show b.toNat % 128 = b.toNat by omega]
  exact UInt8.ofNat_toNat

/-- What is read of a number, with the groups that were read before, is its written form with groups
of zeros before it. -/
theorem Spells.exists_zeros {bound x n : Nat} {s : Bytes} (h : Spells bound x s n) :
    ∃ k, leading x ++ s =
      List.replicate k 0 ++ (leading (n / 128) ++ [(n % 128 + 128).toUInt8]) := by
  induction h with
  | @last x b hx hb =>
    refine ⟨0, ?_⟩
    rw [show (x * 128 + b.toNat % 128) / 128 = x by omega,
      show (x * 128 + b.toNat % 128) % 128 = b.toNat % 128 by omega, toUInt8_of_last hb]
    rfl
  | @group x n b s hx hb hs ih =>
    obtain ⟨k, hk⟩ := ih
    by_cases hzero : x * 128 + b.toNat % 128 = 0
    · -- As long as all groups are zero nothing has been read.
      have hx : x = 0 := by omega
      have hb : b = 0 := by
        rw [← toUInt8_of_group hb, show b.toNat % 128 = 0 by omega]
        rfl
      subst hx hb
      rw [hzero, leading_zero, List.nil_append] at hk
      rw [leading_zero, List.nil_append, hk]
      exact ⟨k + 1, rfl⟩
    · rw [leading_pos hzero, show (x * 128 + b.toNat % 128) / 128 = x by omega,
        show (x * 128 + b.toNat % 128) % 128 = b.toNat % 128 by omega, toUInt8_of_group hb,
        List.append_assoc] at hk
      exact ⟨k, hk⟩

theorem Spells.eq_zeros_append {bound n : Nat} {s : Bytes} (h : Spells bound 0 s n)
    (hn : n < UInt64.size) : ∃ k, s = List.replicate k 0 ++ encode n.toUInt64 := by
  obtain ⟨k, hk⟩ := h.exists_zeros
  rw [leading_zero, List.nil_append] at hk
  refine ⟨k, hk.trans ?_⟩
  rw [encode, Nat.toUInt64_eq, UInt64.toNat_ofNat_of_lt' hn]

/-! ## The buffer -/

/-- Stores groups of `x` in a buffer, the first of them in the last of the `room` places that are
free, and gives the place of the group that was stored last.  There is `none` when a group has no
place. -/
def fill : Nat → Bytes → UInt64 → Option (Bytes × Nat)
  | 0, _, _ => none
  | room + 1, buffer, x =>
    let buffer := buffer.set room (x &&& 0x7f).toUInt8
    if x >>> 7 = 0 then some (buffer, room) else fill room buffer (x >>> 7)

/-- Writes a number by way of a buffer of ten bytes.  The top bit of the last byte is set at the
end. -/
def store? (x : UInt64) : Option Bytes :=
  (fill 10 (List.replicate 10 0) x).map fun (buffer, start) =>
    (buffer.modify 9 (· ||| 0x80)).drop start

/-- The groups of a number, at least one of them. -/
def groups (n : Nat) : Bytes := leading (n / 128) ++ [(n % 128).toUInt8]

theorem toNat_shiftRight_seven (x : UInt64) : (x >>> 7).toNat = x.toNat / 128 := by
  rw [UInt64.toNat_shiftRight]
  exact Nat.shiftRight_eq_div_pow x.toNat 7

theorem shiftRight_seven_eq_zero_iff (x : UInt64) : x >>> 7 = 0 ↔ x.toNat / 128 = 0 := by
  rw [← UInt64.toNat_inj, toNat_shiftRight_seven]
  exact Iff.rfl

theorem toUInt8_and_low (x : UInt64) : (x &&& 0x7f).toUInt8 = (x.toNat % 128).toUInt8 := by
  have hlow : (x &&& 0x7f).toNat = x.toNat % 128 := by
    rw [UInt64.toNat_and]
    exact Nat.and_two_pow_sub_one_eq_mod x.toNat 7
  apply UInt8.toNat_inj.mp
  rw [UInt64.toNat_toUInt8, hlow]
  exact UInt8.toNat_ofNat'.symm

theorem groups_of_ne_zero {n : Nat} (h : n / 128 ≠ 0) :
    groups n = groups (n / 128) ++ [(n % 128).toUInt8] := by
  rw [groups, leading_pos h]
  rfl

/-- The groups are stored in front of what was stored before. -/
theorem fill_eq {room : Nat} (buffer : Bytes) (x : UInt64) (hroom : room ≤ buffer.length)
    (hx : (groups x.toNat).length ≤ room) :
    let start := room - (groups x.toNat).length
    fill room buffer x =
      some (buffer.take start ++ (groups x.toNat ++ buffer.drop room), start) := by
  induction room generalizing buffer x with
  | zero => simp [groups] at hx
  | succ room ih =>
    rw [fill, toUInt8_and_low]
    have hset : buffer.set room (x.toNat % 128).toUInt8 =
        buffer.take room ++ (x.toNat % 128).toUInt8 :: buffer.drop (room + 1) := by
      rw [List.set_eq_take_append_cons_drop, if_pos (Nat.lt_of_succ_le hroom)]
    by_cases hlast : x >>> 7 = 0
    · have hgroups : groups x.toNat = [(x.toNat % 128).toUInt8] := by
        rw [groups, (shiftRight_seven_eq_zero_iff x).mp hlast, leading_zero, List.nil_append]
      rw [if_pos hlast, hset, hgroups]
      rfl
    · have hgroups := groups_of_ne_zero fun h => hlast ((shiftRight_seven_eq_zero_iff x).mpr h)
      rw [← toNat_shiftRight_seven] at hgroups
      have hshorter : (groups x.toNat).length = (groups (x >>> 7).toNat).length + 1 := by
        rw [hgroups, List.length_append, List.length_singleton]
      have hdrop : (buffer.set room (x.toNat % 128).toUInt8).drop room =
          (x.toNat % 128).toUInt8 :: buffer.drop (room + 1) := by
        rw [hset, List.drop_left' (by rw [List.length_take]; omega)]
      rw [if_neg hlast, ih _ _ (by rw [List.length_set]; omega) (by omega), hdrop,
        List.take_set_of_le (by omega), hshorter, Nat.add_sub_add_right, hgroups, List.append_assoc]
      rfl

theorem length_leading_le {k n : Nat} (h : n < Nat.pow 128 k) : (leading n).length ≤ k := by
  induction k generalizing n with
  | zero =>
    rw [show n = 0 from Nat.lt_one_iff.mp h, leading_zero]
    exact Nat.le_refl _
  | succ k ih =>
    by_cases hn : n = 0
    · rw [hn, leading_zero]
      exact Nat.zero_le _
    · have hshorter := ih (Nat.div_lt_of_lt_mul (by rwa [Nat.mul_comm]))
      rw [leading_pos hn, List.length_append]
      exact Nat.add_le_add_right hshorter 1

theorem length_groups_le (x : UInt64) : (groups x.toNat).length ≤ 10 := by
  have hx := x.toNat_lt
  have hpow : Nat.pow 128 9 = 9223372036854775808 := by decide
  have hleading : (leading (x.toNat / 128)).length ≤ 9 := length_leading_le (by omega)
  rw [groups, List.length_append, List.length_singleton]
  omega

theorem modify_concat (init : Bytes) (b : UInt8) (f : UInt8 → UInt8) :
    (init ++ [b]).modify init.length f = init ++ [f b] := by
  induction init with
  | nil => rfl
  | cons c init ih => exact congrArg (c :: ·) ih

theorem or_top {n : Nat} (h : n < 128) : n.toUInt8 ||| 0x80 = (n + 128).toUInt8 := by
  apply UInt8.toNat_inj.mp
  rw [UInt8.toNat_or, Nat.toUInt8_eq, Nat.toUInt8_eq,
    UInt8.toNat_ofNat_of_lt' (show n < 256 by omega),
    UInt8.toNat_ofNat_of_lt' (show n + 128 < 256 by omega), Nat.or_comm]
  exact (Nat.two_pow_add_eq_or_of_lt (i := 7) h 1).symm.trans (Nat.add_comm ..)

/-- **Ten bytes are enough**: the buffer takes all groups of a word, and what is taken from it is
what is written. -/
theorem store?_eq_encode (x : UInt64) : store? x = some (encode x) := by
  have hlength := length_groups_le x
  have hfill := fill_eq (List.replicate 10 0) x (Nat.le_refl 10) hlength
  rw [groups, List.length_append, List.length_singleton] at hlength
  generalize hstart : 10 - (groups x.toNat).length = start at hfill
  rw [groups, List.length_append, List.length_singleton] at hstart
  have hbefore : ((List.replicate 10 (0 : UInt8)).take start).length = start := by
    rw [List.length_take, List.length_replicate]
    omega
  have hinit :
      ((List.replicate 10 (0 : UInt8)).take start ++ leading (x.toNat / 128)).length = 9 := by
    rw [List.length_append, hbefore]
    omega
  have hlast := modify_concat ((List.replicate 10 0).take start ++ leading (x.toNat / 128))
    (x.toNat % 128).toUInt8 (· ||| 0x80)
  rw [hinit, or_top (Nat.mod_lt _ (by decide)), List.append_assoc, List.append_assoc] at hlast
  rw [store?, hfill, List.drop_of_length_le (by simp), List.append_nil, Option.map_some, groups]
  dsimp only
  rw [hlast, List.drop_left' hbefore]
  rfl

/-! ## Words -/

/-- Reads on with the word `x` read so far, to which the next group is shifted. -/
def loadFrom (bound x : UInt64) : Bytes → Except Fault (UInt64 × Bytes)
  | [] => .error .truncated
  | b :: rest =>
    if bound ≤ x then .error .overflow
    else
      let y := x <<< 7 ||| (b &&& 0x7f).toUInt64
      if b &&& 0x80 ≠ 0 then .ok (y, rest) else loadFrom bound y rest

/-- Reads a number up to about `limit` into a word. -/
def load (limit : UInt64) (s : Bytes) : Except Fault (UInt64 × Bytes) := loadFrom (limit >>> 7) 0 s

/-- A group is shifted in without losing a bit as long as the word has seven bits to spare. -/
theorem toNat_shiftLeft_or {x : UInt64} (h : x.toNat < 144115188075855872) (b : UInt8) :
    (x <<< 7 ||| (b &&& 0x7f).toUInt64).toNat = x.toNat * 128 + b.toNat % 128 := by
  have hlow : (b &&& 0x7f).toUInt64.toNat = b.toNat % 128 := by
    rw [UInt8.toNat_toUInt64, UInt8.toNat_and]
    exact Nat.and_two_pow_sub_one_eq_mod b.toNat 7
  have hhigh : (x <<< 7).toNat = x.toNat <<< 7 := by
    rw [UInt64.toNat_shiftLeft]
    refine Nat.mod_eq_of_lt ?_
    rw [Nat.shiftLeft_eq]
    change x.toNat * 128 < 18446744073709551616
    omega
  have hgroup : b.toNat % 128 < 128 := Nat.mod_lt _ (by decide)
  rw [UInt64.toNat_or, hhigh, hlow, ← Nat.shiftLeft_add_eq_or_of_lt hgroup]
  exact congrArg (· + b.toNat % 128) (Nat.shiftLeft_eq x.toNat 7)

theorem and_top_ne_zero_iff (b : UInt8) : b &&& 0x80 ≠ 0 ↔ 128 ≤ b := by
  have hb := b.toNat_lt
  rw [UInt8.le_iff_toNat_le, Ne, ← UInt8.toNat_inj, UInt8.toNat_and]
  change ¬ (b.toNat &&& 2 ^ 7) = 0 ↔ 128 ≤ b.toNat
  rw [Nat.and_two_pow, Nat.testBit_eq_decide_div_mod_eq]
  by_cases htop : 128 ≤ b.toNat
  · have hbit : b.toNat / 128 % 2 = 1 := by omega
    simp [hbit, htop]
  · have hbit : b.toNat / 128 % 2 = 0 := by omega
    simp [hbit, htop]

theorem decodeFrom_eq_loadFrom {bound : UInt64} (hbound : bound.toNat ≤ 144115188075855872)
    (x : UInt64) (s : Bytes) :
    decodeFrom bound.toNat x.toNat s = (loadFrom bound x s).map fun p => (p.1.toNat, p.2) := by
  induction s generalizing x with
  | nil => rfl
  | cons b s ih =>
    rw [decodeFrom, loadFrom]
    by_cases hx : bound ≤ x
    · rw [if_pos hx, if_pos (UInt64.le_iff_toNat_le.mp hx)]
      rfl
    · have hlt : x.toNat < bound.toNat := Nat.not_le.mp fun h => hx (UInt64.le_iff_toNat_le.mpr h)
      have hgroup := toNat_shiftLeft_or (Nat.lt_of_lt_of_le hlt hbound) b
      rw [if_neg hx, if_neg (Nat.not_le.mpr hlt)]
      by_cases hlast : 128 ≤ b
      · rw [if_pos hlast, if_pos ((and_top_ne_zero_iff b).mpr hlast), ← hgroup]
        rfl
      · rw [if_neg hlast, if_neg (mt (and_top_ne_zero_iff b).mp hlast), ← hgroup]
        exact ih _

/-- **No bit is lost**: for every limit the word that is read is the exact number. -/
theorem decode_eq_load (limit : UInt64) (s : Bytes) :
    decode limit.toNat s = (load limit s).map fun p => (p.1.toNat, p.2) := by
  have hlimit := limit.toNat_lt
  have hbound := toNat_shiftRight_seven limit
  rw [decode, load, ← hbound]
  exact decodeFrom_eq_loadFrom (by omega) 0 s

/-! ## The reader of chunks -/

open Chunk

/-- The refusal of a chunk for a number that cannot be read. -/
def Fault.error : Fault → Error
  | .truncated => .truncated
  | .overflow => .integerOverflow

theorem run_varint (limit : Nat) (s : Bytes) :
    (Reader.varint limit).run s = (decode limit s).mapError Fault.error := by
  simp only [Reader.varint, StateT.run_bind, StateT.run_get, pure_bind]
  rcases decode limit s with ⟨⟨⟩⟩ | ⟨n, rest⟩ <;> rfl

theorem decode_of_run_varint {limit n : Nat} {s rest : Bytes}
    (h : (Reader.varint limit).run s = .ok (n, rest)) : decode limit s = .ok (n, rest) := by
  rw [run_varint] at h
  cases hdecode : decode limit s with
  | error f =>
    rw [hdecode] at h
    cases h
  | ok p =>
    rw [hdecode] at h
    exact congrArg Except.ok (Except.ok.inj h)

theorem spells_of_run_varint {limit n : Nat} {s rest : Bytes}
    (h : (Reader.varint limit).run s = .ok (n, rest)) :
    ∃ used, s = used ++ rest ∧ Spells (limit / 128) 0 used n :=
  exists_spells_of_decodeFrom (decode_of_run_varint h)

theorem and_top_of_mem_leading {n : Nat} {b : UInt8} (h : b ∈ leading n) : b &&& 0x80 = 0 := by
  induction n using Nat.strongRecOn with
  | ind n ih =>
    by_cases hn : n = 0
    · rw [hn, leading_zero] at h
      exact absurd h List.not_mem_nil
    · rw [leading_pos hn, List.mem_append, List.mem_singleton] at h
      rcases h with h | rfl
      · exact ih (n / 128) (by omega) h
      · by_contra htop
        have hhigh := UInt8.le_iff_toNat_le.mp ((and_top_ne_zero_iff _).mp htop)
        rw [Nat.toUInt8_eq, UInt8.toNat_ofNat_of_lt' (show n % 128 < 256 by omega)] at hhigh
        change 128 ≤ n % 128 at hhigh
        omega

theorem length_encode_le (x : UInt64) : (encode x).length ≤ 10 := by
  have hlength := length_groups_le x
  rw [groups, List.length_append, List.length_singleton] at hlength
  rw [encode, List.length_append, List.length_singleton]
  exact hlength

/-- Only the last byte that is written has its top bit set. -/
theorem exists_last (x : UInt64) : ∃ before last, encode x = before ++ [last] ∧
    (∀ b ∈ before, b &&& 0x80 = 0) ∧ last &&& 0x80 ≠ 0 := by
  refine ⟨_, _, rfl, fun b => and_top_of_mem_leading, (and_top_ne_zero_iff _).mpr ?_⟩
  rw [UInt8.le_iff_toNat_le, Nat.toUInt8_eq,
    UInt8.toNat_ofNat_of_lt' (show x.toNat % 128 + 128 < 256 by omega)]
  exact Nat.le_add_left ..

theorem length_encode_le_of_decode {limit : Nat} {x : UInt64} {s : Bytes}
    (h : decode limit s = .ok (x.toNat, [])) : (encode x).length ≤ s.length := by
  obtain ⟨used, hs, hspells⟩ := exists_spells_of_decodeFrom h
  have hle := hspells.length_encode_le x.toNat_lt
  rw [List.append_nil] at hs
  rwa [← hs, Nat.toUInt64_eq, UInt64.ofNat_toNat] at hle

/-- The limit tells exactly which numbers are read back. -/
theorem run_varint_encode (limit x : UInt64) (rest : Bytes) :
    (Reader.varint limit.toNat).run (encode x ++ rest) =
      if x >>> 7 < limit >>> 7 then .ok (x.toNat, rest) else .error .integerOverflow := by
  have hlt : x >>> 7 < limit >>> 7 ↔ x.toNat / 128 < limit.toNat / 128 := by
    rw [UInt64.lt_iff_toNat_lt, toNat_shiftRight_seven, toNat_shiftRight_seven]
  rw [run_varint]
  by_cases h : x >>> 7 < limit >>> 7
  · rw [if_pos h, decode_encode (hlt.mp h)]
    rfl
  · rw [if_neg h, decode_encode_of_le (Nat.not_lt.mp (mt hlt.mpr h))]
    rfl

/-- **The codec, exactly.**  Writing a word fills at most ten bytes of a buffer, marks the last byte
only, and is not longer than any other bytes that are read as the same number.  Reading undoes
writing, whatever follows, if the number without its last group is below the limit without its last
group; otherwise the chunk is bad.  What is read is the written form with zeros before it.  Numbers
stay 129 below the next power of two for the two limits in use, and a word holds all of them. -/
theorem codec_exact :
    (∀ x : UInt64,
      store? x = some (encode x) ∧ 1 ≤ (encode x).length ∧ (encode x).length ≤ 10 ∧
      (∃ before last, encode x = before ++ [last] ∧ (∀ b ∈ before, b &&& 0x80 = 0) ∧
        last &&& 0x80 ≠ 0) ∧
      ∀ limit s, decode limit s = .ok (x.toNat, []) → (encode x).length ≤ s.length) ∧
    (∀ (limit x : UInt64) (rest : Bytes),
      (x >>> 7 < limit >>> 7 →
        (Reader.varint limit.toNat).run (encode x ++ rest) = .ok (x.toNat, rest)) ∧
      (¬ x >>> 7 < limit >>> 7 →
        ∃ e, (Reader.varint limit.toNat).run (encode x ++ rest) = .error e ∧
          e.errorClass = .badChunk)) ∧
    (∀ (limit : UInt64) (s rest : Bytes) (n : Nat),
      (Reader.varint limit.toNat).run s = .ok (n, rest) →
        n < UInt64.size ∧ ∃ k, s = List.replicate k 0 ++ encode n.toUInt64 ++ rest) ∧
    (∀ s rest n, (Reader.varint 0x7fffffff).run s = .ok (n, rest) → n + 129 ≤ 0x80000000) ∧
    (∀ s rest n, (Reader.varint 0x7fffffffffffffff).run s = .ok (n, rest) →
      n + 129 ≤ 0x8000000000000000) ∧
    ∀ (limit : UInt64) (s : Bytes),
      decode limit.toNat s = (load limit s).map fun p => (p.1.toNat, p.2) := by
  refine ⟨fun x => ?_, fun limit x rest => ?_, fun limit s rest n h => ?_, fun s rest n h => ?_,
    fun s rest n h => ?_, decode_eq_load⟩
  · exact ⟨store?_eq_encode x, List.length_pos_iff.mpr (encode_ne_nil x), length_encode_le x,
      exists_last x, fun limit s => length_encode_le_of_decode⟩
  · rw [run_varint_encode]
    exact ⟨fun h => if_pos h, fun h => ⟨_, if_neg h, rfl⟩⟩
  · obtain ⟨used, rfl, hspells⟩ := spells_of_run_varint h
    have hlimit := limit.toNat_lt
    have hdiv := hspells.div_lt
    have hn : n < UInt64.size := by
      change n < 18446744073709551616
      omega
    obtain ⟨k, rfl⟩ := hspells.eq_zeros_append hn
    exact ⟨hn, k, rfl⟩
  all_goals
    obtain ⟨used, -, hspells⟩ := spells_of_run_varint h
    have hdiv := hspells.div_lt
    omega

/-- The number 300 with two groups of zeros before it. -/
theorem codec_exact_paddedSample :
    (Reader.varint 0x7fffffff).run [0, 0, 2, 172, 7] = .ok (300, [7]) ∧
      (300 + 129 ≤ 0x80000000 ∧ ∃ k, [0, 0, 2, 172, 7] = List.replicate k 0 ++ encode 300 ++ [7]) ∧
      (Reader.varint 0x7fffffff).run (encode 300 ++ [7]) = .ok (300, [7]) := by
  have hrun : (Reader.varint 0x7fffffff).run [0, 0, 2, 172, 7] = .ok (300, [7]) := by decide
  obtain ⟨-, hback, hread, hlimit, -, -⟩ := codec_exact
  exact ⟨hrun, ⟨hlimit _ _ _ hrun, (hread 0x7fffffff _ _ _ hrun).2⟩,
    (hback 0x7fffffff 300 [7]).1 (by decide)⟩

end LuaToC.Varint
