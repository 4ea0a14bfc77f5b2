import LuaToC.Chunk.Varint

/-! # Variable-length numbers read back

`Varint.encode` writes groups of seven bits, and `Varint.decode` adds groups up for as long as
the sum so far is below a bound.  Every proper prefix of the groups of a number `n` stands for
`n / 128 ^ j` with `0 < j`, so the bound is met at every step as soon as it is met by the
longest proper prefix, `n / 128` (`decodeFrom_leading`).

A number has other spellings than the one that is written, since groups of zeros may stand in
front.  `Spells` is what the reader accepts; it takes the bytes of a spelling and none after them,
no part of a spelling is accepted, and none is shorter than what is written.
-/
namespace LuaToC.Varint

theorem leading_zero : leading 0 = [] := by
  rw [leading, if_pos rfl]

theorem leading_pos {n : Nat} (h : n ≠ 0) :
    leading n = leading (n / 128) ++ [(n % 128).toUInt8] := by
  rw [leading, if_neg h]

/-- A group that is not the last one is added and reading goes on. -/
theorem decodeFrom_group {bound x d : Nat} (hx : x < bound) (hd : d < 128) (s : Bytes) :
    decodeFrom bound x (d.toUInt8 :: s) = decodeFrom bound (x * 128 + d) s := by
  have hval : d.toUInt8.toNat = d := UInt8.toNat_ofNat_of_lt (show d < 256 by omega)
  have hlow : ¬ (128 : UInt8) ≤ d.toUInt8 := by
    rw [UInt8.le_iff_toNat_le, hval]
    exact Nat.not_le.mpr hd
  rw [decodeFrom, if_neg (Nat.not_le.mpr hx), if_neg hlow, hval, Nat.mod_eq_of_lt hd]

/-- The last group ends the number. -/
theorem decodeFrom_last {bound x d : Nat} (hx : x < bound) (hd : d < 128) (s : Bytes) :
    decodeFrom bound x ((d + 128).toUInt8 :: s) = .ok (x * 128 + d, s) := by
  have hval : (d + 128).toUInt8.toNat = d + 128 :=
    UInt8.toNat_ofNat_of_lt (show d + 128 < 256 by omega)
  have hhigh : (128 : UInt8) ≤ (d + 128).toUInt8 := by
    rw [UInt8.le_iff_toNat_le, hval]
    exact Nat.le_add_left ..
  rw [decodeFrom, if_neg (Nat.not_le.mpr hx), if_pos hhigh, hval]
  rw [show (d + 128) % 128 = d by omega]

/-- Reading the groups of `n` from the start leads to `n`. -/
theorem decodeFrom_leading {bound n : Nat} (h : n < bound) (s : Bytes) :
    decodeFrom bound 0 (leading n ++ s) = decodeFrom bound n s := by
  induction n using Nat.strongRecOn generalizing s with
  | ind n ih =>
    by_cases hn : n = 0
    · rw [hn, leading_zero, List.nil_append]
    · rw [leading_pos hn, List.append_assoc, ih (n / 128) (by omega) (by omega)]
      rw [List.singleton_append, decodeFrom_group (by omega) (Nat.mod_lt _ (by decide))]
      rw [show n / 128 * 128 + n % 128 = n by omega]

/-- **Reading undoes writing**, whatever follows, for every number whose leading groups are
below those of the limit. -/
theorem decode_encode {limit : Nat} {x : UInt64} (h : x.toNat / 128 < limit / 128) (s : Bytes) :
    decode limit (encode x ++ s) = .ok (x.toNat, s) := by
  rw [decode, encode, List.append_assoc, decodeFrom_leading h, List.singleton_append,
    decodeFrom_last h (Nat.mod_lt _ (by decide))]
  rw [show x.toNat / 128 * 128 + x.toNat % 128 = x.toNat by omega]

theorem encode_ne_nil (x : UInt64) : encode x ≠ [] := by
  simp [encode]

/-- A number of one group is written in one byte. -/
theorem length_encode_of_lt {x : UInt64} (h : x.toNat < 128) : (encode x).length = 1 := by
  rw [encode, Nat.div_eq_of_lt h, leading_zero]
  rfl

/-! ## What is read as a number -/

/-- The bytes are read as the number `n` after `x` was read: one group after the other is added,
each time below `bound`, up to the byte that has its top bit set. -/
inductive Spells (bound : Nat) : Nat → Bytes → Nat → Prop
  | last {x : Nat} {b : UInt8} (hx : x < bound) (hb : 128 ≤ b) :
    Spells bound x [b] (x * 128 + b.toNat % 128)
  | group {x n : Nat} {b : UInt8} {s : Bytes} (hx : x < bound) (hb : ¬ 128 ≤ b)
    (hs : Spells bound (x * 128 + b.toNat % 128) s n) : Spells bound x (b :: s) n

/-- Reading goes on after the bytes of a number, whatever they are. -/
theorem Spells.decodeFrom_append {bound x n : Nat} {s : Bytes} (h : Spells bound x s n)
    (rest : Bytes) : decodeFrom bound x (s ++ rest) = .ok (n, rest) := by
  induction h with
  | last hx hb =>
    rw [List.singleton_append, decodeFrom, if_neg (Nat.not_le.mpr hx), if_pos hb]
  | group hx hb _ ih =>
    rw [List.cons_append, decodeFrom, if_neg (Nat.not_le.mpr hx), if_neg hb, ih]

/-- A part of the bytes of a number is not one. -/
theorem Spells.decodeFrom_of_prefix {bound x n : Nat} {s t : Bytes} (h : Spells bound x s n)
    (ht : t <+: s) (hne : t ≠ s) : decodeFrom bound x t = .error .truncated := by
  induction h generalizing t with
  | last hx hb =>
    rcases List.prefix_cons_iff.mp ht with rfl | ⟨u, rfl, hu⟩
    · rfl
    · exact absurd (by rw [List.prefix_nil.mp hu]) hne
  | group hx hb _ ih =>
    rcases List.prefix_cons_iff.mp ht with rfl | ⟨u, rfl, hu⟩
    · rfl
    · rw [decodeFrom, if_neg (Nat.not_le.mpr hx), if_neg hb]
      exact ih hu fun heq => hne (by rw [heq])

/-- What is read is spelled by the bytes that were taken. -/
theorem exists_spells_of_decodeFrom {bound x n : Nat} {s rest : Bytes}
    (h : decodeFrom bound x s = .ok (n, rest)) : ∃ used, s = used ++ rest ∧ Spells bound x used n := by
  induction s generalizing x with
  | nil => cases h
  | cons b s ih =>
    rw [decodeFrom] at h
    split at h
    · cases h
    · rename_i hx
      split at h
      · rename_i hb
        obtain ⟨rfl, rfl⟩ := Prod.mk.inj (Except.ok.inj h)
        exact ⟨[b], rfl, .last (Nat.not_le.mp hx) hb⟩
      · rename_i hb
        obtain ⟨used, rfl, hused⟩ := ih h
        exact ⟨b :: used, rfl, .group (Nat.not_le.mp hx) hb hused⟩

/-- All groups but the last are below the bound. -/
theorem Spells.div_lt {bound x n : Nat} {s : Bytes} (h : Spells bound x s n) : n / 128 < bound := by
  induction h with
  | last hx _ => omega
  | group _ _ _ ih => exact ih

/-- A group more makes a number longer by a byte at most. -/
theorem length_leading_group (x d : Nat) (hd : d < 128) :
    (leading (x * 128 + d)).length ≤ (leading x).length + 1 := by
  by_cases hy : x * 128 + d = 0
  · rw [hy, leading_zero]
    exact Nat.zero_le _
  · rw [leading_pos hy, show (x * 128 + d) / 128 = x by omega, List.length_append]
    exact Nat.le_refl _

/-- No spelling of a number is shorter than the one that is written. -/
theorem Spells.length_leading_le {bound x n : Nat} {s : Bytes} (h : Spells bound x s n) :
    (leading (n / 128)).length + 1 ≤ (leading x).length + s.length := by
  induction h with
  | @last x b _ _ =>
    rw [show (x * 128 + b.toNat % 128) / 128 = x by omega]
    exact Nat.le_refl _
  | @group x _ b _ _ _ _ ih =>
    have hgroup := length_leading_group x (b.toNat % 128) (Nat.mod_lt _ (by decide))
    rw [List.length_cons]
    omega

theorem Spells.length_encode_le {bound n : Nat} {s : Bytes} (hn : n < UInt64.size)
    (h : Spells bound 0 s n) : (encode n.toUInt64).length ≤ s.length := by
  have hle := h.length_leading_le
  rw [leading_zero, List.length_nil] at hle
  rw [encode, Nat.toUInt64_eq, UInt64.toNat_ofNat_of_lt' hn, List.length_append,
    List.length_singleton]
  omega

theorem length_leading_mono {m n : Nat} (h : m ≤ n) : (leading m).length ≤ (leading n).length := by
  induction n using Nat.strongRecOn generalizing m with
  | ind n ih =>
    by_cases hm : m = 0
    · rw [hm, leading_zero]
      exact Nat.zero_le _
    · have hshorter := ih (n / 128) (by omega) (Nat.div_le_div_right (c := 128) h)
      have hn : n ≠ 0 := by omega
      rw [leading_pos hm, leading_pos hn, List.length_append, List.length_append]
      exact Nat.add_le_add_right hshorter 1

/-- A larger number is not written in fewer bytes. -/
theorem length_encode_mono {m n : Nat} (h : m ≤ n) (hn : n < UInt64.size) :
    (encode m.toUInt64).length ≤ (encode n.toUInt64).length := by
  have hle := length_leading_mono (Nat.div_le_div_right (c := 128) h)
  rw [encode, encode, Nat.toUInt64_eq, Nat.toUInt64_eq, UInt64.toNat_ofNat_of_lt' hn,
    UInt64.toNat_ofNat_of_lt' (Nat.lt_of_le_of_lt h hn), List.length_append, List.length_append]
  exact Nat.add_le_add_right hle 1

end LuaToC.Varint
