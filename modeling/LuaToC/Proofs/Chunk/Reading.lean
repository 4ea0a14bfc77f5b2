import LuaToC.Chunk.Reader
import LuaToC.Chunk.Writer
import LuaToC.Proofs.Words
import LuaToC.Proofs.Chunk.Varint

/-! # What a reader takes

`Takes e r s x` says that the reader `r` takes exactly the bytes `s` off the front of its data,
whatever follows them, and yields `x`.  Readers that run one after the other take the bytes of
both (`Takes.bind`), so a reader of a record takes the fields in the order in which they were
written.  This module has one such fact for each part of a chunk below the level of whole
functions.

The end of a block is computed in numbers that may wrap around, and `Extent.Fits` is what keeps
the ends of all blocks inside the data exact: the data themselves are not longer than the largest
such number.  Then a block either is there or is refused (`run_blockOr_of_le`,
`run_blockOr_of_lt`).
-/
namespace LuaToC.Chunk

/-- The largest number that can be read as a count or a position: `2 ^ 31 - 129`.  The bound
`2 ^ 31 - 1` is compared with all groups of seven bits but the last. -/
def maxCount : Nat := 0x7fffff7f

/-- The number can be read as a count or a position. -/
def IsCount (n : Int64) : Prop := 0 ≤ n.toInt ∧ n.toInt ≤ maxCount

/-- An end up to `stop` is computed exactly. -/
def Bounds.admits : Bounds → Nat → Bool
  | .word64, stop => stop < 0x8000000000000000
  | .unbounded, _ => true

/-- The end of the data is computed exactly. -/
def Extent.Fits (e : Extent) : Prop := e.bounds.admits e.size = true

theorem Bounds.admits_mono {b : Bounds} {m n : Nat} (h : b.admits n = true) (hmn : m ≤ n) :
    b.admits m = true := by
  cases b with
  | word64 =>
    simp only [admits, decide_eq_true_eq] at h ⊢
    omega
  | unbounded => rfl

theorem Bounds.stop_of_admits {b : Bounds} {start n : Nat} (h : b.admits (start + n) = true) :
    b.stop start n = (start + n : Nat) := by
  cases b with
  | word64 =>
    have hlt : start + n < 2 ^ 63 := of_decide_eq_true h
    rw [stop, ← Int64.ofNat_add, Int64.toInt_ofNat_of_lt hlt]
  | unbounded => rfl

namespace Reader

variable {α β : Type} {e : Extent}

/-- `r` takes exactly `s` off the front of the data and yields `x`. -/
def Takes (e : Extent) (r : Reader α) (s : Bytes) (x : α) : Prop :=
  ∀ rest : Bytes, (s ++ rest).length ≤ e.size → r.run (s ++ rest) = .ok (x, rest)

theorem Takes.pure (x : α) : Takes e (pure x) [] x := fun _ _ => rfl

/-- A result that needs no data. -/
theorem Takes.lift {a : Except Error α} {x : α} (h : a = .ok x) :
    Takes e (monadLift a : Reader α) [] x := by
  intro rest _
  rw [h]
  rfl

theorem Takes.bind {r : Reader α} {f : α → Reader β} {s t : Bytes} {x : α} {y : β}
    (hr : Takes e r s x) (hf : Takes e (f x) t y) : Takes e (r >>= f) (s ++ t) y := by
  intro rest hlen
  rw [List.append_assoc] at hlen ⊢
  have htail : (t ++ rest).length ≤ e.size := by
    rw [List.length_append] at hlen
    omega
  rw [StateT.run_bind, hr (t ++ rest) hlen]
  exact hf rest htail

/-- What follows takes nothing more. -/
theorem Takes.bind_nil {r : Reader α} {f : α → Reader β} {s : Bytes} {x : α} {y : β}
    (hr : Takes e r s x) (hf : Takes e (f x) [] y) : Takes e (r >>= f) s y := by
  have h := hr.bind hf
  rwa [List.append_nil] at h

theorem Takes.map {r : Reader α} {s : Bytes} {x : α} (hr : Takes e r s x) (f : α → β) :
    Takes e (do return f (← r)) s (f x) := hr.bind_nil (Takes.pure (f x))

theorem Takes.map_eq {r : Reader α} {s : Bytes} {x : α} {y : β} {f : α → β} (hr : Takes e r s x)
    (hy : f x = y) : Takes e (do return f (← r)) s y := hy ▸ hr.map f

/-! ## Bytes, blocks and numbers -/

theorem takes_byte (b : UInt8) : Takes e byte [b] b := fun _ _ => rfl

theorem run_slice (start : Nat) (stop : Int) (left : Bytes) :
    (slice start stop).run left =
      if start ≤ stop ∧ stop ≤ start + left.length then
        .ok (left.take (stop - start).toNat, left.drop (stop - start).toNat)
      else .error .sizeOverflow := by
  simp only [slice, StateT.run_bind, StateT.run_get, pure_bind]
  split <;> rfl

theorem run_blockOr (e : Extent) (cut : Error) (n : Nat) (left : Bytes) :
    (blockOr e cut n).run left =
      if e.size < e.bounds.stop (e.size - left.length) n then .error cut
      else (slice (e.size - left.length) (e.bounds.stop (e.size - left.length) n)).run left := by
  simp only [blockOr, offset, StateT.run_bind, StateT.run_get, StateT.run_pure, pure_bind]
  split <;> rfl

theorem run_stringBody (e : Extent) (size : Nat) (left : Bytes) :
    (stringBody e size).run left =
      (blockOr e (.truncatedString (e.size - left.length) size) (size - 1)).run left := by
  simp only [stringBody, offset, StateT.run_bind, StateT.run_get, StateT.run_pure, pure_bind]

/-- A block that the data have is there. -/
theorem run_blockOr_of_le (he : e.Fits) (cut : Error) {n : Nat} {left : Bytes}
    (hleft : left.length ≤ e.size) (hn : n ≤ left.length) :
    (blockOr e cut n).run left = .ok (left.take n, left.drop n) := by
  have hstop : e.bounds.stop (e.size - left.length) n = (e.size - left.length + n : Nat) :=
    Bounds.stop_of_admits (Bounds.admits_mono he (by omega))
  have hwidth : ((e.size - left.length + n : Nat) - (e.size - left.length : Nat) : Int).toNat = n := by
    omega
  rw [run_blockOr, hstop, if_neg (by omega), run_slice, if_pos ⟨by omega, by omega⟩, hwidth]

/-- A block that is longer than what is left is refused, as long as its end is computed
exactly. -/
theorem run_blockOr_of_lt (cut : Error) {n : Nat} {left : Bytes} (hleft : left.length ≤ e.size)
    (hn : left.length < n) (hstop : e.bounds.admits (e.size - left.length + n) = true) :
    (blockOr e cut n).run left = .error cut := by
  rw [run_blockOr, Bounds.stop_of_admits hstop, if_pos (by omega)]

theorem takes_blockOr (he : e.Fits) (cut : Error) {n : Nat} {s : Bytes} (hn : s.length = n) :
    Takes e (blockOr e cut n) s s := by
  intro rest hlen
  have hle : n ≤ (s ++ rest).length := by
    rw [List.length_append]
    omega
  rw [run_blockOr_of_le he cut hlen hle, ← hn, List.take_left, List.drop_left]

theorem takes_block (he : e.Fits) {n : Nat} {s : Bytes} (hn : s.length = n) :
    Takes e (block e n) s s := takes_blockOr he .truncated hn

theorem takes_varint {limit : Nat} {x : UInt64} (h : x.toNat / 128 < limit / 128) :
    Takes e (varint limit) (Varint.encode x) x.toNat := by
  intro rest _
  simp only [varint, StateT.run_bind, StateT.run_get, pure_bind, Varint.decode_encode h]
  rfl

/-- The length of a list. -/
theorem takes_length {n : Nat} (h : n ≤ maxCount) : Takes e int (putLength n) n := by
  unfold maxCount at h
  have hval : n.toUInt64.toNat = n :=
    UInt64.toNat_ofNat_of_lt' (show n < 0x10000000000000000 by omega)
  have hr : Takes e int (Varint.encode n.toUInt64) n.toUInt64.toNat :=
    takes_varint (by rw [hval]; omega)
  rwa [hval] at hr

/-- A number in the range of counts, kept as a word. -/
theorem takes_int64 {n : Int64} (h : IsCount n) : Takes e int64 (putInt n) n := by
  have hbound := h.2
  unfold maxCount at hbound
  have hval : (n.toUInt64.toNat : Int) = n.toInt := by
    rw [Int64.toNat_toUInt64_of_le (Int64.le_iff_toInt_le.mpr h.1)]
    exact Int.toNat_of_nonneg h.1
  have hr : Takes e int (Varint.encode n.toUInt64) n.toUInt64.toNat :=
    takes_varint (by omega)
  have hback : Int64.ofNat n.toUInt64.toNat = n := by
    rw [← Int64.ofInt_eq_ofNat, hval, Int64.ofInt_toInt]
  have hm := hr.map Int64.ofNat
  rwa [hback] at hm

/-- A word of eight bytes in the byte order in which it was written. -/
theorem takes_word64 (he : e.Fits) (o : ByteOrder) (x : UInt64) :
    Takes e (word64 e o) (o.putUInt64 x) x := by
  have hr := (takes_block he (o.length_putUInt64 x)).map fun s => (o.number s).toUInt64
  rwa [o.number_putUInt64, Nat.toUInt64_eq, UInt64.ofNat_toNat] at hr

/-! ## Strings and lists -/

theorem takes_stringBody (he : e.Fits) {size : Nat} {s : Bytes} (hsize : s.length + 1 = size) :
    Takes e (stringBody e size) s s := by
  intro rest hlen
  have hblock := takes_blockOr he (.truncatedString (e.size - (s ++ rest).length) size)
    (show s.length = size - 1 by omega)
  rw [run_stringBody]
  exact hblock rest hlen

/-- A string that is present.  Its length plus one is a 64-bit number, since the string is
shorter than the data. -/
theorem takes_string? (he : e.Fits) (hsize : e.size < 0x4000000000000000) (s : Bytes) :
    Takes e (string? e) (putString s) (some s) := by
  intro rest hlen
  have hs : s.length < 0x4000000000000000 := by
    simp only [putString, List.length_append] at hlen
    omega
  have hval : (s.length + 1).toUInt64.toNat = s.length + 1 :=
    UInt64.toNat_ofNat_of_lt' (show s.length + 1 < 0x10000000000000000 by omega)
  have hn : Takes e (varint 0x7fffffffffffffff) (putLength (s.length + 1)) (s.length + 1) := by
    have hr : Takes e (varint 0x7fffffffffffffff) (putLength (s.length + 1))
        (s.length + 1).toUInt64.toNat := takes_varint (by rw [hval]; omega)
    rwa [hval] at hr
  have hbody : Takes e (do return some (← stringBody e (s.length + 1))) s (some s) :=
    (takes_stringBody he rfl).map some
  exact hn.bind (by rw [if_neg (Nat.succ_ne_zero _)]; exact hbody) rest hlen

/-- A string that is absent. -/
theorem takes_absent : Takes e (string? e) putAbsent none := by
  intro rest hlen
  have hn : Takes e (varint 0x7fffffffffffffff) putAbsent 0 := takes_varint (x := 0) (by decide)
  rw [string?, StateT.run_bind, hn rest hlen]
  rfl

theorem takes_string (he : e.Fits) (hsize : e.size < 0x4000000000000000) (s : Bytes) :
    Takes e (string e) (putString s) s :=
  (takes_string? he hsize s).map (·.getD [])

/-- Elements one after the other, when the reader of each takes what was written for it. -/
theorem takes_times {r : Nat → Reader β} {put : α → Bytes} {g : α → β} {xs : List α}
    (h : ∀ x ∈ xs, ∀ i, Takes e (r i) (put x) (g x)) (i : Nat) :
    Takes e (times r i xs.length) (xs.flatMap put) (xs.map g) := by
  induction xs generalizing i with
  | nil => exact Takes.pure []
  | cons x xs ih =>
    have htail := ih (fun y hy => h y (List.mem_cons_of_mem x hy)) (i + 1)
    exact (h x List.mem_cons_self i).bind (htail.map (g x :: ·))

/-- A list, when the reader of an element takes what was written for it. -/
theorem takes_list {r : Nat → Reader β} {put : α → Bytes} {g : α → β} {xs : List α}
    (hlen : xs.length ≤ maxCount) (h : ∀ x ∈ xs, ∀ i, Takes e (r i) (put x) (g x)) :
    Takes e (list r) (putList put xs) (xs.map g) :=
  (takes_length hlen).bind (takes_times h 0)

/-- A list whose elements are read as they were written. -/
theorem takes_list_self {r : Nat → Reader α} {put : α → Bytes} {xs : List α}
    (hlen : xs.length ≤ maxCount) (h : ∀ x ∈ xs, ∀ i, Takes e (r i) (put x) x) :
    Takes e (list r) (putList put xs) xs := by
  have hr := takes_list (g := id) hlen h
  rwa [List.map_id] at hr

end Reader
end LuaToC.Chunk
