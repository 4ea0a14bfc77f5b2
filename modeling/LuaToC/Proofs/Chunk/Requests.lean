import LuaToC.Proofs.Chunk.Reading
import LuaToC.Proofs.Tree

/-! # Readers ask for one thing after another

A reader of chunks does nothing to its data but ask for the next byte, number, block or string
body, and what it asks for next depends on the answers only.  `Request` lists what can be asked
for, and `Asks` says of a reader, in all extents at once, that it is such a sequence of requests.
This module shows that every part of a chunk after the signature is read in this way
(`asks_chunkRest`), so that a fact about all readers is an induction on `Asks` with one step for
each kind of request.

`Request.Spells` relates a request, the bytes that it takes and its answer.  The four readers
behind the requests take exactly such bytes (`Request.exists_spells`, `Request.takes`); what else
can happen is that the data end too early, or that the end of a string body wraps around
(`Reader.run_blockOr_of_overflow`).
-/
namespace LuaToC.Chunk

/-- The refusal is stated by a reader itself: it is not one of those that come of looking for bytes
in the data. -/
def Error.IsStated : Error → Prop
  | .truncatedString _ _ | .sizeOverflow => False
  | _ => True

/-- What a reader can ask its data for. -/
inductive Request : Type → Type
  | byte : Request UInt8
  | varint (limit : Nat) : Request Nat
  | block (n : Nat) : Request Bytes
  | stringBody (size : Nat) : Request Bytes

namespace Request

variable {α β : Type} {e : Extent}

def read : Request β → Extent → Reader β
  | .byte, _ => Reader.byte
  | .varint limit, _ => Reader.varint limit
  | .block n, e => Reader.block e n
  | .stringBody size, e => Reader.stringBody e size

/-- The request is one that a chunk can give rise to: the length of a block is a small multiple of
a count, and the size of a string has been read as a number. -/
def IsModest : Request β → Prop
  | .byte | .varint _ => True
  | .block n => n ≤ 4 * maxCount
  | .stringBody size => 0 < size ∧ size / 128 < 0x7fffffffffffffff / 128

/-- The request takes the bytes and gives the answer. -/
def Spells : Request β → Bytes → β → Prop
  | .byte, s, b => s = [b]
  | .varint limit, s, n => Varint.Spells (limit / 128) 0 s n
  | .block n, s, t => s = t ∧ t.length = n
  | .stringBody size, s, t => s = t ∧ t.length = size - 1

end Request

/-- The reader, in any extent, is a sequence of requests, each of which depends on the answers to
those before it, and ends with a result or a refusal of its own. -/
inductive Asks {α : Type} : (Extent → Reader α) → Prop
  | pure (x : α) : Asks fun _ => pure x
  | throw {err : Error} (h : err.IsStated) : Asks fun _ => throw err
  | ask {β : Type} (q : Request β) (hq : q.IsModest) {k : β → Extent → Reader α}
    (hk : ∀ s y, q.Spells s y → Asks (k y)) : Asks fun e => q.read e >>= fun y => k y e

/-! ## One request -/

theorem Extent.fits_of_size_lt {e : Extent} (h : e.size < 0x4000000000000000) : e.Fits := by
  obtain ⟨size, bounds⟩ := e
  cases bounds with
  | word64 => exact decide_eq_true (show size < 0x8000000000000000 from Nat.lt_trans h (by decide))
  | unbounded => rfl

/-- The sum of two numbers wraps when it is past the largest one. -/
theorem Bounds.stop_of_overflow {start n : Nat} (hstart : start < 0x8000000000000000)
    (hn : n < 0x8000000000000000) (h : 0x8000000000000000 ≤ start + n) :
    Bounds.word64.stop start n < 0 := by
  have hmod : ((start + n : Nat) : Int) % (Int64.size : Nat) = (start + n : Nat) :=
    Int.emod_eq_of_lt (by omega) (by change _ < (0x10000000000000000 : Int); omega)
  rw [stop, ← Int64.ofNat_add, Int64.toInt_ofNat', Int.bmod_def, hmod]
  change (if _ < (0x10000000000000000 + 1 : Int) / 2 then _ else _ - (0x10000000000000000 : Int)) < 0
  rw [if_neg (by omega)]
  omega

namespace Reader

/-- A block whose end wraps ends the program. -/
theorem run_blockOr_of_overflow {size n : Nat} {left : Bytes} (cut : Error)
    (hsize : size < 0x4000000000000000) (hn : n < 0x8000000000000000)
    (hstop : 0x8000000000000000 ≤ size - left.length + n) :
    (blockOr ⟨size, .word64⟩ cut n).run left = .error .sizeOverflow := by
  have hwraps : Bounds.word64.stop (size - left.length) n < 0 :=
    Bounds.stop_of_overflow (by omega) hn hstop
  rw [run_blockOr, if_neg (by dsimp only; omega), run_slice, if_neg (by dsimp only; omega)]

/-- A block that is given is the next part of the data. -/
theorem eq_append_of_blockOr {e : Extent} {cut : Error} {n : Nat} {left s rest : Bytes}
    (hsize : e.size < 0x4000000000000000) (hn : n < 0x8000000000000000)
    (hleft : left.length ≤ e.size) (h : (blockOr e cut n).run left = .ok (s, rest)) :
    left = s ++ rest ∧ s.length = n := by
  by_cases hle : n ≤ left.length
  · rw [run_blockOr_of_le (Extent.fits_of_size_lt hsize) cut hleft hle] at h
    obtain ⟨rfl, rfl⟩ := Prod.mk.inj (Except.ok.inj h)
    exact ⟨(List.take_append_drop n left).symm, List.length_take_of_le hle⟩
  · obtain ⟨size, bounds⟩ := e
    by_cases hstop : bounds.admits (size - left.length + n) = true
    · rw [run_blockOr_of_lt cut hleft (Nat.not_le.mp hle) hstop] at h
      cases h
    · cases bounds with
      | word64 =>
        have hover : 0x8000000000000000 ≤ size - left.length + n := by
          simpa [Bounds.admits] using hstop
        rw [run_blockOr_of_overflow cut hsize hn hover] at h
        cases h
      | unbounded => exact absurd rfl hstop

section

variable {α β : Type} {r : Reader α} {s t : Bytes}

theorem run_bind_of_ok {x : α} (h : r.run s = .ok (x, t)) (f : α → Reader β) :
    (r >>= f).run s = (f x).run t := by
  rw [StateT.run_bind, h]
  rfl

theorem run_bind_of_error {err : Error} (h : r.run s = .error err) (f : α → Reader β) :
    (r >>= f).run s = .error err := by
  rw [StateT.run_bind, h]
  rfl

theorem run_bind_eq_ok {f : α → Reader β} {y : β} (h : (r >>= f).run s = .ok (y, t)) :
    ∃ x u, r.run s = .ok (x, u) ∧ (f x).run u = .ok (y, t) := by
  cases hr : r.run s with
  | error err =>
    rw [run_bind_of_error hr] at h
    cases h
  | ok p =>
    rw [run_bind_of_ok hr] at h
    exact ⟨p.1, p.2, rfl, h⟩

end

end Reader

namespace Request

variable {β : Type} {e : Extent} {q : Request β} {y : β}

/-- An answer is spelled by the bytes that were taken for it. -/
theorem exists_spells (hq : q.IsModest) (hsize : e.size < 0x4000000000000000) {left rest : Bytes}
    (hleft : left.length ≤ e.size) (h : (q.read e).run left = .ok (y, rest)) :
    ∃ s, left = s ++ rest ∧ q.Spells s y := by
  cases q with
  | byte =>
    cases left with
    | nil => cases h
    | cons b left =>
      obtain ⟨rfl, rfl⟩ := Prod.mk.inj (Except.ok.inj h)
      exact ⟨[b], rfl, rfl⟩
  | varint limit =>
    simp only [read, Reader.varint, StateT.run_bind, StateT.run_get, pure_bind] at h
    split at h
    · cases h
    · cases h
    · rename_i hdecode
      obtain ⟨rfl, rfl⟩ := Prod.mk.inj (Except.ok.inj h)
      exact Varint.exists_spells_of_decodeFrom hdecode
  | block n =>
    have hn : n < 0x8000000000000000 := Nat.lt_of_le_of_lt hq (by decide)
    obtain ⟨happend, hlen⟩ := Reader.eq_append_of_blockOr hsize hn hleft h
    exact ⟨y, happend, rfl, hlen⟩
  | stringBody size =>
    rw [read, Reader.run_stringBody] at h
    have hn : size - 1 < 0x8000000000000000 := by
      have hlt := hq.2
      omega
    obtain ⟨happend, hlen⟩ := Reader.eq_append_of_blockOr hsize hn hleft h
    exact ⟨y, happend, rfl, hlen⟩

/-- Bytes that spell an answer are taken for it. -/
theorem takes (hq : q.IsModest) (hsize : e.size < 0x4000000000000000) {s : Bytes}
    (h : q.Spells s y) : Reader.Takes e (q.read e) s y := by
  have he := Extent.fits_of_size_lt hsize
  cases q with
  | byte =>
    obtain rfl : s = [y] := h
    exact Reader.takes_byte y
  | varint limit =>
    intro rest _
    have hdecode : Varint.decode limit (s ++ rest) = .ok (y, rest) :=
      Varint.Spells.decodeFrom_append h rest
    simp only [read, Reader.varint, StateT.run_bind, StateT.run_get, pure_bind, hdecode]
    rfl
  | block n =>
    obtain ⟨rfl, hlen⟩ := h
    exact Reader.takes_block he hlen
  | stringBody size =>
    obtain ⟨rfl, hlen⟩ := h
    have hpos := hq.1
    exact Reader.takes_stringBody he (by omega)

end Request

/-! ## Sequences of requests -/

namespace Asks

variable {α β : Type}

theorem request (q : Request β) (hq : q.IsModest) : Asks q.read := by
  have h := Asks.ask q hq (k := fun y _ => Pure.pure y) fun _ y _ => .pure y
  simpa using h

theorem bind {R : Extent → Reader α} {F : α → Extent → Reader β} (hR : Asks R)
    (hF : ∀ x, Asks (F x)) : Asks fun e => R e >>= fun x => F x e := by
  induction hR with
  | pure x => simpa using hF x
  | throw h => exact .throw h
  | ask q hq _ ih =>
    simp only [bind_assoc]
    exact .ask q hq fun s y hy => ih s y hy

theorem map {R : Extent → Reader α} (hR : Asks R) (f : α → β) :
    Asks fun e => do return f (← R e) := hR.bind fun x => .pure (f x)

/-- The same reader several times. -/
theorem times {R : Extent → Nat → Reader α} (hR : ∀ i, Asks fun e => R e i) (i n : Nat) :
    Asks fun e => Reader.times (R e) i n := by
  induction n generalizing i with
  | zero => exact .pure []
  | succ n ih => exact (hR i).bind fun x => (ih (i + 1)).map (x :: ·)

end Asks

namespace Reader

/-! ## The parts of a chunk -/

theorem asks_byte : Asks fun _ => byte := Asks.request .byte trivial

theorem asks_int : Asks fun _ => int := Asks.request (.varint 0x7fffffff) trivial

theorem asks_int64 : Asks fun _ => int64 := asks_int.map Int64.ofNat

theorem asks_block {n : Nat} (hn : n ≤ 4 * maxCount) : Asks fun e => block e n :=
  Asks.request (.block n) hn

theorem asks_list {α : Type} {R : Extent → Nat → Reader α} (hR : ∀ i, Asks fun e => R e i) :
    Asks fun e => list (R e) := asks_int.bind fun n => Asks.times hR 0 n

theorem asks_string? : Asks fun e => string? e := by
  -- The bound on the size is known only as long as its spelling is at hand.
  refine Asks.ask (.varint 0x7fffffffffffffff) trivial fun _ size hsize => ?_
  by_cases h : size = 0
  · simp only [if_pos h]
    exact .pure none
  · simp only [if_neg h]
    exact (Asks.request (.stringBody size) ⟨Nat.pos_of_ne_zero h, hsize.div_lt⟩).map some

theorem asks_string : Asks fun e => string e := asks_string?.map (·.getD [])

theorem asks_word64 (o : ByteOrder) : Asks fun e => word64 e o :=
  (asks_block (by decide)).map fun s => (o.number s).toUInt64

/-- A block of whole instructions begins with the bytes of one. -/
theorem exists_word_of_length {s : Bytes} {n : Nat} (hlen : s.length = (n + 1) * 4) :
    ∃ a b c d rest, s = a :: b :: c :: d :: rest := by
  match s with
  | [] | [_] | [_, _] | [_, _, _] =>
    simp only [List.length_cons, List.length_nil] at hlen
    omega
  | a :: b :: c :: d :: rest => exact ⟨a, b, c, d, rest, rfl⟩

/-- A block of whole instructions is refused only for an instruction that names no operation. -/
theorem isStated_of_instructions {o : ByteOrder} {s : Bytes} {pc n : Nat} {err : Error}
    (hlen : s.length = n * 4) (h : instructions o pc s = .error err) : err.IsStated := by
  induction n generalizing s pc with
  | zero =>
    obtain rfl : s = [] := List.eq_nil_of_length_eq_zero (by omega)
    cases h
  | succ n ih =>
    obtain ⟨a, b, c, d, rest, rfl⟩ := exists_word_of_length hlen
    have hfewer : rest.length = n * 4 := by
      simp only [List.length_cons] at hlen
      omega
    rw [instructions] at h
    split at h
    · cases hrest : instructions o (pc + 1) rest with
      | ok is =>
        rw [hrest] at h
        cases h
      | error err' =>
        rw [hrest] at h
        cases h
        exact ih hfewer hrest
    · cases h
      trivial

theorem asks_code (o : ByteOrder) : Asks fun e => code e o := by
  refine Asks.ask (.varint 0x7fffffff) trivial fun _ n hn => ?_
  have hmodest : (Request.block (n * 4)).IsModest := by
    have hcount := hn.div_lt
    unfold Request.IsModest maxCount
    omega
  refine Asks.ask (.block (n * 4)) hmodest fun _ raw hraw => ?_
  cases h : instructions o 0 raw with
  | ok is => exact .pure is
  | error err => exact .throw (isStated_of_instructions hraw.2 h)

theorem asks_constant (o : ByteOrder) (index : Nat) : Asks fun e => constant e o index := by
  refine asks_byte.bind fun tag => ?_
  split
  · exact .pure _
  · exact .pure _
  · exact .pure _
  · exact (asks_word64 o).map fun x => Constant.int x.toInt64
  · exact (asks_word64 o).map fun x => Constant.float ⟨x⟩
  · exact asks_string.map fun s => Constant.str s false
  · exact asks_string.map fun s => Constant.str s true
  · exact .throw trivial

theorem asks_upvalue : Asks fun e => upvalue e := by
  refine Asks.ask (.block 3) (by unfold Request.IsModest maxCount; omega) fun _ s hs => ?_
  match s, hs.2 with
  | [inStack, index, kind], _ => exact .pure _

theorem asks_checkpoint : Asks fun _ => checkpoint :=
  asks_int64.bind fun pc => asks_int64.map (Checkpoint.mk pc)

theorem asks_localVar : Asks fun e => localVar e :=
  asks_string.bind fun name => asks_int64.bind fun startPc => asks_int64.map (LocalVar.mk name startPc)

theorem asks_lineInfo : Asks fun e => lineInfo e := by
  refine Asks.ask (.varint 0x7fffffff) trivial fun _ n hn => ?_
  have hmodest : n ≤ 4 * maxCount := by
    have hcount := hn.div_lt
    unfold maxCount
    omega
  by_cases h : n = 0
  · simp only [if_pos h]
    exact .pure none
  · simp only [if_neg h]
    exact (asks_block hmodest).map fun s => some (s.map UInt8.toInt8)

theorem asks_function (o : ByteOrder) (depth : Nat) (parent : Bytes) :
    Asks fun e => function e o depth parent := by
  induction depth generalizing parent with
  | zero => exact .throw trivial
  | succ depth ih =>
    refine asks_string?.bind fun source => ?_
    refine asks_int64.bind fun lineDefined => ?_
    refine asks_int64.bind fun lastLineDefined => ?_
    refine asks_byte.bind fun numParams => ?_
    refine asks_byte.bind fun isVararg => ?_
    refine asks_byte.bind fun maxStack => ?_
    refine (asks_code o).bind fun code => ?_
    refine (asks_list (asks_constant o)).bind fun constants => ?_
    refine (asks_list fun _ => asks_upvalue).bind fun upvalues => ?_
    refine (asks_list fun _ => ih _).bind fun children => ?_
    refine asks_lineInfo.bind fun lineInfo => ?_
    refine (asks_list fun _ => asks_checkpoint).bind fun checkpoints => ?_
    refine (asks_list fun _ => asks_localVar).bind fun locals => ?_
    exact (asks_list fun _ => asks_string).bind fun names => .pure _

theorem asks_statedSizes (ss : List (String × UInt8)) : Asks fun _ => statedSizes ss := by
  induction ss with
  | nil => exact .pure ()
  | cons s ss ih =>
    refine asks_byte.bind fun b => ?_
    split
    · exact ih
    · exact .throw trivial

theorem asks_headerFields : Asks fun e => headerFields e := by
  refine asks_byte.bind fun v => ?_
  split
  · exact .throw trivial
  refine asks_byte.bind fun f => ?_
  split
  · exact .throw trivial
  refine (asks_block (by decide)).bind fun s => ?_
  split
  · exact .throw trivial
  refine (asks_statedSizes sizes).bind fun _ => ?_
  refine (asks_block (by decide)).bind fun sample => ?_
  split
  · exact .throw trivial
  · rename_i o _
    refine (asks_word64 o).bind fun x => ?_
    split
    · exact .throw trivial
    · exact .pure o

/-- What follows the signature of a chunk, with at most `depth` levels of functions. -/
def chunkRest (depth : Nat) (e : Extent) : Reader Prototype := do
  let order ← headerFields e
  let _ ← byte
  function e order depth []

theorem asks_chunkRest (depth : Nat) : Asks (chunkRest depth) :=
  asks_headerFields.bind fun o => asks_byte.bind fun _ => asks_function o depth []

end Reader
end LuaToC.Chunk
