import LuaToC.Text.Bytes

/-! # UTF-8

Messages quote texts character by character, and configuration files and contracts have to be
valid UTF-8; both need to know where a well-formed character ends. Overlong forms, surrogates and
values past U+10FFFF are not well formed. -/
namespace LuaToC.Utf8

/-- The six payload bits of a continuation byte, which must lie in `lo … hi`. -/
def continuation (lo hi : UInt8) (b : UInt8) : Option Nat :=
  if lo ≤ b ∧ b ≤ hi then some (b.toNat % 64) else none

/-- The scalar value that a lead byte and the bytes after it form, with what follows
it; `none` when they form none. The second byte of a longer form is restricted so that
each scalar value has exactly one form. -/
def decode (b : UInt8) (rest : Bytes) : Option (Nat × Bytes) :=
  if b < 0x80 then some (b.toNat, rest)
  else if 0xC2 ≤ b ∧ b ≤ 0xDF then
    match rest with
    | c :: rest => do
      let x ← continuation 0x80 0xBF c
      return ((b.toNat % 32) * 64 + x, rest)
    | [] => none
  else if 0xE0 ≤ b ∧ b ≤ 0xEF then
    match rest with
    | c :: d :: rest => do
      let x ← continuation (if b = 0xE0 then 0xA0 else 0x80) (if b = 0xED then 0x9F else 0xBF) c
      let y ← continuation 0x80 0xBF d
      return ((b.toNat % 16) * 4096 + x * 64 + y, rest)
    | _ => none
  else if 0xF0 ≤ b ∧ b ≤ 0xF4 then
    match rest with
    | c :: d :: e :: rest => do
      let x ← continuation (if b = 0xF0 then 0x90 else 0x80) (if b = 0xF4 then 0x8F else 0xBF) c
      let y ← continuation 0x80 0xBF d
      let z ← continuation 0x80 0xBF e
      return ((b.toNat % 8) * 262144 + x * 4096 + y * 64 + z, rest)
    | _ => none
  else none

theorem decode_length {b : UInt8} {rest : Bytes} {c : Nat} {tail : Bytes}
    (h : decode b rest = some (c, tail)) : tail.length ≤ rest.length := by
  unfold decode at h
  split at h
  · simp_all
  split at h
  · split at h
    · simp [Option.bind_eq_some_iff] at h; obtain ⟨_, _, _, rfl⟩ := h; simp
    · simp at h
  split at h
  · split at h
    · simp [Option.bind_eq_some_iff] at h; obtain ⟨_, _, _, _, _, rfl⟩ := h; simp; omega
    · simp at h
  split at h
  · split at h
    · simp [Option.bind_eq_some_iff] at h
      obtain ⟨_, _, _, _, _, _, _, rfl⟩ := h; simp; omega
    · simp at h
  · simp at h

/-- The UTF-8 form of a scalar value. -/
def encode (c : Nat) : Bytes :=
  if c < 0x80 then [c.toUInt8]
  else if c < 0x800 then [(0xC0 + c / 64).toUInt8, (0x80 + c % 64).toUInt8]
  else if c < 0x10000 then
    [(0xE0 + c / 4096).toUInt8, (0x80 + c / 64 % 64).toUInt8, (0x80 + c % 64).toUInt8]
  else
    [(0xF0 + c / 262144).toUInt8, (0x80 + c / 4096 % 64).toUInt8,
      (0x80 + c / 64 % 64).toUInt8, (0x80 + c % 64).toUInt8]

/-- The number is a Unicode scalar value: a code point that is not a surrogate. -/
def isScalar (c : Nat) : Bool := c < 0xD800 || (0xE000 ≤ c && c < 0x110000)

/-- One step through a text: a well-formed character, or a byte that starts none. -/
inductive Piece where
  | scalar (c : Nat)
  | stray (b : UInt8)
  deriving DecidableEq, Repr

/-- The text cut into characters; a byte that starts no character stands alone. -/
def pieces : Bytes → List Piece
  | [] => []
  | b :: rest =>
    match _h : decode b rest with
    | some (c, tail) => .scalar c :: pieces tail
    | none => .stray b :: pieces rest
termination_by s => s.length
decreasing_by
  · have := decode_length ‹_›; simp; omega
  · simp

/-- Every byte of the text belongs to a well-formed character. -/
def isValid (s : Bytes) : Bool :=
  (pieces s).all fun | .scalar _ => true | .stray _ => false

end LuaToC.Utf8
