import LuaToC.Digest.Block

/-! # SHA-1

The hash behind name-based identifiers. -/
namespace LuaToC.Digest.Sha1

/-- The five working words. -/
structure State where
  (a b c d e : UInt32)

/-- The state before the first block. -/
def initial : State := ⟨0x67452301, 0xefcdab89, 0x98badcfe, 0x10325476, 0xc3d2e1f0⟩

/-- The message schedule of a block: its sixteen words and 64 more. -/
def schedule (block : List UInt32) : Array UInt32 :=
  (List.range 64).foldl
    (fun w i =>
      w.push (rotateLeft (w.getD (i + 13) 0 ^^^ w.getD (i + 8) 0 ^^^ w.getD (i + 2) 0 ^^^
        w.getD i 0) 1))
    block.toArray

/-- Round number `i` with its schedule word. The rounds come in four groups of twenty,
each with its own mixing function and constant. -/
def round (s : State) (i : Nat) (w : UInt32) : State :=
  let (f, k) : UInt32 × UInt32 :=
    if i < 20 then ((s.b &&& s.c) ||| (~~~s.b &&& s.d), 0x5a827999)
    else if i < 40 then (s.b ^^^ s.c ^^^ s.d, 0x6ed9eba1)
    else if i < 60 then ((s.b &&& s.c) ||| (s.b &&& s.d) ||| (s.c &&& s.d), 0x8f1bbcdc)
    else (s.b ^^^ s.c ^^^ s.d, 0xca62c1d6)
  ⟨rotateLeft s.a 5 + f + s.e + k + w, s.a, rotateLeft s.b 30, s.c, s.d⟩

/-- One block: 80 rounds, added to the state before them. -/
def compress (s : State) (block : List UInt32) : State :=
  let t := (schedule block).toList.zipIdx.foldl (fun t (w, i) => round t i w) s
  ⟨s.a + t.a, s.b + t.b, s.c + t.c, s.d + t.d, s.e + t.e⟩

/-- The 20-byte digest of a message. -/
def digest (message : Bytes) : Bytes :=
  let s := (blocks (words (padded message))).foldl compress initial
  unwords [s.a, s.b, s.c, s.d, s.e]

end LuaToC.Digest.Sha1
