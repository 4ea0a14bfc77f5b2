import LuaToC.Text.Bytes

/-! # Blocks

What the two hash functions share: the padding of a message, its blocks of sixteen big-endian
words, and rotation of words. -/
namespace LuaToC.Digest

/-- The word rotated left by `n` places, for `0 < n < 32`. -/
def rotateLeft (x : UInt32) (n : UInt32) : UInt32 := (x <<< n) ||| (x >>> (32 - n))

/-- The word rotated right by `n` places, for `0 < n < 32`. -/
def rotateRight (x : UInt32) (n : UInt32) : UInt32 := (x >>> n) ||| (x <<< (32 - n))

/-- The message followed by a one bit, zeros, and its length in bits as a 64-bit
big-endian number; the result fills whole blocks of 64 bytes. -/
def padded (message : Bytes) : Bytes :=
  let zeros := (119 - message.length % 64) % 64
  message ++ [0x80] ++ List.replicate zeros 0 ++
    (Bytes.ofUInt64 (8 * message.length).toUInt64).reverse

/-- The big-endian 32-bit words of a byte string; up to three bytes at its end that fill
no word are left out. -/
def words : Bytes → List UInt32
  | a :: b :: c :: d :: rest => (Bytes.toNatBE [a, b, c, d]).toUInt32 :: words rest
  | _ => []

/-- The words in groups of sixteen. -/
def blocks (ws : List UInt32) : List (List UInt32) :=
  (List.range (ws.length / 16)).map fun i => (ws.drop (16 * i)).take 16

/-- The bytes of the words, big-endian. -/
def unwords (ws : List UInt32) : Bytes := ws.flatMap fun w => (Bytes.ofUInt32 w).reverse

end LuaToC.Digest
