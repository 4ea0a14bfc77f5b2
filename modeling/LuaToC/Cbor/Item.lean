import LuaToC.Text.Bytes

/-! # CBOR data items

An item is what a well-formed encoding stands for; strings are kept as the chunks they come in, a
string of definite length being one chunk. Items are written in the canonical form: shortest
heads and definite lengths. -/
namespace LuaToC.Cbor

/-- A data item. `negative n` is the number `-1 - n`; a map is the list of its keys and
values in turn; the simple values 20 to 23 are false, true, null and undefined. -/
inductive Item where
  | unsigned (n : Nat)
  | negative (n : Nat)
  | bytes (chunks : List Bytes)
  | text (chunks : List Bytes)
  | array (items : List Item)
  | map (items : List Item)
  | tag (number : Nat) (content : Item)
  | simple (n : Nat)
  | float (payload : Bytes)

namespace Item

def null : Item := .simple 22

def ofBool (b : Bool) : Item := .simple (if b then 21 else 20)

/-- A number as an item. -/
def ofInt64 (n : Int64) : Item :=
  if 0 ≤ n then .unsigned n.toInt.toNat else .negative (-1 - n.toInt).toNat

/-- The head of an item: its major type and its argument in the shortest form. -/
def head (major n : Nat) : Bytes :=
  let first (info : Nat) : UInt8 := (32 * major + info).toUInt8
  if n < 24 then [first n]
  else if n < 0x100 then [first 24, n.toUInt8]
  else if n < 0x10000 then [first 25, (n / 256).toUInt8, n.toUInt8]
  else if n < 0x100000000 then first 26 :: (Bytes.ofUInt32 n.toUInt32).reverse
  else first 27 :: (Bytes.ofUInt64 n.toUInt64).reverse

/-- A string of definite length. -/
def string (major : Nat) (chunks : List Bytes) : Bytes :=
  head major chunks.flatten.length ++ chunks.flatten

mutual

/-- The canonical encoding of an item. -/
def encode : Item → Bytes
  | .unsigned n => head 0 n
  | .negative n => head 1 n
  | .bytes chunks => string 2 chunks
  | .text chunks => string 3 chunks
  | .array items => head 4 items.length ++ encodeAll items
  | .map items => head 5 (items.length / 2) ++ encodeAll items
  | .tag number content => head 6 number ++ content.encode
  | .simple n => if n < 24 then head 7 n else [0xf8, n.toUInt8]
  | .float payload =>
    (if payload.length = 2 then 0xf9 else if payload.length = 4 then 0xfa else 0xfb) :: payload

/-- The encodings of several items, one after the other. -/
def encodeAll : List Item → Bytes
  | [] => []
  | i :: is => i.encode ++ encodeAll is

end

end Item
end LuaToC.Cbor
