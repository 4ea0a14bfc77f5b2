import LuaToC.Digest.Sha1

/-! # Name-based identifiers

A name-based identifier (UUID version 5) is the SHA-1 digest of a namespace and a name, cut to
sixteen bytes, with the version and variant bits set. Equal names have equal identifiers. -/
namespace LuaToC.Digest

/-- The namespace of URLs, `6ba7b811-9dad-11d1-80b4-00c04fd430c8`. -/
def urlNamespace : Bytes :=
  [0x6b, 0xa7, 0xb8, 0x11, 0x9d, 0xad, 0x11, 0xd1, 0x80, 0xb4, 0x00, 0xc0, 0x4f, 0xd4, 0x30, 0xc8]

/-- The sixteen bytes of an identifier with version 5 and the standard variant. -/
def markVersion (raw : Bytes) : Bytes :=
  raw.zipIdx.map fun (b, i) =>
    if i = 6 then (b &&& 0x0f) ||| 0x50
    else if i = 8 then (b &&& 0x3f) ||| 0x80
    else b

/-- The usual notation: hexadecimal, in groups of 8, 4, 4, 4 and 12 digits. -/
def uuidText (raw : Bytes) : Bytes :=
  let group (start count : Nat) := ((raw.drop start).take count).flatMap Bytes.hexByte
  Bytes.join [45] [group 0 4, group 4 2, group 6 2, group 8 2, group 10 6]

/-- The identifier of a name in the namespace of URLs. -/
def nameUuid (name : Bytes) : Bytes :=
  uuidText (markVersion ((Sha1.digest (urlNamespace ++ name)).take 16))

end LuaToC.Digest
