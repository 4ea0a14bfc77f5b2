import LuaToC.Text.Bytes

/-! # Values of a TOML document

What a TOML document says, before its tables are put together. -/
namespace LuaToC.Toml

/-- A dotted key, part by part. -/
abbrev Key := List Bytes

/-- A value as it is written. Floating-point numbers and times keep their spelling; the pairs
of an inline table stand in the order in which they are written. -/
inductive Value where
  | text (s : Bytes)
  | bool (b : Bool)
  | integer (n : Int)
  | float (written : Bytes)
  | time (written : Bytes)
  | array (items : List Value)
  | table (pairs : List (Key × Value))

/-- A line of a document: the header of a table, the header of an element of an array of
tables, or a key with its value. -/
inductive Statement where
  | table (key : Key)
  | element (key : Key)
  | pair (key : Key) (value : Value)

/-- A step of reading: a value with what follows it. -/
abbrev Step (α : Type) := Bytes → Option (α × Bytes)

end LuaToC.Toml
