import LuaToC.Cbor.Item

/-! # Reading CBOR

The input has to be one well-formed item and nothing after it. Nesting, and the lengths of arrays
and maps, are limited; of nested tags all but the first count as a level of nesting. -/
namespace LuaToC.Cbor

/-- Why input is not one item within the limits. -/
inductive Fault where
  | incomplete
  | malformed
  | beyondLimits
  | extraneous
  deriving DecidableEq

/-- The deepest nesting that is read. -/
def maxNesting : Nat := 32

/-- The longest array or map that is read. -/
def maxElements : Nat := 131072

/-- A step of reading: a value with what follows it. -/
abbrev Step (α : Type) := Bytes → Except Fault (α × Bytes)

/-- The next `n` bytes as a number. -/
def argument (n : Nat) : Step Nat := fun s =>
  if s.length < n then .error .incomplete else .ok (Bytes.toNatBE (s.take n), s.drop n)

/-- The head of an item. -/
structure Head where
  major : Nat
  info : Nat
  value : Nat

/-- The item has no length of its own but ends with a break. -/
def Head.isIndefinite (h : Head) : Bool := h.info = 31

/-- Reads a head. -/
def head : Step Head
  | [] => .error .incomplete
  | b :: rest =>
    let major := b.toNat / 32
    let info := b.toNat % 32
    let sized (n : Nat) : Except Fault (Head × Bytes) := do
      let (value, rest) ← argument n rest
      return (⟨major, info, value⟩, rest)
    if info < 24 then .ok (⟨major, info, info⟩, rest)
    else if info = 24 then do
      let (h, rest) ← sized 1
      if major = 7 ∧ h.value < 32 then throw .malformed
      return (h, rest)
    else if info = 25 then sized 2
    else if info = 26 then sized 4
    else if info = 27 then sized 8
    else if info < 31 then .error .malformed
    else if major = 0 ∨ major = 1 ∨ major = 6 ∨ major = 7 then .error .malformed
    else .ok (⟨major, info, 31⟩, rest)

/-- The body of a string of definite length. -/
def stringBody (length : Nat) : Step Bytes := fun s =>
  if 0x8000000000000000 ≤ length then .error .beyondLimits
  else if s.length < length then .error .incomplete
  else .ok (s.take length, s.drop length)

/-- The chunks of a string up to the break; each is a string of definite length of the same
major type. At most `fuel` of them are read. -/
def chunks (major : Nat) : Nat → Step (List Bytes)
  | 0, _ => .error .incomplete
  | _, [] => .error .incomplete
  | fuel + 1, b :: rest =>
    if b = 0xff then .ok ([], rest)
    else if b.toNat / 32 ≠ major ∨ b.toNat % 32 = 31 then .error .malformed
    else do
      let (h, rest) ← head (b :: rest)
      let (chunk, rest) ← stringBody h.value rest
      let (more, rest) ← chunks major fuel rest
      return (chunk :: more, rest)

/-- A string, in chunks. -/
def string (h : Head) : Step (List Bytes) := fun s =>
  if h.isIndefinite then chunks h.major (s.length + 1) s
  else do
    let (body, rest) ← stringBody h.value s
    return ([body], rest)

/-- The same step `n` times. -/
def times {α : Type} (step : Step α) : Nat → Step (List α)
  | 0, s => .ok ([], s)
  | n + 1, s => do
    let (x, s) ← step s
    let (xs, s) ← times step n s
    return (x :: xs, s)

/-- The same step up to the break, at most `limit` times; `count` tells how often it ran. -/
def untilBreak {α : Type} (step : Step α) (limit : Nat) : Nat → Nat → Step (List α)
  | 0, _, _ => .error .incomplete
  | _, _, [] => .error .incomplete
  | fuel + 1, count, b :: rest =>
    if b = 0xff then .ok ([], rest)
    else do
      let (x, s) ← step (b :: rest)
      if limit < count + 1 then throw .beyondLimits
      let (xs, s) ← untilBreak step limit fuel (count + 1) s
      return (x :: xs, s)

/-- The tags in front of an item that are inside another tag, each a level of nesting, with
the depth that they reach. -/
def nestedTags (depth : Nat) : Nat → Step (List Nat × Nat)
  | 0, _ => .error .incomplete
  | _, [] => .error .incomplete
  | fuel + 1, b :: rest =>
    if b.toNat / 32 ≠ 6 then .ok (([], depth), b :: rest)
    else do
      let (h, rest) ← head (b :: rest)
      if maxNesting < depth + 1 then throw .beyondLimits
      let ((tags, depth), rest) ← nestedTags (depth + 1) fuel rest
      return ((h.value :: tags, depth), rest)

/-- The items of an array or a map, as many as the head says. -/
def elements (step : Step Item) (h : Head) : Step (List Item) := fun s =>
  let perElement := if h.major = 5 then 2 else 1
  if h.isIndefinite then do
    -- A map may hold one key more than it may hold pairs before the break is seen.
    let limit := perElement * maxElements + (perElement - 1)
    let (items, s) ← untilBreak step limit (s.length + 1) 0 s
    if items.length % perElement ≠ 0 then throw .malformed
    return (items, s)
  else if 0x8000000000000000 ≤ h.value ∨ maxElements < h.value then .error .beyondLimits
  else times step (perElement * h.value) s

/-- Reads an item that is inside `depth` others. `fuel` bounds the nesting of arrays and
maps. -/
def itemAt : Nat → Nat → Step Item
  | 0, _, _ => .error .beyondLimits
  | fuel + 1, depth, s => do
    let (h, s) ← head s
    if h.major = 6 then
      let ((tags, depth), s) ← nestedTags depth (s.length + 1) s
      let (h', s) ← head s
      let (content, s) ← untagged fuel depth h' s
      return (.tag h.value (tags.foldr .tag content), s)
    else untagged fuel depth h s
where
  /-- The rest of an item that is no tag. -/
  untagged (fuel depth : Nat) (h : Head) : Step Item := fun s =>
    match h.major with
    | 0 => .ok (.unsigned h.value, s)
    | 1 => .ok (.negative h.value, s)
    | 2 => do
      let (chunks, s) ← string h s
      return (.bytes chunks, s)
    | 3 => do
      let (chunks, s) ← string h s
      return (.text chunks, s)
    | 4 =>
      if maxNesting < depth + 1 then .error .beyondLimits
      else do
        let (items, s) ← elements (itemAt fuel (depth + 1)) h s
        return (.array items, s)
    | 5 =>
      if maxNesting < depth + 1 then .error .beyondLimits
      else do
        let (items, s) ← elements (itemAt fuel (depth + 1)) h s
        return (.map items, s)
    | _ =>
      if h.info = 25 then .ok (.float ((Bytes.ofUInt32 h.value.toUInt32).take 2).reverse, s)
      else if h.info = 26 then .ok (.float (Bytes.ofUInt32 h.value.toUInt32).reverse, s)
      else if h.info = 27 then .ok (.float (Bytes.ofUInt64 h.value.toUInt64).reverse, s)
      else .ok (.simple h.value, s)

/-- Reads input that is one item and nothing else. -/
def decode (s : Bytes) : Except Fault Item := do
  let (item, rest) ← itemAt (maxNesting + 1) 0 s
  if rest ≠ [] then throw .extraneous
  return item

end LuaToC.Cbor
