import LuaToC.Toml.Text

/-! # Scalars of a TOML document

Numbers, truth values and times of a TOML document. -/
namespace LuaToC.Toml

/-- An underscore stands between digits, and the last byte is a digit. -/
def hasPlainUnderscores (s : Bytes) : Bool := scan false s
where
  scan (afterDigit : Bool) : Bytes → Bool
    | [] => afterDigit
    | b :: rest => (b ≠ byte '_' || afterDigit) && scan (hexDigit? b).isSome rest

/-- The number has a sign. -/
def isSigned (s : Bytes) : Bool := s.head? = some (byte '-') || s.head? = some (byte '+')

/-- The number without its sign. -/
def unsigned (s : Bytes) : Bytes := if isSigned s then s.drop 1 else s

/-- A zero with digits after it. -/
def hasLeadingZero (s : Bytes) : Bool :=
  let s := unsigned s
  s.head? = some (byte '0') && 1 < s.length

def withoutUnderscores (s : Bytes) : Bytes := s.filter (· ≠ byte '_')

/-- An integer in 64 bits. -/
def integerIn64 (n : Int) : Option Value :=
  if -0x8000000000000000 ≤ n ∧ n < 0x8000000000000000 then some (.integer n) else none

/-- A decimal integer. -/
def decimal (s : Bytes) : Option Value :=
  if hasPlainUnderscores s ∧ ¬ hasLeadingZero s then
    let n : Int := number 10 (withoutUnderscores (unsigned s))
    integerIn64 (if s.head? = some (byte '-') then -n else n)
  else none

/-- An integer of another base, given without its first two bytes. -/
def based (base : Nat) (s : Bytes) : Option Value :=
  if hasPlainUnderscores s ∧ s.head? ≠ some (byte '_') then
    integerIn64 (number base (withoutUnderscores s))
  else none

/-- The bases other than ten, by the letter after the zero. -/
def bases : List (UInt8 × Nat) := [(byte 'b', 2), (byte 'o', 8), (byte 'x', 16)]

/-- A byte of an integer of a base. -/
def isBasedByte (base : Nat) (b : UInt8) : Bool :=
  b = byte '_' || (hexDigit? b).any (· < base)

/-- The parts of a number between periods and exponent marks. -/
def floatParts (s : Bytes) : List Bytes :=
  let isMark (b : UInt8) : Bool := b = byte '.' || b = byte 'e' || b = byte 'E'
  (Bytes.splitOn (byte '.') (s.map fun b => if isMark b then byte '.' else b)).filter (· ≠ [])

/-- A digit stands after every period. -/
def hasPlainPeriods : Bytes → Bool
  | [] => true
  | b :: rest => (b ≠ byte '.' || rest.head?.any isDigit) && hasPlainPeriods rest

/-- The size of an exponent. Once it has reached ten thousand, further digits do not count. -/
def exponentSize (digits : Bytes) : Nat :=
  digits.foldl (fun n b => if n < 10000 then 10 * n + (b.toNat - 48) else n) 0

/-- The digits and the exponent of a number without sign and underscores: digits, perhaps
with a period, then perhaps an exponent with at least one digit. -/
def scientific? (s : Bytes) : Option (Bytes × Int) :=
  let isMark (b : UInt8) : Bool := b = byte 'e' || b = byte 'E'
  let mantissa := s.takeWhile (!isMark ·)
  let whole := mantissa.takeWhile isDigit
  let fraction := mantissa.drop (whole.length + 1)
  let isMantissa := whole ≠ [] ∧ fraction.all isDigit ∧
    (mantissa.length = whole.length ∨ mantissa[whole.length]? = some (byte '.'))
  if isMantissa then
    match s.drop mantissa.length with
    | [] => some (whole ++ fraction, -fraction.length)
    | _ :: power =>
      let digits := unsigned power
      if digits ≠ [] ∧ digits.all isDigit then
        let n : Int := exponentSize digits
        some (whole ++ fraction,
          (if power.head? = some (byte '-') then -n else n) - fraction.length)
      else none
  else none

/-- The number rounds to a finite 64-bit float: it is less than the middle between the
largest one and the next power of two. -/
def isFinite (digits : Bytes) (exponent : Int) : Bool :=
  let digits := digits.dropWhile (· = byte '0')
  if digits = [] ∨ digits.length + exponent ≤ 308 then true
  else if 310 < digits.length + exponent then false
  else
    number 10 digits * Nat.pow 10 exponent.toNat <
      (Nat.pow 2 1024 - Nat.pow 2 970) * Nat.pow 10 (-exponent).toNat

/-- A floating-point number that is written with digits. -/
def float (s : Bytes) : Option Value :=
  let parts := floatParts s
  if parts.all hasPlainUnderscores ∧ ¬ parts.head?.any hasLeadingZero ∧ hasPlainPeriods s then do
    let (digits, exponent) ← scientific? (withoutUnderscores (unsigned s))
    if isFinite digits exponent then return .float s else none
  else none

/-- The number that two digits write, if it is below a bound. -/
def twoDigits? (bound : Nat) (s : Bytes) : Option Nat :=
  if s.length = 2 ∧ s.all isDigit ∧ number 10 s < bound then some (number 10 s) else none

/-- The number of days of a month. -/
def daysOf (year month : Nat) : Nat :=
  if month = 2 then if year % 4 = 0 ∧ (year % 100 ≠ 0 ∨ year % 400 = 0) then 29 else 28
  else if month = 4 ∨ month = 6 ∨ month = 9 ∨ month = 11 then 30
  else 31

/-- A date of the calendar, in ten bytes. -/
def isDate (s : Bytes) : Bool :=
  let year := s.take 4
  let month := (twoDigits? 13 ((s.drop 5).take 2)).getD 0
  let day := (twoDigits? 32 ((s.drop 8).take 2)).getD 0
  s.length = 10 && year.all isDigit && s[4]? = some (byte '-') && s[7]? = some (byte '-') &&
    1 ≤ month && 1 ≤ day && day ≤ daysOf (number 10 year) month

/-- What follows the seconds and their fraction, which may be missing. -/
def afterSeconds (s : Bytes) : Option Bytes :=
  match s with
  | [] => some []
  | b :: rest =>
    if b ≠ byte ':' then some s
    else if (twoDigits? 60 (rest.take 2)).isNone then none
    else
      let rest := rest.drop 2
      if rest.head? = some (byte '.') ∧ (rest.drop 1).head?.any isDigit then
        some ((rest.drop 1).dropWhile isDigit)
      else some rest

/-- What follows a time of day. -/
def afterClock (s : Bytes) : Option Bytes :=
  if (twoDigits? 24 (s.take 2)).isSome ∧ s[2]? = some (byte ':') ∧
      (twoDigits? 60 ((s.drop 3).take 2)).isSome then
    afterSeconds (s.drop 5)
  else none

/-- No zone, the zone zero, or an offset. -/
def isZone (s : Bytes) : Bool :=
  s = [] || s = [byte 'Z'] ||
    (s.length = 6 && isSigned s && (twoDigits? 25 ((s.drop 1).take 2)).isSome &&
      s[3]? = some (byte ':') && (twoDigits? 61 (s.drop 4)).isSome)

/-- A date, a time of day, or both and perhaps a zone. -/
def isTime (s : Bytes) : Bool :=
  isDate s || afterClock s = some [] ||
    (isDate (s.take 10) && s[10]? = some (byte 'T') && (afterClock (s.drop 11)).any isZone)

/-- The spelling of a time with capital letters and without blanks. -/
def canonicalTime (s : Bytes) : Bytes :=
  let trimmed := ((s.dropWhile isBlank).reverse.dropWhile isBlank).reverse
  trimmed.map fun b =>
    if b = byte 't' ∨ b = 32 then byte 'T' else if b = byte 'z' then byte 'Z' else b

/-- A time. -/
def time (s : Bytes) : Option Value :=
  if isTime (canonicalTime s) then some (.time (canonicalTime s)) else none

/-- A byte of a time. -/
def isTimeByte (b : UInt8) : Bool := isDigit b || (ascii "-:Tt .Zz+").contains b

/-- A byte of a floating-point number. -/
def isFloatByte (b : UInt8) : Bool := isDigit b || (ascii "_.-+eE").contains b

/-- The part that a test holds of, if it reads as a value, and what follows it. -/
def spanning (test : UInt8 → Bool) (read : Bytes → Option Value) : Step Value := fun s => do
  let part := s.takeWhile test
  return (← read part, s.drop part.length)

/-- The words that are values. -/
def words : List (Bytes × Value) :=
  [(ascii "true", .bool true), (ascii "false", .bool false)] ++
    ["inf", "nan", "+inf", "+nan", "-inf", "-nan"].map fun w => (ascii w, .float (ascii w))

/-- The base that a number begins with, if it is another than ten. -/
def base? : Bytes → Option Nat
  | z :: b :: _ => if z = byte '0' then List.lookup b bases else none
  | _ => none

/-- Reads a number or a time. What follows the first digits tells them apart. -/
def numeric : Step Value := fun s =>
  match base? s with
  | some base => spanning (isBasedByte base) (based base) (s.drop 2)
  | none =>
    let body := unsigned s
    let sign := s.take (s.length - body.length)
    let digits := body.takeWhile fun b => isDigit b || b = byte '_'
    let next := (body.drop digits.length).head?
    if !body.head?.any isDigit then none
    else if sign = [] ∧ (next = some (byte '-') ∨ next = some (byte ':')) then
      spanning isTimeByte time s
    else if next = some (byte '.') ∨ next = some (byte 'e') ∨ next = some (byte 'E') then
      spanning isFloatByte float s
    else do return (← decimal (sign ++ digits), body.drop digits.length)

/-- Reads a truth value, a number or a time. -/
def scalar : Step Value := fun s =>
  match words.find? fun (w, _) => w.isPrefixOf s with
  | some (w, v) => some (v, s.drop w.length)
  | none => numeric s

end LuaToC.Toml
