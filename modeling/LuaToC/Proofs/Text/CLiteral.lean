import LuaToC.Proofs.Numeral
import LuaToC.Text.CLiteral

/-! # C string literals read back

`CLiteral.read?` reads a string literal at the start of a text by the grammar of C, and gives the
bytes that the literal stands for together with the text after it.  The reader knows nothing about
how literals are written here: it takes escapes of one to three octal digits, as many digits as there
are, and any ordinary character as itself.

`readCharacter?_escape` is the step: what is written for one byte is read as that byte whatever
follows, because a written escape already has all the digits that an escape can take.  The literals
then follow by induction on the string (`readCharacters_escape`).
-/
namespace LuaToC.CLiteral

/-! ## The grammar -/

/-- The characters that name an escape after a backslash, with the bytes that they stand for. -/
def namedEscapes : List (UInt8 × UInt8) :=
  [(byte '"', 34), (byte '\\', 92), (byte 'a', 7), (byte 'b', 8), (byte 'f', 12), (byte 'n', 10),
   (byte 'r', 13), (byte 't', 9), (byte 'v', 11)]

def isOctalDigit (b : UInt8) : Bool := byte '0' ≤ b && b ≤ byte '7'

/-- Reads at most `limit` octal digits, and as many as there are, after digits that stand for `n`. -/
def readOctal (n : Nat) : Nat → Bytes → Nat × Bytes
  | 0, s => (n, s)
  | _ + 1, [] => (n, [])
  | limit + 1, b :: s =>
    if isOctalDigit b then readOctal (n * 8 + (b.toNat - 48)) limit s else (n, b :: s)

/-- Reads an escape from after its backslash on.  A number has to fit a byte. -/
def readEscape? (s : Bytes) : Option (UInt8 × Bytes) :=
  match s with
  | [] => none
  | b :: rest =>
    if isOctalDigit b then
      let (n, rest) := readOctal 0 3 s
      if n < 256 then some (n.toUInt8, rest) else none
    else (namedEscapes.lookup b).map fun value => (value, rest)

/-- Reads one character of a literal.  A quote is none, and neither is the end of a line. -/
def readCharacter? : Bytes → Option (UInt8 × Bytes)
  | [] => none
  | b :: s =>
    if b = byte '\\' then readEscape? s
    else if b = byte '"' ∨ b = Bytes.newline then none
    else some (b, s)

theorem length_readOctal_le (n limit : Nat) (s : Bytes) :
    (readOctal n limit s).2.length ≤ s.length := by
  induction limit generalizing n s with
  | zero => exact Nat.le_refl _
  | succ limit ih =>
    cases s with
    | nil => exact Nat.le_refl _
    | cons b s =>
      rw [readOctal]
      split
      · exact Nat.le_succ_of_le (ih _ s)
      · exact Nat.le_refl _

theorem length_readEscape?_le {s rest : Bytes} {b : UInt8} (h : readEscape? s = some (b, rest)) :
    rest.length ≤ s.length := by
  cases s with
  | nil => cases h
  | cons c s =>
    rw [readEscape?] at h
    split at h
    · have hle := length_readOctal_le 0 3 (c :: s)
      dsimp only at h
      split at h
      · cases h
        exact hle
      · cases h
    · obtain ⟨value, -, hvalue⟩ := Option.map_eq_some_iff.mp h
      cases hvalue
      exact Nat.le_succ _

theorem length_readCharacter?_lt {s rest : Bytes} {b : UInt8}
    (h : readCharacter? s = some (b, rest)) : rest.length < s.length := by
  cases s with
  | nil => cases h
  | cons c s =>
    rw [readCharacter?] at h
    split at h
    · exact Nat.lt_succ_of_le (length_readEscape?_le h)
    · split at h
      · cases h
      · cases h
        exact Nat.lt_succ_self _

/-- Reads the characters of a literal up to its closing quote. -/
def readCharacters (s : Bytes) : Option (Bytes × Bytes) :=
  if s.head? = some (byte '"') then some ([], s.tail)
  else
    match _h : readCharacter? s with
    | none => none
    | some (b, rest) => (readCharacters rest).map fun (value, after) => (b :: value, after)
termination_by s.length
decreasing_by exact length_readCharacter?_lt _h

/-- Reads the string literal that a text starts with: the bytes that it stands for, and what follows
its closing quote. -/
def read? : Bytes → Option (Bytes × Bytes)
  | [] => none
  | b :: s => if b = byte '"' then readCharacters s else none

/-! ## Octal escapes -/

/-- An octal digit is read as what it was written for. -/
theorem isOctalDigit_digit {d : Nat} (h : d < 8) :
    isOctalDigit (Bytes.digit d) = true ∧ (Bytes.digit d).toNat - 48 = d := by
  revert d
  decide

/-- Where the digits are as many as may be read, what follows them is left alone. -/
theorem readOctal_digits {ds : List Nat} (h : ∀ d ∈ ds, d < 8) (n : Nat) (t : Bytes) :
    readOctal n ds.length (ds.map Bytes.digit ++ t) = (ds.foldl (fun n d => n * 8 + d) n, t) := by
  induction ds generalizing n with
  | nil => rfl
  | cons d ds ih =>
    obtain ⟨hoctal, hvalue⟩ := isOctalDigit_digit (h d List.mem_cons_self)
    simp only [List.map_cons, List.cons_append, List.length_cons, readOctal, hoctal, if_true, hvalue]
    exact ih (fun c hc => h c (List.mem_cons_of_mem d hc)) _

/-- A number of at most nine bits is written with three octal digits. -/
theorem padLeft_octal {n : Nat} (h : n < 512) :
    Bytes.padLeft 48 3 (Bytes.octal n) = [n / 64, n / 8 % 8, n % 8].map Bytes.digit := by
  have hone {m : Nat} (hm : m < 8) : Bytes.digits 6 m = [Bytes.digit m] := by
    rw [Bytes.digits, if_pos hm]
  have hmore {m : Nat} (hm : ¬ m < 8) :
      Bytes.digits 6 m = Bytes.digits 6 (m / 8) ++ [Bytes.digit (m % 8)] := by
    rw [Bytes.digits, if_neg hm]
  rw [Bytes.octal]
  by_cases hsmall : n < 8
  · rw [hone hsmall, Nat.div_eq_of_lt (by omega : n < 64), Nat.div_eq_of_lt hsmall,
      Nat.mod_eq_of_lt hsmall]
    rfl
  · by_cases hmiddle : n < 64
    · rw [hmore hsmall, hone (by omega), Nat.div_eq_of_lt hmiddle,
        Nat.mod_eq_of_lt (by omega : n / 8 < 8)]
      rfl
    · rw [hmore hsmall, hmore (by omega), hone (by omega), Nat.div_div_eq_div_mul]
      rfl

/-- Three octal digits are read as one byte, even when another digit follows. -/
theorem readEscape?_digits {n : Nat} (h : n < 256) (t : Bytes) :
    readEscape? ([n / 64, n / 8 % 8, n % 8].map Bytes.digit ++ t) = some (n.toUInt8, t) := by
  have hdigits : ∀ d ∈ [n / 64, n / 8 % 8, n % 8], d < 8 := by
    intro d hd
    simp only [List.mem_cons, List.not_mem_nil, or_false] at hd
    omega
  have hvalue : [n / 64, n / 8 % 8, n % 8].foldl (fun n d => n * 8 + d) 0 = n := by
    simp only [List.foldl_cons, List.foldl_nil]
    omega
  have hread := readOctal_digits hdigits 0 t
  rw [hvalue] at hread
  obtain ⟨hfirst, -⟩ := isOctalDigit_digit (hdigits _ List.mem_cons_self)
  simp only [List.map_cons, List.cons_append, List.length_cons, List.length_nil] at hread ⊢
  simp only [readEscape?, hfirst, if_true, hread, h]

/-! ## What is written for one byte -/

/-- The bytes with a name are written by it. -/
theorem escape_of_mem_namedEscapes {c b : UInt8} (h : (c, b) ∈ namedEscapes) :
    isOctalDigit c = false ∧ namedEscapes.lookup c = some b ∧ escape b = [byte '\\', c] := by
  have hall : ∀ e ∈ namedEscapes, isOctalDigit e.1 = false ∧ namedEscapes.lookup e.1 = some e.2 ∧
      escape e.2 = [byte '\\', e.1] := by
    -- One by one, as `decide` may choose to run through all pairs of bytes.
    simp only [namedEscapes, List.forall_mem_cons, List.not_mem_nil, false_implies, implies_true,
      and_true]
    decide
  exact hall (c, b) h

/-- All others are written as themselves or in octal. -/
theorem escape_of_notMem_namedEscapes {b : UInt8} (h : b ∉ namedEscapes.map (·.2)) :
    escape b =
      if 0x20 ≤ b ∧ b ≤ 0x7E then [b] else byte '\\' :: Bytes.padLeft 48 3 (Bytes.octal b.toNat) := by
  simp only [namedEscapes, List.map_cons, List.map_nil, List.mem_cons, List.not_mem_nil, or_false,
    not_or] at h
  obtain ⟨h34, h92, h7, h8, h12, h10, h13, h9, h11⟩ := h
  rw [escape, if_neg h34, if_neg h92, if_neg h7, if_neg h8, if_neg h12, if_neg h10, if_neg h13,
    if_neg h9, if_neg h11]
  rfl

/-- A byte is written in one of three ways: as an escape with a name, as itself, or as an escape of
three octal digits. -/
theorem escape_cases (b : UInt8) :
    (∃ c, (c, b) ∈ namedEscapes) ∨
      (b ≠ byte '\\' ∧ b ≠ byte '"' ∧ 0x20 ≤ b ∧ b ≤ 0x7E) ∧ escape b = [b] ∨
      escape b =
        byte '\\' :: [b.toNat / 64, b.toNat / 8 % 8, b.toNat % 8].map Bytes.digit := by
  by_cases hnamed : b ∈ namedEscapes.map (·.2)
  · obtain ⟨e, he, rfl⟩ := List.mem_map.mp hnamed
    exact Or.inl ⟨e.1, he⟩
  · have hescape := escape_of_notMem_namedEscapes hnamed
    by_cases hprintable : 0x20 ≤ b ∧ b ≤ 0x7E
    · rw [if_pos hprintable] at hescape
      refine Or.inr (Or.inl ⟨⟨?_, ?_, hprintable⟩, hescape⟩)
      · rintro rfl
        exact hnamed (by decide)
      · rintro rfl
        exact hnamed (by decide)
    · have hlt := b.toNat_lt
      -- All bytes have at most nine bits, so none takes more than three digits.
      rw [if_neg hprintable, padLeft_octal (by omega)] at hescape
      exact Or.inr (Or.inr hescape)

/-- What is written for a byte is read as that byte, whatever follows. -/
theorem readCharacter?_escape (b : UInt8) (t : Bytes) :
    readCharacter? (escape b ++ t) = some (b, t) := by
  rcases escape_cases b with ⟨c, hc⟩ | ⟨⟨hbackslash, hquote, hlow, -⟩, hescape⟩ | hescape
  · obtain ⟨hnot, hlookup, hescape⟩ := escape_of_mem_namedEscapes hc
    rw [hescape, List.cons_append, List.singleton_append, readCharacter?, if_pos rfl, readEscape?]
    simp [hnot, hlookup]
  · have hnewline : b ≠ Bytes.newline := by
      rintro rfl
      exact absurd hlow (by decide)
    rw [hescape, List.singleton_append, readCharacter?, if_neg hbackslash, if_neg]
    rintro (h | h)
    · exact hquote h
    · exact hnewline h
  · rw [hescape, List.cons_append, readCharacter?, if_pos rfl, readEscape?_digits b.toNat_lt,
      Nat.toUInt8_eq, UInt8.ofNat_toNat]

/-- It never starts with a quote, so a literal does not end inside it. -/
theorem head?_escape_append (b : UInt8) (t : Bytes) :
    (escape b ++ t).head? ≠ some (byte '"') := by
  have hbackslash : byte '\\' ≠ byte '"' := by decide
  rcases escape_cases b with ⟨c, hc⟩ | ⟨⟨-, hquote, -⟩, hescape⟩ | hescape
  · rw [(escape_of_mem_namedEscapes hc).2.2]
    exact fun h => hbackslash (Option.some.inj h)
  · rw [hescape]
    exact fun h => hquote (Option.some.inj h)
  · rw [hescape]
    exact fun h => hbackslash (Option.some.inj h)

/-- It is printable ASCII. -/
theorem printable_of_mem_escape {b c : UInt8} (h : c ∈ escape b) : 0x20 ≤ c ∧ c ≤ 0x7E := by
  rcases escape_cases b with ⟨d, hd⟩ | ⟨⟨-, -, hprintable⟩, hescape⟩ | hescape
  · have hnamed : ∀ e ∈ namedEscapes, 0x20 ≤ e.1 ∧ e.1 ≤ 0x7E := by
      simp only [namedEscapes, List.forall_mem_cons, List.not_mem_nil, false_implies, implies_true,
        and_true]
      decide
    rw [(escape_of_mem_namedEscapes hd).2.2] at h
    rcases List.mem_cons.mp h with rfl | h
    · decide
    · rw [List.mem_singleton.mp h]
      exact hnamed (d, b) hd
  · rw [hescape] at h
    rw [List.mem_singleton.mp h]
    exact hprintable
  · have hdigit : ∀ d < 8, 0x20 ≤ Bytes.digit d ∧ Bytes.digit d ≤ 0x7E := by decide
    have hlt := b.toNat_lt
    rw [hescape] at h
    rcases List.mem_cons.mp h with rfl | h
    · decide
    · obtain ⟨d, hd, rfl⟩ := List.mem_map.mp h
      simp only [List.mem_cons, List.not_mem_nil, or_false] at hd
      exact hdigit d (by omega)

/-! ## Literals -/

/-- The characters of a string are read up to the quote after them.  The text after the quote is a
variable of the statement only: no step looks at it. -/
theorem readCharacters_escape (s t : Bytes) :
    readCharacters (s.flatMap escape ++ byte '"' :: t) = some (s, t) := by
  induction s with
  | nil =>
    rw [List.flatMap_nil, List.nil_append, readCharacters, List.head?_cons, if_pos rfl, List.tail_cons]
  | cons b s ih =>
    have hstep := readCharacter?_escape b (s.flatMap escape ++ byte '"' :: t)
    rw [List.flatMap_cons, List.append_assoc, readCharacters, if_neg (head?_escape_append b _)]
    split
    · rename_i hnone
      rw [hstep] at hnone
      cases hnone
    · rename_i c rest hsome
      rw [hstep] at hsome
      cases hsome
      rw [ih]
      rfl

/-- **A string survives as a literal.**  Reading the literal of a string at the start of any text gives
the string and stops exactly after the literal, and the literal is printable ASCII. -/
theorem read?_ofString (s t : Bytes) :
    read? (ofString s ++ t) = some (s, t) ∧ ∀ b ∈ ofString s, 0x20 ≤ b ∧ b ≤ 0x7E := by
  constructor
  · rw [ofString, List.append_assoc, List.append_assoc, List.singleton_append, read?,
      if_pos (by decide)]
    exact readCharacters_escape s t
  · intro b hb
    rw [ofString, List.mem_append, List.mem_append, List.mem_singleton, List.mem_flatMap] at hb
    rcases hb with (rfl | ⟨c, -, hc⟩) | rfl
    · decide
    · exact printable_of_mem_escape hc
    · decide

/-- A control character before a digit, a backslash before a quote, and a digit after the literal. -/
theorem read?_ofString_digitSample :
    ofString [1, byte '1', byte '\\', byte '"'] = ascii "\"\\0011\\\\\\\"\"" ∧
      read? (ascii "\"\\0011\\\\\\\"\"" ++ ascii "7") =
        some ([1, byte '1', byte '\\', byte '"'], ascii "7") ∧
      0x20 ≤ byte '0' ∧ byte '0' ≤ 0x7E := by
  have hliteral : ofString [1, byte '1', byte '\\', byte '"'] = ascii "\"\\0011\\\\\\\"\"" := by
    have hcontrol : escape 1 = ascii "\\001" := by
      rw [escape_of_notMem_namedEscapes (by decide), if_neg (by decide), padLeft_octal (by decide)]
      decide
    rw [ofString, List.flatMap_cons, hcontrol]
    decide
  obtain ⟨hread, hprintable⟩ := read?_ofString [1, byte '1', byte '\\', byte '"'] (ascii "7")
  rw [hliteral] at hread hprintable
  exact ⟨hliteral, hread, hprintable (byte '0') (by decide)⟩

end LuaToC.CLiteral
