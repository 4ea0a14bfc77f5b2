import LuaToC.Proofs.Unit.DebugInfo

/-! # The source inside a unit

A unit can have its source in it, as the initialiser of an array.  `initialiserValues?` reads such an
initialiser as C does, without regard to rows: numbers, with commas between them and blanks and line
ends around them.  What is read is the source and a zero after it (`readsAs_sourceRows`), and the
rows have sixteen values each, apart from the last (`exists_rows_sourceRows`).  Where no line has a line
feed in it, the array is found in the text as well (`compileModule_source_text`).

Without the source inside it a unit still depends on it, through the identifier of the build.
`sameButBuildId_assembled` says that this is all: the line that defines the identifier is the only
line of the text in which two such units differ.
-/
namespace LuaToC

namespace UnitText

open CompiledUnit

/-! ## Initialisers -/

/-- The byte is a blank or the end of a line. -/
def isBlank (b : UInt8) : Bool := b = 32 || b = Bytes.newline

/-- The text without what is blank at both ends. -/
def trimmed (s : Bytes) : Bytes := ((s.dropWhile isBlank).reverse.dropWhile isBlank).reverse

/-- The decimal number that a text holds, with nothing else but blanks around it. -/
def valueOf? (s : Bytes) : Option Nat :=
  if trimmed s = [] then none else Numeral.value? 10 0 (trimmed s)

/-- The values of an initialiser. -/
def initialiserValues? (s : Bytes) : Option (List Nat) := (Bytes.splitOn 44 s).mapM valueOf?

/-- The number of values on a row.  What stands between commas and is blank is none. -/
def valuesOn (row : Bytes) : Nat := ((Bytes.splitOn 44 row).filter fun s => !s.all isBlank).length

/-- The rows of the array that has the source. -/
def initialiserRows (lines : List Bytes) : List Bytes :=
  between (ascii "static const char LUA_AOT_MODULE_SOURCE_CODE[] = \x7b") (ascii "\x7d;") lines

/-- The rows hold the source and a zero after it, sixteen values each and on the last row at most as
many. -/
structure Embeds (source : Bytes) (rows : List Bytes) : Prop where
  values : initialiserValues? (Bytes.unlines rows) = some (source.map UInt8.toNat ++ [0])
  full : ∃ before last, rows = before ++ [last] ∧ (∀ row ∈ before, valuesOn row = 16) ∧
    1 ≤ valuesOn last ∧ valuesOn last ≤ 16

/-! ## Numbers between commas -/

/-- A number as it is written in a row. -/
abbrev padded (n : Nat) : Bytes := Bytes.padLeft 32 3 (Bytes.ofNat n)

theorem isBlank_of_mem_ofNat {n : Nat} {b : UInt8} (h : b ∈ Bytes.ofNat n) :
    isBlank b = false ∧ b ≠ 44 := by
  obtain ⟨d, hd, rfl⟩ := Bytes.exists_digit_of_mem_digits h
  clear h
  revert d
  decide

theorem isBlank_of_mem_replicate {n : Nat} {b : UInt8} (h : b ∈ List.replicate n 32) :
    isBlank b = true := by
  rw [List.eq_of_mem_replicate h]
  rfl

theorem dropWhile_isBlank_append {w s : Bytes} (hw : ∀ b ∈ w, isBlank b = true)
    (hs : ∀ b ∈ s, isBlank b = false) (hne : s ≠ []) (t : Bytes) :
    (w ++ (s ++ t)).dropWhile isBlank = s ++ t := by
  rw [List.dropWhile_append_of_pos hw]
  cases s with
  | nil => exact absurd rfl hne
  | cons b s =>
    rw [List.cons_append, List.dropWhile_cons_of_neg]
    rw [hs b List.mem_cons_self]
    exact Bool.false_ne_true

theorem trimmed_append {w s t : Bytes} (hw : ∀ b ∈ w, isBlank b = true)
    (hs : ∀ b ∈ s, isBlank b = false) (hne : s ≠ []) (ht : ∀ b ∈ t, isBlank b = true) :
    trimmed (w ++ (s ++ t)) = s := by
  rw [trimmed, dropWhile_isBlank_append hw hs hne, List.reverse_append]
  have hback := dropWhile_isBlank_append (w := t.reverse) (s := s.reverse)
    (fun b hb => ht b (List.mem_reverse.mp hb)) (fun b hb => hs b (List.mem_reverse.mp hb))
    (fun h => hne (List.reverse_eq_nil_iff.mp h)) []
  rw [List.append_nil] at hback
  rw [hback, List.reverse_reverse]

/-- A number with blanks around it is read as the number. -/
theorem valueOf?_padded {w t : Bytes} (hw : ∀ b ∈ w, isBlank b = true)
    (ht : ∀ b ∈ t, isBlank b = true) (n : Nat) : valueOf? (w ++ (padded n ++ t)) = some n := by
  have hne : Bytes.ofNat n ≠ [] := Bytes.digits_ne_nil 8 n
  have hblank : ∀ b ∈ w ++ List.replicate (3 - (Bytes.ofNat n).length) 32, isBlank b = true := by
    intro b hb
    rcases List.mem_append.mp hb with hb | hb
    · exact hw b hb
    · exact isBlank_of_mem_replicate hb
  have htrimmed : trimmed (w ++ (padded n ++ t)) = Bytes.ofNat n := by
    rw [padded, Bytes.padLeft, List.append_assoc, ← List.append_assoc w]
    exact trimmed_append hblank (fun b hb => (isBlank_of_mem_ofNat hb).1) hne ht
  rw [valueOf?, htrimmed, if_neg hne]
  exact Numeral.value?_digits (by decide) n

theorem comma_notMem_padded (n : Nat) : 44 ∉ padded n := by
  intro hmem
  rcases List.mem_append.mp hmem with hmem | hmem
  · exact absurd (List.eq_of_mem_replicate hmem) (by decide)
  · exact (isBlank_of_mem_ofNat hmem).2 rfl

theorem comma_notMem_of_isBlank {w : Bytes} (hw : ∀ b ∈ w, isBlank b = true) : 44 ∉ w := by
  intro hmem
  exact absurd (hw 44 hmem) (by decide)

theorem all_isBlank_padded (w t : Bytes) (n : Nat) : (w ++ (padded n ++ t)).all isBlank = false := by
  obtain ⟨b, s, hs⟩ := List.exists_cons_of_ne_nil (Bytes.digits_ne_nil 8 n)
  have hmem : b ∈ Bytes.ofNat n := by
    rw [Bytes.ofNat, hs]
    exact List.mem_cons_self
  refine List.all_eq_false.mpr ⟨b, ?_, by rw [(isBlank_of_mem_ofNat hmem).1]; exact Bool.false_ne_true⟩
  exact List.mem_append_right _ (List.mem_append_left _ (List.mem_append_right _ hmem))

/-! ## Rows -/

/-- A text is read as these values, also with blanks in front of it. -/
def ReadsAs (s : Bytes) (values : List Nat) : Prop :=
  ∀ w, (∀ b ∈ w, isBlank b = true) → initialiserValues? (w ++ s) = some values

/-- A row has that many values, also with blanks in front of it. -/
def Holds (s : Bytes) (count : Nat) : Prop :=
  ∀ w, (∀ b ∈ w, isBlank b = true) → valuesOn (w ++ s) = count

section

variable {w s : Bytes} {values : List Nat} {count : Nat}

theorem ReadsAs.blank (hw : ∀ b ∈ w, isBlank b = true) (h : ReadsAs s values) :
    ReadsAs (w ++ s) values := by
  intro w' hw'
  rw [← List.append_assoc]
  exact h _ fun b hb => (List.mem_append.mp hb).elim (hw' b) (hw b)

theorem Holds.blank (hw : ∀ b ∈ w, isBlank b = true) (h : Holds s count) : Holds (w ++ s) count := by
  intro w' hw'
  rw [← List.append_assoc]
  exact h _ fun b hb => (List.mem_append.mp hb).elim (hw' b) (hw b)

theorem splitOn_padded (hw : ∀ b ∈ w, isBlank b = true) (n : Nat) (s : Bytes) :
    Bytes.splitOn 44 (w ++ (padded n ++ 44 :: s)) = (w ++ padded n) :: Bytes.splitOn 44 s := by
  have hcomma : 44 ∉ w ++ padded n := by
    rw [List.mem_append, not_or]
    exact ⟨comma_notMem_of_isBlank hw, comma_notMem_padded n⟩
  rw [← List.append_assoc, Bytes.splitOn_append_cons, Bytes.splitOn_of_notMem hcomma,
    List.singleton_append]

theorem ReadsAs.cons (n : Nat) (h : ReadsAs s values) :
    ReadsAs (padded n ++ 44 :: s) (n :: values) := by
  intro w hw
  have hvalue := valueOf?_padded hw (t := []) (fun b hb => absurd hb List.not_mem_nil) n
  have hrest := h [] fun b hb => absurd hb List.not_mem_nil
  rw [List.append_nil] at hvalue
  rw [List.nil_append, initialiserValues?] at hrest
  rw [initialiserValues?, splitOn_padded hw, List.mapM_cons, hvalue, hrest]
  rfl

theorem Holds.cons (n : Nat) (h : Holds s count) : Holds (padded n ++ 44 :: s) (count + 1) := by
  intro w hw
  have hvalue := all_isBlank_padded w [] n
  have hrest := h [] fun b hb => absurd hb List.not_mem_nil
  rw [List.append_nil] at hvalue
  rw [List.nil_append, valuesOn] at hrest
  rw [valuesOn, splitOn_padded hw, List.filter_cons_of_pos (by rw [hvalue]; rfl), List.length_cons,
    hrest]

end

theorem splitOn_last {w t : Bytes} (hw : ∀ b ∈ w, isBlank b = true) (ht : ∀ b ∈ t, isBlank b = true)
    (n : Nat) : Bytes.splitOn 44 (w ++ (padded n ++ t)) = [w ++ (padded n ++ t)] := by
  refine Bytes.splitOn_of_notMem ?_
  rw [List.mem_append, List.mem_append, not_or, not_or]
  exact ⟨comma_notMem_of_isBlank hw, comma_notMem_padded n, comma_notMem_of_isBlank ht⟩

theorem readsAs_last {t : Bytes} (ht : ∀ b ∈ t, isBlank b = true) (n : Nat) :
    ReadsAs (padded n ++ t) [n] := by
  intro w hw
  rw [initialiserValues?, splitOn_last hw ht, List.mapM_cons, valueOf?_padded hw ht]
  rfl

theorem holds_last (n : Nat) : Holds (padded n) 1 := by
  intro w hw
  have hsplit := splitOn_last hw (t := []) (fun b hb => absurd hb List.not_mem_nil) n
  have hvalue := all_isBlank_padded w [] n
  rw [List.append_nil] at hsplit hvalue
  rw [valuesOn, hsplit, List.filter_cons_of_pos (by rw [hvalue]; rfl)]
  rfl

theorem holds_nil : Holds [] 0 := by
  intro w hw
  rw [List.append_nil, valuesOn, Bytes.splitOn_of_notMem (comma_notMem_of_isBlank hw),
    List.filter_cons_of_neg (by rw [List.all_eq_true.mpr hw]; exact Bool.false_ne_true)]
  rfl

/-- The values of a row, each with a comma after it. -/
abbrev items (row : Bytes) : Bytes := row.flatMap fun b => padded b.toNat ++ ascii ", "

theorem items_cons (b : UInt8) (row s : Bytes) :
    items (b :: row) ++ s = padded b.toNat ++ 44 :: ([32] ++ (items row ++ s)) := by
  rw [items, List.flatMap_cons, List.append_assoc, List.append_assoc]
  rfl

theorem isBlank_blank : ∀ b ∈ ([32] : Bytes), isBlank b = true := List.all_eq_true.mp rfl

theorem readsAs_items {s : Bytes} {values : List Nat} (h : ReadsAs s values) (row : Bytes) :
    ReadsAs (items row ++ s) (row.map UInt8.toNat ++ values) := by
  induction row with
  | nil => exact h
  | cons b row ih =>
    rw [items_cons]
    exact (ih.blank isBlank_blank).cons b.toNat

theorem holds_items {s : Bytes} {count : Nat} (h : Holds s count) (row : Bytes) :
    Holds (items row ++ s) (row.length + count) := by
  induction row with
  | nil =>
    rw [List.length_nil, Nat.zero_add]
    exact h
  | cons b row ih =>
    rw [items_cons, List.length_cons, Nat.add_right_comm]
    exact (ih.blank isBlank_blank).cons b.toNat

theorem sourceRow_last (row : Bytes) : sourceRow row true = ascii "  " ++ (items row ++ padded 0) := by
  rw [sourceRow, if_pos rfl, List.append_assoc]

theorem sourceRow_full (row : Bytes) : sourceRow row false = ascii "  " ++ (items row ++ []) := by
  rw [sourceRow, if_neg Bool.false_ne_true, List.append_assoc]

theorem isBlank_margin : ∀ b ∈ ascii "  ", isBlank b = true := List.all_eq_true.mp rfl

theorem isBlank_newline : ∀ b ∈ [Bytes.newline], isBlank b = true := List.all_eq_true.mp rfl

/-- The rows are read as the source and a zero. -/
theorem readsAs_sourceRows (source : Bytes) :
    ReadsAs (Bytes.unlines (sourceRows source)) (source.map UInt8.toNat ++ [0]) := by
  fun_induction sourceRows source with
  | case1 source hlength ih =>
    -- The end of the row is blank in front of the next row.
    have hnext : ReadsAs ([Bytes.newline] ++ Bytes.unlines (sourceRows (source.drop 16)))
        ((source.drop 16).map UInt8.toNat ++ [0]) := ih.blank isBlank_newline
    have hrow := (readsAs_items hnext (source.take 16)).blank isBlank_margin
    rw [← List.append_assoc (source.take 16 |>.map UInt8.toNat), ← List.map_append,
      List.take_append_drop] at hrow
    have htext : Bytes.unlines (sourceRow (source.take 16) false :: sourceRows (source.drop 16)) =
        ascii "  " ++ (items (source.take 16) ++
          ([Bytes.newline] ++ Bytes.unlines (sourceRows (source.drop 16)))) := by
      rw [Bytes.unlines, List.flatMap_cons, sourceRow_full]
      simp [Bytes.unlines]
    rw [htext]
    exact hrow
  | case2 source hlength =>
    have hlast : ReadsAs (padded 0 ++ [Bytes.newline]) [0] := readsAs_last isBlank_newline 0
    have hrow := (readsAs_items hlast source).blank isBlank_margin
    have htext : Bytes.unlines [sourceRow source true] =
        ascii "  " ++ (items source ++ (padded 0 ++ [Bytes.newline])) := by
      rw [Bytes.unlines, List.flatMap_singleton, sourceRow_last]
      simp only [List.append_assoc]
    rw [htext]
    exact hrow

theorem valuesOn_sourceRow_full (row : Bytes) : valuesOn (sourceRow row false) = row.length := by
  rw [sourceRow_full]
  exact holds_items holds_nil row _ isBlank_margin

theorem valuesOn_sourceRow_last (row : Bytes) : valuesOn (sourceRow row true) = row.length + 1 := by
  rw [sourceRow_last]
  exact holds_items (holds_last 0) row _ isBlank_margin

/-- Every row is full but the last, which has at least the zero. -/
theorem exists_rows_sourceRows (source : Bytes) :
    ∃ before last, sourceRows source = before ++ [last] ∧ (∀ row ∈ before, valuesOn row = 16) ∧
      1 ≤ valuesOn last ∧ valuesOn last ≤ 16 := by
  fun_induction sourceRows source with
  | case1 source hlength ih =>
    obtain ⟨before, last, hrows, hbefore, hlast⟩ := ih
    refine ⟨sourceRow (source.take 16) false :: before, last, ?_, ?_, hlast⟩
    · rw [hrows, List.cons_append]
    · refine List.forall_mem_cons.mpr ⟨?_, hbefore⟩
      rw [valuesOn_sourceRow_full, List.length_take, Nat.min_eq_left hlength]
  | case2 source hlength =>
    refine ⟨[], sourceRow source true, rfl, fun row hrow => absurd hrow List.not_mem_nil, ?_⟩
    rw [valuesOn_sourceRow_last]
    omega

theorem embeds_sourceRows (source : Bytes) : Embeds source (sourceRows source) :=
  ⟨readsAs_sourceRows source [] fun _ hb => absurd hb List.not_mem_nil,
    exists_rows_sourceRows source⟩

/-! ## Where the rows are -/

/-- A line of the contract is plain, but for the declaration of the paths. -/
theorem isPlain_of_mem_contractBlock {contract : Contract} {l : Bytes}
    (hl : l ∈ contractBlock contract) :
    isPlain l = true ∨
      l = ascii "static const char *const LUA_AOT_FUNCTION_PATHS[]" ++ ascii " = \x7b" := by
  unfold contractBlock at hl
  rcases List.mem_append.mp hl with hl | hl
  · simp only [List.mem_cons, List.not_mem_nil, or_false] at hl
    rcases hl with rfl | rfl
    · exact .inl rfl
    · exact .inl rfl
  · refine isPlain_of_mem_nullTerminated (fun row hrow => ?_) hl
    obtain ⟨f, -, rfl⟩ := List.mem_map.mp hrow
    rfl

/-- The rows of the source are found under their declaration. -/
theorem initialiserRows_lines {opts : Options} {entries es : List Entry}
    {functions : List (List Bytes)} (h : es.mapM (functionLines opts entries) = .ok functions)
    (hembed : opts.embedSource = true) (input : ModuleInput) (contract : Contract)
    (after : List Bytes) :
    initialiserRows
        (opening opts ++ functions.flatten ++ (closing opts input entries contract ++ after)) =
      sourceRows input.source := by
  let declaration := ascii "static const char LUA_AOT_MODULE_SOURCE_CODE[] = \x7b"
  have hplain : isPlain declaration = false := rfl
  have hbefore : declaration ∉ opening opts ++ functions.flatten ++
      (functionTable entries ++ (gap ++ (contractBlock contract ++ gap))) := by
    have hgap : declaration ∉ gap := by
      intro hmem
      exact absurd (List.mem_singleton.mp hmem) (by decide)
    intro hmem
    rcases List.mem_append.mp hmem with hmem | hmem
    · exact declaration_notMem_functions h rfl rfl (by decide) hmem
    rcases List.mem_append.mp hmem with hmem | hmem
    · rcases isPlain_of_mem_functionTable hmem with htrue | heq
      · exact Bool.false_ne_true (hplain.symm.trans htrue)
      · exact absurd heq (by decide)
    rcases List.mem_append.mp hmem with hmem | hmem
    · exact hgap hmem
    rcases List.mem_append.mp hmem with hmem | hmem
    · rcases isPlain_of_mem_contractBlock hmem with htrue | heq
      · exact Bool.false_ne_true (hplain.symm.trans htrue)
      · exact absurd heq (by decide)
    · exact hgap hmem
  have hinside : ascii "\x7d;" ∉ sourceRows input.source := by
    intro hmem
    exact absurd (head?_of_mem_sourceRows hmem) (by decide)
  have hlines : opening opts ++ functions.flatten ++ (closing opts input entries contract ++ after) =
      opening opts ++ functions.flatten ++
          (functionTable entries ++ (gap ++ (contractBlock contract ++ gap))) ++
        declaration :: (sourceRows input.source ++ ascii "\x7d;" ::
          (ascii "#define LUA_AOT_HAS_SOURCE 1" :: (gap ++
            ([ascii "#define LUA_AOT_LUAOPEN_NAME luaopen_" ++ input.name] ++ (gap ++
              ([includeLine opts.footer] ++ after)))))) := by
    simp only [closing, sourceBlock, hembed, if_true, Statements.code, List.map_cons, List.map_nil,
      List.append_assoc, List.cons_append, List.nil_append, declaration]
  rw [initialiserRows, hlines]
  exact between_append hbefore hinside _

/-! ## Texts that differ in one line -/

/-- The line that defines the identifier of a build. -/
def buildIdLine (id : Bytes) : Bytes := ascii "#define LUA_AOT_BUILD_ID \"" ++ id ++ ascii "\""

/-- The texts of the units have the same lines, and the contracts the same parts, apart from the
identifier of the build. -/
structure SameButBuildId (u v : CompiledUnit) : Prop where
  text : ∃ before after,
    Bytes.splitOn Bytes.newline u.text = before ++ buildIdLine u.contract.buildId :: after ∧
      Bytes.splitOn Bytes.newline v.text = before ++ buildIdLine v.contract.buildId :: after
  contract : { u.contract with buildId := v.contract.buildId } = v.contract
  entries : u.entries = v.entries
  unsupported : u.unsupported = v.unsupported

theorem newline_notMem_buildIdLine {id : Bytes} (h : Bytes.newline ∉ id) :
    Bytes.newline ∉ buildIdLine id := by
  rw [buildIdLine, List.mem_append, List.mem_append, not_or, not_or]
  exact ⟨⟨by decide, h⟩, by decide⟩

/-- A unit without its source has the same lines for all sources, but for one. -/
theorem exists_lines_assembled {o : Options} (hembed : o.embedSource = false) (name : Bytes)
    (main : Option Prototype) (entries : List Entry) (functions : List (List Bytes)) :
    ∃ before after, ∀ source,
      (assembled o ⟨name, main, source⟩ entries functions).text =
        Bytes.unlines (before ++
          buildIdLine (assembled o ⟨name, main, source⟩ entries functions).contract.buildId ::
            after) := by
  have hcompleted : o.completed.embedSource = false := hembed
  let version : Bytes :=
    ascii "#define LUA_AOT_TRAVERSAL_VERSION " ++ Bytes.ofInt Contract.numberingVersion.toInt
  let paths : List Bytes := (entries.map ContractFunction.ofEntry).map fun f =>
    ascii "  \"" ++ f.pathText ++ ascii "\",  /* " ++ f.name ++ ascii " */"
  refine ⟨opening o.completed ++ (functions.flatten ++ (functionTable entries ++ (gap ++ [version]))),
    nullTerminated "static const char *const LUA_AOT_FUNCTION_PATHS[]" paths ++ (gap ++
      (sourceBlock false [] ++ (gap ++ ([ascii "#define LUA_AOT_LUAOPEN_NAME luaopen_" ++ name] ++
        (gap ++ [includeLine o.completed.footer]))))), fun source => ?_⟩
  simp only [assembled, closing, contractBlock, Contract.ofEntries, Option.getD_some, sourceBlock,
    hcompleted, Bool.false_eq_true, if_false, List.append_assoc, List.cons_append, List.nil_append,
    buildIdLine, version, paths]

/-- **Without its source a unit depends on it in one line.** -/
theorem sameButBuildId_assembled {o : Options} (hembed : o.embedSource = false) (name : Bytes)
    (main : Option Prototype) (entries : List Entry) (functions : List (List Bytes))
    (source source' : Bytes) :
    SameButBuildId (assembled o ⟨name, main, source⟩ entries functions)
      (assembled o ⟨name, main, source'⟩ entries functions) where
  text := by
    obtain ⟨before, after, htext⟩ := exists_lines_assembled hembed name main entries functions
    have hlines (source : Bytes) :
        Bytes.splitOn Bytes.newline (assembled o ⟨name, main, source⟩ entries functions).text =
          before.flatMap (Bytes.splitOn Bytes.newline) ++
            buildIdLine (assembled o ⟨name, main, source⟩ entries functions).contract.buildId ::
              Bytes.splitOn Bytes.newline (Bytes.unlines after) := by
      have hline : Bytes.newline ∉
          buildIdLine (assembled o ⟨name, main, source⟩ entries functions).contract.buildId :=
        newline_notMem_buildIdLine (newline_notMem_nameUuid _)
      rw [htext, Bytes.unlines, List.flatMap_append, List.flatMap_cons, ← Bytes.unlines,
        Bytes.splitOn_unlines_append, List.append_assoc, List.singleton_append, Bytes.splitOn_append_cons,
        Bytes.splitOn_of_notMem hline, List.singleton_append]
      rfl
    exact ⟨_, _, hlines source, hlines source'⟩
  contract := rfl
  entries := rfl
  unsupported := rfl

end UnitText

/-! ## Compilations of one tree -/

namespace CompiledUnit

/-- The source has no part in whether a unit can be generated, nor in what of the tree is in it. -/
theorem ofInput_eq_error_or_assembled (o : Options) (name : Bytes) (main : Option Prototype) :
    (∃ err, ∀ source, ofInput o ⟨name, main, source⟩ = .error err) ∨
      ∃ root functions, main = some root ∧
        (entriesOf o root).mapM (functionLines o.completed (entriesOf o root)) = .ok functions ∧
        ∀ source, ofInput o ⟨name, main, source⟩ =
          .ok (assembled o ⟨name, main, source⟩ (entriesOf o root) functions) := by
  cases main with
  | none => exact .inl ⟨.noMain, fun source => rfl⟩
  | some root =>
    cases hname : isCIdentifier name with
    | false =>
      refine .inl ⟨.invalidName name, fun source => ?_⟩
      simp only [ofInput, hname]
      rfl
    | true =>
      cases hfunctions : (entriesOf o root).mapM (functionLines o.completed (entriesOf o root)) with
      | error err =>
        exact .inl ⟨err, fun source => ofInput_of_mapM_eq_error rfl hname hfunctions⟩
      | ok functions =>
        by_cases hbad : o.policy = .error ∧ Finding.untranslated (entriesOf o root) ≠ []
        · refine .inl ⟨.unsupported (Finding.untranslated (entriesOf o root)), fun source => ?_⟩
          rw [ofInput_of_mapM_eq_ok rfl hname hfunctions, if_pos hbad]
        · refine .inr ⟨root, functions, rfl, hfunctions, fun source => ?_⟩
          rw [ofInput_of_mapM_eq_ok rfl hname hfunctions, if_neg hbad]

end CompiledUnit

namespace Compiler

open UnitText CompiledUnit

/-- The result of a compilation is decided by its input and by whether the sink takes the text. -/
theorem result_compileModule {c : Compiler} {o : Options} (h : c.options = o.completed)
    (input : ModuleInput) (sink : Sink) :
    (c.compileModule input sink).result =
      match ofInput o input with
      | .error err => .error err
      | .ok unit => match sink.refusal with
        | some reason => .error (.refused reason)
        | none => .ok unit := by
  have hwritten := congrArg Prod.fst (compileModule_eq_writeTo h input sink)
  dsimp only at hwritten
  rw [hwritten, writeTo]
  cases ofInput o input with
  | error err => rfl
  | ok unit =>
    simp only [Sink.write]
    cases sink.refusal <;> rfl

/-- **The source is in a unit as it is, or not at all.**  Whatever the compiler has served before, a
unit that embeds its source has an array whose values are the bytes of the source and a zero, in rows
of sixteen.  Otherwise two sources make a difference only to the identifier of the build: they fail
alike, and the units differ in the line of the text that defines it and in that part of the
contract. -/
theorem compileModule_source (o : Options) (served served' : List (ModuleInput × Sink))
    (name : Bytes) (main : Option Prototype) (source source' : Bytes) (sink : Sink) :
    let outcome := ((new o).after served).compileModule ⟨name, main, source⟩ sink
    let outcome' := ((new o).after served').compileModule ⟨name, main, source'⟩ sink
    (o.embedSource = true → ∀ unit, outcome.result = .ok unit →
        unit.text = Bytes.unlines outcome.compiler.lines ∧
          Embeds source (initialiserRows outcome.compiler.lines)) ∧
      (o.embedSource = false →
        (∀ err, outcome.result = .error err ↔ outcome'.result = .error err) ∧
          ∀ u v, outcome.result = .ok u → outcome'.result = .ok v → SameButBuildId u v) := by
  intro outcome outcome'
  have hresult : outcome.result = _ := result_compileModule (options_after (new o) served) _ sink
  have hresult' : outcome'.result = _ := result_compileModule (options_after (new o) served') _ sink
  rcases ofInput_eq_error_or_assembled o name main with
    ⟨err, hfails⟩ | ⟨root, functions, rfl, hfunctions, hunit⟩
  · rw [hfails] at hresult hresult'
    rw [hresult, hresult']
    refine ⟨fun _ unit hok => ?_, fun _ => ⟨fun _ => Iff.rfl, fun u v hok => ?_⟩⟩
    · cases hok
    · cases hok
  · refine ⟨fun hembed unit hok => ?_, fun hembed => ?_⟩
    · obtain ⟨functions', hfunctions', rfl, hlines⟩ :=
        exists_functions_of_compileModule_eq_ok (options_after (new o) served) rfl hok
      have hrows := initialiserRows_lines hfunctions' hembed ⟨name, some root, source⟩
        (assembled o ⟨name, some root, source⟩ (entriesOf o root) functions').contract []
      rw [List.append_nil] at hrows
      refine ⟨congrArg Bytes.unlines hlines.symm, ?_⟩
      rw [show outcome.compiler.lines = _ from hlines, hrows]
      exact embeds_sourceRows source
    · rw [hunit] at hresult hresult'
      rw [hresult, hresult']
      cases sink.refusal with
      | some reason =>
        refine ⟨fun _ => Iff.rfl, fun u v hok => ?_⟩
        cases hok
      | none =>
        refine ⟨fun err => ⟨fun herr => ?_, fun herr => ?_⟩, fun u v hu hv => ?_⟩
        · cases herr
        · cases herr
        · cases hu
          cases hv
          exact sameButBuildId_assembled hembed name (some root) _ functions source source'

/-- **The source is in the text.**  If nothing that is written as it is has a line feed, the array is found
between the line feeds of the text. -/
theorem compileModule_source_text (o : Options) (served : List (ModuleInput × Sink)) (name : Bytes)
    {root : Prototype} (source : Bytes) (hembed : o.embedSource = true) (hlines : StaysOnLines o root)
    (sink : Sink) {unit : CompiledUnit}
    (hok : (((new o).after served).compileModule ⟨name, some root, source⟩ sink).result = .ok unit) :
    Embeds source (initialiserRows (Bytes.splitOn Bytes.newline unit.text)) := by
  have hname : isCIdentifier name = true := isCIdentifier_of_ofInput_eq_ok
    (ofInput_of_compileModule_eq_ok (options_after (new o) served) hok)
  obtain ⟨functions, hfunctions, rfl, -⟩ :=
    exists_functions_of_compileModule_eq_ok (options_after (new o) served) rfl hok
  rw [splitOn_lines hlines hfunctions hname, initialiserRows_lines hfunctions hembed]
  exact embeds_sourceRows source

/-- Sixteen bytes fill a row, and the zero has the next one to itself; a unit without its source is
the same for two sources, but for the identifier. -/
theorem compileModule_source_emptySample :
    let input (source : Bytes) : ModuleInput := ⟨ascii "m", some (plainFunction [] []), source⟩
    let sixteen := ascii "0123456789abcdef"
    let embedding := (new .default).compileModule (input sixteen) .empty
    let plain (source : Bytes) :=
      ((new { Options.default with embedSource := false }).compileModule (input source) .empty).result
    (∃ unit, embedding.result = .ok unit ∧ Embeds sixteen (initialiserRows embedding.compiler.lines)) ∧
      ∃ u v, plain (ascii "one") = .ok u ∧ plain (ascii "two") = .ok v ∧ SameButBuildId u v := by
  intro input sixteen embedding plain
  have hname : isCIdentifier (ascii "m") = true := by decide
  have hplain : ∀ f ∈ (plainFunction [] []).functions, f.IsTranslated := by decide
  have hcovered : ∀ f ∈ (plainFunction [] []).functions, f.IsCovered := by decide
  obtain ⟨unit, hunit⟩ : ∃ unit, embedding.result = .ok unit :=
    exists_compileModule_eq_ok rfl rfl hname (by decide) (fun _ => hcovered) (by decide)
      (fun _ => hplain) rfl
  have hresult (source : Bytes) : ∃ u, plain source = .ok u :=
    exists_compileModule_eq_ok rfl rfl hname (by decide) (fun _ => hcovered) (by decide)
      (fun _ => hplain) rfl
  obtain ⟨u, hu⟩ := hresult (ascii "one")
  obtain ⟨v, hv⟩ := hresult (ascii "two")
  have hembeds := (compileModule_source .default [] [] (ascii "m") (some (plainFunction [] []))
    sixteen [] .empty).1 rfl unit hunit
  have hsame := (compileModule_source { Options.default with embedSource := false } [] [] (ascii "m")
    (some (plainFunction [] [])) (ascii "one") (ascii "two") .empty).2 rfl
  exact ⟨⟨unit, hunit, hembeds.2⟩, u, v, hu, hv, hsame.2 u v hu hv⟩

end Compiler
end LuaToC
