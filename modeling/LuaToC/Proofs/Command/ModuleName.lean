import LuaToC.Command.ModuleName
import LuaToC.Path
import LuaToC.Proofs.Splitting
import LuaToC.Unit.Compiler
import Mathlib.Computability.RegularExpressions

/-! # Names of modules

The path of a unit is a directory, the name of its module, and `.c`; the name has no dot and no
slash.  `moduleOf?` finds the name in exactly these paths (`moduleOf?_eq_some_iff`).  The name goes
into C symbols, and the compiler takes it only if it is an identifier.  Together the two checks accept
the regular language `unitName` for what stands after the last slash (`moduleOf?_grammar`).
-/
namespace LuaToC

/-! ## The last name of a path -/

namespace Bytes

/-- The text is empty or ends with a separator. -/
def EndsAt (sep : UInt8) (d : Bytes) : Prop := d = [] ∨ ∃ e, d = e ++ [sep]

theorem afterLast_of_notMem {sep : UInt8} {s : Bytes} (h : sep ∉ s) : afterLast sep s = s := by
  rcases (eq_append_afterLast sep s).2 with heq | ⟨d, heq⟩
  · exact heq
  · refine absurd ?_ h
    rw [heq]
    exact List.mem_append_right d List.mem_cons_self

/-- What stands after the last separator is the one end of the text without a separator that the
beginning or a separator stands before. -/
theorem afterLast_eq_iff {sep : UInt8} {s t : Bytes} :
    afterLast sep s = t ↔ sep ∉ t ∧ ∃ d, s = d ++ t ∧ EndsAt sep d := by
  constructor
  · rintro rfl
    obtain ⟨hlast, heq | ⟨d, heq⟩⟩ := eq_append_afterLast sep s
    · exact ⟨hlast, [], by rw [heq, List.nil_append], .inl rfl⟩
    · refine ⟨hlast, d ++ [sep], ?_, .inr ⟨d, rfl⟩⟩
      rw [List.append_assoc]
      exact heq
  · rintro ⟨ht, d, rfl, rfl | ⟨e, rfl⟩⟩
    · exact afterLast_of_notMem ht
    · rw [List.append_assoc]
      exact afterLast_append_cons ht e

end Bytes

/-! ## The compiler's check -/

namespace Compiler

theorem functionLines_ne_invalidName (opts : Options) (entries : List Entry) (e : Entry)
    (n : Bytes) : CompiledUnit.functionLines opts entries e ≠ .error (.invalidName n) := by
  unfold CompiledUnit.functionLines
  split
  · rintro ⟨⟩
  · split <;> rintro ⟨⟩

theorem addFunctions_ne_invalidName (c : Compiler) (es : List Entry) (n : Bytes) :
    (c.addFunctions es).1 ≠ .error (.invalidName n) := by
  induction es generalizing c with
  | nil => rintro ⟨⟩
  | cons e es ih =>
    rw [addFunctions]
    cases hlines : CompiledUnit.functionLines c.options c.entries e with
    | error err =>
      rintro ⟨⟩
      exact functionLines_ne_invalidName _ _ _ _ hlines
    | ok lines => exact ih _

theorem generate_ne_invalidName (c : Compiler) (input : ModuleInput) (n : Bytes)
    (hname : isCIdentifier input.name = true) : (c.generate input).1 ≠ .error (.invalidName n) := by
  unfold generate
  cases input.main with
  | none => rintro ⟨⟩
  | some root =>
    dsimp only
    rw [hname, Bool.not_true, if_neg Bool.false_ne_true]
    generalize (c.restart root).write (CompiledUnit.opening c.options) = draft
    have hfunctions := addFunctions_ne_invalidName draft draft.entries n
    rcases hadd : draft.addFunctions draft.entries with ⟨err | _, c'⟩
    · rw [hadd] at hfunctions
      intro herror
      exact hfunctions (congrArg Except.error (Except.error.inj herror))
    · dsimp only
      rw [finish]
      split <;> rintro ⟨⟩

/-- Whatever a compiler did before, it refuses the name of a module exactly if that is no
identifier. -/
theorem compileModule_eq_invalidName_iff (c : Compiler) (name : Bytes) (root : Prototype)
    (source : Bytes) (sink : Sink) :
    (c.compileModule ⟨name, some root, source⟩ sink).result = .error (.invalidName name) ↔
      isCIdentifier name = false := by
  cases hname : isCIdentifier name with
  | false => simp [compileModule, generate, hname]
  | true =>
    have hgenerate := generate_ne_invalidName c ⟨name, some root, source⟩ name hname
    rw [compileModule]
    rcases hrun : c.generate ⟨name, some root, source⟩ with ⟨e | unit, c'⟩
    · rw [hrun] at hgenerate
      simpa using hgenerate
    · dsimp only
      cases sink.write unit.text <;> simp

end Compiler

namespace Command

/-- The cut is at the first separator. -/
theorem cut?_eq_some_iff {sep : UInt8} {s a b : Bytes} :
    cut? sep s = some (a, b) ↔ s = a ++ sep :: b ∧ sep ∉ a := by
  induction s generalizing a with
  | nil => simp [cut?]
  | cons c s ih =>
    rw [cut?]
    by_cases hc : c = sep
    · subst hc
      cases a with
      | nil => simp [eq_comm]
      | cons x a =>
        simp only [if_true, Option.some.injEq, Prod.mk.injEq, List.cons_append, List.cons.injEq]
        constructor
        · rintro ⟨hnil, -⟩
          cases hnil
        · rintro ⟨⟨rfl, -⟩, hnotMem⟩
          exact absurd List.mem_cons_self hnotMem
    · rw [if_neg hc]
      cases a with
      | nil => simp [hc]
      | cons x a =>
        simp only [Option.map_eq_some_iff, Prod.exists, Prod.mk.injEq, List.cons.injEq]
        constructor
        · rintro ⟨a', b', hcut, ⟨rfl, rfl⟩, rfl⟩
          obtain ⟨rfl, hnotMem⟩ := ih.mp hcut
          exact ⟨rfl, by simp [Ne.symm hc, hnotMem]⟩
        · rintro ⟨heq, hnotMem⟩
          obtain ⟨rfl, rfl⟩ := List.cons.inj heq
          exact ⟨a, b, ih.mpr ⟨rfl, fun h => hnotMem (List.mem_cons_of_mem c h)⟩, ⟨rfl, rfl⟩, rfl⟩

/-! ## Paths of units -/

/-- The path is that of a unit of the module `n`: it has a directory or none, then the name, which
has neither a dot nor a slash, then `.c`. -/
def IsUnitPath (s n : Bytes) : Prop :=
  ∃ d, s = d ++ n ++ ascii ".c" ∧ Bytes.EndsAt Path.slash d ∧ byte '.' ∉ n ∧ Path.slash ∉ n

theorem moduleOf?_eq_some_iff_afterLast {s n : Bytes} :
    moduleOf? s = some n ↔ Bytes.afterLast Path.slash s = n ++ ascii ".c" ∧ byte '.' ∉ n := by
  have hsuffix : ascii ".c" = byte '.' :: ascii "c" := by decide
  have hdot : (46 : UInt8) = byte '.' := by decide
  have hslash : (47 : UInt8) = Path.slash := rfl
  rw [hsuffix, ← cut?_eq_some_iff, moduleOf?, hdot, hslash]
  cases cut? (byte '.') (Bytes.afterLast Path.slash s) with
  | none => simp
  | some p =>
    obtain ⟨name, extension⟩ := p
    dsimp only
    by_cases hextension : extension = ascii "c"
    · simp [hextension]
    · simp [hextension]

theorem moduleOf?_eq_some_iff {s n : Bytes} : moduleOf? s = some n ↔ IsUnitPath s n := by
  have hslash : Path.slash ∉ ascii ".c" := by decide
  rw [moduleOf?_eq_some_iff_afterLast, Bytes.afterLast_eq_iff, List.mem_append, not_or]
  constructor
  · rintro ⟨⟨⟨hname, -⟩, d, rfl, hd⟩, hdot⟩
    exact ⟨d, by rw [List.append_assoc], hd, hdot, hname⟩
  · rintro ⟨d, rfl, hd, hdot, hname⟩
    exact ⟨⟨⟨hname, hslash⟩, d, by rw [List.append_assoc], hd⟩, hdot⟩

/-! ## The language of units -/

open RegularExpression

/-- One of the bytes. -/
def anyOf : Bytes → RegularExpression UInt8
  | [] => 0
  | b :: bs => char b + anyOf bs

/-- One of the bytes from `first` to `last`. -/
def anyFrom (first last : UInt8) : RegularExpression UInt8 :=
  anyOf ((List.range 256).map Nat.toUInt8 |>.filter fun b => first ≤ b ∧ b ≤ last)

/-- Stands for `[A-Za-z_]`. -/
def letter : RegularExpression UInt8 :=
  anyFrom (byte 'A') (byte 'Z') + anyFrom (byte 'a') (byte 'z') + char (byte '_')

/-- Stands for `[A-Za-z0-9_]`. -/
def letterOrDigit : RegularExpression UInt8 := letter + anyFrom (byte '0') (byte '9')

/-- Stands for `[A-Za-z_][A-Za-z0-9_]*`. -/
def identifier : RegularExpression UInt8 := letter * letterOrDigit.star

/-- Stands for `[A-Za-z_][A-Za-z0-9_]*\.c`. -/
def unitName : RegularExpression UInt8 := identifier * (char (byte '.') * char (byte 'c'))

/-- The expression stands for single bytes, those with the property. -/
def IsClass (r : RegularExpression UInt8) (p : UInt8 → Prop) : Prop :=
  ∀ s, s ∈ r.matches' ↔ ∃ b, p b ∧ s = [b]

theorem isClass_char (b : UInt8) : IsClass (char b) (· = b) := by
  intro s
  rw [matches'_char]
  exact ⟨fun h => ⟨b, rfl, h⟩, fun ⟨_, hb, h⟩ => hb ▸ h⟩

theorem IsClass.add {r r' : RegularExpression UInt8} {p p' : UInt8 → Prop} (h : IsClass r p)
    (h' : IsClass r' p') : IsClass (r + r') fun b => p b ∨ p' b := by
  intro s
  rw [matches'_add, Language.mem_add, h, h', ← exists_or]
  exact exists_congr fun b => or_and_right.symm

theorem isClass_anyOf (bs : Bytes) : IsClass (anyOf bs) (· ∈ bs) := by
  induction bs with
  | nil =>
    intro s
    simp [anyOf]
  | cons b bs ih =>
    intro s
    rw [anyOf, (isClass_char b).add ih]
    simp only [List.mem_cons]

theorem isClass_anyFrom (first last : UInt8) :
    IsClass (anyFrom first last) fun b => first ≤ b ∧ b ≤ last := by
  intro s
  have hall (b : UInt8) : b ∈ (List.range 256).map Nat.toUInt8 :=
    List.mem_map.mpr ⟨b.toNat, List.mem_range.mpr b.toNat_lt, UInt8.ofNat_toNat⟩
  rw [anyFrom, isClass_anyOf]
  simp only [List.mem_filter, hall, true_and, decide_eq_true_eq]

theorem IsClass.mem_star {r : RegularExpression UInt8} {p : UInt8 → Prop} (h : IsClass r p)
    (s : Bytes) : s ∈ r.star.matches' ↔ ∀ b ∈ s, p b := by
  rw [matches'_star, Language.mem_kstar]
  constructor
  · rintro ⟨pieces, rfl, hpieces⟩ b hb
    obtain ⟨piece, hpiece, hb⟩ := List.mem_flatten.mp hb
    obtain ⟨c, hc, rfl⟩ := (h piece).mp (hpieces piece hpiece)
    rw [List.mem_singleton.mp hb]
    exact hc
  · intro hs
    refine ⟨s.map ([·]), (List.flatMap_singleton' s).symm, fun piece hpiece => ?_⟩
    obtain ⟨b, hb, rfl⟩ := List.mem_map.mp hpiece
    exact (h [b]).mpr ⟨b, hs b hb, rfl⟩

theorem IsClass.mem_mul {r r' : RegularExpression UInt8} {p : UInt8 → Prop} (h : IsClass r p)
    (s : Bytes) : s ∈ (r * r').matches' ↔ ∃ b t, s = b :: t ∧ p b ∧ t ∈ r'.matches' := by
  rw [matches'_mul, Language.mem_mul]
  constructor
  · rintro ⟨u, hu, t, ht, rfl⟩
    obtain ⟨b, hb, rfl⟩ := (h u).mp hu
    exact ⟨b, t, rfl, hb, ht⟩
  · rintro ⟨b, t, rfl, hb, ht⟩
    exact ⟨[b], (h [b]).mpr ⟨b, hb, rfl⟩, t, ht, rfl⟩

/-- The byte is a letter or an underscore. -/
def IsLetter (b : UInt8) : Prop :=
  ((byte 'A' ≤ b ∧ b ≤ byte 'Z') ∨ (byte 'a' ≤ b ∧ b ≤ byte 'z')) ∨ b = byte '_'

theorem isClass_letter : IsClass letter IsLetter :=
  ((isClass_anyFrom _ _).add (isClass_anyFrom _ _)).add (isClass_char _)

theorem isClass_letterOrDigit :
    IsClass letterOrDigit fun b => IsLetter b ∨ byte '0' ≤ b ∧ b ≤ byte '9' :=
  isClass_letter.add (isClass_anyFrom _ _)

/-- Identifiers are what the compiler takes for one. -/
theorem mem_identifier (n : Bytes) : n ∈ identifier.matches' ↔ isCIdentifier n = true := by
  have hletter (b : UInt8) : IsLetter b ↔
      (b = 95 || (97 ≤ b && b ≤ 122) || (65 ≤ b && b ≤ 90)) = true := by
    simp only [IsLetter, Bool.or_eq_true, Bool.and_eq_true, decide_eq_true_eq]
    change ((65 ≤ b ∧ b ≤ 90) ∨ (97 ≤ b ∧ b ≤ 122)) ∨ b = 95 ↔ _
    tauto
  rw [identifier, isClass_letter.mem_mul]
  simp only [isClass_letterOrDigit.mem_star]
  cases n with
  | nil => simp [isCIdentifier]
  | cons b n =>
    rw [isCIdentifier, Bool.and_eq_true, List.all_eq_true, ← hletter]
    constructor
    · rintro ⟨b', t, heq, hb, ht⟩
      obtain ⟨rfl, rfl⟩ := List.cons.inj heq
      refine ⟨hb, fun c hc => ?_⟩
      rw [Bool.or_eq_true, ← hletter, Bool.and_eq_true, decide_eq_true_eq, decide_eq_true_eq]
      exact ht c hc
    · rintro ⟨hb, hn⟩
      refine ⟨b, n, rfl, hb, fun c hc => ?_⟩
      have hc := hn c hc
      rwa [Bool.or_eq_true, ← hletter, Bool.and_eq_true, decide_eq_true_eq, decide_eq_true_eq] at hc

theorem dot_notMem_of_isCIdentifier {n : Bytes} (h : isCIdentifier n = true) : byte '.' ∉ n := by
  have hdot : ¬ (IsLetter (byte '.') ∨ byte '0' ≤ byte '.' ∧ byte '.' ≤ byte '9') := by
    unfold IsLetter
    decide
  rw [← mem_identifier, identifier, isClass_letter.mem_mul] at h
  obtain ⟨b, t, rfl, hb, ht⟩ := h
  rw [isClass_letterOrDigit.mem_star] at ht
  intro hmem
  rcases List.mem_cons.mp hmem with rfl | hmem
  · exact hdot (.inl hb)
  · exact hdot (ht _ hmem)

theorem mem_unitName (s : Bytes) :
    s ∈ unitName.matches' ↔ ∃ n, s = n ++ ascii ".c" ∧ isCIdentifier n = true := by
  have hsuffix (t : Bytes) :
      t ∈ (char (byte '.') * char (byte 'c')).matches' ↔ t = ascii ".c" := by
    rw [(isClass_char _).mem_mul]
    constructor
    · rintro ⟨b, t, rfl, rfl, rfl⟩
      decide
    · rintro rfl
      exact ⟨byte '.', ascii "c", by decide, rfl, (isClass_char _ _).mpr ⟨_, rfl, by decide⟩⟩
  rw [unitName, matches'_mul, Language.mem_mul]
  constructor
  · rintro ⟨n, hn, t, ht, rfl⟩
    exact ⟨n, by rw [(hsuffix t).mp ht], (mem_identifier n).mp hn⟩
  · rintro ⟨n, rfl, hn⟩
    exact ⟨n, (mem_identifier n).mpr hn, ascii ".c", (hsuffix _).mpr rfl, rfl⟩

/-- **Names of modules are found by an exact grammar.**  A name is found in the paths that have one,
it is the only one there, and a compiler takes it if and only if what stands after the last slash is
an identifier followed by `.c`. -/
theorem moduleOf?_grammar (s : Bytes) :
    (∀ n, moduleOf? s = some n ↔ IsUnitPath s n) ∧
    (∀ n n', IsUnitPath s n → IsUnitPath s n' → n = n') ∧
    ∃ d base, s = d ++ base ∧ Bytes.EndsAt Path.slash d ∧ Path.slash ∉ base ∧
      ∀ (c : Compiler) (root : Prototype) (source : Bytes) (sink : Sink),
        (∃ n, moduleOf? s = some n ∧
          (c.compileModule ⟨n, some root, source⟩ sink).result ≠ .error (.invalidName n)) ↔
        base ∈ unitName.matches' := by
  refine ⟨fun n => moduleOf?_eq_some_iff, fun n n' h h' => ?_, ?_⟩
  · rw [← moduleOf?_eq_some_iff] at h h'
    exact Option.some.inj (h.symm.trans h')
  · obtain ⟨hbase, d, hs, hd⟩ := Bytes.afterLast_eq_iff.mp (rfl : Bytes.afterLast Path.slash s = _)
    refine ⟨d, _, hs, hd, hbase, fun c root source sink => ?_⟩
    rw [mem_unitName]
    refine exists_congr fun n => ?_
    rw [moduleOf?_eq_some_iff_afterLast, Ne, Compiler.compileModule_eq_invalidName_iff,
      Bool.not_eq_false]
    constructor
    · rintro ⟨⟨hbase, -⟩, hname⟩
      exact ⟨hbase, hname⟩
    · rintro ⟨hbase, hname⟩
      exact ⟨⟨hbase, dot_notMem_of_isCIdentifier hname⟩, hname⟩

/-- A dot in the directory is no part of the name. -/
theorem moduleOf?_grammar_directorySample :
    let s := ascii "out.d/my_mod.c"
    IsUnitPath s (ascii "my_mod") ∧ moduleOf? s = some (ascii "my_mod") ∧
      ∀ n, IsUnitPath s n → n = ascii "my_mod" := by
  have hpath : IsUnitPath (ascii "out.d/my_mod.c") (ascii "my_mod") :=
    ⟨ascii "out.d/", by decide, .inr ⟨ascii "out.d", by decide⟩, by decide, by decide⟩
  obtain ⟨hmodule, hunique, -⟩ := moduleOf?_grammar (ascii "out.d/my_mod.c")
  exact ⟨hpath, (hmodule _).mpr hpath, fun n hn => hunique n _ hn hpath⟩

end Command
end LuaToC
