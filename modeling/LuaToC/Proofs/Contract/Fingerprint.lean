import LuaToC.Contract.Basic
import LuaToC.Proofs.Words

/-! # What a fingerprint is made from

A contract compares functions by digests.  The bytes that are digested are an injective encoding
of what is meant to be compared (`Content`) and of the number of children: numbers have a fixed
length, every list is preceded by its length, and a constant by its kind, so no part can be taken
for another (`input_eq_iff`).  Two fingerprints are equal when the digests are
(`ofPrototype_eq_iff`), since a digest fills a fingerprint.
-/
namespace LuaToC

/-- The constant without the note whether a string is long. -/
def Constant.withoutLong : Constant → Constant
  | .str s _ => .str s false
  | k => k

/-- What is compared of a function: of the upvalues their number only, of the constants kind and
value, and nothing else than this. -/
structure Content where
  numParams : UInt8
  isVararg : Bool
  maxStack : UInt8
  upvalues : Nat
  code : List Instruction
  constants : List Constant
  deriving DecidableEq

/-- What is compared of a function. -/
def FunctionBody.content (f : FunctionBody) : Content where
  numParams := f.numParams
  isVararg := f.isVararg
  maxStack := f.maxStack
  upvalues := f.upvalues.length
  code := f.code
  constants := f.constants.map Constant.withoutLong

/-- The lists and strings of a function have lengths of 63 bits. -/
structure Prototype.IsCountable (p : Prototype) : Prop where
  upvalues : p.body.upvalues.length < 0x8000000000000000
  children : p.children.length < 0x8000000000000000
  code : p.body.code.length < 0x8000000000000000
  constants : p.body.constants.length < 0x8000000000000000
  strings : ∀ s long, Constant.str s long ∈ p.body.constants → s.length < 0x8000000000000000

namespace Fingerprint

/-! ## Parts that end by themselves -/

/-- A 64-bit word tells where it ends. -/
theorem ofUInt64_append_inj {x y : UInt64} {s t : Bytes}
    (h : Bytes.ofUInt64 x ++ s = Bytes.ofUInt64 y ++ t) : x = y ∧ s = t := by
  have hlength : (Bytes.ofUInt64 x).length = (Bytes.ofUInt64 y).length := by
    rw [Bytes.length_ofUInt64, Bytes.length_ofUInt64]
  obtain ⟨hword, hrest⟩ := List.append_inj h hlength
  exact ⟨Bytes.ofUInt64_injective hword, hrest⟩

/-- A number is a word, as long as it fits. -/
theorem putNat_append_inj {m n : Nat} (hm : m < 0x10000000000000000) (hn : n < 0x10000000000000000)
    {s t : Bytes} (h : putNat m ++ s = putNat n ++ t) : m = n ∧ s = t := by
  obtain ⟨hword, hrest⟩ := ofUInt64_append_inj h
  have hnumber : m.toUInt64.toNat = n.toUInt64.toNat := congrArg UInt64.toNat hword
  rw [show m.toUInt64.toNat = m from UInt64.toNat_ofNat_of_lt' hm,
    show n.toUInt64.toNat = n from UInt64.toNat_ofNat_of_lt' hn] at hnumber
  exact ⟨hnumber, hrest⟩

/-- When every element tells where it ends, so do lists of a known length.  What is found of an
element may be less than the element. -/
theorem flatMap_append_inj {α β : Type} {put : α → Bytes} {key : α → β} {P : α → Prop}
    (hput : ∀ x y s t, P x → P y → put x ++ s = put y ++ t → key x = key y ∧ s = t)
    {xs ys : List α} (hxs : ∀ x ∈ xs, P x) (hys : ∀ y ∈ ys, P y) (hlength : xs.length = ys.length)
    {s t : Bytes} (h : xs.flatMap put ++ s = ys.flatMap put ++ t) :
    xs.map key = ys.map key ∧ s = t := by
  induction xs generalizing ys with
  | nil =>
    obtain rfl := List.length_eq_zero_iff.mp hlength.symm
    exact ⟨rfl, h⟩
  | cons x xs ih =>
    cases ys with
    | nil => exact absurd hlength (by simp)
    | cons y ys =>
      rw [List.flatMap_cons, List.flatMap_cons, List.append_assoc, List.append_assoc] at h
      obtain ⟨hkey, hrest⟩ := hput x y _ _ (hxs x List.mem_cons_self) (hys y List.mem_cons_self) h
      obtain ⟨hkeys, hend⟩ := ih (fun z hz => hxs z (List.mem_cons_of_mem x hz))
        (fun z hz => hys z (List.mem_cons_of_mem y hz)) (Nat.succ.inj hlength) hrest
      exact ⟨by rw [List.map_cons, List.map_cons, hkey, hkeys], hend⟩

theorem putWord_append_inj (i j : Instruction) (s t : Bytes)
    (h : Bytes.ofUInt32 i.word ++ s = Bytes.ofUInt32 j.word ++ t) : i = j ∧ s = t := by
  have hlength : (Bytes.ofUInt32 i.word).length = (Bytes.ofUInt32 j.word).length := by
    rw [Bytes.length_ofUInt32, Bytes.length_ofUInt32]
  obtain ⟨hword, hrest⟩ := List.append_inj h hlength
  cases i
  cases j
  exact ⟨congrArg Instruction.mk (Bytes.ofUInt32_injective hword), hrest⟩

/-- The length of a string constant has 63 bits. -/
def HasLength (k : Constant) : Prop := ∀ s long, k = .str s long → s.length < 0x8000000000000000

/-- The kinds without a meaning are those past the last one. -/
theorem kind_ne_of_lt {k : Constant} (h : k.kind < 5) (m : { m : UInt8 // 5 ≤ m }) : k.kind ≠ m.val := by
  intro heq
  exact absurd m.property (by rw [← heq]; exact UInt8.not_le.mpr h)

/-- A constant tells where it ends, and its kind and value. -/
theorem putConstant_append_inj (k l : Constant) (s t : Bytes) (hk : HasLength k) (hl : HasLength l)
    (h : putConstant k ++ s = putConstant l ++ t) : k.withoutLong = l.withoutLong ∧ s = t := by
  unfold putConstant at h
  rw [List.cons_append, List.cons_append] at h
  obtain ⟨hkind, hvalue⟩ := List.cons.inj h
  -- Different kinds below the sixth are different numbers; the other cases follow one by one.
  cases k <;> cases l <;> try exact absurd hkind (by dsimp only [Constant.kind]; decide)
  case nil.nil => exact ⟨rfl, hvalue⟩
  case bool.bool b c =>
    obtain ⟨hbyte, hrest⟩ := List.cons.inj hvalue
    cases b <;> cases c <;> first | exact ⟨rfl, hrest⟩ | exact absurd hbyte (by decide)
  case int.int m n =>
    obtain ⟨hword, hrest⟩ := ofUInt64_append_inj hvalue
    cases m
    cases n
    exact ⟨congrArg (Constant.int ⟨·⟩) hword, hrest⟩
  case float.float x y =>
    obtain ⟨hbits, hrest⟩ := ofUInt64_append_inj hvalue
    cases x
    cases y
    exact ⟨congrArg (Constant.float ⟨·⟩) hbits, hrest⟩
  case str.str u long v long' =>
    have hu := hk u long rfl
    have hv := hl v long' rfl
    simp only [List.append_assoc] at hvalue
    obtain ⟨hlength, hbytes⟩ := putNat_append_inj (by omega) (by omega) hvalue
    obtain ⟨rfl, hrest⟩ := List.append_inj hbytes hlength
    exact ⟨rfl, hrest⟩
  case unassigned.unassigned m n =>
    obtain rfl := Subtype.ext hkind
    exact ⟨rfl, hvalue⟩
  case nil.unassigned m | bool.unassigned m | int.unassigned m | float.unassigned m
      | str.unassigned m =>
    exact absurd hkind (kind_ne_of_lt (by dsimp only [Constant.kind]; decide) m)
  case unassigned.nil m | unassigned.bool m _ | unassigned.int m _ | unassigned.float m _
      | unassigned.str m _ _ =>
    exact absurd hkind.symm (kind_ne_of_lt (by dsimp only [Constant.kind]; decide) m)

/-! ## Inputs -/

/-- Whether a string is long is not written. -/
theorem putConstant_withoutLong (k : Constant) : putConstant k.withoutLong = putConstant k := by
  cases k <;> rfl

theorem flatMap_putConstant_withoutLong (ks : List Constant) :
    (ks.map Constant.withoutLong).flatMap putConstant = ks.flatMap putConstant := by
  rw [List.flatMap_map]
  simp only [putConstant_withoutLong]

/-- The input has nothing in it but what is compared and the number of children. -/
theorem input_congr {p q : Prototype} (hcontent : p.body.content = q.body.content)
    (hchildren : p.children.length = q.children.length) : input p = input q := by
  have hparams : p.body.numParams = q.body.numParams := congrArg Content.numParams hcontent
  have hvararg : p.body.isVararg = q.body.isVararg := congrArg Content.isVararg hcontent
  have hstack : p.body.maxStack = q.body.maxStack := congrArg Content.maxStack hcontent
  have hupvalues : p.body.upvalues.length = q.body.upvalues.length :=
    congrArg Content.upvalues hcontent
  have hcode : p.body.code = q.body.code := congrArg Content.code hcontent
  have hconstants : p.body.constants.map Constant.withoutLong =
      q.body.constants.map Constant.withoutLong := congrArg Content.constants hcontent
  have hcount : p.body.constants.length = q.body.constants.length := by
    simpa using congrArg List.length hconstants
  dsimp only [input]
  rw [hparams, hvararg, hstack, hupvalues, hchildren, hcode, hcount,
    ← flatMap_putConstant_withoutLong p.body.constants, hconstants, flatMap_putConstant_withoutLong]

/-- **The input determines what is compared**, and the number of children. -/
theorem input_inj {p q : Prototype} (hp : p.IsCountable) (hq : q.IsCountable)
    (h : input p = input q) :
    p.body.content = q.body.content ∧ p.children.length = q.children.length := by
  have hbyte (b : UInt8) : b.toNat < 0x10000000000000000 :=
    Nat.lt_trans b.toNat_lt (by decide)
  have hflag (b : Bool) : (if b then 1 else 0) < 0x10000000000000000 := by cases b <;> decide
  have hlength {n : Nat} (hn : n < 0x8000000000000000) : n < 0x10000000000000000 := by omega
  -- The parts are cut off one after the other; the lengths come before what they count.
  dsimp only [input] at h
  simp only [List.append_assoc] at h
  obtain ⟨hparams, h⟩ := putNat_append_inj (hbyte _) (hbyte _) h
  obtain ⟨hvararg, h⟩ := putNat_append_inj (hflag _) (hflag _) h
  obtain ⟨hstack, h⟩ := putNat_append_inj (hbyte _) (hbyte _) h
  obtain ⟨hupvalues, h⟩ := putNat_append_inj (hlength hp.upvalues) (hlength hq.upvalues) h
  obtain ⟨hchildren, h⟩ := putNat_append_inj (hlength hp.children) (hlength hq.children) h
  obtain ⟨hcodeLength, h⟩ := putNat_append_inj (hlength hp.code) (hlength hq.code) h
  obtain ⟨hcode, h⟩ := flatMap_append_inj (P := fun _ => True)
    (fun i j s t _ _ => putWord_append_inj i j s t) (fun _ _ => trivial) (fun _ _ => trivial)
    hcodeLength h
  obtain ⟨hcount, h⟩ := putNat_append_inj (hlength hp.constants) (hlength hq.constants) h
  rw [← List.append_nil (p.body.constants.flatMap putConstant),
    ← List.append_nil (q.body.constants.flatMap putConstant)] at h
  obtain ⟨hconstants, -⟩ := flatMap_append_inj putConstant_append_inj
    (fun k hk s long heq => hp.strings s long (heq ▸ hk))
    (fun k hk s long heq => hq.strings s long (heq ▸ hk)) hcount h
  have hflags : p.body.isVararg = q.body.isVararg := by
    revert hvararg
    cases p.body.isVararg <;> cases q.body.isVararg <;> decide
  have hwords : p.body.code = q.body.code := by simpa using hcode
  refine ⟨?_, hchildren⟩
  rw [FunctionBody.content, FunctionBody.content, UInt8.toNat_inj.mp hparams, hflags,
    UInt8.toNat_inj.mp hstack, hupvalues, hwords, hconstants]

/-! ## Digests -/

theorem length_unwords (ws : List UInt32) : (Digest.unwords ws).length = 4 * ws.length := by
  induction ws with
  | nil => rfl
  | cons w ws ih =>
    rw [Digest.unwords, List.flatMap_cons, List.length_append, ← Digest.unwords, ih,
      List.length_reverse, Bytes.length_ofUInt32, List.length_cons]
    omega

theorem length_digest (message : Bytes) : (Digest.Sha256.digest message).length = 32 :=
  length_unwords _

/-- A fingerprint has room for a whole digest. -/
theorem ofBytes_inj {s t : Bytes} (hs : s.length = 32) (ht : t.length = 32)
    (h : ofBytes s = ofBytes t) : s = t := by
  refine List.ext_getElem (hs.trans ht.symm) fun i hi hj => ?_
  have hbound : i < 32 := hs ▸ hi
  have hget := congrArg (fun v : Fingerprint => v[i]) h
  simp only [ofBytes, Vector.getElem_ofFn, List.getD_eq_getElem?_getD, List.getElem?_eq_getElem hi,
    List.getElem?_eq_getElem hj, Option.getD_some] at hget
  exact hget

/-- Fingerprints are equal when the digests are. -/
theorem ofPrototype_eq_iff (p q : Prototype) :
    ofPrototype p = ofPrototype q ↔
      Digest.Sha256.digest (input p) = Digest.Sha256.digest (input q) :=
  ⟨ofBytes_inj (length_digest _) (length_digest _), congrArg ofBytes⟩

end Fingerprint
end LuaToC
