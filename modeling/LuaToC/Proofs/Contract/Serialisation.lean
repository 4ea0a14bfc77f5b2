import LuaToC.Contract.Encoding
import LuaToC.Proofs.Cbor.Canonical

/-! # Contracts are read back from their encoding

A contract is written as a map of five fields, an entry as one of four.  Numbers of any sign and size,
lists that are missing and lists that are empty all have items of their own, so the item tells the
contract (`Decoded.contract_toItem`).  The item is within the limits of the reader as long as its
lists are, hence its encoding is read back; and since it tells where it ends, less of it is incomplete
and more of it extraneous (`decode_encode_contract`).
-/
namespace LuaToC

/-- A text that can be read back: valid UTF-8, the length of which is a number of the machine, as that
of anything in memory is. -/
def IsText (s : Bytes) : Prop := Utf8.isValid s = true ∧ s.length < 0x8000000000000000

/-- The entry is within the limits of a reader. -/
structure ContractFunction.IsReadable (f : ContractFunction) : Prop where
  name : IsText f.name
  path : (f.path.getD []).length ≤ Cbor.maxElements

/-- The contract is within the limits of a reader. -/
structure Contract.IsReadable (c : Contract) : Prop where
  moduleName : IsText c.moduleName
  buildId : IsText c.buildId
  functions : (c.functions.getD []).length ≤ Cbor.maxElements
  entries : ∀ f ∈ c.functions.getD [], f.IsReadable

namespace Cbor.Item

/-- A 64-bit number is written with its sign and at most 63 bits. -/
theorem ofInt64_cases (n : Int64) :
    (∃ m : Nat, m < 0x8000000000000000 ∧ ofInt64 n = .unsigned m ∧ n.toInt = m) ∨
      ∃ m : Nat, m < 0x8000000000000000 ∧ ofInt64 n = .negative m ∧ n.toInt = -1 - m := by
  have hlo := n.le_toInt
  have hhi := n.toInt_lt
  by_cases h : 0 ≤ n
  · have hsign : 0 ≤ n.toInt := Int64.le_iff_toInt_le.mp h
    exact .inl ⟨n.toInt.toNat, by omega, if_pos h, by omega⟩
  · have hsign : ¬ 0 ≤ n.toInt := fun hle => h (Int64.le_iff_toInt_le.mpr hle)
    exact .inr ⟨(-1 - n.toInt).toNat, by omega, if_neg h, by omega⟩

theorem fits_ofInt64 (depth : Nat) (n : Int64) : (ofInt64 n).Fits depth := by
  rcases ofInt64_cases n with ⟨m, hm, hn, -⟩ | ⟨m, hm, hn, -⟩
  · rw [hn]
    exact .unsigned (by omega)
  · rw [hn]
    exact .negative (by omega)

/-- A list that may be missing. -/
def ofList? {α : Type} (put : α → Item) : Option (List α) → Item
  | none => .null
  | some xs => .array (xs.map put)

theorem fits_ofList? {α : Type} {depth : Nat} {put : α → Item} {xs : Option (List α)}
    (hlength : (xs.getD []).length ≤ maxElements) (hput : ∀ x ∈ xs.getD [], (put x).Fits depth) :
    (ofList? put xs).Fits (depth + 1) := by
  cases xs with
  | none => exact .simple (by decide)
  | some xs =>
    refine .array (by rwa [List.length_map]) fun i hi => ?_
    obtain ⟨x, hx, rfl⟩ := List.mem_map.mp hi
    exact hput x hx

end Cbor.Item

open Cbor

theorem ContractFunction.toItem_eq (f : ContractFunction) : f.toItem =
    .map [.unsigned 1, .ofInt64 f.id, .unsigned 2, .text [f.name], .unsigned 3,
      .ofList? .ofInt64 f.path, .unsigned 4, .bytes [f.hash.toList]] := by
  rcases f with ⟨id, name, _ | path, hash⟩ <;> rfl

theorem Contract.toItem_eq (c : Contract) : c.toItem =
    .map [.unsigned 1, .ofInt64 c.version, .unsigned 2, .text [c.moduleName], .unsigned 3,
      .text [c.buildId], .unsigned 4, .ofBool c.hasSource, .unsigned 5,
      .ofList? ContractFunction.toItem c.functions] := by
  rcases c with ⟨version, moduleName, buildId, hasSource, _ | functions⟩ <;> rfl

theorem ContractFunction.fits_toItem {f : ContractFunction} (h : f.IsReadable) : f.toItem.Fits 2 := by
  have hpath : (Item.ofList? .ofInt64 f.path).Fits 1 :=
    Item.fits_ofList? h.path fun n _ => Item.fits_ofInt64 0 n
  have hhash : f.hash.toList.length < 0x8000000000000000 := by
    rw [Vector.length_toList]
    decide
  rw [toItem_eq]
  refine @Item.Fits.map 1 4 _ rfl (by decide) ?_
  simp only [List.forall_mem_cons, List.not_mem_nil, false_imp_iff, implies_true, and_true]
  exact ⟨.unsigned (by decide), Item.fits_ofInt64 1 f.id, .unsigned (by decide), .text h.name.2,
    .unsigned (by decide), hpath, .unsigned (by decide), .bytes hhash⟩

theorem Contract.fits_toItem {c : Contract} (h : c.IsReadable) : c.toItem.Fits 4 := by
  have hfunctions : (Item.ofList? ContractFunction.toItem c.functions).Fits 3 :=
    Item.fits_ofList? h.functions fun f hf => ContractFunction.fits_toItem (h.entries f hf)
  have hsource : (Item.ofBool c.hasSource).Fits 3 := by
    cases c.hasSource <;> exact .simple (by decide)
  rw [toItem_eq]
  refine @Item.Fits.map 3 5 _ rfl (by decide) ?_
  simp only [List.forall_mem_cons, List.not_mem_nil, false_imp_iff, implies_true, and_true]
  exact ⟨.unsigned (by decide), Item.fits_ofInt64 3 c.version, .unsigned (by decide),
    .text h.moduleName.2, .unsigned (by decide), .text h.buildId.2, .unsigned (by decide), hsource,
    .unsigned (by decide), hfunctions⟩

/-! ## Fields -/

namespace Contract.Decoded

theorem int64_ofInt64 (n : Int64) : int64 (.ofInt64 n) = .ok n := by
  have hlo := n.le_toInt
  have hhi := n.toInt_lt
  have hinteger : integer (-0x8000000000000000) 0x7fffffffffffffff (.ofInt64 n) = .ok n.toInt := by
    rcases Item.ofInt64_cases n with ⟨m, hm, hn, hsign⟩ | ⟨m, hm, hn, hsign⟩
    · rw [hn, hsign]
      exact if_pos ⟨by omega, by omega⟩
    · rw [hn, hsign]
      exact if_pos ⟨by omega, by omega⟩
  rw [int64, hinteger]
  exact congrArg Except.ok n.ofInt_toInt

theorem text_text {s : Bytes} (h : IsText s) : text (.text [s]) = .ok s := by
  have hvalid : [s].all Utf8.isValid = true := by
    rw [List.all_cons, h.1, List.all_nil]
    rfl
  have htext : textOf [s] = .ok s := by
    rw [textOf, if_pos hvalid, List.flatten_singleton]
  exact htext

theorem bool_ofBool (b : Bool) : bool (.ofBool b) = .ok b := by
  cases b <;> rfl

theorem fingerprint_bytes (h : Fingerprint) : fingerprint (.bytes [h.toList]) = .ok h := by
  have hbytes : Fingerprint.ofBytes h.toList = h := by
    ext i hi
    simp [Fingerprint.ofBytes]
  have hread : fingerprint (.bytes [h.toList]) = .ok (Fingerprint.ofBytes [h.toList].flatten) := rfl
  rw [hread, List.flatten_singleton, hbytes]

theorem list_ofList? {α : Type} {element : Item → Decoded α} {put : α → Item}
    {xs : Option (List α)} (h : ∀ x ∈ xs.getD [], element (put x) = .ok x) :
    list element (.ofList? put xs) = .ok xs := by
  cases xs with
  | none => rfl
  | some xs =>
    have hread : (xs.map put).mapM element = .ok xs := by
      induction xs with
      | nil => rfl
      | cons x xs ih =>
        rw [List.map_cons, List.mapM_cons, h x List.mem_cons_self,
          ih fun y hy => h y (List.mem_cons_of_mem x hy)]
        rfl
    have hlist : list element (.array (xs.map put)) =
        do return some (← (xs.map put).mapM element) := rfl
    rw [Item.ofList?, hlist, hread]
    rfl

theorem record_map {α : Type} (bound : Nat) (empty : α) (set : α → Nat → Item → Decoded α)
    (items : List Item) : record bound empty set (.map items) = fields bound set [] empty items := rfl

/-- A field that was not met before is set. -/
theorem fields_unsigned {α : Type} {bound : Nat} {set : α → Nat → Item → Decoded α} {seen : List Nat}
    {r r' : α} {n : Nat} {v : Item} {rest : List Item} (hn : 0 < n ∧ n < bound ∧ n ∉ seen)
    (hset : set r n v = .ok r') :
    fields bound set seen r (.unsigned n :: v :: rest) = fields bound set (n :: seen) r' rest := by
  have hkey : key (.unsigned n) = .ok (some n) := rfl
  rw [fields, hkey]
  change (if 0 < n ∧ n < bound ∧ n ∉ seen then _ else _) = _
  rw [if_pos hn, hset]
  rfl

theorem entry_toItem {f : ContractFunction} (h : f.IsReadable) : entry f.toItem = .ok f := by
  have hpath : list int64 (.ofList? .ofInt64 f.path) = .ok f.path :=
    list_ofList? fun n _ => int64_ofInt64 n
  rw [entry, ContractFunction.toItem_eq, record_map,
    fields_unsigned (by decide) (by rw [int64_ofInt64]; rfl),
    fields_unsigned (by decide) (by rw [text_text h.name]; rfl),
    fields_unsigned (by decide) (by rw [hpath]; rfl),
    fields_unsigned (by decide) (by rw [fingerprint_bytes]; rfl)]
  rfl

/-- The item of a contract tells the contract. -/
theorem contract_toItem {c : Contract} (h : c.IsReadable) : contract c.toItem = .ok c := by
  have hfunctions : list entry (.ofList? ContractFunction.toItem c.functions) = .ok c.functions :=
    list_ofList? fun f hf => entry_toItem (h.entries f hf)
  rw [contract, toItem_eq, record_map, fields_unsigned (by decide) (by rw [int64_ofInt64]; rfl),
    fields_unsigned (by decide) (by rw [text_text h.moduleName]; rfl),
    fields_unsigned (by decide) (by rw [text_text h.buildId]; rfl),
    fields_unsigned (by decide) (by rw [bool_ofBool]; rfl),
    fields_unsigned (by decide) (by rw [hfunctions]; rfl)]
  rfl

end Contract.Decoded

/-! ## Contracts -/

namespace Contract

/-- **A contract is read back from its encoding**, whatever its numbers are and whether its lists are
missing, empty or not.  A part of the encoding is refused as cut off, and anything that follows it as
extraneous. -/
theorem decode_encode_contract (c : Contract) (h : c.IsReadable) :
    decode c.encode = .ok c ∧
      (∀ t, t <+: c.encode → t ≠ c.encode → decode t = .error (.fault .incomplete)) ∧
      ∀ rest, rest ≠ [] → decode (c.encode ++ rest) = .error (.fault .extraneous) := by
  have hreads : Reads (itemAt (maxNesting + 1) 0) c.encode c.toItem :=
    reads_itemAt (fits_toItem h) (by decide) (by decide)
  refine ⟨?_, fun t ht hne => ?_, fun rest hrest => ?_⟩
  · rw [decode, decode_of_reads hreads]
    exact Decoded.contract_toItem h
  · rw [decode, decode_of_prefix hreads ht hne]
  · rw [decode, decode_append hreads hrest]

/-- A contract with the least and the greatest number and some of each width, a name that is not
ASCII, and paths of which one is missing and one is empty. -/
def extremeSample : Contract where
  version := -0x8000000000000000
  moduleName := [0x63, 0x61, 0x66, 0xc3, 0xa9]
  buildId := []
  hasSource := true
  functions := some
    [⟨0, [], none, Vector.replicate 32 0⟩,
     ⟨0x7fffffffffffffff, [0x66], some [], Vector.replicate 32 255⟩,
     ⟨-1, [0x67], some [23, 24, -256, 65536], Vector.replicate 32 1⟩]

/-- The sample is read back, and told apart from less and from more. -/
theorem decode_encode_extremeSample :
    extremeSample.IsReadable ∧ decode extremeSample.encode = .ok extremeSample ∧
      decode (extremeSample.encode ++ [0]) = .error (.fault .extraneous) ∧
      decode (extremeSample.encode.take 9) = .error (.fault .incomplete) := by
  have hempty : IsText [] := ⟨by simp [Utf8.isValid, Utf8.pieces], by decide⟩
  have hletter : ∀ b ∈ [0x66, 0x67], IsText [b] := by
    simp [IsText, Utf8.isValid, Utf8.pieces, Utf8.decode]
  have hname : IsText extremeSample.moduleName :=
    ⟨by simp [extremeSample, Utf8.isValid, Utf8.pieces, Utf8.decode, Utf8.continuation], by decide⟩
  have hentries : ∀ f ∈ extremeSample.functions.getD [], f.IsReadable := by
    simp only [extremeSample, Option.getD_some, List.forall_mem_cons, List.not_mem_nil, false_imp_iff,
      implies_true, and_true]
    exact ⟨⟨hempty, by decide⟩, ⟨hletter 0x66 (by decide), by decide⟩,
      ⟨hletter 0x67 (by decide), by decide⟩⟩
  have hreadable : extremeSample.IsReadable := ⟨hname, hempty, by decide, hentries⟩
  have hsample := decode_encode_contract extremeSample hreadable
  exact ⟨hreadable, hsample.1, hsample.2.2 [0] (by decide),
    hsample.2.1 _ (List.take_prefix ..) (by decide)⟩

end Contract
end LuaToC
