import Mathlib.Tactic.MkIffOfInductiveProp
import LuaToC.Proofs.Chunk.Reading
import LuaToC.Proofs.Tree

/-! # A chunk that was written is read back

Writing a prototype tree and reading the chunk gives the tree again, in both byte orders, as long
as every function can be written at all (`Writable`) and the chunk is not absurdly long.  One thing
is not kept: a line table without entries is written like no table, and so it comes back as none
(`withoutEmptyTables`).

The proof follows the format.  Each part of a function takes what was written for it; a child
that left its source out takes it from its parent again; and the names of upvalues, of which
those after the last one with a name are not written, meet the upvalues without names.
-/
namespace LuaToC

/-- A line table without entries counts as none. -/
def FunctionBody.withoutEmptyTable (f : FunctionBody) : FunctionBody :=
  { f with lineInfo := if f.lineInfo = some [] then none else f.lineInfo }

namespace Prototype

mutual

/-- The tree in which a line table without entries counts as none. -/
def withoutEmptyTables : Prototype → Prototype
  | ⟨body, children⟩ => ⟨body.withoutEmptyTable, withoutEmptyTablesAll children⟩

/-- The same for several trees. -/
def withoutEmptyTablesAll : List Prototype → List Prototype
  | [] => []
  | p :: ps => p.withoutEmptyTables :: withoutEmptyTablesAll ps

end

theorem withoutEmptyTablesAll_eq_map (ps : List Prototype) :
    withoutEmptyTablesAll ps = ps.map withoutEmptyTables := by
  induction ps with
  | nil => rfl
  | cons p ps ih => rw [withoutEmptyTablesAll, ih, List.map_cons]

theorem withoutEmptyTables_node (body : FunctionBody) (children : List Prototype) :
    withoutEmptyTables ⟨body, children⟩ =
      ⟨body.withoutEmptyTable, children.map withoutEmptyTables⟩ := by
  rw [withoutEmptyTables, withoutEmptyTablesAll_eq_map]

end Prototype

namespace Chunk

/-- The function can be written so that it is read back: its instructions name operations, its
constants have kinds, its upvalues have indexes of one byte, and its numbers and the lengths of
its lists are counts. -/
@[mk_iff]
structure Writable (p : Prototype) : Prop where
  code : ∀ i ∈ p.body.code, i.tag.val < 83
  constants : ∀ k ∈ p.body.constants, k.kind < 5
  upvalues : ∀ u ∈ p.body.upvalues, 0 ≤ u.index ∧ u.index ≤ 255
  lineDefined : IsCount p.body.lineDefined
  lastLineDefined : IsCount p.body.lastLineDefined
  checkpoints : ∀ c ∈ p.body.checkpoints, IsCount c.pc ∧ IsCount c.line
  locals : ∀ v ∈ p.body.locals, IsCount v.startPc ∧ IsCount v.endPc
  codeLength : p.body.code.length ≤ maxCount
  constantsLength : p.body.constants.length ≤ maxCount
  upvaluesLength : p.body.upvalues.length ≤ maxCount
  childrenLength : p.children.length ≤ maxCount
  lineInfoLength : (p.body.lineInfo.getD []).length ≤ maxCount
  checkpointsLength : p.body.checkpoints.length ≤ maxCount
  localsLength : p.body.locals.length ≤ maxCount

instance (n : Int64) : Decidable (IsCount n) := inferInstanceAs (Decidable (_ ∧ _))

instance (p : Prototype) : Decidable (Writable p) := decidable_of_iff' _ (writable_iff p)

namespace Reader

variable {e : Extent}

/-! ## Instructions and constants -/

/-- A number below 83 names an operation. -/
theorem isValid_of_lt {t : OpTag} (h : t.val < 83) : t.isValid = true := by
  have hn : t.val.toNat < Opcode.all.length := UInt8.lt_iff_toNat_lt.mp h
  rw [OpTag.isValid, OpTag.opcode?, List.getElem?_eq_getElem hn]
  rfl

/-- Four bytes at the front of a block are one instruction. -/
theorem instructions_cons (o : ByteOrder) (pc : Nat) (i : Instruction) (s : Bytes) :
    instructions o pc (o.putUInt32 i.word ++ s) =
      if i.tag.isValid then (i :: ·) <$> instructions o (pc + 1) s
      else .error (.unknownOpcode pc i) := by
  have hword : (⟨(o.number (o.putUInt32 i.word)).toUInt32⟩ : Instruction) = i := by
    rw [o.number_putUInt32, Nat.toUInt32_eq, UInt32.ofNat_toNat]
  -- The reader matches on four bytes, so the word has to be seen as four bytes first.
  match hbytes : o.putUInt32 i.word, o.length_putUInt32 i.word with
  | [a, b, c, d], _ =>
    rw [hbytes] at hword
    change (if (⟨(o.number [a, b, c, d]).toUInt32⟩ : Instruction).tag.isValid then _ else _) = _
    rw [hword]
    rfl

theorem instructions_flatMap (o : ByteOrder) (pc : Nat) (is : List Instruction)
    (h : ∀ i ∈ is, i.tag.val < 83) :
    instructions o pc (is.flatMap fun i => o.putUInt32 i.word) = .ok is := by
  induction is generalizing pc with
  | nil => rfl
  | cons i is ih =>
    rw [List.flatMap_cons, instructions_cons, if_pos (isValid_of_lt (h i List.mem_cons_self)),
      ih (pc + 1) fun j hj => h j (List.mem_cons_of_mem i hj)]
    rfl

theorem length_flatMap_word (o : ByteOrder) (is : List Instruction) :
    (is.flatMap fun i => o.putUInt32 i.word).length = is.length * 4 := by
  rw [List.length_flatMap]
  simp [List.map_const']

theorem takes_code (he : e.Fits) (o : ByteOrder) {is : List Instruction}
    (hlen : is.length ≤ maxCount) (h : ∀ i ∈ is, i.tag.val < 83) :
    Takes e (code e o) (putList (fun i => o.putUInt32 i.word) is) is := by
  refine (takes_length hlen).bind ((takes_block he (length_flatMap_word o is)).bind_nil ?_)
  exact Takes.lift (instructions_flatMap o 0 is h)

theorem takes_constant (he : e.Fits) (hsize : e.size < 0x4000000000000000) (o : ByteOrder)
    (k : Constant) (h : k.kind < 5) (index : Nat) :
    Takes e (constant e o index) (putConstant o k) k := by
  cases k with
  | nil => exact (takes_byte 0x00).bind (Takes.pure _)
  | bool b =>
    cases b with
    | false => exact (takes_byte 0x01).bind (Takes.pure _)
    | true => exact (takes_byte 0x11).bind (Takes.pure _)
  | int n =>
    have hword := (takes_word64 he o n.toUInt64).map fun x => Constant.int x.toInt64
    exact (takes_byte 0x03).bind hword
  | float x =>
    have hword := (takes_word64 he o x.bits).map fun b => Constant.float ⟨b⟩
    exact (takes_byte 0x13).bind hword
  | str s long =>
    have hstring := (takes_string he hsize s).map fun s => Constant.str s long
    cases long with
    | false => exact (takes_byte 0x04).bind hstring
    | true => exact (takes_byte 0x14).bind hstring
  | unassigned k => exact absurd h (UInt8.not_lt.mpr k.property)

/-! ## Upvalues -/

/-- The upvalue as it stands before its name is known. -/
def unnamed (u : Upvalue) : Upvalue := { u with name := [] }

theorem takes_upvalue (he : e.Fits) {u : Upvalue} (h : 0 ≤ u.index ∧ u.index ≤ 255) :
    Takes e (upvalue e) (putUpvalue u) (unnamed u) := by
  have hindex : Int64.ofNat u.index.toUInt64.toUInt8.toNat = u.index := by
    have hlow : u.index.toUInt64.toNat = u.index.toInt.toNat := Int64.toNat_toUInt64_of_le h.1
    have h0 : 0 ≤ u.index.toInt := Int64.le_iff_toInt_le.mp h.1
    have h255 : u.index.toInt ≤ 255 := Int64.le_iff_toInt_le.mp h.2
    rw [UInt64.toNat_toUInt8, hlow, Nat.mod_eq_of_lt (by omega), ← Int64.ofInt_eq_ofNat,
      Int.toNat_of_nonneg h0, Int64.ofInt_toInt]
  have hflag : decide (putBool u.inStack ≠ 0) = u.inStack := by
    cases u.inStack <;> rfl
  have hblock : Takes e (block e 3) (putUpvalue u) (putUpvalue u) := takes_block he rfl
  intro rest hlen
  rw [upvalue, StateT.run_bind, hblock rest hlen]
  change Except.ok ((⟨[], decide (putBool u.inStack ≠ 0),
    Int64.ofNat u.index.toUInt64.toUInt8.toNat, u.kind⟩ : Upvalue), rest) = _
  rw [hindex, hflag]
  rfl

/-- The names up to the last one that is not empty, and empty names after it. -/
theorem namedUpvalues_append (us : List Upvalue) :
    ∃ k, us.map (·.name) = namedUpvalues us ++ List.replicate k [] := by
  -- The writer drops empty names from the end, which is `dropWhile` on the reversed list.
  let isEmpty (n : Bytes) : Bool := n = []
  let backwards := (us.map (·.name)).reverse
  have hempty : ∀ n ∈ backwards.takeWhile isEmpty, n = [] := fun n hn =>
    of_decide_eq_true (List.all_eq_true.mp List.all_takeWhile n hn)
  refine ⟨(backwards.takeWhile isEmpty).length, ?_⟩
  have hsplit : backwards.takeWhile isEmpty ++ backwards.dropWhile isEmpty = backwards :=
    List.takeWhile_append_dropWhile
  rw [List.eq_replicate_of_mem hempty] at hsplit
  have hforwards := congrArg List.reverse hsplit
  rw [List.reverse_append, List.reverse_replicate, List.reverse_reverse] at hforwards
  exact hforwards.symm

/-- Names meet the upvalues that they were taken from. -/
theorem named_unnamed {us : List Upvalue} {names : List Bytes} {k : Nat}
    (h : us.map (·.name) = names ++ List.replicate k []) :
    named (us.map unnamed) names = us := by
  induction us generalizing names with
  | nil => cases names <;> rfl
  | cons u us ih =>
    cases names with
    | nil =>
      -- Every name is empty, so nothing has to be put back.
      have hempty : ∀ v ∈ u :: us, unnamed v = v := by
        intro v hv
        have hname : v.name ∈ List.replicate k ([] : Bytes) := by
          rw [List.nil_append] at h
          exact h ▸ List.mem_map.mpr ⟨v, hv, rfl⟩
        rw [unnamed, ← (List.mem_replicate.mp hname).2]
      exact (List.map_congr_left hempty).trans (List.map_id _)
    | cons n names =>
      obtain ⟨hhead, htail⟩ := List.cons.inj h
      have hfirst : { unnamed u with name := n } = u := by
        rw [← hhead]
        rfl
      rw [List.map_cons, named, hfirst, ih htail]

theorem named_namedUpvalues (us : List Upvalue) :
    named (us.map unnamed) (namedUpvalues us) = us := by
  obtain ⟨_, h⟩ := namedUpvalues_append us
  exact named_unnamed h

theorem length_namedUpvalues_le (us : List Upvalue) :
    (namedUpvalues us).length ≤ us.length := by
  obtain ⟨k, h⟩ := namedUpvalues_append us
  have hlen := congrArg List.length h
  rw [List.length_map, List.length_append] at hlen
  omega

/-! ## Debug information -/

theorem takes_checkpoint {c : Checkpoint} (h : IsCount c.pc ∧ IsCount c.line) :
    Takes e checkpoint (putInt c.pc ++ putInt c.line) c :=
  (takes_int64 h.1).bind ((takes_int64 h.2).map (Checkpoint.mk c.pc))

theorem takes_localVar (he : e.Fits) (hsize : e.size < 0x4000000000000000) {v : LocalVar}
    (h : IsCount v.startPc ∧ IsCount v.endPc) :
    Takes e (localVar e) (putString v.name ++ (putInt v.startPc ++ putInt v.endPc)) v :=
  (takes_string he hsize v.name).bind
    ((takes_int64 h.1).bind ((takes_int64 h.2).map (LocalVar.mk v.name v.startPc)))

theorem takes_lineInfo (he : e.Fits) (table : Option (List Int8))
    (hlen : (table.getD []).length ≤ maxCount) :
    Takes e (lineInfo e) (putList (fun d => [d.toUInt8]) (table.getD []))
      (if table = some [] then none else table) := by
  have hnone : Takes e (lineInfo e) (putList (fun d : Int8 => [d.toUInt8]) []) none := by
    rw [show putList (fun d : Int8 => [d.toUInt8]) [] = putLength 0 from List.append_nil _]
    intro rest hrest
    have hn : Takes e int (putLength 0) 0 := takes_length (Nat.zero_le _)
    rw [lineInfo, StateT.run_bind, hn rest hrest]
    rfl
  match table with
  | none => exact hnone
  | some [] => exact hnone
  | some (d :: ds) =>
    have hbytes : (d :: ds).flatMap (fun d => [d.toUInt8]) = (d :: ds).map Int8.toUInt8 :=
      (List.map_eq_flatMap ..).symm
    have hback : ((d :: ds).map Int8.toUInt8).map UInt8.toInt8 = d :: ds := by
      rw [List.map_map]
      exact List.map_id _
    have hblock : Takes e (block e (d :: ds).length) ((d :: ds).map Int8.toUInt8)
        ((d :: ds).map Int8.toUInt8) := takes_block he (List.length_map _)
    have hsome := hblock.map fun s => some (s.map UInt8.toInt8)
    rw [hback] at hsome
    rw [if_neg (by simp), putList, Option.getD_some, hbytes]
    exact (takes_length hlen).bind hsome

/-! ## Functions -/

/-- The source, or what stands for the source of the parent. -/
theorem takes_source (he : e.Fits) (hsize : e.size < 0x4000000000000000) (parent source : Bytes) :
    ∃ v, Takes e (string? e) (putSource parent source) v ∧ v.getD parent = source := by
  unfold putSource
  split
  · rename_i h
    exact ⟨none, takes_absent, h.2.symm⟩
  · exact ⟨some source, takes_string? he hsize source, rfl⟩

theorem putFunctions_eq_flatMap (o : ByteOrder) (parent : Bytes) (ps : List Prototype) :
    putFunctions o parent ps = ps.flatMap (putFunction o parent) := by
  induction ps with
  | nil => rfl
  | cons p ps ih => rw [putFunctions, ih, List.flatMap_cons]

/-- A function is longer than each of its children. -/
theorem length_putFunction_child (o : ByteOrder) (parent : Bytes) (body : FunctionBody)
    {children : List Prototype} {c : Prototype} (hc : c ∈ children) :
    (putFunction o body.source c).length < (putFunction o parent ⟨body, children⟩).length := by
  have hle : (putFunction o body.source c).length ≤ (putFunctions o body.source children).length := by
    obtain ⟨before, after, rfl⟩ := List.append_of_mem hc
    rw [putFunctions_eq_flatMap, List.flatMap_append, List.flatMap_cons]
    simp only [List.length_append]
    omega
  have hpos : 0 < (putLength children.length).length :=
    List.length_pos_iff.mpr (Varint.encode_ne_nil _)
  rw [putFunction]
  simp only [List.length_append]
  omega

/-- A function takes what was written for it, as long as the depth is more than the length of its
text. -/
theorem takes_function (he : e.Fits) (hsize : e.size < 0x4000000000000000) (o : ByteOrder)
    (p : Prototype) : ∀ (depth : Nat) (parent : Bytes),
      (putFunction o parent p).length < depth → (∀ f ∈ p.functions, Writable f) →
      Takes e (function e o depth parent) (putFunction o parent p) p.withoutEmptyTables := by
  induction p using Prototype.node_induction with
  | node body children ih =>
    intro depth parent hdepth hw
    obtain ⟨depth, rfl⟩ : ∃ d, depth = d + 1 := ⟨depth - 1, by omega⟩
    obtain ⟨source, hsource, hback⟩ := takes_source (e := e) he hsize parent body.source
    have hthis : Writable ⟨body, children⟩ := hw _ (Prototype.mem_functions_self _)
    have hvararg : decide (putBool body.isVararg ≠ 0) = body.isVararg := by
      cases body.isVararg <;> rfl
    -- The text of a child is shorter than that of its parent, so the depth left over is enough.
    have hchild (c : Prototype) (hc : c ∈ children) (i : Nat) :
        Takes e (function e o depth body.source) (putFunction o body.source c)
          c.withoutEmptyTables := by
      have hshort := length_putFunction_child o parent body hc
      exact ih c hc depth body.source (by omega)
        fun f hf => hw f (Prototype.mem_functions_of_child hc hf)
    have hnames : Takes e (list fun _ => string e) (putList putString (namedUpvalues body.upvalues))
        (namedUpvalues body.upvalues) :=
      takes_list_self (Nat.le_trans (length_namedUpvalues_le _) hthis.upvaluesLength)
        fun s _ _ => takes_string he hsize s
    -- From here on the reader meets the parts of the function one after the other.
    rw [putFunction, putFunctions_eq_flatMap, putBody, putDebug, function]
    simp only [List.append_assoc]
    rw [← List.append_assoc (putLength children.length)]
    refine hsource.bind ?_
    rw [hback]
    refine (takes_int64 hthis.lineDefined).bind ?_
    refine (takes_int64 hthis.lastLineDefined).bind ?_
    refine (takes_byte body.numParams).bind (t := putBool _ :: body.maxStack :: _) ?_
    refine (takes_byte (putBool body.isVararg)).bind (t := body.maxStack :: _) ?_
    rw [hvararg]
    refine (takes_byte body.maxStack).bind ?_
    refine (takes_code he o hthis.codeLength hthis.code).bind ?_
    refine (takes_list_self hthis.constantsLength
      fun k hk => takes_constant he hsize o k (hthis.constants k hk)).bind ?_
    refine (takes_list hthis.upvaluesLength
      fun u hu _ => takes_upvalue he (hthis.upvalues u hu)).bind ?_
    refine (takes_list hthis.childrenLength hchild).bind ?_
    refine (takes_lineInfo he body.lineInfo hthis.lineInfoLength).bind ?_
    refine (takes_list_self hthis.checkpointsLength
      fun c hc _ => takes_checkpoint (hthis.checkpoints c hc)).bind ?_
    refine (takes_list_self hthis.localsLength
      fun v hv _ => takes_localVar he hsize (hthis.locals v hv)).bind ?_
    refine hnames.map_eq ?_
    rw [named_namedUpvalues, Prototype.withoutEmptyTables_node]
    rfl

/-! ## Whole chunks -/

/-- The sample integer tells the byte order in which it was written. -/
theorem orderOf_sampleInt (o : ByteOrder) : orderOf (o.putUInt64 sampleInt) = some o := by
  cases o <;> decide

theorem takes_statedSizes (ss : List (String × UInt8)) :
    Takes e (statedSizes ss) (ss.map (·.2)) () := by
  induction ss with
  | nil => exact Takes.pure ()
  | cons s ss ih =>
    refine (takes_byte s.2).bind ?_
    rw [if_pos rfl]
    exact ih

/-- Reading goes on after the signature. -/
theorem Takes.afterSignature {k : Reader ByteOrder} {t : Bytes} {o : ByteOrder}
    (hk : Takes e k t o) :
    Takes e (do
      let data ← get
      if !hasSignature data then throw .notChunk
      set (data.drop signature.length)
      k) (signature ++ t) o := by
  intro rest hlen
  rw [List.append_assoc] at hlen ⊢
  have hsig : hasSignature (signature ++ (t ++ rest)) = true :=
    List.isPrefixOf_iff_prefix.mpr (List.prefix_append ..)
  have hdrop : (signature ++ (t ++ rest)).drop signature.length = t ++ rest := List.drop_left
  rw [StateT.run_bind, StateT.run_get, pure_bind, hsig, if_neg (by decide), StateT.run_bind,
    StateT.run_set, pure_bind, hdrop]
  refine hk rest ?_
  rw [List.length_append] at hlen
  omega

theorem takes_header (he : e.Fits) (o : ByteOrder) : Takes e (header e) (Chunk.header o) o := by
  rw [Chunk.header, header, headerFields]
  simp only [List.append_assoc]
  refine Takes.afterSignature ?_
  refine (takes_byte version).bind (t := format :: _) ?_
  rw [if_neg (by decide)]
  refine (takes_byte format).bind ?_
  rw [if_neg (by decide)]
  refine (takes_block he rfl).bind ?_
  rw [if_neg (by decide)]
  refine (takes_statedSizes sizes).bind ?_
  refine (takes_block he (o.length_putUInt64 sampleInt)).bind ?_
  rw [orderOf_sampleInt]
  refine (takes_word64 he o sampleFloat).bind_nil ?_
  rw [if_neg (by decide)]
  exact Takes.pure o

/-- A chunk takes what was written for it, in data that have room for it. -/
theorem takes_chunk (he : e.Fits) (hsize : e.size < 0x4000000000000000) (o : ByteOrder)
    {p : Prototype} (hw : ∀ f ∈ p.functions, Writable f) (hlen : (encode o p).length ≤ e.size) :
    Takes e (chunk e) (encode o p) p.withoutEmptyTables := by
  have hlong : (putFunction o [] p).length < e.size + 1 := by
    simp only [encode, List.length_append] at hlen
    omega
  rw [encode, List.append_assoc]
  exact (takes_header he o).bind ((takes_byte _).bind
    (takes_function he hsize o p (e.size + 1) [] hlong hw))

end Reader

/-- **A chunk that was written is read back**: the tree comes back as it was, in either byte
order, but for line tables without entries.  The name of a chunk plays no part, since it is only
used in the message of a refusal. -/
theorem decode_encode_prototype (o : ByteOrder) (p : Prototype)
    (hw : ∀ f ∈ p.functions, Writable f) (hsize : (encode o p).length < 0x4000000000000000) :
    decode (encode o p) = .ok p.withoutEmptyTables := by
  let e : Extent := ⟨(encode o p).length, .word64⟩
  have he : e.Fits := decide_eq_true (show (encode o p).length < 0x8000000000000000 by omega)
  have hchunk : Reader.Takes e (Reader.chunk e) (encode o p) p.withoutEmptyTables :=
    Reader.takes_chunk he hsize o hw (Nat.le_refl _)
  have hrun := hchunk [] (Nat.le_of_eq (by rw [List.append_nil]))
  rw [List.append_nil] at hrun
  rw [decode, decodeWith, hrun]
  rfl

/-- A function inside a function inside a main function.  The first child has the source of its
parent, the second has an empty one and a line table without entries, and an upvalue without a
name stands between two that have names. -/
def nestedSample : Prototype :=
  let leaf : FunctionBody :=
    { source := ascii "@m.lua", lineDefined := 3, lastLineDefined := 2147483519, numParams := 2
      isVararg := false, maxStack := 255, code := [⟨0x38⟩, ⟨0xffffffd2⟩], constants := []
      upvalues := [⟨[], true, 255, 0⟩], lineInfo := some [1, -128], checkpoints := [], locals := [] }
  let hidden : FunctionBody := { leaf with source := [], lineInfo := some [] }
  let main : FunctionBody :=
    { leaf with
      lineDefined := 0
      isVararg := true
      constants := [.nil, .bool true, .int (-1), .float ⟨0x7ff8000000000001⟩,
        .str (ascii "x") true, .str [] false]
      upvalues := [⟨ascii "_ENV", true, 0, 0⟩, ⟨[], false, 1, 1⟩, ⟨ascii "v", false, 2, 0⟩,
        ⟨[], false, 3, 0⟩]
      checkpoints := [⟨0, 7⟩]
      locals := [⟨ascii "a", 0, 2⟩] }
  ⟨main, [⟨leaf, []⟩, ⟨hidden, [⟨leaf, []⟩]⟩]⟩

theorem decode_encode_nestedSample :
    (∀ f ∈ nestedSample.functions, Writable f) ∧
      (encode .big nestedSample).length < 0x4000000000000000 ∧
      decode (encode .big nestedSample) = .ok nestedSample.withoutEmptyTables := by
  have hw : ∀ f ∈ nestedSample.functions, Writable f := by decide +kernel
  have hsize : (encode .big nestedSample).length < 0x4000000000000000 := by decide +kernel
  exact ⟨hw, hsize, decode_encode_prototype .big nestedSample hw hsize⟩

end Chunk
end LuaToC
