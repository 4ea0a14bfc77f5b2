import LuaToC.Proofs.Chunk.Delimited

/-! # Every chunk that is accepted has a canonical form

A chunk can be spelled in more ways than it is written: numbers with groups of zeros in front,
strings that are absent where an empty one is meant, children that repeat the source of their
parent, flags other than 0 and 1, names without upvalues.  Reading such a chunk and writing the
result gives a chunk that is read as the same tree, and it is no longer than the bytes that were
taken (`decode_canonical_form`).  Only the header is accepted in no other form than those two that
are written.

`Yields e r P` says of all results of a reader, with the bytes that it takes for them, that they
satisfy `P`.  For each part of a function the results are such as can be written, and the writer
needs no more bytes for them than were taken (`Rewrites`); the parts are put together as the reader
meets them.
-/
namespace LuaToC.Chunk

/-- The tree can be written as it is. -/
structure IsCanonical (p : Prototype) : Prop where
  writable : ∀ f ∈ p.functions, Writable f
  withoutEmptyTables : p.withoutEmptyTables = p

theorem isCanonical_node {body : FunctionBody} {children : List Prototype}
    (hbody : Writable ⟨body, children⟩) (htable : body.lineInfo ≠ some [])
    (hchildren : ∀ c ∈ children, IsCanonical c) : IsCanonical ⟨body, children⟩ where
  writable := by
    rw [Prototype.functions_node]
    refine List.forall_mem_cons.mpr ⟨hbody, fun f hf => ?_⟩
    obtain ⟨c, hc, hf⟩ := List.mem_flatMap.mp hf
    exact (hchildren c hc).writable f hf
  withoutEmptyTables := by
    rw [Prototype.withoutEmptyTables_node, FunctionBody.withoutEmptyTable, if_neg htable,
      List.map_congr_left fun c hc => (hchildren c hc).withoutEmptyTables, List.map_id']

namespace Reader

variable {α β : Type} {e : Extent}

/-- Whatever the reader gives and the bytes that it takes for it satisfy `P`. -/
def Yields (e : Extent) (r : Reader α) (P : α → Bytes → Prop) : Prop :=
  ∀ ⦃left rest : Bytes⦄ ⦃x : α⦄, left.length ≤ e.size → r.run left = .ok (x, rest) →
    ∃ s, left = s ++ rest ∧ P x s

/-- The value can be written, in no more bytes than these. -/
def Rewrites (W : α → Prop) (put : α → Bytes) (x : α) (s : Bytes) : Prop :=
  W x ∧ (put x).length ≤ s.length

namespace Yields

variable {r : Reader α} {P : α → Bytes → Prop} {Q : β → Bytes → Prop}

theorem pure {x : α} (h : P x []) : Yields e (pure x) P := by
  intro left rest y _ hrun
  obtain ⟨rfl, rfl⟩ := Prod.mk.inj (Except.ok.inj hrun)
  exact ⟨[], rfl, h⟩

theorem throw (err : Error) : Yields e (throw err) P := by
  intro _ _ _ _ hrun
  cases hrun

/-- A result that needs no data. -/
theorem lift {a : Except Error α} (h : ∀ x, a = .ok x → P x []) :
    Yields e (monadLift a : Reader α) P := by
  cases a with
  | ok x => exact pure (h x rfl)
  | error err => exact throw err

theorem bind {f : α → Reader β} (hr : Yields e r P)
    (hf : ∀ x s, P x s → Yields e (f x) fun y t => Q y (s ++ t)) : Yields e (r >>= f) Q := by
  intro left rest y hleft hrun
  obtain ⟨x, mid, hfirst, hnext⟩ := run_bind_eq_ok hrun
  obtain ⟨s, rfl, hs⟩ := hr hleft hfirst
  rw [List.length_append] at hleft
  obtain ⟨t, rfl, ht⟩ := hf x s hs (by omega) hnext
  exact ⟨s ++ t, (List.append_assoc ..).symm, ht⟩

theorem map {f : α → β} (hr : Yields e r P) (h : ∀ x s, P x s → Q (f x) s) :
    Yields e (do return f (← r)) Q := by
  refine hr.bind fun x s hs => pure ?_
  rw [List.append_nil]
  exact h x s hs

theorem mono {P' : α → Bytes → Prop} (hr : Yields e r P) (h : ∀ x s, P x s → P' x s) :
    Yields e r P' := by
  intro left rest x hleft hrun
  obtain ⟨s, hs, hP⟩ := hr hleft hrun
  exact ⟨s, hs, h x s hP⟩

/-- Elements one after the other. -/
theorem times {r : Nat → Reader α} {W : α → Prop} {put : α → Bytes}
    (hr : ∀ i, Yields e (r i) (Rewrites W put)) (i n : Nat) :
    Yields e (times r i n) fun xs s =>
      xs.length = n ∧ (∀ x ∈ xs, W x) ∧ (xs.flatMap put).length ≤ s.length := by
  induction n generalizing i with
  | zero => exact pure ⟨rfl, fun _ hx => absurd hx List.not_mem_nil, Nat.le_refl _⟩
  | succ n ih =>
    refine (hr i).bind fun x s hx => (ih (i + 1)).map fun xs t hxs => ?_
    refine ⟨congrArg Nat.succ hxs.1, List.forall_mem_cons.mpr ⟨hx.1, hxs.2.1⟩, ?_⟩
    rw [List.flatMap_cons, List.length_append, List.length_append]
    exact Nat.add_le_add hx.2 hxs.2.2

end Yields

/-- A number that names an operation is below 83. -/
theorem lt_of_isValid {t : OpTag} (h : t.isValid = true) : t.val < 83 := by
  rw [OpTag.isValid, OpTag.opcode?] at h
  have hlt : t.val.toNat < Opcode.all.length := by
    refine Classical.byContradiction fun hge => ?_
    rw [List.getElem?_eq_none (Nat.not_lt.mp hge)] at h
    cases h
  exact UInt8.lt_iff_toNat_lt.mpr hlt

/-- A block of `n` instructions that is accepted has `n` of them, and each names an operation. -/
theorem valid_of_instructions {o : ByteOrder} {s : Bytes} {pc n : Nat} {is : List Instruction}
    (hlen : s.length = n * 4) (h : instructions o pc s = .ok is) :
    is.length = n ∧ ∀ i ∈ is, i.tag.val < 83 := by
  induction n generalizing s pc is with
  | zero =>
    obtain rfl : s = [] := List.eq_nil_of_length_eq_zero (by omega)
    cases h
    exact ⟨rfl, fun _ hi => absurd hi List.not_mem_nil⟩
  | succ n ih =>
    obtain ⟨a, b, c, d, rest, rfl⟩ := exists_word_of_length hlen
    have hfewer : rest.length = n * 4 := by
      simp only [List.length_cons] at hlen
      omega
    rw [instructions] at h
    split at h
    · rename_i hvalid
      cases hrest : instructions o (pc + 1) rest with
      | ok js =>
        rw [hrest] at h
        cases h
        obtain ⟨hlength, hall⟩ := ih hfewer hrest
        exact ⟨congrArg Nat.succ hlength, List.forall_mem_cons.mpr ⟨lt_of_isValid hvalid, hall⟩⟩
      | error err =>
        rw [hrest] at h
        cases h
    · cases h

/-- A constant of a known kind takes a tag and its payload. -/
theorem rewrites_constant {o : ByteOrder} {k : Constant} {tag : UInt8} {s : Bytes}
    (hk : k.kind < 5) (hs : (putPayload o k).length ≤ s.length) :
    Rewrites (·.kind < 5) (putConstant o) k ([tag] ++ s) := by
  refine ⟨hk, ?_⟩
  have htag : (tagOf k).toList.length ≤ 1 := by
    cases tagOf k with
    | none => exact Nat.zero_le 1
    | some _ => exact Nat.le_refl 1
  rw [putConstant, List.length_append, List.length_append]
  exact Nat.add_le_add htag hs

theorem length_putAbsent : putAbsent.length = 1 := Varint.length_encode_of_lt (by decide)

theorem length_putString_nil : (putString []).length = 1 := by
  rw [putString, List.append_nil]
  exact Varint.length_encode_of_lt (by decide)

theorem length_putString_pos (s : Bytes) : 0 < (putString s).length := by
  rw [putString, List.length_append]
  exact Nat.add_pos_left (List.length_pos_iff.mpr (Varint.encode_ne_nil _)) _

section

variable (he : e.size < 0x4000000000000000)
include he

theorem yields_request {q : Request α} (hq : q.IsModest) :
    Yields e (q.read e) fun y s => q.Spells s y :=
  fun _ _ _ hleft hrun => q.exists_spells hq he hleft hrun

theorem yields_byte : Yields e byte fun b s => s = [b] := yields_request he (q := .byte) trivial

theorem yields_block {n : Nat} (hn : n ≤ 4 * maxCount) :
    Yields e (block e n) fun t s => s = t ∧ t.length = n :=
  yields_request he (q := .block n) hn

/-! ## Numbers, strings and lists -/

theorem yields_int : Yields e int (Rewrites (· ≤ maxCount) putLength) := by
  refine (yields_request he (q := .varint 0x7fffffff) trivial).mono fun n s hs => ?_
  have hcount := hs.div_lt
  have hle : n ≤ maxCount := by
    unfold maxCount
    omega
  exact ⟨hle, hs.length_encode_le (Nat.lt_of_le_of_lt hle (by decide))⟩

theorem yields_int64 : Yields e int64 (Rewrites IsCount putInt) := by
  refine (yields_int he).map fun n s hn => ?_
  have hle : n ≤ maxCount := hn.1
  have hval : (Int64.ofNat n).toInt = n :=
    Int64.toInt_ofNat_of_lt (Nat.lt_of_le_of_lt hle (by decide))
  refine ⟨⟨by omega, by omega⟩, ?_⟩
  exact hn.2

theorem yields_string? :
    Yields e (string? e) (Rewrites (fun _ => True) fun v => v.elim putAbsent putString) := by
  refine (yields_request he (q := .varint 0x7fffffffffffffff) trivial).bind fun size s hs => ?_
  have hlt := hs.div_lt
  have hshort := hs.length_encode_le (show size < 0x10000000000000000 by omega)
  by_cases h : size = 0
  · rw [if_pos h]
    refine .pure ⟨trivial, ?_⟩
    rw [List.append_nil]
    rwa [h] at hshort
  · rw [if_neg h]
    have hbody := yields_request he (q := .stringBody size) ⟨Nat.pos_of_ne_zero h, hlt⟩
    refine hbody.map fun t u hu => ⟨trivial, ?_⟩
    obtain ⟨rfl, hlen⟩ := hu
    have hsize : u.length + 1 = size := by omega
    change (putLength (u.length + 1) ++ u).length ≤ _
    rw [hsize, List.length_append, List.length_append]
    exact Nat.add_le_add_right hshort _

theorem yields_string : Yields e (string e) (Rewrites (fun _ => True) putString) := by
  refine (yields_string? he).map fun v s hv => ⟨trivial, ?_⟩
  cases v with
  | none =>
    change (putString []).length ≤ _
    rw [length_putString_nil, ← length_putAbsent]
    exact hv.2
  | some t => exact hv.2

theorem yields_word64 (o o' : ByteOrder) :
    Yields e (word64 e o) (Rewrites (fun _ => True) o'.putUInt64) := by
  refine (yields_block he (by decide)).map fun t s hs => ⟨trivial, Nat.le_of_eq ?_⟩
  rw [o'.length_putUInt64, hs.1, hs.2]

theorem yields_list {r : Nat → Reader α} {W : α → Prop} {put : α → Bytes}
    (hr : ∀ i, Yields e (r i) (Rewrites W put)) :
    Yields e (list r) (Rewrites (fun xs => xs.length ≤ maxCount ∧ ∀ x ∈ xs, W x) (putList put)) := by
  refine (yields_int he).bind fun n s hn => (Yields.times hr 0 n).mono fun xs t hxs => ?_
  obtain ⟨rfl, hall, hlen⟩ := hxs
  refine ⟨⟨hn.1, hall⟩, ?_⟩
  rw [putList, List.length_append, List.length_append]
  exact Nat.add_le_add hn.2 hlen

/-! ## Instructions, constants and upvalues -/

theorem yields_code (o o' : ByteOrder) :
    Yields e (code e o) (Rewrites (fun is => is.length ≤ maxCount ∧ ∀ i ∈ is, i.tag.val < 83)
      (putList fun i => o'.putUInt32 i.word)) := by
  refine (yields_int he).bind fun n s hn => ?_
  have hle : n ≤ maxCount := hn.1
  refine (yields_block he (by omega)).bind fun raw t ht => Yields.lift fun is his => ?_
  obtain ⟨rfl, hlen⟩ := ht
  obtain ⟨rfl, hvalid⟩ := valid_of_instructions hlen his
  refine ⟨⟨hle, hvalid⟩, ?_⟩
  rw [putList, List.append_nil, List.length_append, List.length_append, length_flatMap_word, hlen]
  exact Nat.add_le_add_right hn.2 _

theorem yields_constant (o o' : ByteOrder) (index : Nat) :
    Yields e (constant e o index) (Rewrites (·.kind < 5) (putConstant o')) := by
  refine (yields_byte he).bind fun tag s hs => ?_
  obtain rfl := hs
  split
  · exact .pure (rewrites_constant (by decide) (Nat.le_refl 0))
  · exact .pure (rewrites_constant (by decide) (Nat.le_refl 0))
  · exact .pure (rewrites_constant (by decide) (Nat.le_refl 0))
  · exact (yields_word64 he o o').map fun x t ht =>
      rewrites_constant (k := .int x.toInt64) (show (2 : UInt8) < 5 by decide) ht.2
  · exact (yields_word64 he o o').map fun x t ht =>
      rewrites_constant (k := .float ⟨x⟩) (show (3 : UInt8) < 5 by decide) ht.2
  · exact (yields_string he).map fun x t ht =>
      rewrites_constant (k := .str x false) (show (4 : UInt8) < 5 by decide) ht.2
  · exact (yields_string he).map fun x t ht =>
      rewrites_constant (k := .str x true) (show (4 : UInt8) < 5 by decide) ht.2
  · exact .throw _

/-- The names of upvalues are not among their own bytes. -/
theorem yields_upvalue :
    Yields e (upvalue e) (Rewrites (fun u => (0 ≤ u.index ∧ u.index ≤ 255) ∧ u.name = [])
      putUpvalue) := by
  refine (yields_block he (by decide)).bind fun t s hs => ?_
  obtain ⟨rfl, hlen⟩ := hs
  match s, hlen with
  | [inStack, index, kind], _ =>
    have hval : (Int64.ofNat index.toNat).toInt = index.toNat :=
      Int64.toInt_ofNat_of_lt (Nat.lt_trans index.toNat_lt (by decide))
    have hlt := index.toNat_lt
    refine .pure ⟨⟨⟨?_, ?_⟩, rfl⟩, Nat.le_refl 3⟩
    · rw [Int64.le_iff_toInt_le, hval]
      exact Int.natCast_nonneg _
    · rw [Int64.le_iff_toInt_le, hval]
      change (index.toNat : Int) ≤ 255
      omega

/-! ## Debug information -/

theorem yields_checkpoint :
    Yields e checkpoint (Rewrites (fun c => IsCount c.pc ∧ IsCount c.line)
      fun c => putInt c.pc ++ putInt c.line) := by
  refine (yields_int64 he).bind fun pc s hpc => (yields_int64 he).map fun line t hline => ?_
  refine ⟨⟨hpc.1, hline.1⟩, ?_⟩
  rw [List.length_append, List.length_append]
  exact Nat.add_le_add hpc.2 hline.2

theorem yields_localVar :
    Yields e (localVar e) (Rewrites (fun v => IsCount v.startPc ∧ IsCount v.endPc)
      fun v => putString v.name ++ putInt v.startPc ++ putInt v.endPc) := by
  refine (yields_string he).bind fun name s hname => ?_
  refine (yields_int64 he).bind fun startPc t hstart => (yields_int64 he).map fun endPc u hend => ?_
  refine ⟨⟨hstart.1, hend.1⟩, ?_⟩
  have hname := hname.2
  have hstart := hstart.2
  have hend := hend.2
  simp only [List.length_append]
  omega

/-- A table that is read has entries. -/
theorem yields_lineInfo :
    Yields e (lineInfo e) (Rewrites
      (fun table => table ≠ some [] ∧ (table.getD []).length ≤ maxCount)
      fun table => putList (fun d => [d.toUInt8]) (table.getD [])) := by
  refine (yields_int he).bind fun n s hn => ?_
  have hle : n ≤ maxCount := hn.1
  by_cases h : n = 0
  · rw [if_pos h]
    refine .pure ⟨⟨Option.some_ne_none [] |>.symm, Nat.zero_le _⟩, ?_⟩
    change (putLength 0 ++ []).length ≤ _
    rw [List.append_nil, List.append_nil, ← h]
    exact hn.2
  · rw [if_neg h]
    refine (yields_block he (by omega)).map fun t u hu => ?_
    obtain ⟨rfl, rfl⟩ := hu
    have hne : u.map UInt8.toInt8 ≠ [] := fun hnil => h (by rw [List.map_eq_nil_iff.mp hnil]; rfl)
    refine ⟨⟨fun hsome => hne (Option.some.inj hsome), ?_⟩, ?_⟩
    · rw [Option.getD_some, List.length_map]
      exact hle
    · have hbytes : ((u.map UInt8.toInt8).flatMap fun d => [d.toUInt8]).length = u.length := by
        rw [← List.map_eq_flatMap, List.length_map, List.length_map]
      change (putList (fun d : Int8 => [d.toUInt8]) (u.map UInt8.toInt8)).length ≤ _
      rw [putList, List.length_map, List.length_append, List.length_append, hbytes]
      exact Nat.add_le_add_right hn.2 _

end

/-! ## Names of upvalues -/

/-- Naming upvalues changes nothing but their names. -/
theorem map_named {f : Upvalue → α} (hf : ∀ u n, f { u with name := n } = f u)
    (us : List Upvalue) (names : List Bytes) : (named us names).map f = us.map f := by
  fun_induction named us names with
  | case1 u us n ns ih => rw [List.map_cons, List.map_cons, ih, hf]
  | case2 => rfl

theorem length_named (us : List Upvalue) (names : List Bytes) :
    (named us names).length = us.length := by
  have hmap := congrArg List.length (map_named (f := fun _ => ()) (fun _ _ => rfl) us names)
  rwa [List.length_map, List.length_map] at hmap

theorem exists_index_of_mem_named {us : List Upvalue} {names : List Bytes} {u : Upvalue}
    (hu : u ∈ named us names) : ∃ v ∈ us, v.index = u.index := by
  have hindexes : (named us names).map (·.index) = us.map (·.index) := map_named (fun _ _ => rfl) ..
  exact List.mem_map.mp (hindexes ▸ List.mem_map_of_mem hu)

/-- What is written for upvalues does not depend on their names. -/
theorem putList_named (us : List Upvalue) (names : List Bytes) :
    putList putUpvalue (named us names) = putList putUpvalue us := by
  rw [putList, putList, length_named, List.flatMap_def, List.flatMap_def, map_named fun _ _ => rfl]

/-- Upvalues without names take the names in order, as far as there are any. -/
theorem map_name_named {us : List Upvalue} (h : ∀ u ∈ us, u.name = []) (names : List Bytes) :
    ∃ k, (named us names).map (·.name) = names.take us.length ++ List.replicate k [] := by
  induction us generalizing names with
  | nil => exact ⟨0, by cases names <;> rfl⟩
  | cons u us ih =>
    cases names with
    | nil =>
      refine ⟨((u :: us).map (·.name)).length, ?_⟩
      rw [List.take_nil, List.nil_append]
      refine List.eq_replicate_of_mem fun n hn => ?_
      obtain ⟨v, hv, rfl⟩ := List.mem_map.mp hn
      exact h v hv
    | cons n ns =>
      obtain ⟨k, hk⟩ := ih (fun v hv => h v (List.mem_cons_of_mem u hv)) ns
      exact ⟨k, by rw [named, List.map_cons, hk]; rfl⟩

/-- The names that are written are among the first that were read. -/
theorem namedUpvalues_named_prefix {us : List Upvalue} (h : ∀ u ∈ us, u.name = [])
    (names : List Bytes) : namedUpvalues (named us names) <+: names := by
  obtain ⟨k, hk⟩ := map_name_named h names
  have hempty : ∀ n ∈ List.replicate k ([] : Bytes), decide (n = []) = true := fun n hn =>
    decide_eq_true (List.mem_replicate.mp hn).2
  rw [namedUpvalues, hk, List.reverse_append, List.reverse_replicate,
    List.dropWhile_append_of_pos hempty]
  have hsuffix := List.dropWhile_suffix (l := (names.take us.length).reverse) fun n => decide (n = [])
  have hprefix := List.reverse_prefix.mpr hsuffix
  rw [List.reverse_reverse] at hprefix
  exact hprefix.trans (List.take_prefix ..)

/-- A part of a list is not written in more bytes than the list. -/
theorem length_putList_mono {put : α → Bytes} {xs ys : List α} (h : xs <+: ys)
    (hlen : ys.length ≤ maxCount) : (putList put xs).length ≤ (putList put ys).length := by
  have hcount := Varint.length_encode_mono h.length_le (Nat.lt_of_le_of_lt hlen (by decide))
  have helements : (xs.flatMap put).length ≤ (ys.flatMap put).length := by
    obtain ⟨zs, rfl⟩ := h
    rw [List.flatMap_append, List.length_append]
    exact Nat.le_add_right ..
  rw [putList, putList, List.length_append, List.length_append]
  exact Nat.add_le_add hcount helements

/-! ## Functions -/

/-- The source is written in no more bytes than were taken for it. -/
theorem length_putSource_le (parent : Bytes) (v : Option Bytes) :
    (putSource parent (v.getD parent)).length ≤ (v.elim putAbsent putString).length := by
  cases v with
  | none =>
    change (putSource parent parent).length ≤ putAbsent.length
    unfold putSource
    split
    · exact Nat.le_refl _
    · rename_i h
      obtain rfl : parent = [] := Classical.byContradiction fun hne => h ⟨hne, rfl⟩
      exact Nat.le_of_eq (length_putString_nil.trans length_putAbsent.symm)
  | some source =>
    change (putSource parent source).length ≤ (putString source).length
    unfold putSource
    split
    · rw [length_putAbsent]
      exact length_putString_pos source
    · exact Nat.le_refl _

/-- **What is read as a function can be written again**, in no more bytes and in either byte
order. -/
theorem yields_function (he : e.size < 0x4000000000000000) (o o' : ByteOrder) (depth : Nat)
    (parent : Bytes) :
    Yields e (function e o depth parent) (Rewrites IsCanonical (putFunction o' parent)) := by
  induction depth generalizing parent with
  | zero => exact .throw _
  | succ depth ih =>
    refine (yields_string? he).bind fun source s₁ hsource => ?_
    refine (yields_int64 he).bind fun lineDefined s₂ hlineDefined => ?_
    refine (yields_int64 he).bind fun lastLineDefined s₃ hlastLineDefined => ?_
    refine (yields_byte he).bind fun numParams s₄ hnumParams => ?_
    refine (yields_byte he).bind fun isVararg s₅ hisVararg => ?_
    refine (yields_byte he).bind fun maxStack s₆ hmaxStack => ?_
    refine (yields_code he o o').bind fun code s₇ hcode => ?_
    refine (yields_list he (yields_constant he o o')).bind fun constants s₈ hconstants => ?_
    refine (yields_list he fun _ => yields_upvalue he).bind fun upvalues s₉ hupvalues => ?_
    refine (yields_list he fun _ => ih _).bind fun children s₁₀ hchildren => ?_
    refine (yields_lineInfo he).bind fun lineInfo s₁₁ hlineInfo => ?_
    refine (yields_list he fun _ => yields_checkpoint he).bind fun checkpoints s₁₂ hcheckpoints => ?_
    refine (yields_list he fun _ => yields_localVar he).bind fun locals s₁₃ hlocals => ?_
    refine (yields_list he fun _ => yields_string he).map fun names s₁₄ hnames => ?_
    refine ⟨isCanonical_node ?_ hlineInfo.1.1 hchildren.1.2, ?_⟩
    · exact
        { code := hcode.1.2
          constants := hconstants.1.2
          upvalues := fun u hu =>
            have ⟨v, hv, hindex⟩ := exists_index_of_mem_named hu
            hindex ▸ (hupvalues.1.2 v hv).1
          lineDefined := hlineDefined.1
          lastLineDefined := hlastLineDefined.1
          checkpoints := hcheckpoints.1.2
          locals := hlocals.1.2
          codeLength := hcode.1.1
          constantsLength := hconstants.1.1
          upvaluesLength := length_named upvalues names ▸ hupvalues.1.1
          childrenLength := hchildren.1.1
          lineInfoLength := hlineInfo.1.2
          checkpointsLength := hcheckpoints.1.1
          localsLength := hlocals.1.1 }
    · -- Part by part, what is written is no longer than what was taken.
      have hprefix := namedUpvalues_named_prefix (fun u hu => (hupvalues.1.2 u hu).2) names
      have hsource := Nat.le_trans (length_putSource_le parent source) hsource.2
      have hlineDefined := hlineDefined.2
      have hlastLineDefined := hlastLineDefined.2
      have hcode := hcode.2
      have hconstants := hconstants.2
      have hupvalues := hupvalues.2
      have hchildren := hchildren.2
      have hlineInfo : (putList (fun d => [d.toUInt8]) (lineInfo.getD [])).length ≤ s₁₁.length :=
        hlineInfo.2
      have hcheckpoints := hcheckpoints.2
      have hlocals := hlocals.2
      have hnames := Nat.le_trans (length_putList_mono hprefix hnames.1.1) hnames.2
      rw [putList, List.length_append] at hchildren
      subst hnumParams hisVararg hmaxStack
      rw [putFunction, putFunctions_eq_flatMap, putBody, putDebug, putList_named]
      simp only [List.length_append, List.length_cons, List.length_nil]
      omega

/-! ## Whole chunks -/

theorem eq_putUInt64_of_orderOf {s : Bytes} {o : ByteOrder} (hlen : s.length = 8)
    (h : orderOf s = some o) : s = o.putUInt64 sampleInt := by
  have hnumber : o.number s = sampleInt.toNat := by
    unfold orderOf at h
    split at h
    · rename_i hlittle
      cases h
      exact hlittle
    · split at h
      · rename_i hbig
        cases h
        exact hbig
      · cases h
  rw [← o.putUInt64_number hlen, hnumber, Nat.toUInt64_eq, UInt64.ofNat_toNat]

section

variable (he : e.size < 0x4000000000000000)
include he

theorem yields_statedSizes (ss : List (String × UInt8)) :
    Yields e (statedSizes ss) fun _ s => s = ss.map (·.2) := by
  induction ss with
  | nil => exact .pure rfl
  | cons x ss ih =>
    refine (yields_byte he).bind fun b s hs => ?_
    split
    · rename_i hb
      refine ih.mono fun _ t ht => ?_
      rw [hs, ht, hb]
      rfl
    · exact .throw _

/-- The header is accepted only as it is written. -/
theorem yields_headerFields :
    Yields e (headerFields e) fun o s => signature ++ s = Chunk.header o := by
  refine (yields_byte he).bind fun v s₁ hv => ?_
  split
  · exact .throw _
  rename_i hversion
  refine (yields_byte he).bind fun f s₂ hf => ?_
  split
  · exact .throw _
  rename_i hformat
  refine (yields_block he (by decide)).bind fun c s₃ hc => ?_
  split
  · exact .throw _
  rename_i hcheck
  refine (yields_statedSizes he sizes).bind fun _ s₄ hsizes => ?_
  refine (yields_block he (by decide)).bind fun sample s₅ hsample => ?_
  split
  · exact .throw _
  rename_i o ho
  refine ((yields_block he (by decide)).map (f := fun s => (o.number s).toUInt64)
    (Q := fun x s => s = o.putUInt64 x) fun t s hs => ?_).bind fun x s₆ hx => ?_
  · rw [o.putUInt64_number hs.2, hs.1]
  split
  · exact .throw _
  rename_i hfloat
  refine .pure ?_
  have hv' : v = version := Decidable.not_not.mp hversion
  have hf' : f = format := Decidable.not_not.mp hformat
  have hc' : c = check := Decidable.not_not.mp hcheck
  have hx' : x = sampleFloat := Decidable.not_not.mp hfloat
  rw [hv, hf, hc.1, hsizes, hsample.1, hx, eq_putUInt64_of_orderOf hsample.2 ho, hv', hf', hc', hx',
    Chunk.header]
  simp only [List.append_assoc, List.append_nil, List.cons_append, List.nil_append]

end

theorem length_header (o : ByteOrder) : (Chunk.header o).length = 31 := by
  cases o <;> rfl

/-- What follows the signature of a chunk that is accepted. -/
theorem yields_chunkRest (he : e.size < 0x4000000000000000) (depth : Nat) (o' : ByteOrder) :
    Yields e (chunkRest depth e) fun p s =>
      (∃ o, Chunk.header o <+: signature ++ s) ∧
        Rewrites IsCanonical (encode o') p (signature ++ s) := by
  refine (yields_headerFields he).bind fun o s hs => ?_
  refine (yields_byte he).bind fun b t ht => ?_
  refine (yields_function he o o' depth []).mono fun p u hp => ?_
  rw [← List.append_assoc, hs, ht]
  refine ⟨⟨o, List.prefix_append ..⟩, hp.1, ?_⟩
  simp only [encode, List.length_append, length_header, List.length_singleton]
  have hlen := hp.2
  omega

end Reader

/-- A tree that can be written as it is comes back. -/
theorem decode_encode_of_isCanonical {p : Prototype} (hp : IsCanonical p) (o : ByteOrder)
    (hsize : (encode o p).length < 0x4000000000000000) : decode (encode o p) = .ok p := by
  have htakes := Reader.takes_chunk (e := ⟨(encode o p).length, .word64⟩)
    (Extent.fits_of_size_lt hsize) hsize o hp.writable (Nat.le_refl _) []
  rw [List.append_nil, hp.withoutEmptyTables] at htakes
  rw [decode_of_run (htakes (Nat.le_refl _))]
  rfl

/-- What is read from a chunk can be written as it is. -/
theorem isCanonical_of_decode {data : Bytes} {p : Prototype}
    (hsize : data.length < 0x4000000000000000) (h : decode data = .ok p) : IsCanonical p := by
  obtain ⟨s, rest, hdata, -, hdelimits⟩ := exists_delimits_of_decode hsize h
  have hle : (s ++ rest).length ≤ data.length := by
    rw [hdata, List.append_assoc]
    exact (List.suffix_append ..).length_le
  have htakes := (hdelimits (data.length + 1) (Nat.lt_succ_self _)).takes ⟨data.length, .word64⟩ hsize
    rest hle
  obtain ⟨t, -, -, hcanonical, -⟩ := Reader.yields_chunkRest (e := ⟨data.length, .word64⟩) hsize _
    .little hle htakes
  exact hcanonical

/-- **Every chunk that is accepted has a canonical form.**  Its header is one of the two that are
written.  What is read from it can be written again in either byte order; the new chunk is read as
the same tree, and it is no longer than the bytes that were taken from the old one. -/
theorem decode_canonical_form {data : Bytes} {p : Prototype}
    (hsize : data.length < 0x4000000000000000) (h : decode data = .ok p) :
    (data.take 31 = header .little ∨ data.take 31 = header .big) ∧
      ∃ used rest, data = used ++ rest ∧
        (Reader.chunk ⟨data.length, .word64⟩).run data = .ok (p, rest) ∧
        ∀ o, decode (encode o p) = .ok p ∧ (encode o p).length ≤ used.length := by
  obtain ⟨s, rest, hdata, hrun, hdelimits⟩ := exists_delimits_of_decode hsize h
  have hle : (s ++ rest).length ≤ data.length := by
    rw [hdata, List.append_assoc]
    exact (List.suffix_append ..).length_le
  have htakes := (hdelimits (data.length + 1) (Nat.lt_succ_self _)).takes ⟨data.length, .word64⟩ hsize
    rest hle
  have hyields (o : ByteOrder) :
      (∃ o, header o <+: signature ++ s) ∧
        Reader.Rewrites IsCanonical (encode o) p (signature ++ s) := by
    obtain ⟨t, ht, hp⟩ := Reader.yields_chunkRest (e := ⟨data.length, .word64⟩) hsize _ o hle htakes
    rwa [List.append_cancel_right ht]
  refine ⟨?_, signature ++ s, rest, hdata, hrun, fun o => ?_⟩
  · obtain ⟨o, hprefix⟩ := (hyields .little).1
    have htake : data.take 31 = header o := by
      have hlong := hprefix.trans (List.prefix_append (signature ++ s) rest)
      rw [← hdata] at hlong
      rw [← Reader.length_header o]
      exact (List.prefix_iff_eq_take.mp hlong).symm
    cases o with
    | little => exact Or.inl htake
    | big => exact Or.inr htake
  · obtain ⟨-, hcanonical, hlen⟩ := hyields o
    refine ⟨decode_encode_of_isCanonical hcanonical o ?_, hlen⟩
    rw [hdata, List.length_append] at hsize
    omega

/-- A chunk in a form that is not written has a canonical form. -/
theorem decode_canonical_form_paddedSample :
    paddedSample.length < 0x4000000000000000 ∧ ∃ p, decode paddedSample = .ok p ∧
      (paddedSample.take 31 = header .little ∨ paddedSample.take 31 = header .big) ∧
      ∃ used rest, paddedSample = used ++ rest ∧
        (Reader.chunk ⟨paddedSample.length, .word64⟩).run paddedSample = .ok (p, rest) ∧
        ∀ o, decode (encode o p) = .ok p ∧ (encode o p).length ≤ used.length := by
  have hsize : paddedSample.length < 0x4000000000000000 := by decide
  obtain ⟨p, hp⟩ := exists_decode_paddedSample
  exact ⟨hsize, p, hp, decode_canonical_form hsize hp⟩

end LuaToC.Chunk
