import LuaToC.Proofs.Chunk.Requests
import LuaToC.Proofs.Chunk.RoundTrip

/-! # A chunk tells where it ends

Reading a chunk takes some bytes off the front of the data and never looks past them.  `Delimits`
says so of a reader: it takes exactly these bytes whatever follows them, in data of any size, and
of a proper part of them it says that the data end too early.  Both hold for one request, both are
kept when requests follow one another, and so they hold for every reader that only asks
(`Asks.exists_delimits`).

Functions are read to a depth that is chosen from the size of the data.  Every level takes a byte,
so a depth past the number of bytes that are left is as good as any other (`run_function_depth`),
and data of different sizes can be compared.
-/
namespace LuaToC.Chunk

/-- The reader takes exactly `s`, whatever follows, and gives `x`; with a proper part of `s` it
refuses the data as cut off. -/
structure Delimits {α : Type} (R : Extent → Reader α) (s : Bytes) (x : α) : Prop where
  takes : ∀ e : Extent, e.size < 0x4000000000000000 → Reader.Takes e (R e) s x
  cut : ∀ e : Extent, e.size < 0x4000000000000000 → ∀ t, t <+: s → t ≠ s → t.length ≤ e.size →
    ∃ err, (R e).run t = .error err ∧ err.errorClass = .truncated

namespace Delimits

variable {α β : Type} {R : Extent → Reader α} {F : α → Extent → Reader β} {s t : Bytes}

theorem pure (x : α) : Delimits (fun _ => Pure.pure x) [] x where
  takes _ _ := Reader.Takes.pure x
  cut _ _ _ ht hne _ := absurd (List.prefix_nil.mp ht) hne

theorem bind {x : α} {y : β} (hR : Delimits R s x) (hF : Delimits (F x) t y) :
    Delimits (fun e => R e >>= fun x => F x e) (s ++ t) y where
  takes e he := (hR.takes e he).bind (hF.takes e he)
  cut e he u hu hne hlen := by
    -- What is there ends inside the bytes of the second reader or before them.
    by_cases hsu : s <+: u
    · obtain ⟨v, rfl⟩ := hsu
      have hvt : v <+: t := (List.prefix_append_right_inj s).mp hu
      have hvne : v ≠ t := fun h => hne (by rw [h])
      have hvlen : v.length ≤ e.size := by
        rw [List.length_append] at hlen
        omega
      obtain ⟨err, hrun, hclass⟩ := hF.cut e he v hvt hvne hvlen
      refine ⟨err, ?_, hclass⟩
      rw [Reader.run_bind_of_ok (hR.takes e he v hlen)]
      exact hrun
    · have hus : u <+: s :=
        (List.prefix_or_prefix_of_prefix hu (List.prefix_append s t)).resolve_right hsu
      have husne : u ≠ s := fun h => hsu (h ▸ List.prefix_rfl)
      obtain ⟨err, hrun, hclass⟩ := hR.cut e he u hus husne hlen
      exact ⟨err, Reader.run_bind_of_error hrun _, hclass⟩

end Delimits

/-- A block that is not there whole is cut off. -/
theorem Reader.run_blockOr_of_prefix {e : Extent} (he : e.size < 0x4000000000000000) (cut : Error)
    {s t : Bytes} (hs : s.length < 0x4000000000000000) (ht : t <+: s) (hne : t ≠ s)
    (hlen : t.length ≤ e.size) : (blockOr e cut s.length).run t = .error cut := by
  have hlt : t.length < s.length :=
    Nat.lt_of_le_of_ne ht.length_le fun h => hne (ht.eq_of_length h)
  refine run_blockOr_of_lt cut hlen hlt ?_
  obtain ⟨size, bounds⟩ := e
  cases bounds with
  | word64 =>
    refine decide_eq_true ?_
    dsimp only at he ⊢
    omega
  | unbounded => rfl

/-- A request takes what spells its answer, and is not content with less. -/
theorem Request.delimits {β : Type} {q : Request β} {s : Bytes} {y : β} (hq : q.IsModest)
    (hs : s.length < 0x4000000000000000) (h : q.Spells s y) : Delimits q.read s y where
  takes e he := q.takes hq he h
  cut e he t ht hne hlen := by
    cases q with
    | byte =>
      obtain rfl : s = [y] := h
      rcases List.prefix_cons_iff.mp ht with rfl | ⟨u, rfl, hu⟩
      · exact ⟨.truncated, rfl, rfl⟩
      · exact absurd (by rw [List.prefix_nil.mp hu]) hne
    | varint limit =>
      have hdecode : Varint.decode limit t = .error .truncated :=
        Varint.Spells.decodeFrom_of_prefix h ht hne
      refine ⟨.truncated, ?_, rfl⟩
      simp only [read, Reader.varint, StateT.run_bind, StateT.run_get, pure_bind, hdecode]
      rfl
    | block n =>
      obtain ⟨rfl, rfl⟩ := h
      exact ⟨_, Reader.run_blockOr_of_prefix he .truncated hs ht hne hlen, rfl⟩
    | stringBody size =>
      obtain ⟨rfl, hlen'⟩ := h
      refine ⟨.truncatedString (e.size - t.length) size, ?_, rfl⟩
      rw [read, Reader.run_stringBody, ← hlen']
      exact Reader.run_blockOr_of_prefix he _ hs ht hne hlen

/-- **Readers that only ask delimit what they take.** -/
theorem Asks.exists_delimits {α : Type} {R : Extent → Reader α} (hR : Asks R) {e : Extent}
    (he : e.size < 0x4000000000000000) {left rest : Bytes} {x : α} (hleft : left.length ≤ e.size)
    (h : (R e).run left = .ok (x, rest)) : ∃ s, left = s ++ rest ∧ Delimits R s x := by
  induction hR generalizing left with
  | pure y =>
    obtain ⟨rfl, rfl⟩ := Prod.mk.inj (Except.ok.inj h)
    exact ⟨[], rfl, .pure y⟩
  | throw _ => cases h
  | ask q hq _ ih =>
    obtain ⟨y, left', hfirst, hnext⟩ := Reader.run_bind_eq_ok h
    obtain ⟨s, rfl, hs⟩ := q.exists_spells hq he hleft hfirst
    rw [List.length_append] at hleft
    obtain ⟨t, rfl, ht⟩ := ih s y hs (by omega) hnext
    refine ⟨s ++ t, (List.append_assoc ..).symm, ?_⟩
    exact (q.delimits hq (by omega) hs).bind ht

namespace Reader

variable {α β : Type} {e : Extent} {n : Nat}

/-! ## The depth of functions -/

/-- The two readers do the same with data of at most `n` bytes. -/
def SameBelow (n : Nat) (r r' : Reader α) : Prop :=
  ∀ left : Bytes, left.length ≤ n → r.run left = r'.run left

/-- A reader that only asks leaves no more than there was. -/
theorem SameBelow.bind (he : e.size < 0x4000000000000000) (hn : n ≤ e.size)
    {R : Extent → Reader α} (hR : Asks R) {r' : Reader α} {f f' : α → Reader β}
    (hr : SameBelow n (R e) r') (hf : ∀ x, SameBelow n (f x) (f' x)) :
    SameBelow n (R e >>= f) (r' >>= f') := by
  intro left hleft
  have hsame := hr left hleft
  cases hrun : (R e).run left with
  | error err =>
    rw [hrun] at hsame
    rw [run_bind_of_error hrun, run_bind_of_error hsame.symm]
  | ok p =>
    rw [hrun] at hsame
    obtain ⟨s, rfl, -⟩ := hR.exists_delimits he (Nat.le_trans hleft hn) hrun
    rw [List.length_append] at hleft
    rw [run_bind_of_ok hrun, run_bind_of_ok hsame.symm]
    exact hf p.1 p.2 (by omega)

/-- The same reader first, and then two that agree. -/
theorem SameBelow.after (he : e.size < 0x4000000000000000) (hn : n ≤ e.size)
    {R : Extent → Reader α} (hR : Asks R) {f f' : α → Reader β}
    (hf : ∀ x, SameBelow n (f x) (f' x)) : SameBelow n (R e >>= f) (R e >>= f') :=
  SameBelow.bind he hn hR (fun _ _ => rfl) hf

theorem SameBelow.list (he : e.size < 0x4000000000000000) (hn : n ≤ e.size)
    {R : Extent → Reader α} (hR : Asks R) {r' : Reader α} (hr : SameBelow n (R e) r') :
    SameBelow n (list fun _ => R e) (list fun _ => r') := by
  refine SameBelow.after he hn asks_int fun count => ?_
  have htimes (i : Nat) : SameBelow n (times (fun _ => R e) i count) (times (fun _ => r') i count) := by
    induction count generalizing i with
    | zero => exact fun _ _ => rfl
    | succ count ih =>
      refine SameBelow.bind he hn hR hr fun x => ?_
      exact SameBelow.bind he hn (Asks.times (fun _ => hR) (i + 1) count) (ih (i + 1)) fun _ _ _ => rfl
  exact htimes 0

theorem run_string?_nil (e : Extent) : (string? e).run [] = .error .truncated := by
  simp only [string?, varint, Varint.decode, Varint.decodeFrom, StateT.run_bind, StateT.run_get,
    pure_bind]
  rfl

/-- A string takes a byte at least. -/
theorem length_lt_of_string? (he : e.size < 0x4000000000000000) {left rest : Bytes}
    {source : Option Bytes} (hleft : left.length ≤ e.size)
    (h : (string? e).run left = .ok (source, rest)) : rest.length < left.length := by
  obtain ⟨s, rfl, hs⟩ := asks_string?.exists_delimits he hleft h
  have hne : s ≠ [] := by
    rintro rfl
    have hnil := hs.takes e he [] (Nat.zero_le _)
    rw [List.append_nil, run_string?_nil] at hnil
    cases hnil
  have hpos := List.length_pos_iff.mpr hne
  rw [List.length_append]
  omega

/-- A depth past the number of bytes that are left is never reached, so it does not matter which
one it is. -/
theorem run_function_depth (he : e.size < 0x4000000000000000) (o : ByteOrder) {depth depth' : Nat}
    {parent left : Bytes} (hleft : left.length ≤ e.size) (hdepth : left.length < depth)
    (hdepth' : left.length < depth') :
    (function e o depth parent).run left = (function e o depth' parent).run left := by
  induction depth generalizing depth' parent left with
  | zero => omega
  | succ depth ih =>
    obtain ⟨depth', rfl⟩ : ∃ d, depth' = d + 1 := ⟨depth' - 1, by omega⟩
    rw [function, function]
    cases hsource : (string? e).run left with
    | error err => rw [run_bind_of_error hsource, run_bind_of_error hsource]
    | ok p =>
      obtain ⟨source, rest⟩ := p
      have hshorter := length_lt_of_string? he hleft hsource
      have hn : rest.length ≤ e.size := by omega
      have hchild : SameBelow rest.length (function e o depth (source.getD parent))
          (function e o depth' (source.getD parent)) :=
        fun left' hleft' => ih (by omega) (by omega) (by omega)
      rw [run_bind_of_ok hsource, run_bind_of_ok hsource]
      -- Only the readers of the children differ, and they meet fewer bytes.
      refine (?_ : SameBelow rest.length _ _) rest (Nat.le_refl _)
      refine .after he hn asks_int64 fun lineDefined => ?_
      refine .after he hn asks_int64 fun lastLineDefined => ?_
      refine .after he hn asks_byte fun numParams => ?_
      refine .after he hn asks_byte fun isVararg => ?_
      refine .after he hn asks_byte fun maxStack => ?_
      refine .after he hn (asks_code o) fun code => ?_
      refine .after he hn (asks_list (asks_constant o)) fun constants => ?_
      refine .after he hn (asks_list fun _ => asks_upvalue) fun upvalues => ?_
      refine .bind he hn (asks_list fun _ => asks_function o depth _)
        (.list he hn (asks_function o depth _) hchild) fun children => ?_
      exact fun _ _ => rfl

/-! ## Whole chunks -/

theorem run_chunk_of_not_hasSignature (e : Extent) {data : Bytes} (h : hasSignature data = false) :
    (chunk e).run data = .error .notChunk := by
  refine run_bind_of_error ?_ _
  simp only [header, StateT.run_bind, StateT.run_get, pure_bind, h]
  rfl

theorem run_chunk_of_hasSignature (e : Extent) {data : Bytes} (h : hasSignature data = true) :
    (chunk e).run data = (chunkRest (e.size + 1) e).run (data.drop signature.length) := by
  have hheader : (header e).run data = (headerFields e).run (data.drop signature.length) := by
    simp only [header, StateT.run_bind, StateT.run_get, pure_bind, h]
    rfl
  rw [chunk, chunkRest, StateT.run_bind, StateT.run_bind, hheader]

/-- After the signature functions may be read to any depth past the size of the data. -/
theorem run_chunk (he : e.size < 0x4000000000000000) {data : Bytes}
    (hsig : hasSignature data = true) (hdata : data.length ≤ e.size) {depth : Nat}
    (hdepth : e.size < depth) :
    (chunk e).run data = (chunkRest depth e).run (data.drop signature.length) := by
  have hsame : SameBelow e.size (chunkRest (e.size + 1) e) (chunkRest depth e) := by
    refine SameBelow.after he (Nat.le_refl _) asks_headerFields fun o => ?_
    refine SameBelow.after he (Nat.le_refl _) asks_byte fun _ => ?_
    exact fun left hleft => run_function_depth he o hleft (by omega) (by omega)
  rw [run_chunk_of_hasSignature e hsig]
  refine hsame _ ?_
  rw [List.length_drop]
  omega

end Reader

theorem decode_of_run {data : Bytes} {a : Except Error (Prototype × Bytes)}
    (h : (Reader.chunk ⟨data.length, .word64⟩).run data = a) : decode data = (·.1) <$> a := by
  rw [decode, decodeWith, h]

/-- What was taken for a chunk: the signature and the bytes that the rest delimits, at any depth
past the size of the data. -/
theorem exists_delimits_of_decode {data : Bytes} {p : Prototype}
    (hsize : data.length < 0x4000000000000000) (h : decode data = .ok p) :
    ∃ s rest, data = signature ++ s ++ rest ∧
      (Reader.chunk ⟨data.length, .word64⟩).run data = .ok (p, rest) ∧
      ∀ depth > data.length, Delimits (Reader.chunkRest depth) s p := by
  let e : Extent := ⟨data.length, .word64⟩
  obtain ⟨rest, hrun⟩ : ∃ rest, (Reader.chunk e).run data = .ok (p, rest) := by
    cases hrun : (Reader.chunk e).run data with
    | error err =>
      rw [decode_of_run hrun] at h
      cases h
    | ok x =>
      rw [decode_of_run hrun] at h
      cases h
      exact ⟨x.2, rfl⟩
  have hsig : hasSignature data = true := by
    cases hsig : hasSignature data with
    | true => rfl
    | false =>
      rw [Reader.run_chunk_of_not_hasSignature e hsig] at hrun
      cases hrun
  have hdepth (depth : Nat) (hlt : data.length < depth) :
      ∃ s, data.drop signature.length = s ++ rest ∧ Delimits (Reader.chunkRest depth) s p := by
    have hrest := hrun
    rw [Reader.run_chunk (e := e) hsize hsig (Nat.le_refl _) hlt] at hrest
    refine (Reader.asks_chunkRest depth).exists_delimits (e := e) hsize ?_ hrest
    rw [List.length_drop]
    exact Nat.sub_le ..
  obtain ⟨s, hs, -⟩ := hdepth (data.length + 1) (Nat.lt_succ_self _)
  refine ⟨s, rest, ?_, hrun, fun depth hlt => ?_⟩
  · rw [List.append_assoc, ← hs]
    exact (List.prefix_iff_eq_append.mp (List.isPrefixOf_iff_prefix.mp hsig)).symm
  · obtain ⟨t, ht, hdelimits⟩ := hdepth depth hlt
    rwa [List.append_cancel_right (hs.symm.trans ht)]

/-- Reading data that begin with the signature, at any depth past two sizes. -/
theorem decode_signature_append {s : Bytes} (hsize : (signature ++ s).length < 0x4000000000000000)
    (bound : Nat) :
    ∃ depth > bound, decode (signature ++ s) =
      (·.1) <$> (Reader.chunkRest depth ⟨(signature ++ s).length, .word64⟩).run s := by
  have hsig : hasSignature (signature ++ s) = true :=
    List.isPrefixOf_iff_prefix.mpr (List.prefix_append ..)
  have hdepth : (signature ++ s).length < bound + (signature ++ s).length + 1 := by omega
  have hrun := Reader.run_chunk (e := ⟨(signature ++ s).length, .word64⟩) hsize hsig (Nat.le_refl _)
    hdepth
  rw [List.drop_left] at hrun
  exact ⟨bound + (signature ++ s).length + 1, by omega, decode_of_run hrun⟩

section

variable {bound : Nat} {s : Bytes} {p : Prototype}
  (h : ∀ depth > bound, Delimits (Reader.chunkRest depth) s p)
include h

/-- Data that begin with the bytes of a chunk are that chunk, whatever follows. -/
theorem decode_of_delimits (rest : Bytes)
    (hsize : (signature ++ (s ++ rest)).length < 0x4000000000000000) :
    decode (signature ++ (s ++ rest)) = .ok p := by
  obtain ⟨depth, hdepth, hdecode⟩ := decode_signature_append hsize bound
  have hlen : (s ++ rest).length ≤ (signature ++ (s ++ rest)).length :=
    (List.suffix_append ..).length_le
  rw [hdecode, (h depth hdepth).takes _ hsize rest hlen]
  rfl

/-- A proper part of the bytes of a chunk is cut off. -/
theorem decode_of_delimits_prefix {t : Bytes} (ht : t <+: s) (hne : t ≠ s)
    (hsize : (signature ++ t).length < 0x4000000000000000) :
    ∃ err, decode (signature ++ t) = .error err ∧ err.errorClass = .truncated := by
  obtain ⟨depth, hdepth, hdecode⟩ := decode_signature_append hsize bound
  obtain ⟨err, hrun, hclass⟩ := (h depth hdepth).cut ⟨(signature ++ t).length, .word64⟩ hsize t ht hne
    (List.suffix_append ..).length_le
  refine ⟨err, ?_, hclass⟩
  rw [hdecode, hrun]
  rfl

end

/-- **A chunk tells where it ends.**  When data are read as `p`, there is a number of bytes that
decides it: any data with the same first `n` bytes are read as `p`, and with fewer of them the data
are refused, as cut off or, when not even the signature is there, as no chunk.  A chunk that was
written has no bytes to spare.  The name of a chunk plays no part, since it is only used in the
message of a refusal. -/
theorem decode_self_delimiting {data : Bytes} {p : Prototype}
    (hsize : data.length < 0x4000000000000000) (h : decode data = .ok p) :
    ∃ n ≤ data.length,
      (∀ other : Bytes, other.length < 0x4000000000000000 → other.take n = data.take n →
        decode other = .ok p) ∧
      (∀ m, 4 ≤ m → m < n →
        ∃ err, decode (data.take m) = .error err ∧ err.errorClass = .truncated) ∧
      (∀ m < 4, decode (data.take m) = .error .notChunk) ∧
      ∀ (o : ByteOrder) (q : Prototype), (∀ f ∈ q.functions, Writable f) → data = encode o q →
        n = data.length := by
  obtain ⟨s, rest, hdata, hrun, hdelimits⟩ := exists_delimits_of_decode hsize h
  have hlen : data.length = 4 + s.length + rest.length := by
    rw [hdata, List.length_append, List.length_append]
    rfl
  have htake : data.take (4 + s.length) = signature ++ s := by
    rw [hdata]
    exact List.take_left' (List.length_append ..)
  refine ⟨4 + s.length, by omega, fun other hother hsame => ?_, fun m hm hlt => ?_, fun m hm => ?_,
    fun o q hw hq => ?_⟩
  · have hsplit : other = signature ++ (s ++ other.drop (4 + s.length)) := by
      rw [← List.append_assoc, ← htake, ← hsame, List.take_append_drop]
    rw [hsplit] at hother ⊢
    exact decode_of_delimits hdelimits _ hother
  · have hpart : data.take m = signature ++ s.take (m - 4) := by
      have hshorter : data.take m = (data.take (4 + s.length)).take m := by
        rw [List.take_take, Nat.min_eq_left (by omega)]
      rw [hshorter, htake, List.take_append, List.take_of_length_le (show signature.length ≤ m from hm)]
      rfl
    have hne : s.take (m - 4) ≠ s := by
      intro heq
      have hshort := congrArg List.length heq
      rw [List.length_take] at hshort
      omega
    rw [hpart]
    refine decode_of_delimits_prefix hdelimits (List.take_prefix ..) hne ?_
    rw [← hpart, List.length_take]
    omega
  · have hno : hasSignature (data.take m) = false := by
      refine Bool.eq_false_iff.mpr fun hsig => ?_
      have hfour : 4 ≤ (data.take m).length := (List.isPrefixOf_iff_prefix.mp hsig).length_le
      rw [List.length_take] at hfour
      omega
    rw [decode_of_run (Reader.run_chunk_of_not_hasSignature _ hno)]
    rfl
  · -- The writer's own bytes are all taken, so nothing is left over.
    have hall := Reader.takes_chunk (e := ⟨data.length, .word64⟩) (Extent.fits_of_size_lt hsize) hsize o hw
      (Nat.le_of_eq (congrArg List.length hq.symm)) []
    rw [List.append_nil, ← hq] at hall
    have hnil : rest = [] := congrArg Prod.snd (Except.ok.inj (hrun.symm.trans (hall (Nat.le_refl _))))
    rw [hlen, hnil]
    rfl

/-- A chunk in a form that is not written: numbers have zeros in front, flags are neither 0 nor 1,
a child repeats the source of its parent, a constant and a local have no string where an empty one
is meant, there are more names than upvalues, and bytes follow the end. -/
def paddedSample : Bytes :=
  let child : Bytes :=
    [0x83, 64, 109, 0x81, 0x82, 0, 0, 2, 0x80, 0x80, 0x80, 0x80, 0x80, 0x80, 0x80, 0x80]
  header .big ++ [0] ++
    [0, 0, 0x83, 64, 109, 0, 0x80, 0x80, 0, 7, 2] ++
    [0x81, 0, 0, 0, 0x47] ++
    [0, 0x82, 0x04, 0x80, 0x11] ++
    [0x81, 9, 255, 1] ++
    [0x81] ++ child ++
    [0x81, 0xff, 0x81, 0x80, 0, 0x85, 0x81, 0x80, 0x80, 0x81] ++
    [0x83, 0x81, 0x82, 120, 0x80] ++
    [1, 2, 3]

theorem exists_decode_paddedSample : ∃ p, decode paddedSample = .ok p := by
  have hok : (decode paddedSample).isOk = true := rfl
  cases h : decode paddedSample with
  | ok p => exact ⟨p, rfl⟩
  | error err =>
    rw [h] at hok
    cases hok

/-- The sample is read as its first bytes decide, although it is not in the form that is written. -/
theorem decode_self_delimiting_paddedSample :
    paddedSample.length < 0x4000000000000000 ∧
      ∃ p, decode paddedSample = .ok p ∧ ∃ n ≤ paddedSample.length,
        (∀ other : Bytes, other.length < 0x4000000000000000 →
          other.take n = paddedSample.take n → decode other = .ok p) ∧
        (∀ m, 4 ≤ m → m < n →
          ∃ err, decode (paddedSample.take m) = .error err ∧ err.errorClass = .truncated) ∧
        ∀ m < 4, decode (paddedSample.take m) = .error .notChunk := by
  have hsize : paddedSample.length < 0x4000000000000000 := by decide
  obtain ⟨p, hp⟩ := exists_decode_paddedSample
  obtain ⟨n, hn, hsame, hcut, hsignature, -⟩ := decode_self_delimiting hsize hp
  exact ⟨hsize, p, hp, n, hn, hsame, hcut, hsignature⟩

end LuaToC.Chunk
