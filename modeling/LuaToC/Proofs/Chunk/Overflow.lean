import LuaToC.Proofs.Chunk.Delimited

/-! # Where the end of a block wraps around

The end of a block is computed in 64-bit numbers.  A block that the data have ends inside the data,
so its end is exact; a count of elements asks for a few billion bytes at most; and that leaves the
bodies of strings, whose declared size may be close to the largest number.  `Agree` relates the
reader that computes in 64-bit numbers with the one that computes exactly: they do the same, unless
the exact one meets a string body that is cut off and whose end is no 64-bit number.  There the other
one takes a slice that is not in the data.

One request is a step of both readers (`Request.agree`), and a sequence of requests stops at the
first refusal in both (`Asks.agree`).
-/
namespace LuaToC.Chunk

/-- The refusal is that of a string body whose end is past the largest 64-bit number. -/
def Error.Overflows : Error → Prop
  | .truncatedString start size => 0x8000000000000000 ≤ start + (size - 1)
  | _ => False

/-- What the exact reader can refuse data of the given size for: no slice leaves the data, and a
string body that is cut off begins in the data and ends after them. -/
structure Error.IsSound (size : Nat) (err : Error) : Prop where
  reported : err.errorClass ≠ .crash
  cut : ∀ start declared, err = .truncatedString start declared →
    start ≤ size ∧ size < start + (declared - 1) ∧
      declared / 128 < 0x7fffffffffffffff / 128

/-- What the reader in 64-bit numbers makes of data of the given size, and what the exact one does:
they come to the same, or the exact one refuses a string body whose end overflows, and the other
one leaves the data. -/
inductive Agree {α : Type} (size : Nat) : Except Error α → Except Error α → Prop
  | ok (x : α) : Agree size (.ok x) (.ok x)
  | refused {err : Error} (hsound : err.IsSound size) (h : ¬ err.Overflows) :
    Agree size (.error err) (.error err)
  | overflow {err : Error} (hsound : err.IsSound size) (h : err.Overflows) :
    Agree size (.error .sizeOverflow) (.error err)

theorem Agree.map {α β : Type} {size : Nat} {word exact : Except Error α}
    (h : Agree size word exact) (f : α → β) : Agree size (f <$> word) (f <$> exact) := by
  cases h with
  | ok x => exact .ok (f x)
  | refused hsound hno => exact .refused hsound hno
  | overflow hsound hover => exact .overflow hsound hover

section

variable {α : Type} {size : Nat} {word exact : Except Error α} (h : Agree size word exact)
include h

theorem Agree.isSound {err : Error} (herr : exact = .error err) : err.IsSound size := by
  cases h with
  | ok x => cases herr
  | refused hsound _ => exact Except.error.inj herr ▸ hsound
  | overflow hsound _ => exact Except.error.inj herr ▸ hsound

theorem Agree.eq_of_not_overflows (hno : ∀ err, exact = .error err → ¬ err.Overflows) :
    word = exact := by
  cases h with
  | ok x => rfl
  | refused _ _ => rfl
  | overflow _ hover => exact absurd hover (hno _ rfl)

theorem Agree.eq_of_overflows {err : Error} (herr : exact = .error err) (hover : err.Overflows) :
    word = .error .sizeOverflow := by
  cases h with
  | ok x => cases herr
  | refused _ hno => exact absurd (Except.error.inj herr ▸ hover) hno
  | overflow _ _ => rfl

end

theorem Agree.of_isStated {α : Type} (size : Nat) {err : Error} (h : err.IsStated) :
    Agree (α := α) size (.error err) (.error err) := by
  cases err with
  | truncatedString | sizeOverflow => exact h.elim
  | _ => exact .refused ⟨nofun, nofun⟩ nofun

/-! ## One request -/

section

variable {size n : Nat} {left : Bytes} (hsize : size < 0x4000000000000000)
  (hleft : left.length ≤ size)
include hsize hleft

/-- A block is there for both readers, or it is refused by both, or its end wraps. -/
theorem Reader.agree_blockOr {cut : Error} (hn : n < 0x8000000000000000)
    (hsound : left.length < n → cut.IsSound size)
    (hcut : left.length < n → (cut.Overflows ↔ 0x8000000000000000 ≤ size - left.length + n)) :
    Agree size ((blockOr ⟨size, .word64⟩ cut n).run left)
      ((blockOr ⟨size, .unbounded⟩ cut n).run left) := by
  by_cases hle : n ≤ left.length
  · rw [run_blockOr_of_le (Extent.fits_of_size_lt hsize) cut hleft hle,
      run_blockOr_of_le (Extent.fits_of_size_lt hsize) cut hleft hle]
    exact .ok _
  · have hlt : left.length < n := Nat.not_le.mp hle
    rw [run_blockOr_of_lt (e := ⟨size, .unbounded⟩) cut hleft hlt rfl]
    by_cases hover : cut.Overflows
    · rw [run_blockOr_of_overflow cut hsize hn ((hcut hlt).mp hover)]
      exact .overflow (hsound hlt) hover
    · have hstop : size - left.length + n < 0x8000000000000000 :=
        Nat.not_le.mp fun h => hover ((hcut hlt).mpr h)
      rw [run_blockOr_of_lt (e := ⟨size, .word64⟩) cut hleft hlt (decide_eq_true hstop)]
      exact .refused (hsound hlt) hover

theorem Request.agree {β : Type} {q : Request β} (hq : q.IsModest) :
    Agree size ((q.read ⟨size, .word64⟩).run left) ((q.read ⟨size, .unbounded⟩).run left) := by
  cases q with
  | byte =>
    cases left with
    | nil => exact .of_isStated size trivial
    | cons b left => exact .ok _
  | varint limit =>
    simp only [read, Reader.varint, StateT.run_bind, StateT.run_get, pure_bind]
    split
    · exact .of_isStated size trivial
    · exact .of_isStated size trivial
    · exact .ok _
  | block n =>
    -- Counts are so small that the end of a block never wraps.
    have hn : n ≤ 4 * 0x7fffff7f := hq
    refine Reader.agree_blockOr hsize hleft (by omega) (fun _ => ⟨by decide, ?_⟩) fun _ => ?_
    · rintro _ _ ⟨⟩
    · exact ⟨False.elim, fun h => by omega⟩
  | stringBody declared =>
    have hdeclared := hq.2
    rw [read, read, Reader.run_stringBody, Reader.run_stringBody]
    refine Reader.agree_blockOr hsize hleft (by omega) (fun hlt => ⟨?_, ?_⟩) fun _ => Iff.rfl
    · rintro ⟨⟩
    · rintro _ _ ⟨⟩
      exact ⟨Nat.sub_le .., by dsimp only; omega, hdeclared⟩

end

/-! ## All requests -/

/-- **The two readers agree on all data.** -/
theorem Asks.agree {α : Type} {R : Extent → Reader α} (hR : Asks R) {size : Nat}
    (hsize : size < 0x4000000000000000) {left : Bytes} (hleft : left.length ≤ size) :
    Agree size ((R ⟨size, .word64⟩).run left) ((R ⟨size, .unbounded⟩).run left) := by
  induction hR generalizing left with
  | pure x => exact .ok _
  | throw h => exact .of_isStated size h
  | ask q hq _ ih =>
    have hstep := q.agree hsize hleft hq
    generalize hword : (q.read ⟨size, .word64⟩).run left = word at hstep
    generalize hexact : (q.read ⟨size, .unbounded⟩).run left = exact at hstep
    cases hstep with
    | ok p =>
      obtain ⟨y, rest⟩ := p
      obtain ⟨s, rfl, hs⟩ := q.exists_spells hq hsize hleft hexact
      rw [List.length_append] at hleft
      rw [Reader.run_bind_of_ok hword, Reader.run_bind_of_ok hexact]
      exact ih s y hs (by omega)
    | refused hsound hno =>
      rw [Reader.run_bind_of_error hword, Reader.run_bind_of_error hexact]
      exact .refused hsound hno
    | overflow hsound hover =>
      rw [Reader.run_bind_of_error hword, Reader.run_bind_of_error hexact]
      exact .overflow hsound hover

theorem agree_decode {data : Bytes} (hsize : data.length < 0x4000000000000000) :
    Agree data.length (decode data) (decodeWith .unbounded data) := by
  refine Agree.map ?_ _
  cases hsig : hasSignature data with
  | false =>
    rw [Reader.run_chunk_of_not_hasSignature _ hsig, Reader.run_chunk_of_not_hasSignature _ hsig]
    exact .of_isStated _ trivial
  | true =>
    rw [Reader.run_chunk_of_hasSignature _ hsig, Reader.run_chunk_of_hasSignature _ hsig]
    refine (Reader.asks_chunkRest (data.length + 1)).agree hsize ?_
    rw [List.length_drop]
    omega

/-- **The only read outside of the data is that of an overflowing string.**  The exact reader comes
to a function or to one of five refusals, and takes no slice and no index outside of the data.  The
reader in 64-bit numbers does the same, except just when the exact one refuses a cut off string body
with a declared size that ends past the largest number; there it ends the program.  Counts alone
never lead there, and neither do data of fewer than 130 bytes. -/
theorem decode_eq_exact_or_overflows (data : Bytes) (hsize : data.length < 0x4000000000000000) :
    let exact := decodeWith .unbounded data
    let overflows := ∃ start size, exact = .error (.truncatedString start size) ∧
      0x8000000000000000 ≤ start + (size - 1)
    (∀ err, exact = .error err → err.errorClass ∈
        [.notChunk, .versionMismatch, .formatMismatch, .truncated, .badChunk]) ∧
      (∀ start size, exact = .error (.truncatedString start size) →
        start ≤ data.length ∧ data.length < start + (size - 1)) ∧
      (decode data ≠ exact ↔ overflows) ∧
      ((∃ err, decode data = .error err ∧ err.errorClass = .crash) ↔ overflows) ∧
      (data.length < 130 → ¬ overflows) := by
  intro exact overflows
  have hagree : Agree data.length (decode data) exact := agree_decode hsize
  have hcrash (h : overflows) : decode data = .error .sizeOverflow := by
    obtain ⟨start, size, herr, hlarge⟩ := h
    exact hagree.eq_of_overflows herr hlarge
  have hsame (h : ¬ overflows) : decode data = exact := by
    refine hagree.eq_of_not_overflows fun err herr hover => ?_
    cases err with
    | truncatedString start size => exact h ⟨start, size, herr, hover⟩
    | _ => exact hover
  have hreported (err : Error) (herr : exact = .error err) : err.errorClass ≠ .crash :=
    (hagree.isSound herr).reported
  refine ⟨fun err herr => ?_, fun start size herr => ?_, ⟨fun hne => ?_, fun hover heq => ?_⟩,
    ⟨fun hcrashed => ?_, fun hover => ?_⟩, fun hshort hover => ?_⟩
  · have hclass := hreported err herr
    revert hclass
    cases err.errorClass <;> simp
  · obtain ⟨hstart, hend, -⟩ := (hagree.isSound herr).cut start size rfl
    exact ⟨hstart, hend⟩
  · exact Classical.byContradiction fun hno => hne (hsame hno)
  · exact hreported .sizeOverflow (heq.symm.trans (hcrash hover)) rfl
  · obtain ⟨err, herr, hclass⟩ := hcrashed
    refine Classical.byContradiction fun hno => ?_
    exact hreported err ((hsame hno).symm.trans herr) hclass
  · exact ⟨.sizeOverflow, hcrash hover, rfl⟩
  · -- A size that is read stays 128 below the largest number, so the string has to begin at 130.
    obtain ⟨start, size, herr, hlarge⟩ := hover
    obtain ⟨hstart, -, hdeclared⟩ := (hagree.isSound herr).cut start size rfl
    omega

/-- The shortest data whose end wraps: the size of the source stands after 89 zeros and is the
largest that can be read. -/
def overflowSample : Bytes :=
  header .little ++ [0] ++ List.replicate 89 0 ++
    [0x7f, 0x7f, 0x7f, 0x7f, 0x7f, 0x7f, 0x7f, 0x7e, 0xff]

set_option maxRecDepth 2000 in
theorem decode_overflowSample :
    overflowSample.length = 130 ∧
      decodeWith .unbounded overflowSample = .error (.truncatedString 130 0x7fffffffffffff7f) ∧
      ∃ err, decode overflowSample = .error err ∧ err.errorClass = .crash := by
  have hlength : overflowSample.length = 130 := by decide
  have hexact : decodeWith .unbounded overflowSample =
      .error (.truncatedString 130 0x7fffffffffffff7f) := by rfl
  obtain ⟨-, -, -, hcrash, -⟩ := decode_eq_exact_or_overflows overflowSample (by rw [hlength]; decide)
  exact ⟨hlength, hexact, hcrash.mpr ⟨130, 0x7fffffffffffff7f, hexact, by decide⟩⟩

end LuaToC.Chunk
