import LuaToC.Proofs.Contract.Fingerprint
import LuaToC.Proofs.Tree
import LuaToC.Unit.Compile

/-! # What identifies a build

The identifier of a build is a digest of the module's name, the source and the fingerprints of the
functions, one after the other.  A zero ends the name, and no name has a zero in it.  Nothing marks
where the source ends, though, so bytes in front of a fingerprint can be read as fingerprints or as
the end of the source.

`buildInput_eq_iff` says that nothing else can be confused: two builds have the same input just when
the names are equal and leading fingerprints of one are the end of the other's source.  So the input
determines the build as soon as the number of functions or the length of the source is known.
`buildInput_collides_nestedSample` is such a pair of builds.
-/
namespace LuaToC

/-- A name that can stand in an identifier has no zero in it. -/
theorem zero_notMem_of_isCIdentifier {s : Bytes} (h : isCIdentifier s = true) : (0 : UInt8) ∉ s := by
  cases s with
  | nil => exact List.not_mem_nil
  | cons b rest =>
    rw [isCIdentifier, Bool.and_eq_true] at h
    obtain ⟨hfirst, hrest⟩ := h
    intro hmem
    rcases List.mem_cons.mp hmem with rfl | hmem
    · exact absurd hfirst (by decide)
    · exact absurd (List.all_eq_true.mp hrest 0 hmem) (by decide)

namespace Contract

/-- A text without the separator ends where the separator comes first. -/
theorem append_cons_inj_of_notMem {a b s t : Bytes} {sep : UInt8} (ha : sep ∉ a) (hb : sep ∉ b)
    (h : a ++ sep :: s = b ++ sep :: t) : a = b ∧ s = t := by
  induction a generalizing b with
  | nil =>
    cases b with
    | nil => exact ⟨rfl, (List.cons.inj h).2⟩
    | cons c b => exact absurd ((List.cons.inj h).1 ▸ List.mem_cons_self) hb
  | cons d a ih =>
    cases b with
    | nil => exact absurd ((List.cons.inj h).1 ▸ List.mem_cons_self) ha
    | cons c b =>
      obtain ⟨hhead, htail⟩ := List.cons.inj h
      obtain ⟨hname, hrest⟩ := ih (fun hmem => ha (List.mem_cons_of_mem d hmem))
        (fun hmem => hb (List.mem_cons_of_mem c hmem)) htail
      exact ⟨by rw [hhead, hname], hrest⟩

/-! ## Fingerprints in a row -/

/-- The bytes of fingerprints, one after the other. -/
abbrev hashBytes (hashes : List Fingerprint) : Bytes := hashes.flatMap fun h => h.toList

theorem length_hashBytes (hashes : List Fingerprint) :
    (hashBytes hashes).length = 32 * hashes.length := by
  induction hashes with
  | nil => rfl
  | cons h hashes ih =>
    rw [hashBytes, List.flatMap_cons, List.length_append, ih, Vector.length_toList,
      List.length_cons]
    omega

theorem toList_append_inj (g h : Fingerprint) (s t : Bytes) (heq : g.toList ++ s = h.toList ++ t) :
    g = h ∧ s = t := by
  have hlength : g.toList.length = h.toList.length := by
    rw [Vector.length_toList, Vector.length_toList]
  obtain ⟨hbytes, hrest⟩ := List.append_inj heq hlength
  exact ⟨Vector.toList_inj.mp hbytes, hrest⟩

/-- Fingerprints of a known number are determined by their bytes. -/
theorem hashBytes_inj {gs hs : List Fingerprint} (hlength : gs.length = hs.length)
    (h : hashBytes gs = hashBytes hs) : gs = hs := by
  have hparts : gs.map id = hs.map id :=
    (Fingerprint.flatMap_append_inj (P := fun _ => True) (s := []) (t := [])
      (fun g h s t _ _ => toList_append_inj g h s t) (fun _ _ => trivial) (fun _ _ => trivial)
      hlength (congrArg (· ++ []) h)).1
  rwa [List.map_id, List.map_id] at hparts

/-! ## Sources and fingerprints -/

/-- Leading fingerprints of the first build are the end of the second one's source, and the two have
everything else in common. -/
def MovesInto (s : Bytes) (hs : List Fingerprint) (t : Bytes) (gs : List Fingerprint) : Prop :=
  ∃ moved, t = s ++ hashBytes moved ∧ hs = moved ++ gs

theorem append_eq_of_movesInto {s t : Bytes} {hs gs : List Fingerprint} (h : MovesInto s hs t gs) :
    s ++ hashBytes hs = t ++ hashBytes gs := by
  obtain ⟨moved, rfl, rfl⟩ := h
  rw [hashBytes, List.flatMap_append, List.append_assoc]

/-- What a longer source has more is made of whole fingerprints. -/
theorem movesInto_of_append_eq {s t : Bytes} {hs gs : List Fingerprint}
    (hle : s.length ≤ t.length) (h : s ++ hashBytes hs = t ++ hashBytes gs) :
    MovesInto s hs t gs := by
  obtain ⟨more, rfl⟩ : ∃ more, t = s ++ more := by
    have hprefix := List.prefix_of_prefix_length_le (List.prefix_append s (hashBytes hs))
      (h ▸ List.prefix_append t (hashBytes gs)) hle
    exact hprefix.imp fun _ heq => heq.symm
  rw [List.append_assoc] at h
  have hmore := List.append_cancel_left h
  -- The lengths say how many of the fingerprints have moved.
  have hlength := congrArg List.length hmore
  rw [List.length_append, length_hashBytes, length_hashBytes] at hlength
  let count := hs.length - gs.length
  have hsplit : hashBytes (hs.take count) ++ hashBytes (hs.drop count) = more ++ hashBytes gs := by
    rw [← hmore, hashBytes, hashBytes, ← List.flatMap_append, List.take_append_drop]
  have hdrop : (hs.drop count).length = gs.length := by
    rw [List.length_drop]
    omega
  obtain ⟨hmoved, hrest⟩ := List.append_inj' hsplit
    (by rw [length_hashBytes, length_hashBytes, hdrop])
  refine ⟨hs.take count, by rw [hmoved], ?_⟩
  rw [← hashBytes_inj hdrop hrest, List.take_append_drop]

theorem append_eq_iff_movesInto {s t : Bytes} {hs gs : List Fingerprint} :
    s ++ hashBytes hs = t ++ hashBytes gs ↔ MovesInto s hs t gs ∨ MovesInto t gs s hs := by
  constructor
  · intro h
    rcases Nat.le_total s.length t.length with hle | hle
    · exact .inl (movesInto_of_append_eq hle h)
    · exact .inr (movesInto_of_append_eq hle h.symm)
  · rintro (h | h)
    · exact append_eq_of_movesInto h
    · exact (append_eq_of_movesInto h).symm

/-- No fingerprint has moved when the sources have one length, or the lists. -/
theorem eq_of_movesInto {s t : Bytes} {hs gs : List Fingerprint} (h : MovesInto s hs t gs)
    (hlength : hs.length = gs.length ∨ s.length = t.length) : s = t ∧ hs = gs := by
  obtain ⟨moved, rfl, rfl⟩ := h
  rw [List.length_append, List.length_append, length_hashBytes] at hlength
  obtain rfl : moved = [] := List.eq_nil_of_length_eq_zero (by omega)
  exact ⟨(List.append_nil s).symm, rfl⟩

/-! ## Builds -/

theorem buildInput_eq (m s : Bytes) (hs : List Fingerprint) :
    buildInput m s hs = ascii "luaot:" ++ (m ++ 0 :: (s ++ hashBytes hs)) := by
  simp [buildInput]

/-- The name ends at the first zero. -/
theorem buildInput_eq_iff_append {m n s t : Bytes} {hs gs : List Fingerprint}
    (hm : isCIdentifier m = true) (hn : isCIdentifier n = true) :
    buildInput m s hs = buildInput n t gs ↔
      m = n ∧ s ++ hashBytes hs = t ++ hashBytes gs := by
  rw [buildInput_eq, buildInput_eq]
  constructor
  · intro h
    exact append_cons_inj_of_notMem (zero_notMem_of_isCIdentifier hm)
      (zero_notMem_of_isCIdentifier hn) (List.append_cancel_left h)
  · rintro ⟨rfl, h⟩
    rw [h]

/-- **The input of a build determines it up to where the source ends.**  Two builds have the same
input just when the names are equal and leading fingerprints of one build are the end of the other's
source.  With as many functions, or with sources of one length, the builds are equal. -/
theorem buildInput_eq_iff {m n : Bytes} (hm : isCIdentifier m = true) (hn : isCIdentifier n = true)
    (s t : Bytes) (hs gs : List Fingerprint) :
    (buildInput m s hs = buildInput n t gs ↔
        m = n ∧ (MovesInto s hs t gs ∨ MovesInto t gs s hs)) ∧
      (buildInput m s hs = buildInput n t gs → hs.length = gs.length ∨ s.length = t.length →
        m = n ∧ s = t ∧ hs = gs) := by
  have hinput : buildInput m s hs = buildInput n t gs ↔
      m = n ∧ (MovesInto s hs t gs ∨ MovesInto t gs s hs) := by
    rw [buildInput_eq_iff_append hm hn, append_eq_iff_movesInto]
  refine ⟨hinput, fun h hlength => ?_⟩
  obtain ⟨hname, hmoves | hmoves⟩ := hinput.mp h
  · exact ⟨hname, eq_of_movesInto hmoves hlength⟩
  · obtain ⟨hsource, hhashes⟩ := eq_of_movesInto hmoves (hlength.imp Eq.symm Eq.symm)
    exact ⟨hname, hsource.symm, hhashes.symm⟩

/-- Builds of one function that differ in a single byte of its fingerprint have different inputs. -/
theorem buildInput_ne_singleSample :
    let hash : Fingerprint := Vector.replicate 32 7
    isCIdentifier (ascii "m") = true ∧ hash ≠ hash.set 31 8 ∧
      buildInput (ascii "m") [1] [hash] ≠ buildInput (ascii "m") [1] [hash.set 31 8] := by
  intro hash
  have hname : isCIdentifier (ascii "m") = true := by decide
  have hne : hash ≠ hash.set 31 8 := by decide
  refine ⟨hname, hne, fun h => ?_⟩
  obtain ⟨-, -, hhashes⟩ :=
    (buildInput_eq_iff hname hname [1] [1] [hash] [hash.set 31 8]).2 h (.inl rfl)
  exact hne (List.cons.inj hhashes).1

/-- The identifier of a unit's contract is made from the fingerprints of the tree. -/
theorem buildId_ofTree (m s functionPrefix : Bytes) (hasSource : Bool) (root : Prototype) :
    (ofEntries m s hasSource (Entry.ofTree functionPrefix root)).buildId =
      Digest.nameUuid (buildInput m s (root.functions.map Fingerprint.ofPrototype)) := by
  have hprotos : (Entry.ofTree functionPrefix root).map (·.proto) = root.functions := by
    have hvisits := congrArg (List.map (·.proto)) (List.zipIdx_map_fst 0 root.visits)
    rw [List.map_map, Prototype.map_proto_visits] at hvisits
    rw [Entry.ofTree, List.map_map]
    exact hvisits
  have hhashes : (((Entry.ofTree functionPrefix root).map ContractFunction.ofEntry).map (·.hash)) =
      root.functions.map Fingerprint.ofPrototype := by
    rw [← hprotos, List.map_map, List.map_map]
    rfl
  rw [ofEntries, buildIdOf, hhashes]

/-- A function that only has another one inside it can be taken away and its fingerprint put at the
end of the source. -/
theorem movesInto_of_functions_eq {outer inner : Prototype}
    (h : outer.functions = outer :: inner.functions) (s : Bytes) :
    MovesInto s (outer.functions.map Fingerprint.ofPrototype)
      (s ++ (Fingerprint.ofPrototype outer).toList)
      (inner.functions.map Fingerprint.ofPrototype) := by
  refine ⟨[Fingerprint.ofPrototype outer], ?_, ?_⟩
  · rw [hashBytes, List.flatMap_singleton]
  · rw [h, List.map_cons, List.singleton_append]

/-- A function with another one inside it, both without code. -/
def nestedSample : Prototype := ⟨default, [⟨default, []⟩]⟩

/-- The inner function of the sample alone, with the outer one's fingerprint for its source, is
another build than the sample without a source, and has the same identifier. -/
theorem buildInput_collides_nestedSample :
    let inner : Prototype := ⟨default, []⟩
    let source := (Fingerprint.ofPrototype nestedSample).toList
    let hashes := nestedSample.functions.map Fingerprint.ofPrototype
    let innerHashes := inner.functions.map Fingerprint.ofPrototype
    isCIdentifier (ascii "m") = true ∧ [] ≠ source ∧ hashes ≠ innerHashes ∧
      buildInput (ascii "m") [] hashes = buildInput (ascii "m") source innerHashes ∧
      (ofEntries (ascii "m") [] true (Entry.ofTree (ascii "f") nestedSample)).buildId =
        (ofEntries (ascii "m") source true (Entry.ofTree (ascii "f") inner)).buildId := by
  intro inner source hashes innerHashes
  have hname : isCIdentifier (ascii "m") = true := by decide
  have hfunctions : nestedSample.functions = nestedSample :: inner.functions := rfl
  have hinput : buildInput (ascii "m") [] hashes = buildInput (ascii "m") source innerHashes :=
    (buildInput_eq_iff_append hname hname).mpr
      ⟨rfl, append_eq_of_movesInto (movesInto_of_functions_eq hfunctions [])⟩
  refine ⟨hname, fun h => ?_, fun h => ?_, hinput, ?_⟩
  · have hlength : ([] : Bytes).length = 32 := by rw [h, Vector.length_toList]
    cases hlength
  · have hlength := congrArg List.length h
    rw [List.length_map, List.length_map, hfunctions, List.length_cons] at hlength
    omega
  · rw [buildId_ofTree, buildId_ofTree]
    exact congrArg Digest.nameUuid hinput

end Contract
end LuaToC
