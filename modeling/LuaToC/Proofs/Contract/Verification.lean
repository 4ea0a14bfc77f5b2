import LuaToC.Proofs.Contract.Fingerprint
import LuaToC.Proofs.Tree

/-! # Which trees a contract accepts

A contract is made from a tree and later compared with another one, function by function in the
order of numbering.  Two trees `Agree` when they have the same shape and the same `Content` at
every position.  Agreeing trees look the same to every contract (`verify_congr`), and unless two
different inputs have the same digest, the contract of a tree accepts nothing but the trees that
agree with it.

The converse direction does not need the paths.  A function's fingerprint covers its number of
children, and a list of functions in which each stands before its children, with the number of
its children, is the list of one tree only (`agree_of_outline`).
-/
namespace LuaToC
namespace Prototype

/-! ## Agreement -/

mutual

/-- The trees have the same shape, and at every position what is compared is the same. -/
def Agree : Prototype → Prototype → Prop
  | ⟨f, fs⟩, ⟨g, gs⟩ => f.content = g.content ∧ AgreeAll fs gs

/-- There are equally many trees, and they agree one by one. -/
def AgreeAll : List Prototype → List Prototype → Prop
  | [], [] => True
  | p :: ps, q :: qs => Agree p q ∧ AgreeAll ps qs
  | [], _ :: _ => False
  | _ :: _, [] => False

end

theorem agree_node {f g : FunctionBody} {fs gs : List Prototype} :
    Agree ⟨f, fs⟩ ⟨g, gs⟩ ↔ f.content = g.content ∧ AgreeAll fs gs := by
  rw [Agree]

theorem agreeAll_cons {p q : Prototype} {ps qs : List Prototype} :
    AgreeAll (p :: ps) (q :: qs) ↔ Agree p q ∧ AgreeAll ps qs := by
  rw [AgreeAll]

theorem length_eq_of_agreeAll {ps qs : List Prototype} (h : AgreeAll ps qs) :
    ps.length = qs.length := by
  induction ps generalizing qs with
  | nil =>
    cases qs with
    | nil => rfl
    | cons q qs => simp [AgreeAll] at h
  | cons p ps ih =>
    cases qs with
    | nil => simp [AgreeAll] at h
    | cons q qs => rw [List.length_cons, List.length_cons, ih (agreeAll_cons.mp h).2]

/-! ## Agreeing trees look the same -/

/-- What a contract sees of a node. -/
def seen (v : Visit) : TreePath × Bytes := (v.path, Fingerprint.input v.proto)

mutual

theorem map_seen_visitsFrom (path : TreePath) : (p q : Prototype) → Agree p q →
    (visitsFrom path p).map seen = (visitsFrom path q).map seen
  | ⟨f, fs⟩, ⟨g, gs⟩, h => by
    obtain ⟨hcontent, hchildren⟩ := agree_node.mp h
    have hinput : Fingerprint.input ⟨f, fs⟩ = Fingerprint.input ⟨g, gs⟩ :=
      Fingerprint.input_congr hcontent (length_eq_of_agreeAll hchildren)
    rw [visitsFrom, visitsFrom, List.map_cons, List.map_cons, seen, seen, hinput,
      map_seen_visitsAll path 0 fs gs hchildren]

theorem map_seen_visitsAll (path : TreePath) (i : Nat) : (ps qs : List Prototype) →
    AgreeAll ps qs → (visitsAll path i ps).map seen = (visitsAll path i qs).map seen
  | [], [], _ => rfl
  | p :: ps, q :: qs, h => by
    obtain ⟨hhead, htail⟩ := agreeAll_cons.mp h
    rw [visitsAll, visitsAll, List.map_append, List.map_append,
      map_seen_visitsFrom (path ++ [i]) p q hhead, map_seen_visitsAll path (i + 1) ps qs htail]
  | [], _ :: _, h => by simp [AgreeAll] at h
  | _ :: _, [], h => by simp [AgreeAll] at h

end

/-! ## Trees from lists -/

/-- What is compared of a function, and the number of its children. -/
def outline (p : Prototype) : Content × Nat := (p.body.content, p.children.length)

mutual

/-- The outlines of a tree's functions tell where the tree ends, and the tree. -/
theorem agree_of_outline : (p q : Prototype) → (xs ys : List (Content × Nat)) →
    p.functions.map outline ++ xs = q.functions.map outline ++ ys → Agree p q ∧ xs = ys
  | ⟨f, fs⟩, ⟨g, gs⟩, xs, ys, h => by
    rw [functions_node, functions_node, List.map_cons, List.map_cons, List.cons_append,
      List.cons_append] at h
    obtain ⟨hroot, hrest⟩ := List.cons.inj h
    have hcontent : f.content = g.content := congrArg Prod.fst hroot
    have hlength : fs.length = gs.length := congrArg Prod.snd hroot
    -- The roots have equally many children, so their lists begin and end together.
    obtain ⟨hchildren, hend⟩ := agreeAll_of_outline fs gs xs ys hlength hrest
    exact ⟨agree_node.mpr ⟨hcontent, hchildren⟩, hend⟩

theorem agreeAll_of_outline : (ps qs : List Prototype) → (xs ys : List (Content × Nat)) →
    ps.length = qs.length →
    (ps.flatMap functions).map outline ++ xs = (qs.flatMap functions).map outline ++ ys →
    AgreeAll ps qs ∧ xs = ys
  | [], [], _, _, _, h => by
    rw [AgreeAll]
    exact ⟨trivial, h⟩
  | p :: ps, q :: qs, xs, ys, hlength, h => by
    rw [List.flatMap_cons, List.flatMap_cons, List.map_append, List.map_append, List.append_assoc,
      List.append_assoc] at h
    obtain ⟨hhead, hrest⟩ := agree_of_outline p q _ _ h
    obtain ⟨htail, hend⟩ := agreeAll_of_outline ps qs xs ys (Nat.succ.inj hlength) hrest
    exact ⟨agreeAll_cons.mpr ⟨hhead, htail⟩, hend⟩
  | [], _ :: _, _, _, hlength, _ => absurd hlength (by simp)
  | _ :: _, [], _, _, hlength, _ => absurd hlength (by simp)

end

/-! ## Paths -/

mutual

/-- Child indexes are below the number of children. -/
theorem lt_of_mem_path {n : Nat} (path : TreePath) : (p : Prototype) →
    (∀ f ∈ p.functions, f.children.length < n) → (∀ i ∈ path, i < n) →
    ∀ v ∈ visitsFrom path p, ∀ i ∈ v.path, i < n
  | ⟨f, fs⟩, hn, hpath, v, hv => by
    rw [visitsFrom] at hv
    rcases List.mem_cons.mp hv with rfl | hv
    · exact hpath
    · have hroot := hn _ (mem_functions_self _)
      refine lt_of_mem_path_all path 0 fs (fun c hc f' hf' => ?_) (by simpa using hroot) hpath v hv
      exact hn f' (mem_functions_of_child hc hf')

theorem lt_of_mem_path_all {n : Nat} (path : TreePath) (i : Nat) : (ps : List Prototype) →
    (∀ p ∈ ps, ∀ f ∈ p.functions, f.children.length < n) → i + ps.length < n →
    (∀ j ∈ path, j < n) → ∀ v ∈ visitsAll path i ps, ∀ j ∈ v.path, j < n
  | [], _, _, _, v, hv => absurd hv (by simp [visitsAll])
  | p :: ps, hn, hi, hpath, v, hv => by
    rw [visitsAll] at hv
    rw [List.length_cons] at hi
    rcases List.mem_append.mp hv with hv | hv
    · refine lt_of_mem_path (path ++ [i]) p (hn p List.mem_cons_self) (fun j hj => ?_) v hv
      rcases List.mem_append.mp hj with hj | hj
      · exact hpath j hj
      · rw [List.mem_singleton.mp hj]
        omega
    · exact lt_of_mem_path_all path (i + 1) ps (fun q hq => hn q (List.mem_cons_of_mem p hq))
        (by omega) hpath v hv

end

end Prototype

namespace Contract

/-! ## Comparing -/

/-- What is compared of a node and of an entry: the path as it is written, and the
fingerprint. -/
def printOfVisit (v : Visit) : Bytes × Fingerprint :=
  (TreePath.text (v.path.map Int.ofNat), Fingerprint.ofPrototype v.proto)

/-- Nodes and entries are compared one by one. -/
theorem verifyFrom_eq_ok_iff (id : Nat) (vs : List Visit) (fs : List ContractFunction) :
    verifyFrom id vs fs = .ok () ↔
      vs.map printOfVisit = fs.map fun f => (f.pathText, f.hash) := by
  induction vs generalizing id fs with
  | nil => cases fs <;> simp [verifyFrom]
  | cons v vs ih =>
    cases fs with
    | nil => simp [verifyFrom]
    | cons f fs =>
      rw [verifyFrom]
      simp only [List.map_cons, List.cons.injEq, ← ih (id + 1) fs, printOfVisit, Prod.mk.injEq]
      split
      · rename_i hpath
        simp [Ne.symm hpath]
      · rename_i hpath
        split
        · rename_i hhash
          simp [hhash]
        · rename_i hhash
          simp_all

/-- Nodes that look the same compare the same. -/
theorem verifyFrom_congr {vs ws : List Visit} (h : vs.map Prototype.seen = ws.map Prototype.seen)
    (id : Nat) (fs : List ContractFunction) : verifyFrom id vs fs = verifyFrom id ws fs := by
  induction vs generalizing ws id fs with
  | nil =>
    obtain rfl := List.map_eq_nil_iff.mp h.symm
    rfl
  | cons v vs ih =>
    cases ws with
    | nil => simp at h
    | cons w ws =>
      obtain ⟨hhead, htail⟩ := List.cons.inj h
      have hpath : v.path = w.path := congrArg Prod.fst hhead
      have hinput : Fingerprint.input v.proto = Fingerprint.input w.proto := congrArg Prod.snd hhead
      have hhash : Fingerprint.ofPrototype v.proto = Fingerprint.ofPrototype w.proto := by
        rw [Fingerprint.ofPrototype, hinput, Fingerprint.ofPrototype]
      cases fs with
      | nil => rw [verifyFrom, verifyFrom, hpath]
      | cons f fs => rw [verifyFrom, verifyFrom, hpath, hhash, ih htail]

/-- Agreeing trees are the same to every contract. -/
theorem verify_congr (c : Contract) {p q : Prototype} (h : p.Agree q) : c.verify p = c.verify q := by
  rw [verify, verify, Prototype.visits, Prototype.visits,
    verifyFrom_congr (Prototype.map_seen_visitsFrom [] p q h)]

/-! ## The contract of a tree -/

/-- An entry has the path of its node, as long as no child index wraps. -/
theorem map_toInt_path_ofEntry {e : Entry} (h : ∀ i ∈ e.path, i < 0x8000000000000000) :
    ((ContractFunction.ofEntry e).path.getD []).map Int64.toInt = e.path.map Int.ofNat := by
  dsimp only [ContractFunction.ofEntry]
  split
  · rename_i hnil
    rw [hnil]
    rfl
  · rw [Option.getD_some, List.map_map]
    exact List.map_congr_left fun i hi => Int64.toInt_ofNat_of_lt (h i hi)

theorem pathText_ofEntry {e : Entry} (h : ∀ i ∈ e.path, i < 0x8000000000000000) :
    (ContractFunction.ofEntry e).pathText = TreePath.text (e.path.map Int.ofNat) := by
  rw [ContractFunction.pathText, map_toInt_path_ofEntry h]

theorem map_print_ofTree {root : Prototype}
    (h : ∀ v ∈ root.visits, ∀ i ∈ v.path, i < 0x8000000000000000) (functionPrefix : Bytes) :
    ((Entry.ofTree functionPrefix root).map ContractFunction.ofEntry).map
        (fun f => (f.pathText, f.hash)) = root.visits.map printOfVisit := by
  have hvisits : root.visits.map printOfVisit = root.visits.zipIdx.map (fun x => printOfVisit x.1) := by
    have hfst := congrArg (List.map printOfVisit) (List.zipIdx_map_fst 0 root.visits)
    rw [List.map_map] at hfst
    exact hfst.symm
  rw [hvisits, Entry.ofTree, List.map_map, List.map_map]
  refine List.map_congr_left fun x hx => ?_
  have hmem : x.1 ∈ root.visits := List.fst_mem_of_mem_zipIdx hx
  exact congrArg (·, Fingerprint.ofPrototype x.1.proto) (pathText_ofEntry (h x.1 hmem))

/-- The contract of a tree accepts a tree that looks like it. -/
theorem verify_ofEntries_iff {p : Prototype}
    (h : ∀ v ∈ p.visits, ∀ i ∈ v.path, i < 0x8000000000000000)
    (moduleName source : Bytes) (hasSource : Bool) (functionPrefix : Bytes) (q : Prototype) :
    (ofEntries moduleName source hasSource (Entry.ofTree functionPrefix p)).verify q = .ok () ↔
      q.visits.map printOfVisit = p.visits.map printOfVisit := by
  have hversion : ¬ (ofEntries moduleName source hasSource
      (Entry.ofTree functionPrefix p)).version ≠ numberingVersion := fun hne => hne rfl
  rw [verify, if_neg hversion, verifyFrom_eq_ok_iff, ← map_print_ofTree h functionPrefix]
  rfl

/-- Where no two inputs have the same digest, functions with the same fingerprints have the same
outlines. -/
theorem map_outline_of_map_ofPrototype {ps qs : List Prototype} (hps : ∀ p ∈ ps, p.IsCountable)
    (hqs : ∀ q ∈ qs, q.IsCountable)
    (hdigest : ∀ p ∈ ps, ∀ q ∈ qs,
      Digest.Sha256.digest (Fingerprint.input p) = Digest.Sha256.digest (Fingerprint.input q) →
        Fingerprint.input p = Fingerprint.input q)
    (h : ps.map Fingerprint.ofPrototype = qs.map Fingerprint.ofPrototype) :
    ps.map Prototype.outline = qs.map Prototype.outline := by
  induction ps generalizing qs with
  | nil =>
    obtain rfl := List.map_eq_nil_iff.mp h.symm
    rfl
  | cons p ps ih =>
    cases qs with
    | nil => simp at h
    | cons q qs =>
      obtain ⟨hhead, htail⟩ := List.cons.inj h
      have hinput := hdigest p List.mem_cons_self q List.mem_cons_self
        ((Fingerprint.ofPrototype_eq_iff p q).mp hhead)
      obtain ⟨hcontent, hchildren⟩ := Fingerprint.input_inj (hps p List.mem_cons_self)
        (hqs q List.mem_cons_self) hinput
      have hrest := ih (fun p' hp' => hps p' (List.mem_cons_of_mem p hp'))
        (fun q' hq' => hqs q' (List.mem_cons_of_mem q hq'))
        (fun p' hp' q' hq' =>
          hdigest p' (List.mem_cons_of_mem p hp') q' (List.mem_cons_of_mem q hq')) htail
      rw [List.map_cons, List.map_cons, hrest, Prototype.outline, hcontent, hchildren,
        Prototype.outline]

/-- **A contract accepts exactly the trees that it was made for.**  Unless two functions of the
trees have different inputs with the same digest, the contract of `p` accepts `q` if and only if
`q` agrees with `p`.  It always accepts `p` itself, no contract tells agreeing trees apart, and an
input determines what is compared of a function and the number of its children. -/
theorem verify_eq_ok_iff_agree {p q : Prototype} (hp : ∀ f ∈ p.functions, f.IsCountable)
    (hq : ∀ f ∈ q.functions, f.IsCountable) (moduleName source : Bytes) (hasSource : Bool)
    (functionPrefix : Bytes) :
    ((∀ f ∈ p.functions, ∀ g ∈ q.functions,
        Digest.Sha256.digest (Fingerprint.input f) = Digest.Sha256.digest (Fingerprint.input g) →
          Fingerprint.input f = Fingerprint.input g) →
      ((ofEntries moduleName source hasSource (Entry.ofTree functionPrefix p)).verify q = .ok () ↔
        p.Agree q)) ∧
    (ofEntries moduleName source hasSource (Entry.ofTree functionPrefix p)).verify p = .ok () ∧
    (∀ (c : Contract) (t u : Prototype), t.Agree u → c.verify t = c.verify u) ∧
    ∀ f g : Prototype, f.IsCountable → g.IsCountable →
      (Fingerprint.input f = Fingerprint.input g ↔
        f.body.content = g.body.content ∧ f.children.length = g.children.length) := by
  have hpaths : ∀ v ∈ p.visits, ∀ i ∈ v.path, i < 0x8000000000000000 :=
    Prototype.lt_of_mem_path [] p (fun f hf => (hp f hf).children) (by simp)
  have hself : (ofEntries moduleName source hasSource (Entry.ofTree functionPrefix p)).verify p =
      .ok () := (verify_ofEntries_iff hpaths moduleName source hasSource functionPrefix p).mpr rfl
  refine ⟨fun hdigest => ⟨fun hok => ?_, fun hagree => ?_⟩, hself, fun c t u => verify_congr c,
    fun f g hf hg => ⟨Fingerprint.input_inj hf hg, fun h => Fingerprint.input_congr h.1 h.2⟩⟩
  · have hprints := (verify_ofEntries_iff hpaths moduleName source hasSource functionPrefix q).mp hok
    have hhashes : p.functions.map Fingerprint.ofPrototype =
        q.functions.map Fingerprint.ofPrototype := by
      have hsecond := (congrArg (List.map Prod.snd) hprints).symm
      rw [List.map_map, List.map_map] at hsecond
      rw [← Prototype.map_proto_visits, ← Prototype.map_proto_visits, List.map_map, List.map_map]
      exact hsecond
    have houtlines := map_outline_of_map_ofPrototype hp hq hdigest hhashes
    exact (Prototype.agree_of_outline p q [] [] (by rw [List.append_nil, List.append_nil, houtlines])).1
  · rw [← verify_congr _ hagree]
    exact hself

/-- A function with debug information. -/
def namedBody : FunctionBody :=
  { source := ascii "@m.lua", lineDefined := 3, lastLineDefined := 9, numParams := 1
    isVararg := true, maxStack := 4, code := [⟨0x10003⟩, ⟨0x48⟩], constants := [.str (ascii "x") true]
    upvalues := [⟨ascii "_ENV", true, 0, 0⟩], lineInfo := some [1, 0], checkpoints := [⟨0, 3⟩]
    locals := [⟨ascii "a", 0, 2⟩] }

/-- The same function without debug information and with another upvalue. -/
def strippedBody : FunctionBody :=
  { namedBody with
    source := [], lineDefined := 0, constants := [.str (ascii "x") false]
    upvalues := [⟨[], false, 7, 1⟩], lineInfo := none, checkpoints := [], locals := [] }

/-- A function without children. -/
def leafSample : Prototype := ⟨namedBody, []⟩

/-- A function that has such a function for a child. -/
def namedSample : Prototype := ⟨namedBody, [leafSample]⟩

/-- The same tree without debug information. -/
def strippedSample : Prototype := ⟨strippedBody, [⟨strippedBody, []⟩]⟩

theorem isCountable_sample {body : FunctionBody} (hbody : body = namedBody ∨ body = strippedBody)
    {children : List Prototype} (hchildren : children.length < 2) :
    Prototype.IsCountable ⟨body, children⟩ := by
  obtain ⟨hupvalues, hcode, long, hconstants⟩ : body.upvalues.length = 1 ∧ body.code.length = 2 ∧
      ∃ long, body.constants = [.str (ascii "x") long] := by
    rcases hbody with rfl | rfl
    · exact ⟨rfl, rfl, true, rfl⟩
    · exact ⟨rfl, rfl, false, rfl⟩
  exact {
    upvalues := by rw [hupvalues]; decide
    children := Nat.lt_trans hchildren (by decide)
    code := by rw [hcode]; decide
    constants := by rw [hconstants]; simp
    strings := fun s _ hs => by
      rw [hconstants, List.mem_singleton] at hs
      rw [(Constant.str.inj hs).1]
      decide }

/-- The contract of the tree accepts it without debug information, and does not accept it without the
child, though the child has the body of its parent. -/
theorem verify_strippedSample :
    let contract := ofEntries (ascii "m") (ascii "x = 1") true (Entry.ofTree (ascii "f") namedSample)
    namedSample ≠ strippedSample ∧ contract.verify strippedSample = .ok () ∧
      contract.verify leafSample ≠ .ok () := by
  have hnamed : ∀ f ∈ namedSample.functions, f = namedSample ∨ f = leafSample := by
    simp [Prototype.functions_node, namedSample, leafSample]
  have hstripped : ∀ f ∈ strippedSample.functions, f = strippedSample ∨ f = ⟨strippedBody, []⟩ := by
    simp [Prototype.functions_node, strippedSample]
  have hleaf : ∀ f ∈ leafSample.functions, f = leafSample := by
    simp [Prototype.functions_node, leafSample]
  have hnamedSizes : ∀ f ∈ namedSample.functions, f.IsCountable := by
    intro f hf
    rcases hnamed f hf with rfl | rfl
    · exact isCountable_sample (.inl rfl) (by decide)
    · exact isCountable_sample (.inl rfl) (by decide)
  have hstrippedSizes : ∀ f ∈ strippedSample.functions, f.IsCountable := by
    intro f hf
    rcases hstripped f hf with rfl | rfl
    · exact isCountable_sample (.inr rfl) (by decide)
    · exact isCountable_sample (.inr rfl) (by decide)
  have hleafSizes : ∀ f ∈ leafSample.functions, f.IsCountable := fun f hf =>
    hleaf f hf ▸ isCountable_sample (.inl rfl) (by decide)
  -- The number of children is the only difference between inputs here, and it shows in the digests.
  have hdigest : Digest.Sha256.digest (Fingerprint.input namedSample) ≠
      Digest.Sha256.digest (Fingerprint.input leafSample) := by decide +kernel
  have hroot : Fingerprint.input strippedSample = Fingerprint.input namedSample := by decide
  have hchild : Fingerprint.input ⟨strippedBody, []⟩ = Fingerprint.input leafSample := by decide
  have haccepts := (verify_eq_ok_iff_agree hnamedSizes hstrippedSizes (ascii "m") (ascii "x = 1") true
    (ascii "f")).1 fun f hf g hg h => by
      rcases hnamed f hf with rfl | rfl <;> rcases hstripped g hg with rfl | rfl
      · exact hroot.symm
      · exact absurd (hchild ▸ h) hdigest
      · exact absurd (hroot ▸ h).symm hdigest
      · exact hchild.symm
  have hrejects := (verify_eq_ok_iff_agree hnamedSizes hleafSizes (ascii "m") (ascii "x = 1") true
    (ascii "f")).1 fun f hf g hg h => by
      rcases hnamed f hf with rfl | rfl
      · exact absurd (hleaf g hg ▸ h) hdigest
      · rw [hleaf g hg]
  have hagree : namedSample.Agree strippedSample := Prototype.agree_node.mpr
    ⟨by decide, Prototype.agreeAll_cons.mpr
      ⟨Prototype.agree_node.mpr ⟨by decide, by simp [Prototype.AgreeAll]⟩, by simp [Prototype.AgreeAll]⟩⟩
  have hshape : ¬namedSample.Agree leafSample := by
    intro h
    cases Prototype.length_eq_of_agreeAll (Prototype.agree_node.mp h).2
  have hsource : namedSample.body.source ≠ strippedSample.body.source := by decide
  exact ⟨fun h => hsource (by rw [h]), haccepts.mpr hagree, fun h => hshape (hrejects.mp h)⟩

end Contract
end LuaToC
