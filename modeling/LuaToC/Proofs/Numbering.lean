import LuaToC.Proofs.Numeral
import LuaToC.Proofs.Tree
import LuaToC.Unit.Entry

/-! # The numbers of functions

The functions of a tree are numbered in the order in which they are visited.  This module says
which number belongs to which function without going through that order: a child comes after its
parent and after the trees of the siblings before it, so its number is one more than its parent's
plus the sizes of those trees (`idOf`).  `getElem?_visits_iff` is the agreement of the two: the node
at position `k` is the one whose path has the number `k`.  So a path belongs to one position only,
and `numbered_ofTree` says what that means for the entries of a unit.
-/
namespace LuaToC
namespace Prototype

/-- The node that a path leads to. -/
def nodeAt? : TreePath → Prototype → Option Prototype
  | [], p => some p
  | i :: path, p => p.children[i]?.bind (nodeAt? path)

/-- The number of functions in the trees before child `i`. -/
def countBefore (p : Prototype) (i : Nat) : Nat := countAll (p.children.take i)

/-- The number of the node that a path leads to, where the root has the number zero. -/
def idOf : TreePath → Prototype → Nat
  | [], _ => 0
  | i :: path, p => 1 + p.countBefore i + (p.children[i]?.map (idOf path)).getD 0

/-! ## Sizes -/

theorem countAll_append (ps qs : List Prototype) :
    countAll (ps ++ qs) = countAll ps + countAll qs := by
  induction ps with
  | nil => exact (Nat.zero_add _).symm
  | cons p ps ih => rw [List.cons_append, countAll, countAll, ih, Nat.add_assoc]

theorem countBefore_node (body : FunctionBody) (children : List Prototype) (i : Nat) :
    countBefore ⟨body, children⟩ i = countAll (children.take i) := rfl

theorem count_pos (p : Prototype) : 0 < p.count := by
  cases p
  rw [count]
  omega

/-- The trees before a child and the child's own tree are part of the whole. -/
theorem countBefore_add_count_lt {p c : Prototype} {i : Nat} (hc : p.children[i]? = some c) :
    p.countBefore i + c.count < p.count := by
  obtain ⟨body, children⟩ := p
  obtain ⟨hi, hget⟩ := List.getElem?_eq_some_iff.mp hc
  have hsplit : children = children.take i ++ c :: children.drop (i + 1) := by
    rw [← hget, ← List.drop_eq_getElem_cons hi, List.take_append_drop]
  have hsum := congrArg countAll hsplit
  rw [countAll_append, countAll] at hsum
  rw [countBefore_node, count, hsum]
  omega

/-- The number of a node is below the size of the tree. -/
theorem idOf_lt_count {path : TreePath} {p q : Prototype} (h : nodeAt? path p = some q) :
    idOf path p < p.count := by
  induction path generalizing p with
  | nil => exact p.count_pos
  | cons i path ih =>
    obtain ⟨c, hc, hq⟩ := Option.bind_eq_some_iff.mp h
    have hchild := ih hq
    have hbelow := countBefore_add_count_lt hc
    rw [idOf, hc, Option.map_some, Option.getD_some]
    omega

theorem length_le_countAll (ps : List Prototype) : ps.length ≤ countAll ps := by
  induction ps with
  | nil => exact Nat.le_refl _
  | cons p ps ih =>
    have hpos := p.count_pos
    rw [List.length_cons, countAll]
    omega

/-- So are the child indexes on a path. -/
theorem lt_count_of_mem_path {path : TreePath} {p q : Prototype} (h : nodeAt? path p = some q) :
    ∀ i ∈ path, i < p.count := by
  induction path generalizing p with
  | nil => exact fun i hi => absurd hi List.not_mem_nil
  | cons i path ih =>
    obtain ⟨c, hc, hq⟩ := Option.bind_eq_some_iff.mp h
    have hbelow := countBefore_add_count_lt hc
    refine List.forall_mem_cons.mpr ⟨?_, fun j hj => ?_⟩
    · have hi := (List.getElem?_eq_some_iff.mp hc).1
      have hlength := length_le_countAll (p.children.take i)
      rw [List.length_take, Nat.min_eq_left (Nat.le_of_lt hi), ← countBefore] at hlength
      omega
    · have hj := ih hq j hj
      omega

/-! ## Paths of children -/

theorem nodeAt?_append (path path' : TreePath) (p : Prototype) :
    nodeAt? (path ++ path') p = (nodeAt? path p).bind (nodeAt? path') := by
  induction path generalizing p with
  | nil => rfl
  | cons i path ih =>
    rw [List.cons_append, nodeAt?, nodeAt?, Option.bind_assoc]
    exact congrArg _ (funext ih)

/-- A child has a number past those of its parent and of the trees before it. -/
theorem idOf_append_child {path : TreePath} {p q c : Prototype} {i : Nat}
    (h : nodeAt? path p = some q) (hc : q.children[i]? = some c) :
    idOf (path ++ [i]) p = idOf path p + 1 + q.countBefore i := by
  induction path generalizing p with
  | nil =>
    obtain rfl : p = q := Option.some.inj h
    rw [List.nil_append, idOf, idOf, hc]
    exact Nat.add_assoc ..
  | cons j path ih =>
    obtain ⟨d, hd, hq⟩ := Option.bind_eq_some_iff.mp h
    have hbelow := ih hq
    rw [List.cons_append, idOf, idOf, hd]
    simp only [Option.map_some, Option.getD_some]
    omega

/-! ## Visits -/

mutual

theorem length_visitsFrom (path : TreePath) : (p : Prototype) → (visitsFrom path p).length = p.count
  | ⟨body, children⟩ => by
    rw [visitsFrom, count, List.length_cons, length_visitsAll path 0 children, Nat.add_comm]

theorem length_visitsAll (path : TreePath) (i : Nat) : (ps : List Prototype) →
    (visitsAll path i ps).length = countAll ps
  | [] => rfl
  | p :: ps => by
    rw [visitsAll, countAll, List.length_append, length_visitsFrom (path ++ [i]) p,
      length_visitsAll path (i + 1) ps]

end

/-- The nodes of child `i` come after those of the trees before it. -/
theorem getElem?_visitsAll {ps : List Prototype} {c : Prototype} {i k : Nat} (path : TreePath)
    (start : Nat) (hc : ps[i]? = some c) (hk : k < c.count) :
    (visitsAll path start ps)[countAll (ps.take i) + k]? =
      (visitsFrom (path ++ [start + i]) c)[k]? := by
  induction ps generalizing i start with
  | nil => cases hc
  | cons p ps ih =>
    rw [visitsAll]
    cases i with
    | zero =>
      obtain rfl : p = c := Option.some.inj hc
      rw [List.take_zero, countAll, Nat.zero_add, Nat.add_zero start,
        List.getElem?_append_left (by rw [length_visitsFrom]; exact hk)]
    | succ i =>
      have hrest := ih (start + 1) (i := i) hc
      rw [List.take_succ_cons, countAll, Nat.add_assoc,
        List.getElem?_append_right (by rw [length_visitsFrom]; omega), length_visitsFrom,
        Nat.add_sub_cancel_left, hrest, Nat.add_right_comm, Nat.add_assoc]

/-- Every position among the nodes of several trees belongs to one of them. -/
theorem exists_child_of_lt {ps : List Prototype} {k : Nat} (hk : k < countAll ps) :
    ∃ i c k', ps[i]? = some c ∧ k' < c.count ∧ k = countAll (ps.take i) + k' := by
  induction ps generalizing k with
  | nil => cases hk
  | cons p ps ih =>
    rw [countAll] at hk
    by_cases hp : k < p.count
    · exact ⟨0, p, k, rfl, hp, (Nat.zero_add k).symm⟩
    · obtain ⟨i, c, k', hc, hk', hsum⟩ := ih (k := k - p.count) (by omega)
      refine ⟨i + 1, c, k', hc, hk', ?_⟩
      rw [List.take_succ_cons, countAll]
      omega

/-- The node that a path leads to is visited at its number. -/
theorem getElem?_visitsFrom_idOf {path : TreePath} {p q : Prototype} (start : TreePath)
    (h : nodeAt? path p = some q) : (visitsFrom start p)[idOf path p]? = some ⟨start ++ path, q⟩ := by
  induction path generalizing p start with
  | nil =>
    obtain rfl : p = q := Option.some.inj h
    cases p
    rw [visitsFrom, idOf, List.append_nil]
    rfl
  | cons i path ih =>
    obtain ⟨c, hc, hq⟩ := Option.bind_eq_some_iff.mp h
    obtain ⟨body, children⟩ := p
    rw [visitsFrom, idOf, hc, Option.map_some, Option.getD_some, Nat.add_assoc, Nat.add_comm 1,
      List.getElem?_cons_succ]
    refine (getElem?_visitsAll start 0 hc (idOf_lt_count hq)).trans ?_
    rw [ih (start ++ [0 + i]) hq, Nat.zero_add, List.append_assoc, List.singleton_append]

/-- Every node that is visited is the one that its path leads to, and has the number of its
position. -/
theorem exists_path_of_getElem?_visitsFrom (p : Prototype) : ∀ (start : TreePath) (k : Nat) (v : Visit),
    (visitsFrom start p)[k]? = some v →
      ∃ path, v.path = start ++ path ∧ nodeAt? path p = some v.proto ∧ idOf path p = k := by
  induction p using node_induction with
  | node body children ih =>
    intro start k v hv
    cases k with
    | zero =>
      rw [visitsFrom, List.getElem?_cons_zero] at hv
      cases hv
      exact ⟨[], (List.append_nil _).symm, rfl, rfl⟩
    | succ k =>
      have hlt := (List.getElem?_eq_some_iff.mp hv).1
      rw [length_visitsFrom, count] at hlt
      have hk : k < countAll children := by omega
      obtain ⟨i, c, k', hc, hk', rfl⟩ := exists_child_of_lt hk
      rw [visitsFrom, List.getElem?_cons_succ, getElem?_visitsAll start 0 hc hk', Nat.zero_add] at hv
      -- The path goes through the child in whose tree the position is.
      obtain ⟨path, hpath, hnode, rfl⟩ := ih c (List.mem_of_getElem? hc) (start ++ [i]) k' v hv
      refine ⟨i :: path, ?_, ?_, ?_⟩
      · rw [hpath, List.append_assoc, List.singleton_append]
      · rw [nodeAt?, hc]
        exact hnode
      · rw [idOf, hc, Option.map_some, Option.getD_some, countBefore_node]
        omega

/-- **The order of visits is the order of numbers.** -/
theorem getElem?_visits_iff {p : Prototype} {k : Nat} {v : Visit} :
    p.visits[k]? = some v ↔ nodeAt? v.path p = some v.proto ∧ idOf v.path p = k := by
  constructor
  · intro hv
    obtain ⟨path, hpath, hnode, hid⟩ := exists_path_of_getElem?_visitsFrom p [] k v hv
    rw [List.nil_append] at hpath
    rw [hpath]
    exact ⟨hnode, hid⟩
  · rintro ⟨hnode, rfl⟩
    exact getElem?_visitsFrom_idOf [] hnode

end Prototype

/-! ## Entries -/

namespace Entry

open Prototype

/-- The entries are the functions of the tree `root`, each with its number, its name and the path
that leads to it.  The main function comes first, and a child comes after its parent and the trees
of the siblings before it. -/
structure Numbered (functionPrefix : Bytes) (root : Prototype) (entries : List Entry) : Prop where
  length : entries.length = root.count
  entry : ∀ k e, entries[k]? = some e →
    e.id = k ∧ e.name = functionPrefix ++ Bytes.twoDigits k ∧ nodeAt? e.path root = some e.proto
  main : ∃ e, entries[0]? = some e ∧ e.path = [] ∧ e.proto = root
  child : ∀ e ∈ entries, ∀ i c, e.proto.children[i]? = some c →
    ∃ d ∈ entries, d.id = e.id + 1 + e.proto.countBefore i ∧ d.path = e.path ++ [i] ∧ d.proto = c
  names : (entries.map (·.name)).Nodup
  paths : (entries.map (·.path)).Nodup

/-- The name of a function determines its number. -/
theorem nameOf_injective {functionPrefix : Bytes} {j k : Nat}
    (h : nameOf functionPrefix j = nameOf functionPrefix k) : j = k :=
  Numeral.twoDigits_injective (List.append_cancel_left h)

/-- What tells positions of a list apart is different at all of them. -/
theorem nodup_map_of_position {α : Type} {es : List Entry} {f : Entry → α}
    (h : ∀ (j k : Nat) (d e : Entry), es[j]? = some d → es[k]? = some e → f d = f e → j = k) :
    (es.map f).Nodup := by
  rw [List.Nodup, List.pairwise_map, List.pairwise_iff_getElem]
  intro j k hj hk hlt heq
  have hsame := h j k _ _ (List.getElem?_eq_getElem hj) (List.getElem?_eq_getElem hk) heq
  omega

theorem getElem?_ofTree_iff {functionPrefix : Bytes} {root : Prototype} {k : Nat} {e : Entry} :
    (ofTree functionPrefix root)[k]? = some e ↔
      e.id = k ∧ e.name = nameOf functionPrefix k ∧ nodeAt? e.path root = some e.proto ∧
        idOf e.path root = k := by
  have hget : (ofTree functionPrefix root)[k]? =
      root.visits[k]?.map fun v => ⟨k, nameOf functionPrefix k, v.path, v.proto⟩ := by
    rw [ofTree, List.getElem?_map, List.getElem?_zipIdx, Nat.zero_add, Option.map_map]
    rfl
  rw [hget, Option.map_eq_some_iff]
  constructor
  · rintro ⟨v, hv, rfl⟩
    exact ⟨rfl, rfl, getElem?_visits_iff.mp hv⟩
  · rintro ⟨hid, hname, hvisit⟩
    refine ⟨⟨e.path, e.proto⟩, getElem?_visits_iff.mpr hvisit, ?_⟩
    rw [← hname, ← hid]

section

variable {functionPrefix : Bytes} {root : Prototype} {e : Entry}

theorem mem_ofTree_iff :
    e ∈ ofTree functionPrefix root ↔
      e.name = nameOf functionPrefix e.id ∧ nodeAt? e.path root = some e.proto ∧
        idOf e.path root = e.id := by
  rw [List.mem_iff_getElem?]
  constructor
  · rintro ⟨k, hk⟩
    obtain ⟨rfl, hentry⟩ := getElem?_ofTree_iff.mp hk
    exact hentry
  · intro h
    exact ⟨e.id, getElem?_ofTree_iff.mpr ⟨rfl, h⟩⟩

/-- The entry of a child. -/
theorem exists_child_entry (he : e ∈ ofTree functionPrefix root) {i : Nat} {c : Prototype}
    (hc : e.proto.children[i]? = some c) :
    ∃ d ∈ ofTree functionPrefix root,
      d.id = e.id + 1 + e.proto.countBefore i ∧ d.path = e.path ++ [i] ∧ d.proto = c := by
  obtain ⟨-, hnode, hid⟩ := mem_ofTree_iff.mp he
  have hchild : nodeAt? (e.path ++ [i]) root = some c := by
    rw [nodeAt?_append, hnode, Option.bind_some, nodeAt?, hc]
    rfl
  have hnumber := idOf_append_child hnode hc
  rw [hid] at hnumber
  let id := e.id + 1 + e.proto.countBefore i
  let d : Entry := ⟨id, nameOf functionPrefix id, e.path ++ [i], c⟩
  exact ⟨d, mem_ofTree_iff.mpr ⟨rfl, hchild, hnumber⟩, rfl, rfl, rfl⟩

/-- **The entries of a tree are numbered as its functions are.** -/
theorem numbered_ofTree (functionPrefix : Bytes) (root : Prototype) :
    Numbered functionPrefix root (ofTree functionPrefix root) where
  length := by
    rw [ofTree, List.length_map, List.length_zipIdx]
    exact length_visitsFrom [] root
  entry k e hk := by
    obtain ⟨hid, hname, hnode, -⟩ := getElem?_ofTree_iff.mp hk
    exact ⟨hid, hname, hnode⟩
  main := ⟨⟨0, _, [], root⟩, getElem?_ofTree_iff.mpr ⟨rfl, rfl, rfl, rfl⟩, rfl, rfl⟩
  child _ he _ _ hc := exists_child_entry he hc
  names := by
    refine nodup_map_of_position fun j k d e hj hk hname => ?_
    obtain ⟨-, hd, -⟩ := getElem?_ofTree_iff.mp hj
    obtain ⟨-, he, -⟩ := getElem?_ofTree_iff.mp hk
    exact nameOf_injective (hd.symm.trans (hname.trans he))
  paths := by
    refine nodup_map_of_position fun j k d e hj hk hpath => ?_
    obtain ⟨-, -, -, hd⟩ := getElem?_ofTree_iff.mp hj
    obtain ⟨-, -, -, he⟩ := getElem?_ofTree_iff.mp hk
    rw [← hd, ← he, hpath]

/-- The function of a child is named by its own entry. -/
theorem exists_nameOfChild (he : e ∈ ofTree functionPrefix root) {i : Nat}
    (hi : i < e.proto.children.length) :
    ∃ d ∈ ofTree functionPrefix root, d.path = e.path ++ [i] ∧
      nameOfChild (ofTree functionPrefix root) e.path i = d.name := by
  obtain ⟨d, hd, -, hpath, -⟩ := exists_child_entry he (List.getElem?_eq_getElem hi)
  have hsome : ((ofTree functionPrefix root).find? fun d => d.path = e.path ++ [i]).isSome = true :=
    List.find?_isSome.mpr ⟨d, hd, decide_eq_true hpath⟩
  obtain ⟨found, hfound⟩ := Option.isSome_iff_exists.mp hsome
  refine ⟨found, List.mem_of_find?_eq_some hfound, ?_, ?_⟩
  · have hmatches := List.find?_some hfound
    exact of_decide_eq_true hmatches
  · rw [nameOfChild, hfound]

/-- There is no name for a child that the function does not have. -/
theorem nameOfChild_of_length_le (he : e ∈ ofTree functionPrefix root) {i : Nat}
    (hi : e.proto.children.length ≤ i) :
    nameOfChild (ofTree functionPrefix root) e.path i = ascii "?" := by
  have hnone : ((ofTree functionPrefix root).find? fun d => d.path = e.path ++ [i]) = none := by
    refine List.find?_eq_none.mpr fun d hd hpath => ?_
    obtain ⟨-, hnode, -⟩ := mem_ofTree_iff.mp hd
    obtain ⟨-, hparent, -⟩ := mem_ofTree_iff.mp he
    rw [of_decide_eq_true hpath, nodeAt?_append, hparent, Option.bind_some, nodeAt?,
      List.getElem?_eq_none hi] at hnode
    cases hnode
  rw [nameOfChild, hnone]

end

end Entry
end LuaToC
