import LuaToC.Bytecode.Prototype

/-! # The functions of a tree

`Prototype.visits` lists the functions of a tree with their paths.  This module forgets the paths:
`functions` lists the nodes, each before the nodes below it (`functions_node`), and that is the
order of the visits (`map_proto_visits`).  Proofs about trees go by `node_induction`: a property
that a node has as soon as its children have it is one of all trees.
-/
namespace LuaToC.Prototype

/-- Induction on trees, from the children of a node to the node. -/
@[elab_as_elim]
theorem node_induction {P : Prototype → Prop}
    (node : ∀ body children, (∀ c ∈ children, P c) → P ⟨body, children⟩) (p : Prototype) : P p :=
  @Prototype.rec P (fun children => ∀ c ∈ children, P c) node
    (fun _ hc => absurd hc List.not_mem_nil)
    (fun _ _ hhead htail c hc => (List.mem_cons.mp hc).elim (· ▸ hhead) (htail c)) p

mutual

/-- The functions of a tree: the root, then those of its children in order. -/
def functions : Prototype → List Prototype
  | ⟨body, children⟩ => ⟨body, children⟩ :: functionsAll children

/-- The functions of several trees side by side. -/
def functionsAll : List Prototype → List Prototype
  | [] => []
  | p :: ps => functions p ++ functionsAll ps

end

theorem functionsAll_eq_flatMap (ps : List Prototype) : functionsAll ps = ps.flatMap functions := by
  induction ps with
  | nil => rfl
  | cons p ps ih => rw [functionsAll, List.flatMap_cons, ih]

theorem functions_node (body : FunctionBody) (children : List Prototype) :
    functions ⟨body, children⟩ = ⟨body, children⟩ :: children.flatMap functions := by
  rw [functions, functionsAll_eq_flatMap]

mutual

/-- Nodes are visited in the order of `functions`, wherever the root is. -/
theorem map_proto_visitsFrom (path : TreePath) : (p : Prototype) →
    (visitsFrom path p).map (·.proto) = functions p
  | ⟨body, children⟩ => by
    rw [visitsFrom, functions, List.map_cons, map_proto_visitsAll path 0 children]

theorem map_proto_visitsAll (path : TreePath) (i : Nat) : (ps : List Prototype) →
    (visitsAll path i ps).map (·.proto) = functionsAll ps
  | [] => rfl
  | p :: ps => by
    rw [visitsAll, functionsAll, List.map_append, map_proto_visitsFrom (path ++ [i]) p,
      map_proto_visitsAll path (i + 1) ps]

end

theorem map_proto_visits (p : Prototype) : p.visits.map (·.proto) = p.functions :=
  map_proto_visitsFrom [] p

theorem mem_functions_self (p : Prototype) : p ∈ p.functions := by
  cases p
  rw [functions_node]
  exact List.mem_cons_self

theorem mem_functions_of_child {body : FunctionBody} {children : List Prototype}
    {c f : Prototype} (hc : c ∈ children) (hf : f ∈ c.functions) :
    f ∈ functions ⟨body, children⟩ := by
  rw [functions_node]
  exact List.mem_cons_of_mem _ (List.mem_flatMap.mpr ⟨c, hc, hf⟩)

end LuaToC.Prototype
