import LuaToC.Proofs.Numbering

/-! # Traversals

`Prototype.traverse` runs something on every node of a tree until it fails for the first time.  In
any lawful monad that is the same as going through the list of visits (`traverse_eq_forM`), so the
early exit out of the nested recursion is that of a list.

What is run on the nodes is a `Callback` here: it has a state of its own, and its answer to a call
may depend on everything that happened before.  `outcome` is the result of a traversal together with
the calls that it made.  `traverse_enumerates` puts it together: the visits are the paths of the tree in
increasing order, each once and with the node that it leads to, and a traversal calls on them in that
order up to the first failure.
-/
namespace LuaToC

namespace Prototype

/-! ## A traversal goes through the visits -/

section

variable {m : Type → Type} [Monad m]

mutual

theorem walkFrom_eq_forM [LawfulMonad m] (f : Visit → m Unit) (path : TreePath) : (p : Prototype) →
    walkFrom f path p = forM (visitsFrom path p) f
  | ⟨body, children⟩ => by
    rw [walkFrom, visitsFrom, List.forM_cons, walkAll_eq_forM f path 0 children]

theorem walkAll_eq_forM [LawfulMonad m] (f : Visit → m Unit) (path : TreePath) (i : Nat) :
    (ps : List Prototype) → walkAll f path i ps = forM (visitsAll path i ps) f
  | [] => by rw [walkAll, visitsAll, List.forM_nil]
  | p :: ps => by
    rw [walkAll, visitsAll, List.forM_append, walkFrom_eq_forM f (path ++ [i]) p,
      walkAll_eq_forM f path (i + 1) ps]

end

theorem traverse_eq_forM [LawfulMonad m] (f : Visit → m Unit) (p : Prototype) :
    p.traverse f = forM p.visits f :=
  walkFrom_eq_forM f [] p

end

/-! ## The order of the paths -/

/-- The first path comes before the second in the order of words, where a path comes before what
continues it. -/
abbrev PathLt (a b : TreePath) : Prop := List.Lex (· < ·) a b

theorem pathLt_append {a b : TreePath} (start : TreePath) (h : PathLt a b) :
    PathLt (start ++ a) (start ++ b) := by
  induction start with
  | nil => exact h
  | cons i start ih => exact .cons ih

/-- The nodes of a tree are at or below the path of its root. -/
theorem exists_path_of_mem_visitsFrom {path : TreePath} {p : Prototype} {v : Visit}
    (h : v ∈ visitsFrom path p) : ∃ rest, v.path = path ++ rest := by
  obtain ⟨k, hk⟩ := List.mem_iff_getElem?.mp h
  obtain ⟨rest, hrest, -⟩ := exists_path_of_getElem?_visitsFrom p path k v hk
  exact ⟨rest, hrest⟩

/-- The nodes of the children from `i` on are below the paths of these children. -/
theorem exists_path_of_mem_visitsAll {path : TreePath} {i : Nat} {ps : List Prototype} {v : Visit}
    (h : v ∈ visitsAll path i ps) : ∃ j rest, i ≤ j ∧ v.path = path ++ j :: rest := by
  induction ps generalizing i with
  | nil => cases h
  | cons p ps ih =>
    rw [visitsAll] at h
    rcases List.mem_append.mp h with h | h
    · obtain ⟨rest, hrest⟩ := exists_path_of_mem_visitsFrom h
      exact ⟨i, rest, Nat.le_refl i, by rw [hrest, List.append_assoc, List.singleton_append]⟩
    · obtain ⟨j, rest, hj, hrest⟩ := ih h
      exact ⟨j, rest, Nat.le_of_succ_le hj, hrest⟩

mutual

theorem pairwise_visitsFrom (path : TreePath) : (p : Prototype) →
    (visitsFrom path p).Pairwise fun v w => PathLt v.path w.path
  | ⟨body, children⟩ => by
    rw [visitsFrom, List.pairwise_cons]
    refine ⟨fun v hv => ?_, pairwise_visitsAll path 0 children⟩
    obtain ⟨j, rest, -, hpath⟩ := exists_path_of_mem_visitsAll hv
    have hlt := pathLt_append path (List.Lex.nil (a := j) (l := rest))
    rw [List.append_nil] at hlt
    rw [hpath]
    exact hlt

theorem pairwise_visitsAll (path : TreePath) (i : Nat) : (ps : List Prototype) →
    (visitsAll path i ps).Pairwise fun v w => PathLt v.path w.path
  | [] => by
    rw [visitsAll]
    exact .nil
  | p :: ps => by
    rw [visitsAll, List.pairwise_append]
    refine ⟨pairwise_visitsFrom (path ++ [i]) p, pairwise_visitsAll path (i + 1) ps, ?_⟩
    -- A node of this child against one of a later child: the paths part at the child's index.
    intro v hv w hw
    obtain ⟨rest, hrest⟩ := exists_path_of_mem_visitsFrom hv
    obtain ⟨j, rest', hj, hrest'⟩ := exists_path_of_mem_visitsAll hw
    rw [hrest, hrest', List.append_assoc]
    exact pathLt_append path (.rel hj)

end

end Prototype

/-! ## Callbacks -/

/-- What is called on nodes: its answer to a call, and the state that it has afterwards. -/
abbrev Callback (ε σ : Type) := Visit → σ → Except ε Unit × σ

namespace Callback

variable {ε σ : Type} (f : Callback ε σ)

/-- The answers to calls on some nodes, one after the other, when failures do not end it. -/
def answers : σ → List Visit → List (Except ε Unit)
  | _, [] => []
  | s, v :: vs => (f v s).1 :: answers (f v s).2 vs

/-- Of the calls on the nodes, the one with the number `k` is the first to fail. -/
def FirstFails (s : σ) (vs : List Visit) (k : Nat) (e : ε) : Prop :=
  (∀ i < k, (f.answers s vs)[i]? = some (.ok ())) ∧ (f.answers s vs)[k]? = some (.error e)

/-- None of the calls on the nodes fails. -/
def NeverFails (s : σ) (vs : List Visit) : Prop := ∀ a ∈ f.answers s vs, a = .ok ()

/-- A call that is also written down, whatever the answer. -/
def recorded (v : Visit) : ExceptT ε (StateM (σ × List Visit)) Unit :=
  ExceptT.mk fun s => ((f v s.1).1, (f v s.1).2, s.2 ++ [v])

/-- The result of a traversal, and the calls that it made. -/
def outcome (s : σ) (p : Prototype) : Except ε Unit × List Visit :=
  let r := Id.run ((p.traverse f.recorded).run.run (s, []))
  (r.1, r.2.2)

section

variable {f} {s : σ} {v : Visit} {vs : List Visit}

/-- A call that succeeds is followed by the others. -/
theorem run_forM_cons_of_ok (h : (f v s).1 = .ok ()) (calls : List Visit) :
    (forM (v :: vs) f.recorded).run.run (s, calls) =
      (forM vs f.recorded).run.run ((f v s).2, calls ++ [v]) := by
  rw [List.forM_cons, ExceptT.run_bind, StateT.run_bind]
  have hcall : (f.recorded v).run.run (s, calls) = pure (.ok (), (f v s).2, calls ++ [v]) := by
    rw [← h]
    rfl
  rw [hcall, pure_bind]

/-- A call that fails is the last. -/
theorem run_forM_cons_of_error {e : ε} (h : (f v s).1 = .error e) (calls : List Visit) :
    (forM (v :: vs) f.recorded).run.run (s, calls) =
      pure (.error e, (f v s).2, calls ++ [v]) := by
  rw [List.forM_cons, ExceptT.run_bind, StateT.run_bind]
  have hcall : (f.recorded v).run.run (s, calls) = pure (.error e, (f v s).2, calls ++ [v]) := by
    rw [← h]
    rfl
  rw [hcall, pure_bind]
  rfl

theorem firstFails_cons_zero {e : ε} (h : f.FirstFails s (v :: vs) 0 e) : (f v s).1 = .error e :=
  Option.some.inj h.2

theorem firstFails_cons_succ {e : ε} {k : Nat} (h : f.FirstFails s (v :: vs) (k + 1) e) :
    (f v s).1 = .ok () ∧ f.FirstFails (f v s).2 vs k e :=
  ⟨Option.some.inj (h.1 0 (Nat.succ_pos k)),
    fun i hi => h.1 (i + 1) (Nat.succ_lt_succ hi), h.2⟩

/-- Calls go on up to the first failure, which is the result. -/
theorem run_forM_of_firstFails {e : ε} {k : Nat} (h : f.FirstFails s vs k e) (calls : List Visit) :
    ∃ s', (forM vs f.recorded).run.run (s, calls) =
      pure (.error e, s', calls ++ vs.take (k + 1)) := by
  induction vs generalizing s k calls with
  | nil => cases h.2
  | cons v vs ih =>
    cases k with
    | zero => exact ⟨_, run_forM_cons_of_error (firstFails_cons_zero h) calls⟩
    | succ k =>
      obtain ⟨hok, hrest⟩ := firstFails_cons_succ h
      obtain ⟨s', hs'⟩ := ih hrest (calls ++ [v])
      refine ⟨s', ?_⟩
      rw [run_forM_cons_of_ok hok, hs', List.take_succ_cons, List.append_assoc,
        List.singleton_append]

/-- Without a failure all calls are made. -/
theorem run_forM_of_neverFails (h : f.NeverFails s vs) (calls : List Visit) :
    ∃ s', (forM vs f.recorded).run.run (s, calls) = pure (.ok (), s', calls ++ vs) := by
  induction vs generalizing s calls with
  | nil =>
    refine ⟨s, ?_⟩
    rw [List.append_nil]
    rfl
  | cons v vs ih =>
    obtain ⟨hok, hrest⟩ := List.forall_mem_cons.mp h
    obtain ⟨s', hs'⟩ := ih hrest (calls ++ [v])
    refine ⟨s', ?_⟩
    rw [run_forM_cons_of_ok hok, hs', List.append_assoc, List.singleton_append]

end

theorem length_answers (s : σ) (vs : List Visit) : (f.answers s vs).length = vs.length := by
  induction vs generalizing s with
  | nil => rfl
  | cons v vs ih => rw [answers, List.length_cons, List.length_cons, ih]

theorem outcome_of_firstFails {s : σ} {p : Prototype} {k : Nat} {e : ε}
    (h : f.FirstFails s p.visits k e) : f.outcome s p = (.error e, p.visits.take (k + 1)) := by
  obtain ⟨s', hs'⟩ := run_forM_of_firstFails h []
  rw [outcome, Prototype.traverse_eq_forM, hs']
  rfl

theorem outcome_of_neverFails {s : σ} {p : Prototype} (h : f.NeverFails s p.visits) :
    f.outcome s p = (.ok (), p.visits) := by
  obtain ⟨s', hs'⟩ := run_forM_of_neverFails h []
  rw [outcome, Prototype.traverse_eq_forM, hs']
  rfl

end Callback

namespace Prototype

/-- **A traversal enumerates the tree.**  There are as many visits as functions.  Every visited path
leads to the visited node, and every path that leads somewhere is visited at one position only.  The
paths increase.  A callback whose call number `k` is the first to fail is called `k + 1` times, on
the first visits, and its failure is the result; a callback that never fails is called on all
visits. -/
theorem traverse_enumerates (p : Prototype) :
    p.visits.length = p.count ∧
      (∀ v ∈ p.visits, nodeAt? v.path p = some v.proto) ∧
      (∀ path q, nodeAt? path p = some q →
        ∃ k : Nat, p.visits[k]? = some ⟨path, q⟩ ∧
          ∀ (j : Nat) (v : Visit), p.visits[j]? = some v → v.path = path → j = k) ∧
      (p.visits.map (·.path)).Pairwise PathLt ∧
      ∀ (ε σ : Type) (f : Callback ε σ) (s : σ),
        (∀ k e, f.FirstFails s p.visits k e →
          f.outcome s p = (.error e, p.visits.take (k + 1)) ∧ (f.outcome s p).2.length = k + 1) ∧
        (f.NeverFails s p.visits →
          f.outcome s p = (.ok (), p.visits) ∧ (f.outcome s p).2.length = p.count) := by
  have hlength : p.visits.length = p.count := length_visitsFrom [] p
  refine ⟨hlength, ?_, ?_, ?_, ?_⟩
  · intro v hv
    obtain ⟨k, hk⟩ := List.mem_iff_getElem?.mp hv
    exact (getElem?_visits_iff.mp hk).1
  · intro path q hq
    refine ⟨idOf path p, getElem?_visits_iff.mpr ⟨hq, rfl⟩, ?_⟩
    rintro j v hv rfl
    exact (getElem?_visits_iff.mp hv).2.symm
  · rw [List.pairwise_map]
    exact pairwise_visitsFrom [] p
  · intro ε σ f s
    refine ⟨fun k e h => ?_, fun h => ?_⟩
    · have hk := (List.getElem?_eq_some_iff.mp h.2).1
      rw [f.length_answers] at hk
      rw [f.outcome_of_firstFails h, List.length_take]
      exact ⟨rfl, by omega⟩
    · rw [f.outcome_of_neverFails h]
      exact ⟨rfl, hlength⟩

/-- A root with two children, of which the first has a child. -/
def branchingSample : Prototype :=
  ⟨default, [⟨default, [⟨default, []⟩]⟩, ⟨default, []⟩]⟩

/-- A callback that fails at its third call is called on the root, on its first child and on the
child below that, and never on the second child. -/
theorem traverse_enumerates_branchingSample :
    let f : Callback Nat Nat := fun _ n => (if n = 2 then .error n else .ok (), n + 1)
    f.FirstFails 0 branchingSample.visits 2 2 ∧ nodeAt? [1] branchingSample = some ⟨default, []⟩ ∧
      (f.outcome 0 branchingSample).1 = .error 2 ∧
      (f.outcome 0 branchingSample).2.map (·.path) = [[], [0], [0, 0]] := by
  intro f
  have hfails : f.FirstFails 0 branchingSample.visits 2 2 := by
    refine ⟨fun i hi => ?_, rfl⟩
    rcases i with _ | _ | i
    · rfl
    · rfl
    · omega
  obtain ⟨-, -, -, -, hcalls⟩ := traverse_enumerates branchingSample
  obtain ⟨houtcome, -⟩ := (hcalls Nat Nat f 0).1 2 2 hfails
  refine ⟨hfails, rfl, ?_, ?_⟩
  · rw [houtcome]
  · rw [houtcome]
    rfl

end Prototype
end LuaToC
