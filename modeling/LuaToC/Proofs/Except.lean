/-! # Computations that may fail

What is known of a computation that has succeeded, or failed, is known of its parts.  A list of
computations succeeds if all of them do, with the results in their order, and it fails as the first
one that fails (`mapM_eq_error`, `exists_split_of_mapM_eq_error`).
-/
namespace LuaToC

variable {ε α β : Type} {f : α → Except ε β}

theorem exists_eq_ok_iff_isOk {x : Except ε α} : x.isOk = true ↔ ∃ a, x = .ok a := by
  cases x <;> simp [Except.isOk, Except.toBool]

theorem exists_bind_eq_ok {x : Except ε α} {k : α → Except ε β}
    (hx : ∃ a, x = .ok a) (hk : ∀ a, ∃ b, k a = .ok b) : ∃ b, x >>= k = .ok b := by
  obtain ⟨a, rfl⟩ := hx
  exact hk a

/-- Where the rest cannot fail, only the first part can. -/
theorem exists_bind_eq_error_iff {x : Except ε α} {k : α → Except ε β}
    (hk : ∀ a, ∃ b, k a = .ok b) : (∃ err, x >>= k = .error err) ↔ ∃ err, x = .error err := by
  cases x with
  | error err => exact ⟨fun _ => ⟨err, rfl⟩, fun _ => ⟨err, rfl⟩⟩
  | ok a =>
    obtain ⟨b, hb⟩ := hk a
    constructor
    · rintro ⟨err, herr⟩
      exact absurd (hb.symm.trans herr) (by simp)
    · rintro ⟨err, herr⟩
      cases herr

theorem exists_mapM_eq_ok {xs : List α}
    (h : ∀ x ∈ xs, ∃ y, f x = .ok y) : ∃ ys, xs.mapM f = .ok ys := by
  induction xs with
  | nil => exact ⟨[], rfl⟩
  | cons x xs ih =>
    obtain ⟨y, hy⟩ := h x List.mem_cons_self
    obtain ⟨ys, hys⟩ := ih fun z hz => h z (List.mem_cons_of_mem x hz)
    refine ⟨y :: ys, ?_⟩
    rw [List.mapM_cons, hy, hys]
    rfl

/-- The first failure is the failure of the whole. -/
theorem mapM_eq_error {before after : List α} {x : α} {err : ε}
    (hbefore : ∀ b ∈ before, ∃ y, f b = .ok y) (hx : f x = .error err) :
    (before ++ x :: after).mapM f = .error err := by
  induction before with
  | nil =>
    rw [List.nil_append, List.mapM_cons, hx]
    rfl
  | cons b before ih =>
    obtain ⟨y, hy⟩ := hbefore b List.mem_cons_self
    rw [List.cons_append, List.mapM_cons, hy, ih fun c hc => hbefore c (List.mem_cons_of_mem b hc)]
    rfl

/-- And a failure of the whole is that of the first that fails. -/
theorem exists_split_of_mapM_eq_error {xs : List α} {err : ε}
    (h : xs.mapM f = .error err) :
    ∃ before x after, xs = before ++ x :: after ∧ (∀ b ∈ before, ∃ y, f b = .ok y) ∧
      f x = .error err := by
  induction xs with
  | nil => cases h
  | cons x xs ih =>
    rw [List.mapM_cons] at h
    cases hx : f x with
    | error err' =>
      rw [hx] at h
      cases h
      exact ⟨[], x, xs, rfl, fun b hb => absurd hb List.not_mem_nil, hx⟩
    | ok y =>
      cases hxs : xs.mapM f with
      | error err' =>
        rw [hx, hxs] at h
        cases h
        obtain ⟨before, z, after, rfl, hbefore, hz⟩ := ih hxs
        exact ⟨x :: before, z, after, rfl, List.forall_mem_cons.mpr ⟨⟨y, hx⟩, hbefore⟩, hz⟩
      | ok ys =>
        rw [hx, hxs] at h
        cases h

theorem exists_of_map_eq_ok {x : Except ε α} {g : α → β} {z : β}
    (h : (do return g (← x)) = .ok z) : ∃ y, x = .ok y ∧ g y = z := by
  cases x with
  | error err => cases h
  | ok y =>
    cases h
    exact ⟨y, rfl, rfl⟩

theorem exists_of_mapM_cons_eq_ok {x : α} {xs : List α} {zs : List β}
    (h : (x :: xs).mapM f = .ok zs) :
    ∃ y ys, f x = .ok y ∧ xs.mapM f = .ok ys ∧ zs = y :: ys := by
  rw [List.mapM_cons] at h
  cases hx : f x with
  | error err =>
    rw [hx] at h
    cases h
  | ok y =>
    cases hxs : xs.mapM f with
    | error err =>
      rw [hx, hxs] at h
      cases h
    | ok ys =>
      rw [hx, hxs] at h
      cases h
      exact ⟨y, ys, rfl, rfl, rfl⟩

theorem length_of_mapM_eq_ok {xs : List α} {ys : List β} (h : xs.mapM f = .ok ys) :
    ys.length = xs.length := by
  induction xs generalizing ys with
  | nil =>
    cases h
    rfl
  | cons x xs ih =>
    obtain ⟨y, ys, -, hrest, rfl⟩ := exists_of_mapM_cons_eq_ok h
    rw [List.length_cons, List.length_cons, ih hrest]

theorem mapM_eq_ok_map {g : α → β} {xs : List α} (h : ∀ x ∈ xs, f x = .ok (g x)) :
    xs.mapM f = .ok (xs.map g) := by
  induction xs with
  | nil => rfl
  | cons x xs ih =>
    rw [List.mapM_cons, h x List.mem_cons_self, ih fun y hy => h y (List.mem_cons_of_mem x hy)]
    rfl

theorem exists_of_mapM_append_eq_ok {xs ys : List α} {zs : List β}
    (h : (xs ++ ys).mapM f = .ok zs) :
    ∃ us vs, xs.mapM f = .ok us ∧ ys.mapM f = .ok vs ∧ zs = us ++ vs := by
  induction xs generalizing zs with
  | nil => exact ⟨[], zs, rfl, h, rfl⟩
  | cons x xs ih =>
    obtain ⟨y, ws, hx, hrest, rfl⟩ := exists_of_mapM_cons_eq_ok h
    obtain ⟨us, vs, hxs, hys, rfl⟩ := ih hrest
    refine ⟨y :: us, vs, ?_, hys, rfl⟩
    rw [List.mapM_cons, hx, hxs]
    rfl

theorem exists_of_mem_of_mapM_eq_ok {xs : List α} {ys : List β} (h : xs.mapM f = .ok ys) {y : β}
    (hy : y ∈ ys) : ∃ x ∈ xs, f x = .ok y := by
  induction xs generalizing ys with
  | nil =>
    cases h
    cases hy
  | cons x xs ih =>
    obtain ⟨y', ys, hx, hrest, rfl⟩ := exists_of_mapM_cons_eq_ok h
    rcases List.mem_cons.mp hy with rfl | hy
    · exact ⟨x, List.mem_cons_self, hx⟩
    · obtain ⟨x', hx', hfx'⟩ := ih hrest hy
      exact ⟨x', List.mem_cons_of_mem x hx', hfx'⟩

theorem exists_getElem?_of_mapM_eq_ok {xs : List α} {ys : List β} (h : xs.mapM f = .ok ys) {k : Nat}
    {x : α} (hx : xs[k]? = some x) : ∃ y, ys[k]? = some y ∧ f x = .ok y := by
  induction xs generalizing ys k with
  | nil => cases hx
  | cons x' xs ih =>
    obtain ⟨y, ys, hy, hrest, rfl⟩ := exists_of_mapM_cons_eq_ok h
    cases k with
    | zero =>
      obtain rfl : x' = x := Option.some.inj hx
      exact ⟨y, rfl, hy⟩
    | succ k => exact ih hrest hx

theorem exists_mapM_eq_error_iff {xs : List α} :
    (∃ err, xs.mapM f = .error err) ↔ ∃ x ∈ xs, ∃ err, f x = .error err := by
  constructor
  · rintro ⟨err, herr⟩
    obtain ⟨before, x, after, rfl, -, hx⟩ := exists_split_of_mapM_eq_error herr
    exact ⟨x, List.mem_append_right _ List.mem_cons_self, err, hx⟩
  · rintro ⟨x, hx, err, herr⟩
    cases hall : xs.mapM f with
    | error err' => exact ⟨err', rfl⟩
    | ok ys =>
      obtain ⟨k, hk⟩ := List.mem_iff_getElem?.mp hx
      obtain ⟨y, -, hy⟩ := exists_getElem?_of_mapM_eq_ok hall hk
      rw [herr] at hy
      cases hy

end LuaToC
