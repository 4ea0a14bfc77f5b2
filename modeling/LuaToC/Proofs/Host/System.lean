import LuaToC.Host.System
import LuaToC.Proofs.Host.Temporary

/-! # Operations of a system

An operation that a system refuses changes nothing (`guard_cases`), with one exception: when a write
is refused, the file may have taken any beginning of the text (`write_cases`).  A file that is to get
a content can so end with a part of it, but then there is an error (`writeFile_cases`).
-/
namespace LuaToC

namespace OnSystem

variable {sys : System} {α β : Type}

/-- After a step that is known, a run goes on from where it led. -/
theorem run_bind {x : OnSystem sys α} {f : α → OnSystem sys β} {m m' : Machine} {a : α}
    (h : x.run m = (a, m')) : (x >>= f).run m = (f a).run m' := by
  change (f (x.run m).1).run (x.run m).2 = _
  rw [h]

/-! ## Single steps -/

section

variable (sys : System) (m : Machine) (p q : Bytes)

theorem run_read : (Host.read p : OnSystem sys _).run m =
    sys.guard (.reading p) (.reading p) m (m.read p, m) := rfl

theorem run_createTemporary : (Host.createTemporary p : OnSystem sys _).run m =
    sys.guard (.making p) (.opening (Host.temporaryPath p 0)) m (m.createTemporary p) := rfl

theorem run_create : (Host.create p : OnSystem sys _).run m =
    sys.guard (.opening p) (.opening p) m (m.create p) := rfl

theorem run_permit : (Host.permit p : OnSystem sys _).run m =
    sys.guard (.permitting p) (.permitting p) m (m.permit p) := rfl

theorem run_close : (Host.close p : OnSystem sys _).run m =
    sys.guard (.closing p) (.closing p) m (.ok (), m) := rfl

theorem run_rename : (Host.rename p q : OnSystem sys _).run m =
    sys.guard (.renaming p q) (.renaming p q) m (m.rename p q) := rfl

end

/-! ## Looking only -/

/-- The step leaves the machine as it is. -/
def Keeps (x : OnSystem sys α) : Prop := ∀ m, (x.run m).2 = m

theorem Keeps.pure (a : α) : Keeps (Pure.pure a : OnSystem sys α) := fun _ => rfl

theorem Keeps.bind {x : OnSystem sys α} {f : α → OnSystem sys β} (hx : Keeps x)
    (hf : ∀ a, Keeps (f a)) : Keeps (x >>= f) := by
  intro m
  have hm : x.run m = ((x.run m).1, m) := Prod.ext rfl (hx m)
  rw [run_bind hm]
  exact hf _ m

theorem keeps_workDir : Keeps (Host.workDir : OnSystem sys _) := fun _ => rfl

theorem keeps_isPresent (p : Bytes) : Keeps (Host.isPresent p : OnSystem sys _) := fun _ => rfl

theorem keeps_read (p : Bytes) : Keeps (Host.read p : OnSystem sys _) := by
  intro m
  rw [run_read]
  unfold System.guard
  split <;> rfl

end OnSystem

namespace System

open Machine

section

variable {m : Machine} {l : Location} {p t : Bytes}

/-- What is refused changes nothing. -/
theorem guard_cases {α : Type} (sys : System) (op : Operation) (refused : Cause → FileError)
    (m : Machine) (done : Except FileError α × Machine) :
    (∃ cause, sys.guard op refused m done = (.error (refused cause), m)) ∨
      sys.guard op refused m done = done := by
  unfold guard
  cases sys.refusal? m op with
  | none => exact .inr rfl
  | some cause => exact .inl ⟨cause, rfl⟩

/-- A file takes all of a text, or a part of it and there is an error. -/
theorem write_cases (sys : System) (hp : m.locateNew p = .ok l) (hl : m.Holds l t) (s : Bytes) :
    ∃ s' x, (sys.write m p s).2 = m.put l (.file (t ++ s') x) ∧
      ((∃ cause, (sys.write m p s).1 = .error (.writing p cause)) ∨
        (sys.write m p s).1 = .ok () ∧ s' = s) := by
  unfold write
  cases sys.refusal? m (.writing p s) with
  | none =>
    obtain ⟨x, hx⟩ := append_of_holds hp hl s
    exact ⟨s, x, by rw [hx], .inr ⟨by rw [hx], rfl⟩⟩
  | some cause =>
    obtain ⟨x, hx⟩ := append_of_holds hp hl (s.take (sys.taken m p s))
    exact ⟨_, x, by rw [hx], .inl ⟨cause, rfl⟩⟩

/-- A device keeps nothing of a text, whether it is refused or not. -/
theorem write_of_device (sys : System) {d : Device} (hp : m.locateNew p = .ok l)
    (hl : m.inode? l = some (.device d)) (s : Bytes) : (sys.write m p s).2 = m := by
  unfold write
  split
  · exact append_of_device hp hl _
  · exact append_of_device hp hl _

end

section

variable {sys : System} {m : Machine}

/-- Closing a file changes nothing, but it can be what fails. -/
theorem closing_cases {ε α : Type} (path : Bytes) (failed : FileError → ε)
    (x : OnSystem sys (Except ε α)) :
    let r := (Host.closing path failed x).run m
    r.2 = (x.run m).2 ∧
      ((∃ e, (x.run m).1 = .error e ∧ r.1 = .error e) ∨
        ∃ a, (x.run m).1 = .ok a ∧ ((∃ e, r.1 = .error (failed e)) ∨ r.1 = .ok a)) := by
  unfold Host.closing
  rcases hx : x.run m with ⟨result, m'⟩
  rw [OnSystem.run_bind hx]
  rcases guard_cases sys (.closing path) (.closing path) m' (.ok (), m') with ⟨cause, hclosed⟩ | hclosed
  · rw [OnSystem.run_bind ((OnSystem.run_close sys m' path).trans hclosed)]
    cases result with
    | error e => exact ⟨rfl, .inl ⟨e, rfl, rfl⟩⟩
    | ok a => exact ⟨rfl, .inr ⟨a, rfl, .inl ⟨_, rfl⟩⟩⟩
  · rw [OnSystem.run_bind ((OnSystem.run_close sys m' path).trans hclosed)]
    cases result with
    | error e => exact ⟨rfl, .inl ⟨e, rfl, rfl⟩⟩
    | ok a => exact ⟨rfl, .inr ⟨a, rfl, .inr rfl⟩⟩

/-- What is written to an open file before it is closed. -/
theorem closing_write_cases (sys : System) (m : Machine) (p s : Bytes) :
    let r := (Host.closing p id (Host.write p s) : OnSystem sys _).run m
    r.2 = (sys.write m p s).2 ∧ (r.1 = .ok () → (sys.write m p s).1 = .ok ()) := by
  obtain ⟨hafter, hresult⟩ :=
    closing_cases (m := m) p id (Host.write p s : OnSystem sys (Except FileError Unit))
  refine ⟨hafter, fun hok => ?_⟩
  rcases hresult with ⟨e, -, herror⟩ | ⟨a, hwritten, -⟩
  · cases hok.symm.trans herror
  · exact hwritten

end

/-- A file that is to get a content has it if there is no error and no device in its place.  No other
place changes, and no directory. -/
theorem writeFile_cases (sys : System) (m : Machine) (p s : Bytes) :
    let r := (Host.writeFile p s : OnSystem sys _).run m
    (∃ e, r = (.error e, m)) ∨
      ∃ l, m.locateNew p = .ok l ∧ SameExcept [l] m r.2 ∧ SameDirectories m r.2 ∧
        (r.1 = .ok () → (∀ d, m.inode? l ≠ some (.device d)) → r.2.Holds l s) := by
  unfold Host.writeFile
  have hrun := OnSystem.run_create sys m p
  rcases guard_cases sys (.opening p) (.opening p) m (m.create p) with ⟨cause, hopen⟩ | hopen
  · rw [OnSystem.run_bind (hrun.trans hopen)]
    exact .inl ⟨_, rfl⟩
  rcases create_cases m p with
    ⟨cause, hcreate⟩ | ⟨l, hl, ⟨d, hd, hcreate⟩ | ⟨hdir, x, hcreate⟩⟩
  · rw [OnSystem.run_bind (hrun.trans (hopen.trans hcreate))]
    exact .inl ⟨_, rfl⟩
  · rw [OnSystem.run_bind (hrun.trans (hopen.trans hcreate))]
    dsimp only
    obtain ⟨hafter, -⟩ := sys.closing_write_cases m p s
    rw [write_of_device sys hl hd] at hafter
    rw [hafter]
    exact .inr ⟨l, hl, SameExcept.refl _ m, ⟨rfl, fun _ => Iff.rfl⟩, fun _ hno => absurd hd (hno d)⟩
  · rw [OnSystem.run_bind (hrun.trans (hopen.trans hcreate))]
    dsimp only
    have hroot : l ≠ [] := locateNew_ne_nil hl
    have hempty : (m.put l (.file [] x)).Holds l [] := holds_put hroot [] x
    have hcreated : SameExcept [l] m (m.put l (.file [] x)) := sameExcept_put hroot _
    generalize m.put l (.file [] x) = m₁ at hempty hcreated
    have hdirs : SameDirectories m m₁ := hcreated.sameDirectories_singleton hdir hempty.ne_directory
    obtain ⟨s', y, hwrite, hresult⟩ :=
      write_cases sys (locateNew_of_sameDirectories hdirs hl) hempty s
    obtain ⟨hafter, hok⟩ := sys.closing_write_cases m₁ p s
    rw [hwrite, List.nil_append] at hafter
    have hsame : SameExcept [l] m (m₁.put l (.file s' y)) :=
      (hcreated.trans (sameExcept_put hroot _)).mono (by simp)
    refine .inr ⟨l, hl, by rwa [hafter], ?_, fun hdone _ => ?_⟩
    · rw [hafter]
      exact hsame.sameDirectories_singleton hdir (holds_put hroot s' y).ne_directory
    · rcases hresult with ⟨cause, herror⟩ | ⟨-, rfl⟩
      · cases (hok hdone).symm.trans herror
      · rw [hafter]
        exact holds_put hroot s' y

end System
end LuaToC
