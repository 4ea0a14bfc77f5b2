import LuaToC.Command.Run
import LuaToC.Proofs.Host.System

/-! # Saving a unit

A unit is written to a temporary file, which is then moved to the output.  Whatever fails on the way,
on any system and with any part of the text written, only the temporary file has changed by then
(`fill_cases`).  So in the end the output has all of the unit, or nothing has changed; and the
temporary file is gone (`saveUnit_cases`).
-/
namespace LuaToC
namespace Command

open Machine

section

variable (sys : System) {job : Job} (options : Options) (input : ModuleInput) {m : Machine}
  {k : Location}

/-- The temporary file at a place has all of the unit, or there is an error.  Nothing else has
changed. -/
def FilledOnly (k : Location) (m : Machine) (r : Except Error CompiledUnit × Machine) : Prop :=
  SameExcept [k] m r.2 ∧
    ((∃ e s, r.1 = .error e ∧ e.stage ≠ .saving .contract ∧ r.2.Holds k s) ∨
      ∃ unit, CompiledUnit.ofInput options input = .ok unit ∧ r.1 = .ok unit ∧
        r.2.Holds k unit.text)

theorem generate_cases {temporary : Bytes} (hp : m.locateNew temporary = .ok k) (hk : m.Holds k []) :
    FilledOnly options input k m
      ((Job.generate options input temporary : OnSystem sys _).run m) := by
  unfold Job.generate
  cases hunit : CompiledUnit.ofInput options input with
  | error e => exact ⟨SameExcept.refl _ m, .inl ⟨.unit e, [], rfl, by simp [Error.stage], hk⟩⟩
  | ok unit =>
    dsimp only
    have hroot : k ≠ [] := locateNew_ne_nil hp
    obtain ⟨s, x, hafter, hwritten⟩ := sys.write_cases hp hk unit.text
    rcases hwrite : sys.write m temporary unit.text with ⟨result, m₁⟩
    rw [hwrite] at hafter hwritten
    obtain rfl : m₁ = m.put k (.file s x) := hafter
    have hholds : (m.put k (.file s x)).Holds k s := holds_put hroot s x
    have hsame : SameExcept [k] m (m.put k (.file s x)) := sameExcept_put hroot _
    generalize m.put k (.file s x) = m₁ at hwrite hholds hsame
    rw [OnSystem.run_bind
      (show (Host.write temporary unit.text : OnSystem sys _).run m = _ from hwrite)]
    rcases hwritten with ⟨cause, rfl⟩ | ⟨rfl, rfl⟩
    · exact ⟨hsame, .inl ⟨_, s, rfl, by simp [Error.stage], hholds⟩⟩
    dsimp only
    have hdirs : SameDirectories m m₁ :=
      hsame.sameDirectories_singleton hk.ne_directory hholds.ne_directory
    have hrun := OnSystem.run_permit sys m₁ temporary
    rcases sys.guard_cases (.permitting temporary) (.permitting temporary) m₁ (m₁.permit temporary) with
      ⟨cause, hpermit⟩ | hallowed
    · rw [OnSystem.run_bind (hrun.trans hpermit)]
      exact ⟨hsame, .inl ⟨_, unit.text, rfl, by simp [Error.stage], hholds⟩⟩
    · have hpermit := permit_of_holds (locateNew_of_sameDirectories hdirs hp) hholds
      rw [OnSystem.run_bind (hrun.trans (hallowed.trans hpermit))]
      exact ⟨(hsame.trans (sameExcept_put hroot _)).mono (by simp),
        .inr ⟨unit, hunit, rfl, holds_put hroot unit.text false⟩⟩

theorem closing_generate_cases {temporary : Bytes} (hp : m.locateNew temporary = .ok k)
    (hk : m.Holds k []) :
    FilledOnly options input k m
      ((Host.closing temporary (.file .closing) (Job.generate options input temporary) :
        OnSystem sys _).run m) := by
  obtain ⟨hsame, hgenerated⟩ := generate_cases sys options input hp hk
  obtain ⟨hafter, hclosed⟩ := System.closing_cases (m := m) temporary (Error.file .closing)
    (Job.generate options input temporary : OnSystem sys _)
  rw [FilledOnly, hafter]
  refine ⟨hsame, ?_⟩
  rcases hgenerated with ⟨e, s, he, hstage, hholds⟩ | ⟨unit, hunit, hok, hholds⟩
  · rcases hclosed with ⟨e', he', hr⟩ | ⟨a, ha, -⟩
    · cases he.symm.trans he'
      exact .inl ⟨e, s, hr, hstage, hholds⟩
    · cases he.symm.trans ha
  · rcases hclosed with ⟨e', he', -⟩ | ⟨a, ha, ⟨e, hr⟩ | hr⟩
    · cases hok.symm.trans he'
    · exact .inl ⟨_, unit.text, hr, by simp [Error.stage], hholds⟩
    · cases hok.symm.trans ha
      exact .inr ⟨unit, hunit, hr, hholds⟩

/-- Filling a temporary file ends with the unit at the output and nothing in the place of the
temporary file, or with a failure and the temporary file still there. -/
theorem fill_cases {temporary : Bytes} (hp : m.locateNew temporary = .ok k) (hk : m.Holds k [])
    (houtput : m.locateNew job.output ≠ .ok k) :
    let r := (job.fill options input temporary : OnSystem sys _).run m
    (∃ e s, r.1 = .error e ∧ e.stage ≠ .saving .contract ∧ r.2.Holds k s ∧ SameExcept [k] m r.2) ∨
      ∃ unit target, CompiledUnit.ofInput options input = .ok unit ∧ r.1 = .ok unit ∧
        m.locateNew job.output = .ok target ∧ m.inode? target ≠ some .directory ∧
        r.2.Holds target unit.text ∧ r.2.inode? k = none ∧ SameExcept [k, target] m r.2 := by
  unfold Job.fill
  have hfilled := closing_generate_cases sys options input hp hk
  rcases hr : (Host.closing temporary (.file .closing) (Job.generate options input temporary) :
    OnSystem sys _).run m with ⟨result, m'⟩
  rw [hr] at hfilled
  rw [OnSystem.run_bind hr]
  obtain ⟨hsame, ⟨e, s, rfl, hstage, hholds⟩ | ⟨unit, hunit, rfl, x, hfull⟩⟩ := hfilled
  · exact .inl ⟨e, s, rfl, hstage, hholds, hsame⟩
  dsimp only at hsame hfull ⊢
  have hroot : k ≠ [] := locateNew_ne_nil hp
  have hdirs : SameDirectories m m' :=
    hsame.sameDirectories_singleton hk.ne_directory (Holds.ne_directory ⟨x, hfull⟩)
  have hlocate := locate_of_inode (locateNew_of_sameDirectories hdirs hp) hfull
  have hrun := OnSystem.run_rename sys m' temporary job.output
  rcases sys.guard_cases (.renaming temporary job.output) (.renaming temporary job.output) m'
    (m'.rename temporary job.output) with ⟨cause, hrename⟩ | hallowed
  · rw [OnSystem.run_bind (hrun.trans hrename)]
    exact .inl ⟨_, unit.text, rfl, by simp [Error.stage], ⟨x, hfull⟩, hsame⟩
  rcases rename_cases job.output hlocate hfull with ⟨e, hrename⟩ | ⟨target, htarget, hdir, hrename⟩
  · rw [OnSystem.run_bind (hrun.trans (hallowed.trans hrename))]
    exact .inl ⟨_, unit.text, rfl, by simp [Error.stage], ⟨x, hfull⟩, hsame⟩
  · rw [OnSystem.run_bind (hrun.trans (hallowed.trans hrename))]
    have htarget := locateNew_of_sameDirectories hdirs.symm htarget
    have htargetRoot : target ≠ [] := locateNew_ne_nil htarget
    have hne : k ≠ target := fun h => houtput (h ▸ htarget)
    refine .inr ⟨unit, target, hunit, rfl, htarget, ?_, holds_put htargetRoot _ x, ?_, ?_⟩
    · exact fun h => hdir ((hdirs.directory target).mpr h)
    · exact ((inode?_put htargetRoot _ _).trans (if_neg hne)).trans
        ((inode?_erase hroot _).trans (if_pos rfl))
    · have hmoved : SameExcept [k, target] m' ((m'.erase k).put target (.file unit.text x)) :=
        (sameExcept_erase hroot).trans (sameExcept_put htargetRoot _)
      exact (hsame.trans hmoved).mono (by simp)

/-- The output of a job has no name that a temporary file can have. -/
theorem locateNew_output_ne {name dir : Bytes} {n : Nat} (hname : moduleOf? job.output = some name)
    (hk : m.locateNew (Host.temporaryPath dir n) = .ok k) : m.locateNew job.output ≠ .ok k := by
  intro houtput
  obtain ⟨s, hs⟩ := Host.exists_temporaryName_eq n
  have htemporary : k.getLast? = some (46 :: 108 :: s) := by
    have hlast := Host.afterLast_temporaryPath dir n
    rw [getLast?_of_locateNew hk (by simp [hlast, hs]), hlast, hs]
  unfold moduleOf? at hname
  by_cases hempty : Bytes.afterLast Path.slash job.output = []
  · rw [show Bytes.afterLast 47 job.output = [] from hempty] at hname
    cases hname
  · have hlast := getLast?_of_locateNew houtput hempty
    rw [htemporary] at hlast
    rw [show Bytes.afterLast 47 job.output = 46 :: 108 :: s from (Option.some.inj hlast).symm] at hname
    -- What follows the first dot of such a name begins with an `l`.
    have hc : (108 :: s) ≠ ascii "c" := by
      rw [show ascii "c" = [99] by decide]
      simp
    rw [cut?, if_pos rfl] at hname
    cases (if_neg hc).symm.trans hname

/-- A unit is saved whole, or nothing changes.  A temporary file that was needed is gone. -/
theorem saveUnit_cases (m : Machine) {name : Bytes}
    (hname : moduleOf? job.output = some name) :
    let r := (job.saveUnit options input : OnSystem sys _).run m
    (∃ e, r.1 = .error e ∧ e.stage ≠ .saving .contract ∧ SameExcept [] m r.2) ∨
      ∃ unit target, CompiledUnit.ofInput options input = .ok unit ∧ r.1 = .ok unit ∧
        m.locateNew job.output = .ok target ∧ m.inode? target ≠ some .directory ∧
        r.2.Holds target unit.text ∧ SameExcept [target] m r.2 := by
  unfold Job.saveUnit
  have hrun := OnSystem.run_createTemporary sys m (Path.directory job.output)
  rcases sys.guard_cases (.making (Path.directory job.output))
    (.opening (Host.temporaryPath (Path.directory job.output) 0)) m
    (m.createTemporary (Path.directory job.output)) with ⟨cause, hcreate⟩ | hallowed
  · rw [OnSystem.run_bind (hrun.trans hcreate)]
    exact .inl ⟨_, rfl, by simp [Error.stage], SameExcept.refl _ m⟩
  rcases createTemporary_cases m (Path.directory job.output) with
    ⟨e, hcreate⟩ | ⟨n, k, hk, hfree, hcreate⟩
  · rw [OnSystem.run_bind (hrun.trans (hallowed.trans hcreate))]
    exact .inl ⟨_, rfl, by simp [Error.stage], SameExcept.refl _ m⟩
  rw [OnSystem.run_bind (hrun.trans (hallowed.trans hcreate))]
  dsimp only
  have hroot : k ≠ [] := locateNew_ne_nil hk
  have hempty : (m.put k (.file [] false)).Holds k [] := holds_put hroot [] false
  have hcreated : SameExcept [k] m (m.put k (.file [] false)) := sameExcept_put hroot _
  generalize m.put k (.file [] false) = m₁ at hempty hcreated
  have hdirs : SameDirectories m m₁ :=
    hcreated.sameDirectories_singleton (by simp [hfree]) hempty.ne_directory
  have hk₁ := locateNew_of_sameDirectories hdirs hk
  have houtput := locateNew_output_ne hname hk₁
  have hfill := fill_cases sys options input hk₁ hempty houtput
  generalize hr : (job.fill options input (Host.temporaryPath (Path.directory job.output) n) :
    OnSystem sys _).run m₁ = r at hfill
  obtain ⟨result, m₂⟩ := r
  rw [OnSystem.run_bind hr]
  -- In both cases the temporary file is removed, even if it has been moved away.
  rcases hfill with ⟨e, s, rfl, hstage, hholds, hsame⟩ |
    ⟨unit, target, hunit, rfl, htarget, hdir, htext, hnone, hsame⟩
  · have hdirs' : SameDirectories m₁ m₂ :=
      hsame.sameDirectories_singleton hempty.ne_directory hholds.ne_directory
    obtain ⟨hgone, hremoved⟩ :=
      remove_cases (locateNew_of_sameDirectories hdirs' hk₁) hholds.ne_directory
    have hafter : SameExcept [k] m _ := (hcreated.trans (hsame.trans hremoved)).mono (by simp)
    exact .inl ⟨e, rfl, hstage, hafter.restored (hgone.trans hfree.symm)⟩
  · have hdirs' : SameDirectories m₁ m₂ := by
      refine hsame.sameDirectories fun l hl => ?_
      rcases List.mem_cons.mp hl with rfl | hl
      · exact ⟨hempty.ne_directory, by simp [hnone]⟩
      · rw [List.mem_singleton.mp hl]
        exact ⟨hdir, htext.ne_directory⟩
    obtain ⟨hgone, hremoved⟩ :=
      remove_cases (locateNew_of_sameDirectories hdirs' hk₁) (by simp [hnone])
    have hafter : SameExcept [k, target] m _ := (hcreated.trans (hsame.trans hremoved)).mono (by simp)
    have hne : target ≠ k := fun h => houtput (h ▸ htarget)
    exact .inr ⟨unit, target, hunit, rfl, locateNew_of_sameDirectories hdirs.symm htarget,
      fun h => hdir ((hdirs.directory target).mpr h),
      htext.of_sameExcept hremoved (by simpa using hne), hafter.restored (hgone.trans hfree.symm)⟩

end

end Command
end LuaToC
