import LuaToC.Chunk.Writer
import LuaToC.Proofs.Command.Saving
import LuaToC.Proofs.Unit.Alignment

/-! # A run is all or nothing

A run of the command changes files in two places only: where the output is, and where the contract is
wanted.  It reads the configuration and loads the input first, which changes nothing as long as the
Lua compiler does not.  Then the unit is saved, whole or not at all, and the contract is written last.
So a run that fails leaves every file as it was, unless it is the contract that cannot be written; and
a run that succeeds leaves the unit and its contract (`run_all_or_nothing`).

The system is any: what its programs do is not looked into, each step but the removal of a file may
fail, and a write may break off.  A device does not keep what is written to it, so a run can succeed and
leave no contract.  And two paths to one file are one place, so a contract can take that of the unit
(`unit_or_contract_missing_chunkSample`).
-/
namespace LuaToC

open OnSystem

section

variable {sys : System}

/-! ## Reading only -/

namespace Config

theorem keeps_ofFile (path : Bytes) : Keeps (ofFile path : OnSystem sys _) := by
  refine (keeps_read path).bind fun r => ?_
  cases r with
  | error e => exact Keeps.pure _
  | ok text => exact keeps_workDir.bind fun _ => Keeps.pure _

theorem keeps_firstWithFile (dirs : List Bytes) : Keeps (firstWithFile dirs : OnSystem sys _) := by
  induction dirs with
  | nil => exact Keeps.pure _
  | cons dir dirs ih =>
    refine (keeps_isPresent _).bind fun present => ?_
    cases present with
    | false => exact ih
    | true => exact Keeps.pure _

theorem keeps_nearest (dir : Bytes) : Keeps (nearest dir : OnSystem sys _) := by
  refine keeps_workDir.bind fun workDir => (keeps_firstWithFile _).bind fun found => ?_
  cases found with
  | none => exact Keeps.pure _
  | some dir => exact (keeps_ofFile _).bind fun _ => Keeps.pure _

end Config

namespace Command

theorem keeps_configuration (file input : Bytes) :
    Keeps (configuration file input : OnSystem sys _) := by
  unfold configuration
  split
  · exact Config.keeps_ofFile file
  · exact (Config.keeps_nearest _).bind fun _ => Keeps.pure _

end Command
end

namespace Command

open Machine

/-- The job that arguments ask for, if they are well formed and the configuration can be read. -/
def requested? (sys : System) (m : Machine) (arguments : List Bytes) : Option Job :=
  match Flags.none.parse arguments with
  | .error _ => none
  | .ok flags =>
    match flags.operands with
    | [input, output] =>
      match ((configuration flags.config input : OnSystem sys _).run m).1 with
      | .error _ => none
      | .ok config => some (Job.ofFlags flags config input output)
    | _ => none

/-- The run of the Lua compiler that a job asks for when its input is source. -/
def Job.compilation (job : Job) : Invocation :=
  ⟨if job.config.luac = [] then Loaded.standardCompiler else job.config.luac,
    [ascii "-o", ascii "-", job.input], false⟩

section

variable {sys : System} {m : Machine} {arguments : List Bytes} (palette : Listing.Palette) (out : Sink)

theorem run_configuration (file input : Bytes) (m : Machine) :
    (configuration file input : OnSystem sys _).run m =
      (((configuration file input : OnSystem sys _).run m).1, m) :=
  Prod.ext rfl (keeps_configuration file input m)

/-- Without a job nothing is done, and it is the arguments or the configuration that is wrong. -/
theorem perform_of_requested?_eq_none (h : requested? sys m arguments = none) :
    ∃ e, (perform palette arguments out : OnSystem sys _).run m = ((.error e, out), m) ∧
      (e.stage = .arguments ∨ e.stage = .configuration) := by
  unfold requested? at h
  unfold perform
  cases hparse : Flags.none.parse arguments with
  | error e => exact ⟨.arguments e, rfl, .inl rfl⟩
  | ok flags =>
    rw [hparse] at h
    dsimp only at h ⊢
    split
    · rename_i input output hoperands
      rw [hoperands] at h
      dsimp only at h
      rw [run_bind (run_configuration flags.config input m)]
      cases hconfig : ((configuration flags.config input : OnSystem sys _).run m).1 with
      | error e => exact ⟨.config e, rfl, .inr rfl⟩
      | ok config =>
        rw [hconfig] at h
        cases h
    · exact ⟨.operands, rfl, .inl rfl⟩

/-- What is done is the job that is asked for. -/
theorem perform_of_requested?_eq_some {job : Job} (h : requested? sys m arguments = some job) :
    (perform palette arguments out : OnSystem sys _).run m =
      (job.run palette out : OnSystem sys _).run m := by
  unfold requested? at h
  unfold perform
  cases hparse : Flags.none.parse arguments with
  | error e =>
    rw [hparse] at h
    cases h
  | ok flags =>
    rw [hparse] at h
    dsimp only at h ⊢
    rcases hoperands : flags.operands with _ | ⟨input, _ | ⟨output, _ | _⟩⟩
    case cons.cons.nil =>
      rw [hoperands] at h
      dsimp only at h ⊢
      rw [run_bind (run_configuration flags.config input m)]
      cases hconfig : ((configuration flags.config input : OnSystem sys _).run m).1 with
      | error e =>
        rw [hconfig] at h
        cases h
      | ok config =>
        rw [hconfig] at h
        cases h
        rfl
    all_goals
      rw [hoperands] at h
      cases h

end

/-! ## Units -/

/-- A fresh compiler generates the unit. -/
theorem result_of_ofInput {options : Options} {input : ModuleInput} {unit : CompiledUnit}
    (h : CompiledUnit.ofInput options input = .ok unit) :
    ((Compiler.new options).compileModule input .empty).result = .ok unit := by
  have hwritten := congrArg Prod.fst
    (Compiler.compileModule_eq_writeTo (show (Compiler.new options).options = _ from rfl) input .empty)
  refine hwritten.trans ?_
  rw [CompiledUnit.writeTo, h]
  rfl

/-- A unit shows the identifier of the build that its contract has. -/
theorem exists_text_eq {options : Options} {input : ModuleInput} {unit : CompiledUnit} {sink : Sink}
    (h : ((Compiler.new options).compileModule input sink).result = .ok unit) :
    ∃ before after, unit.text = before ++
      (ascii "#define LUA_AOT_BUILD_ID \"" ++ unit.contract.buildId ++ ascii "\"" ++
        [Bytes.newline]) ++ after := by
  cases hmain : input.main with
  | none =>
    have hwritten := congrArg Prod.fst
      (Compiler.compileModule_eq_writeTo (show (Compiler.new options).options = _ from rfl) input sink)
    rw [CompiledUnit.writeTo, CompiledUnit.ofInput, hmain] at hwritten
    cases h.symm.trans hwritten
  | some root =>
    obtain ⟨functions, -, hunit, -⟩ := Compiler.exists_functions_of_compileModule_eq_ok rfl hmain h
    have hmem : ascii "#define LUA_AOT_BUILD_ID \"" ++ unit.contract.buildId ++ ascii "\"" ∈
        CompiledUnit.opening options.completed ++ functions.flatten ++ CompiledUnit.closing
          options.completed input (CompiledUnit.entriesOf options root) unit.contract := by
      simp [CompiledUnit.closing, CompiledUnit.contractBlock]
    obtain ⟨before, after, hlines⟩ := List.append_of_mem hmem
    have htext : unit.text = Bytes.unlines (CompiledUnit.opening options.completed ++
        functions.flatten ++ CompiledUnit.closing options.completed input
          (CompiledUnit.entriesOf options root) unit.contract) := by
      rw [hunit]
      rfl
    refine ⟨Bytes.unlines before, Bytes.unlines after, ?_⟩
    rw [htext, hlines, Bytes.unlines, List.flatMap_append, List.flatMap_cons]
    exact (List.append_assoc _ _ _).symm

/-! ## Jobs -/

/-- The unit is what a compiler with the choices of the job generates for the loaded input. -/
def Job.Generates (job : Job) (sys : System) (m : Machine) (unit : CompiledUnit) : Prop :=
  ∃ options input, ((job.prepare : OnSystem sys _).run m).1 = .ok (options, input) ∧
    ((Compiler.new options).compileModule input .empty).result = .ok unit

/-- The places that a job may write to: that of the output, and that of the contract if one is
wanted. -/
def Job.places (job : Job) (m : Machine) : List Location :=
  (job.output :: if job.contract = [] then [] else [job.contract]).filterMap fun p =>
    (m.locateNew p).toOption

/-- The contract of the unit is where it is wanted, unless there was a device. -/
def Job.HasContract (job : Job) (m m' : Machine) (unit : CompiledUnit) : Prop :=
  job.contract ≠ [] → (∀ l d, m.locateNew job.contract = .ok l → m.inode? l ≠ some (.device d)) →
    m'.read job.contract = .ok unit.contract.encode

section

variable {sys : System} {job : Job} {m m' : Machine}

theorem mem_places_output {target : Location} (h : m.locateNew job.output = .ok target) :
    target ∈ job.places m :=
  List.mem_filterMap.mpr ⟨job.output, List.mem_cons_self, by rw [h]; rfl⟩

theorem mem_places_contract {place : Location} (hwanted : job.contract ≠ [])
    (h : m.locateNew job.contract = .ok place) : place ∈ job.places m :=
  List.mem_filterMap.mpr ⟨job.contract, by simp [hwanted], by rw [h]; rfl⟩

/-- Loading an input changes no file if the compiler does not. -/
theorem sameExcept_ofPath (hluac : ∀ l, (sys.execute m job.compilation).2.inode? l = m.inode? l) :
    SameExcept [] m
      ((Loaded.ofPath job.config.luac job.input false : OnSystem sys _).run m).2 := by
  have hexecute : SameExcept [] m { (sys.execute m job.compilation).2 with workDir := m.workDir } :=
    ⟨rfl, fun l _ => hluac l⟩
  have hrun (i : Invocation) : (Host.execute i : OnSystem sys _).run m =
      ((sys.execute m i).1, { (sys.execute m i).2 with workDir := m.workDir }) := rfl
  unfold Loaded.ofPath
  have hread : (Host.read job.input : OnSystem sys _).run m =
      (((Host.read job.input : OnSystem sys _).run m).1, m) := Prod.ext rfl (keeps_read job.input m)
  rw [run_bind hread]
  cases ((Host.read job.input : OnSystem sys _).run m).1 with
  | error e => exact SameExcept.refl _ m
  | ok source =>
    dsimp only
    split
    · exact SameExcept.refl _ m
    · rw [run_bind (hrun _)]
      split <;> exact hexecute

/-- A job that is prepared knows the name of its module.  One that is not has written nothing. -/
theorem prepare_cases (hluac : ∀ l, (sys.execute m job.compilation).2.inode? l = m.inode? l) :
    let r := (job.prepare : OnSystem sys _).run m
    SameExcept [] m r.2 ∧ (∀ e, r.1 = .error e → e.stage ≠ .saving .contract) ∧
      ∀ options input, r.1 = .ok (options, input) → moduleOf? job.output = some input.name := by
  unfold Job.prepare
  cases moduleOf? job.output with
  | none =>
    exact ⟨SameExcept.refl _ m, fun _ h => by cases h; simp [Error.stage], fun _ _ h => by cases h⟩
  | some name =>
    dsimp only
    cases job.config.options with
    | error e =>
      exact ⟨SameExcept.refl _ m, fun _ h => by cases h; simp [Error.stage], fun _ _ h => by cases h⟩
    | ok options =>
      dsimp only
      have hload := sameExcept_ofPath hluac
      rcases hr : (Loaded.ofPath job.config.luac job.input false : OnSystem sys _).run m with
        ⟨e | loaded, m'⟩
      · rw [hr] at hload
        rw [run_bind hr]
        exact ⟨hload, fun _ h => by cases h; simp [Error.stage], fun _ _ h => by cases h⟩
      · rw [hr] at hload
        rw [run_bind hr]
        refine ⟨hload, fun _ h => ?_, fun _ _ h => ?_⟩
        · cases h
        · cases h
          rfl

theorem stage_list {palette : Listing.Palette} {options : Options} {input : ModuleInput}
    {out out' : Sink} {e : Error} (h : job.list palette options input out = (.error e, out')) :
    e.stage = .listing := by
  unfold Job.list at h
  split at h
  · split at h
    · cases h
      rfl
    · cases h
  · cases h

/-- A contract is written whole, if one is wanted, or to a device, or there is an error. -/
theorem saveContract_cases (sys : System) (job : Job) (m : Machine) (unit : CompiledUnit) :
    let r := (job.saveContract unit : OnSystem sys _).run m
    (r.1 = .ok () ∨ job.contract ≠ [] ∧ ∃ e, r.1 = .error (.file .contract e)) ∧
      SameDirectories m r.2 ∧
      (r.2 = m ∧ (r.1 = .ok () → job.contract = []) ∨
        job.contract ≠ [] ∧ ∃ place, m.locateNew job.contract = .ok place ∧ SameExcept [place] m r.2 ∧
          (r.1 = .ok () → (∀ d, m.inode? place ≠ some (.device d)) →
            r.2.Holds place unit.contract.encode)) := by
  unfold Job.saveContract
  by_cases hwanted : job.contract = []
  · rw [if_pos hwanted]
    exact ⟨.inl rfl, ⟨rfl, fun _ => Iff.rfl⟩, .inl ⟨rfl, fun _ => hwanted⟩⟩
  rw [if_neg hwanted]
  have hcases := sys.writeFile_cases m job.contract unit.contract.encode
  rcases hr : (Host.writeFile job.contract unit.contract.encode : OnSystem sys _).run m with
    ⟨e | _, m'⟩
  · rw [hr] at hcases
    rw [run_bind hr]
    rcases hcases with ⟨e', heq⟩ | ⟨place, hplace, hsame, hdirs, -⟩
    · cases heq
      exact ⟨.inr ⟨hwanted, e, rfl⟩, ⟨rfl, fun _ => Iff.rfl⟩, .inl ⟨rfl, fun h => by cases h⟩⟩
    · exact ⟨.inr ⟨hwanted, e, rfl⟩, hdirs,
        .inr ⟨hwanted, place, hplace, hsame, fun h => by cases h⟩⟩
  · rw [hr] at hcases
    rw [run_bind hr]
    rcases hcases with ⟨e', heq⟩ | ⟨place, hplace, hsame, hdirs, hholds⟩
    · cases heq
    · exact ⟨.inl rfl, hdirs, .inr ⟨hwanted, place, hplace, hsame, fun _ => hholds rfl⟩⟩

/-- Once the unit is saved, it stays, and only the contract can still fail. -/
theorem saveContract_of_saved (sys : System) {unit : CompiledUnit} {target : Location}
    (htarget : m.locateNew job.output = .ok target) (hsaved : SameExcept [target] m m')
    (hdirs : SameDirectories m m') (htext : m'.Holds target unit.text)
    (hcontract : m.locateNew job.contract ≠ .ok target) :
    let r := (job.saveContract unit : OnSystem sys _).run m'
    r.2.read job.output = .ok unit.text ∧ SameExcept (job.places m) m r.2 ∧
      ((job.contract ≠ [] ∧ ∃ e, r.1 = .error (.file .contract e)) ∨
        r.1 = .ok () ∧ job.HasContract m r.2 unit) := by
  obtain ⟨hresult, hdirs', hwritten⟩ := saveContract_cases sys job m' unit
  have hsaved' : SameExcept (job.places m) m m' :=
    hsaved.mono (by simpa using mem_places_output htarget)
  generalize (job.saveContract unit : OnSystem sys _).run m' = r at hresult hdirs' hwritten ⊢
  have htarget' : r.2.locateNew job.output = .ok target :=
    locateNew_of_sameDirectories hdirs' (locateNew_of_sameDirectories hdirs htarget)
  rcases hwritten with ⟨hsame, hnone⟩ | ⟨hwanted, place, hplace, hsame, hholds⟩
  · refine ⟨read_of_holds htarget' (hsame ▸ htext), hsame ▸ hsaved', ?_⟩
    rcases hresult with hok | hfailed
    · exact .inr ⟨hok, fun hwanted => absurd (hnone hok) hwanted⟩
    · exact .inl hfailed
  · have hplace' := locateNew_of_sameDirectories hdirs.symm hplace
    have hne : target ≠ place := fun h => hcontract (h ▸ hplace')
    refine ⟨read_of_holds htarget' (htext.of_sameExcept hsame (by simpa using hne)), ?_, ?_⟩
    · refine (hsaved.trans hsame).mono ?_
      simp [mem_places_output htarget, mem_places_contract hwanted hplace']
    · rcases hresult with hok | hfailed
      · refine .inr ⟨hok, fun _ hdevice => ?_⟩
        refine read_of_holds (locateNew_of_sameDirectories hdirs' hplace) (hholds hok fun d hd => ?_)
        rw [hsaved.inode place (by simpa using Ne.symm hne)] at hd
        exact hdevice place d hplace' hd
      · exact .inl hfailed

/-- A job fails before it has changed anything, or it saves its unit. -/
theorem job_run_cases (palette : Listing.Palette) (out : Sink)
    (hluac : ∀ l, (sys.execute m job.compilation).2.inode? l = m.inode? l)
    (hcontract : ∀ l, m.locateNew job.output = .ok l → m.locateNew job.contract ≠ .ok l) :
    let r := (job.run palette out : OnSystem sys _).run m
    (∃ e, r.1.1 = .error e ∧ e.stage ≠ .saving .contract ∧ SameExcept [] m r.2) ∨
      ∃ unit, job.Generates sys m unit ∧ r.2.read job.output = .ok unit.text ∧
        SameExcept (job.places m) m r.2 ∧
        ((job.contract ≠ [] ∧ ∃ e, r.1.1 = .error (.file .contract e)) ∨
          r.1.1 = .ok () ∧ job.HasContract m r.2 unit) := by
  unfold Job.run
  have hprepare := prepare_cases hluac
  rcases hr : (job.prepare : OnSystem sys _).run m with ⟨e | ⟨options, input⟩, m₁⟩
  · rw [hr] at hprepare
    rw [run_bind hr]
    exact .inl ⟨e, rfl, hprepare.2.1 e rfl, hprepare.1⟩
  rw [hr] at hprepare
  obtain ⟨hloaded, -, hname⟩ := hprepare
  have hdirs : SameDirectories m m₁ := hloaded.sameDirectories fun l hl => absurd hl List.not_mem_nil
  rw [run_bind hr]
  dsimp only
  rcases hlist : job.list palette options input out with ⟨e | _, out'⟩
  · exact .inl ⟨e, rfl, by simp [stage_list hlist], hloaded⟩
  dsimp only
  have hunit := saveUnit_cases sys options input m₁ (hname options input rfl)
  rcases hs : (job.saveUnit options input : OnSystem sys _).run m₁ with ⟨result, m₂⟩
  rw [hs] at hunit
  rw [run_bind hs]
  rcases hunit with
    ⟨e, rfl, hstage, hsame⟩ | ⟨unit, target, hgenerated, rfl, htarget, hdir, htext, hsame⟩
  · exact .inl ⟨e, rfl, hstage, hloaded.trans hsame⟩
  dsimp only at htext hsame ⊢
  have hsaved : SameExcept [target] m m₂ := hloaded.trans hsame
  have htarget' := locateNew_of_sameDirectories hdirs.symm htarget
  have hdirs' : SameDirectories m m₂ := hsaved.sameDirectories_singleton
    (fun h => hdir ((hdirs.directory target).mpr h)) htext.ne_directory
  have hgenerates : job.Generates sys m unit :=
    ⟨options, input, by rw [hr], result_of_ofInput hgenerated⟩
  have hwritten := saveContract_of_saved sys htarget' hsaved hdirs' htext
    (hcontract target htarget')
  rcases hc : (job.saveContract unit : OnSystem sys _).run m₂ with ⟨result, m₃⟩
  rw [hc] at hwritten
  rw [run_bind hc]
  exact .inr ⟨unit, hgenerates, hwritten⟩

/-- What arguments ask for fails before anything has changed, or it is a job that saves its unit. -/
theorem perform_cases {arguments : List Bytes} (palette : Listing.Palette) (out : Sink)
    (hluac : ∀ job, requested? sys m arguments = some job →
      ∀ l, (sys.execute m job.compilation).2.inode? l = m.inode? l)
    (hcontract : ∀ job, requested? sys m arguments = some job →
      ∀ l, m.locateNew job.output = .ok l → m.locateNew job.contract ≠ .ok l) :
    let r := (perform palette arguments out : OnSystem sys _).run m
    (∃ e, r.1.1 = .error e ∧ e.stage ≠ .saving .contract ∧ SameExcept [] m r.2) ∨
      ∃ job unit, requested? sys m arguments = some job ∧ job.Generates sys m unit ∧
        r.2.read job.output = .ok unit.text ∧ SameExcept (job.places m) m r.2 ∧
        ((job.contract ≠ [] ∧ ∃ e, r.1.1 = .error (.file .contract e)) ∨
          r.1.1 = .ok () ∧ job.HasContract m r.2 unit) := by
  cases hjob : requested? sys m arguments with
  | none =>
    obtain ⟨e, hr, hstage⟩ := perform_of_requested?_eq_none palette out hjob
    rw [hr]
    refine .inl ⟨e, rfl, fun h => ?_, SameExcept.refl _ m⟩
    rcases hstage with hstage | hstage
    · cases hstage.symm.trans h
    · cases hstage.symm.trans h
  | some job =>
    rw [perform_of_requested?_eq_some palette out hjob]
    rcases job_run_cases palette out (hluac job hjob) (hcontract job hjob) with
      hfailed | ⟨unit, hsaved⟩
    · exact .inl hfailed
    · exact .inr ⟨job, unit, rfl, hsaved⟩

/-- A job that generates a unit knows the name of its module. -/
theorem exists_moduleOf?_of_generates {unit : CompiledUnit} (h : job.Generates sys m unit) :
    ∃ name, moduleOf? job.output = some name := by
  obtain ⟨options, input, hprepare, -⟩ := h
  unfold Job.prepare at hprepare
  cases hname : moduleOf? job.output with
  | none =>
    rw [hname] at hprepare
    cases hprepare
  | some name => exact ⟨name, rfl⟩

/-- No place that a temporary file can have is one that the job writes to, if it is not that of the
contract. -/
theorem notMem_places_of_temporary {unit : CompiledUnit} (h : job.Generates sys m unit) {dir : Bytes}
    {n : Nat} {l : Location} (hl : m.locateNew (Host.temporaryPath dir n) = .ok l)
    (hcontract : m.locateNew job.contract ≠ .ok l) : l ∉ job.places m := by
  obtain ⟨name, hname⟩ := exists_moduleOf?_of_generates h
  intro hmem
  obtain ⟨p, hp, hplace⟩ := List.mem_filterMap.mp hmem
  have hpl : m.locateNew p = .ok l := by
    cases hlocate : m.locateNew p with
    | error cause =>
      rw [hlocate] at hplace
      cases hplace
    | ok l' =>
      rw [hlocate] at hplace
      cases hplace
      rfl
  rcases List.mem_cons.mp hp with rfl | hp
  · exact locateNew_output_ne hname hl hpl
  · split at hp
    · cases hp
    · rw [List.mem_singleton.mp hp] at hpl
      exact hcontract hpl

end

/-- The status is zero if the job has been done, or if there was none and help was asked for. -/
theorem exists_finished_zero_iff (result : Except Error Unit) (out : Sink) :
    (∃ text errorText, Outcome.ofResult (result, out) = .finished 0 text errorText) ↔
      result = .ok () ∨ result = .error (.arguments .helpWanted) := by
  cases result with
  | ok => exact ⟨fun _ => .inl rfl, fun _ => ⟨out.written, [], rfl⟩⟩
  | error e =>
    constructor
    · rintro ⟨text, errorText, h⟩
      refine .inr (congrArg Except.error ?_)
      change (if e.isCrash then .crashed else .finished e.status out.written e.report) =
        Outcome.finished 0 text errorText at h
      split at h
      · cases h
      · have hstatus : e.status = 0 := (Outcome.finished.inj h).1
        unfold Error.status at hstatus
        split at hstatus
        · rfl
        · cases hstatus
    · rintro (h | h)
      · cases h
      · cases h
        exact ⟨out.written, Flags.help, rfl⟩

/-- **A run leaves no partial unit.**  The system is any on which the Lua compiler changes no file, and
the contract is not wanted in the place of the output.  Then the output has its former content or all
of the unit, and no temporary file is left.  A failure in any stage but the last leaves every file as
it was; a contract that cannot be written leaves the unit.  A run that does its job leaves the unit and,
where no device is, its contract; both have the same identifier of the build. -/
theorem run_all_or_nothing (sys : System) (palette : Listing.Palette) (arguments : List Bytes)
    (out : Sink) (m : Machine)
    (hluac : ∀ job, requested? sys m arguments = some job →
      ∀ l, (sys.execute m job.compilation).2.inode? l = m.inode? l)
    (hcontract : ∀ job, requested? sys m arguments = some job →
      ∀ l, m.locateNew job.output = .ok l → m.locateNew job.contract ≠ .ok l) :
    let r := (perform palette arguments out : OnSystem sys _).run m
    (run palette arguments out : OnSystem sys _).run m = (.ofResult r.1, r.2) ∧
      ((∃ text errorText, Outcome.ofResult r.1 = .finished 0 text errorText) ↔
        r.1.1 = .ok () ∨ r.1.1 = .error (.arguments .helpWanted)) ∧
      (∀ job, requested? sys m arguments = some job →
        (r.2.read job.output = m.read job.output ∨
          ∃ unit, job.Generates sys m unit ∧ r.2.read job.output = .ok unit.text) ∧
        ∀ dir n l, m.locateNew (Host.temporaryPath dir n) = .ok l →
          m.locateNew job.contract ≠ .ok l → r.2.inode? l = m.inode? l) ∧
      match r.1.1 with
      | .error e =>
        match e.stage with
        | .arguments | .configuration | .naming | .policy | .loading | .listing | .generation
        | .saving .creation | .saving .writing | .saving .permission | .saving .closing
        | .saving .renaming => SameExcept [] m r.2
        | .saving .contract =>
          ∃ job unit, requested? sys m arguments = some job ∧ job.contract ≠ [] ∧
            job.Generates sys m unit ∧ r.2.read job.output = .ok unit.text ∧
            SameExcept (job.places m) m r.2
      | .ok () =>
        ∃ job unit, requested? sys m arguments = some job ∧ job.Generates sys m unit ∧
          r.2.read job.output = .ok unit.text ∧ job.HasContract m r.2 unit ∧
          SameExcept (job.places m) m r.2 ∧
          ∃ before after, unit.text = before ++
            (ascii "#define LUA_AOT_BUILD_ID \"" ++ unit.contract.buildId ++ ascii "\"" ++
              [Bytes.newline]) ++ after := by
  have hcases := perform_cases palette out hluac hcontract
  rcases hr : (perform palette arguments out : OnSystem sys _).run m with ⟨⟨result, out'⟩, m'⟩
  rw [hr] at hcases
  have hrun : (run palette arguments out : OnSystem sys _).run m = (.ofResult (result, out'), m') :=
    run_bind hr
  refine ⟨hrun, exists_finished_zero_iff result out', ?_⟩
  rcases hcases with ⟨e, rfl, hstage, hsame⟩ |
    ⟨job, unit, hjob, hgenerates, htext, hsame, hresult⟩
  · refine ⟨fun job _ => ⟨.inl (read_of_same hsame _), fun _ _ l _ _ =>
      hsame.inode l List.not_mem_nil⟩, ?_⟩
    dsimp only
    cases hfailed : e.stage with
    | saving step =>
      cases step with
      | contract => exact absurd hfailed hstage
      | _ => exact hsame
    | _ => exact hsame
  · refine ⟨fun job' hjob' => ?_, ?_⟩
    · cases hjob.symm.trans hjob'
      exact ⟨.inr ⟨unit, hgenerates, htext⟩, fun _ _ l hl hcontract =>
        hsame.inode l (notMem_places_of_temporary hgenerates hl hcontract)⟩
    · rcases hresult with ⟨hwanted, e, rfl⟩ | ⟨rfl, hhas⟩
      · exact ⟨job, unit, hjob, hwanted, hgenerates, htext, hsame⟩
      · obtain ⟨options, input, -, hunit⟩ := id hgenerates
        exact ⟨job, unit, hjob, hgenerates, htext, hhas, hsame, exists_text_eq hunit⟩

/-- A system without programs, on which nothing is refused. -/
def bareSystem : System where
  execute m i := (⟨[], [], some (.notFound i.program)⟩, m)
  refusal? _ _ := none
  taken _ _ _ := 0

/-- A system without programs, on which every write breaks off after a hundred bytes. -/
def fullSystem : System where
  execute m i := (⟨[], [], some (.notFound i.program)⟩, m)
  refusal? _ op :=
    match op with
    | .writing _ _ => some .noSpace
    | _ => none
  taken _ _ _ := 100

/-- A machine with a device, and with a chunk whose function returns at once. -/
def chunkSample : Machine :=
  let chunk := Chunk.header .little ++ [0x00, 0x83, 64, 109, 0x80, 0x80, 0, 0, 2, 0x81, 0x47, 0, 0, 0,
    0x80, 0x80, 0x80, 0x80, 0x80, 0x80, 0x80]
  ⟨[([ascii "in.luac"], .file chunk false), ([ascii "null"], .device .null)], []⟩

/-- Arguments that ask for a unit of the chunk, and for its contract at a path. -/
def argumentsSample (contract : String) : List Bytes :=
  [ascii "-contract", ascii contract, ascii "in.luac", ascii "m.c"]

/-- The unit that a job generates, if it does. -/
def Job.generated? (job : Job) (sys : System) (m : Machine) : Option CompiledUnit :=
  match ((job.prepare : OnSystem sys _).run m).1 with
  | .error _ => none
  | .ok (options, input) => ((Compiler.new options).compileModule input .empty).result.toOption

/-- The stage in which something failed, if it did. -/
def failedStage? : Except Error Unit → Option Stage
  | .error e => some e.stage
  | .ok () => none

section

variable {sys : System} {m : Machine} {arguments : List Bytes} {contract : Bytes}

/-- The arguments ask for a unit at `m.c` and for its contract at another place. -/
def IsSample (sys : System) (m : Machine) (arguments : List Bytes) (contract : Bytes) : Prop :=
  (requested? sys m arguments).map (fun job => (job.output, job.contract)) =
    some (ascii "m.c", contract) ∧ m.locateNew (ascii "m.c") ≠ m.locateNew contract

instance : Decidable (IsSample sys m arguments contract) := inferInstanceAs (Decidable (_ ∧ _))

theorem IsSample.exists_requested (h : IsSample sys m arguments contract) :
    ∃ job, requested? sys m arguments = some job ∧ job.contract = contract := by
  obtain ⟨job, hjob, hpaths⟩ := Option.map_eq_some_iff.mp h.1
  exact ⟨job, hjob, (Prod.mk.inj hpaths).2⟩

theorem IsSample.places (h : IsSample sys m arguments contract) (job : Job)
    (hjob : requested? sys m arguments = some job) (l : Location)
    (hl : m.locateNew job.output = .ok l) : m.locateNew job.contract ≠ .ok l := by
  intro hl'
  obtain ⟨job', hjob', hpaths⟩ := Option.map_eq_some_iff.mp h.1
  cases hjob'.symm.trans hjob
  rw [(Prod.mk.inj hpaths).1] at hl
  rw [(Prod.mk.inj hpaths).2] at hl'
  exact h.2 (hl.trans hl'.symm)

theorem generates_of_generated? {job : Job} {unit : CompiledUnit}
    (h : unit ∈ job.generated? sys m) : job.Generates sys m unit := by
  unfold Job.generated? at h
  cases hprepare : ((job.prepare : OnSystem sys _).run m).1 with
  | error e =>
    rw [hprepare] at h
    cases h
  | ok prepared =>
    obtain ⟨options, input⟩ := prepared
    rw [hprepare] at h
    dsimp only at h
    cases hresult : ((Compiler.new options).compileModule input .empty).result with
    | error e =>
      rw [hresult] at h
      cases h
    | ok unit' =>
      rw [hresult] at h
      cases h
      exact ⟨options, input, hprepare, hresult⟩

theorem eq_ok_of_failedStage? {result : Except Error Unit} (h : failedStage? result = none) :
    result = .ok () := by
  cases result with
  | error e => cases h
  | ok => rfl

end

/-- The runs below, as they are computed. -/
theorem runs_chunkSample :
    let result (sys : System) (arguments : List Bytes) :=
      (perform .plain arguments .empty : OnSystem sys _).run chunkSample
    (IsSample bareSystem chunkSample (argumentsSample "m.cbor") (ascii "m.cbor") ∧
        failedStage? (result bareSystem (argumentsSample "m.cbor")).1.1 = none) ∧
      (IsSample fullSystem chunkSample (argumentsSample "m.cbor") (ascii "m.cbor") ∧
        failedStage? (result fullSystem (argumentsSample "m.cbor")).1.1 = some (.saving .writing)) ∧
      (IsSample bareSystem chunkSample (argumentsSample "null") (ascii "null") ∧
        failedStage? (result bareSystem (argumentsSample "null")).1.1 = none ∧
        (result bareSystem (argumentsSample "null")).2.read (ascii "null") = .ok []) ∧
      failedStage? (result bareSystem (argumentsSample "./m.c")).1.1 = none ∧
        ∃ job ∈ requested? bareSystem chunkSample (argumentsSample "./m.c"),
          job.contract ≠ job.output ∧ ∃ unit ∈ job.generated? bareSystem chunkSample,
            (result bareSystem (argumentsSample "./m.c")).2.read job.output ≠
                chunkSample.read job.output ∧
              (result bareSystem (argumentsSample "./m.c")).2.read job.output ≠ .ok unit.text := by
  decide +kernel

/-- With room for the unit, it is there in the end, and so is its contract.  Without, all is as it
was. -/
theorem run_all_or_nothing_chunkSample :
    (∃ job unit, requested? bareSystem chunkSample (argumentsSample "m.cbor") = some job ∧
      job.contract = ascii "m.cbor" ∧ job.Generates bareSystem chunkSample unit ∧
      let r := (perform .plain (argumentsSample "m.cbor") .empty : OnSystem bareSystem _).run chunkSample
      r.1.1 = .ok () ∧ r.2.read job.output = .ok unit.text ∧
        r.2.read job.contract = .ok unit.contract.encode) ∧
    let r := (perform .plain (argumentsSample "m.cbor") .empty : OnSystem fullSystem _).run chunkSample
    failedStage? r.1.1 = some (.saving .writing) ∧ SameExcept [] chunkSample r.2 := by
  obtain ⟨⟨hbare, hdone⟩, ⟨hfull, hfailed⟩, -⟩ := runs_chunkSample
  have hplace : chunkSample.locateNew (ascii "m.cbor") = .ok [ascii "m.cbor"] := by decide
  have hfree : chunkSample.inode? [ascii "m.cbor"] = none := by decide
  have hbareKeeps (m : Machine) (i : Invocation) : (bareSystem.execute m i).2 = m := rfl
  have hfullKeeps (m : Machine) (i : Invocation) : (fullSystem.execute m i).2 = m := rfl
  -- From here on everything is a variable, so that no step evaluates a run again.
  generalize chunkSample = m, argumentsSample "m.cbor" = arguments, bareSystem = bare,
    fullSystem = full at *
  dsimp only at hdone hfailed
  have hsaved := (run_all_or_nothing bare .plain arguments .empty m
    (fun job _ l => by rw [hbareKeeps]) hbare.places).2.2.2
  have hkept := (run_all_or_nothing full .plain arguments .empty m
    (fun job _ l => by rw [hfullKeeps]) hfull.places).2.2.2
  obtain ⟨job, hjob, hpath⟩ := hbare.exists_requested
  refine ⟨?_, hfailed, ?_⟩
  · generalize (perform .plain arguments .empty : OnSystem bare _).run m = r at hdone hsaved ⊢
    obtain ⟨⟨result, out⟩, m'⟩ := r
    cases eq_ok_of_failedStage? hdone
    obtain ⟨job', unit, hjob', hgenerates, htext, hhas, -⟩ := hsaved
    cases hjob'.symm.trans hjob
    refine ⟨job, unit, hjob, hpath, hgenerates, rfl, htext, hhas ?_ ?_⟩
    · rw [hpath]
      decide
    · intro l d hl
      rw [hpath, hplace] at hl
      cases hl
      rw [hfree]
      simp
  · generalize (perform .plain arguments .empty : OnSystem full _).run m = r at hfailed hkept ⊢
    obtain ⟨⟨e | _, out⟩, m'⟩ := r
    · have hstage : e.stage = .saving .writing := Option.some.inj hfailed
      dsimp only at hkept
      rw [hstage] at hkept
      exact hkept
    · cases hfailed

theorem encode_ne_nil (c : Contract) : c.encode ≠ [] := by
  rw [Contract.encode, Contract.toItem, Cbor.Item.encode]
  simp [Cbor.Item.head]

/-- Two ways to succeed and leave less.  A contract that is wanted at a device is written there and is
not kept.  One that is wanted at another path to the output takes the place of the unit. -/
theorem unit_or_contract_missing_chunkSample :
    (∃ job unit, requested? bareSystem chunkSample (argumentsSample "null") = some job ∧
      job.contract = ascii "null" ∧
      (∀ l, chunkSample.locateNew job.output = .ok l → chunkSample.locateNew job.contract ≠ .ok l) ∧
      (∀ l, (bareSystem.execute chunkSample job.compilation).2.inode? l = chunkSample.inode? l) ∧
      job.Generates bareSystem chunkSample unit ∧
      let r := (run .plain (argumentsSample "null") .empty : OnSystem bareSystem _).run chunkSample
      (∃ text errorText, r.1 = .finished 0 text errorText) ∧
        r.2.read job.contract ≠ .ok unit.contract.encode) ∧
    ∃ job unit, requested? bareSystem chunkSample (argumentsSample "./m.c") = some job ∧
      job.contract ≠ job.output ∧
      (∀ l, (bareSystem.execute chunkSample job.compilation).2.inode? l = chunkSample.inode? l) ∧
      job.Generates bareSystem chunkSample unit ∧
      let r := (run .plain (argumentsSample "./m.c") .empty : OnSystem bareSystem _).run chunkSample
      (∃ text errorText, r.1 = .finished 0 text errorText) ∧
        r.2.read job.output ≠ chunkSample.read job.output ∧ r.2.read job.output ≠ .ok unit.text := by
  obtain ⟨-, -, ⟨hsample, hdone, hread⟩, hdone', job', hjob', hpaths, unit', hunit', hoverwritten⟩ :=
    runs_chunkSample
  have hkeeps (m : Machine) (i : Invocation) : (bareSystem.execute m i).2 = m := rfl
  -- As above, no step is to evaluate the run again.
  generalize chunkSample = m, argumentsSample "null" = arguments,
    argumentsSample "./m.c" = arguments', bareSystem = sys at *
  dsimp only at hdone hread hdone' hoverwritten
  constructor
  · obtain ⟨job, hjob, hpath⟩ := hsample.exists_requested
    have hcases := perform_cases .plain .empty (fun job _ l => by rw [hkeeps]) hsample.places
    rcases hr : (perform .plain arguments .empty : OnSystem sys _).run m with ⟨⟨result, out⟩, m'⟩
    rw [hr] at hcases hdone hread
    have hrun : (run .plain arguments .empty : OnSystem sys _).run m = (.ofResult (result, out), m') :=
      run_bind hr
    rw [hrun]
    cases eq_ok_of_failedStage? hdone
    rcases hcases with ⟨e, he, -⟩ | ⟨job', unit, hjob', hgenerates, -⟩
    · cases he
    · cases hjob'.symm.trans hjob
      refine ⟨job, unit, hjob, hpath, hsample.places job hjob, fun l => by rw [hkeeps], hgenerates,
        ⟨out.written, [], rfl⟩, fun hkept => ?_⟩
      rw [hpath] at hkept
      exact encode_ne_nil unit.contract (Except.ok.inj (hread.symm.trans hkept)).symm
  · rcases hr : (perform .plain arguments' .empty : OnSystem sys _).run m with ⟨⟨result, out⟩, m'⟩
    rw [hr] at hdone' hoverwritten
    have hrun : (run .plain arguments' .empty : OnSystem sys _).run m =
        (.ofResult (result, out), m') := run_bind hr
    rw [hrun]
    cases eq_ok_of_failedStage? hdone'
    exact ⟨job', unit', hjob', hpaths, fun l => by rw [hkeeps], generates_of_generated? hunit',
      ⟨out.written, [], rfl⟩, hoverwritten⟩

end Command
end LuaToC
