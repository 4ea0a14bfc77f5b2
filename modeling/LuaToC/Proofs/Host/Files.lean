import LuaToC.Host.Machine
import LuaToC.Proofs.Splitting

/-! # Files of a machine

Operations on files change a place or two of the machine and leave all others (`SameExcept`).  A path
leads through directories only, so where it leads does not change as long as the directories do not
(`locateNew_of_sameDirectories`); and files that are written, moved and removed are no directories.
-/
namespace LuaToC.Machine

/-! ## What is at a place -/

section

variable {m m' m'' : Machine} {l k : Location} {places others : List Location}

theorem lookup_cons_of_ne (h : k ≠ l) (n : Inode) (inodes : List (Location × Inode)) :
    ((l, n) :: inodes).lookup k = inodes.lookup k := by
  rw [List.lookup_cons, beq_false_of_ne h]

theorem lookup_filter_ne (inodes : List (Location × Inode)) (l k : Location) :
    (inodes.filter (·.1 ≠ l)).lookup k = if k = l then none else inodes.lookup k := by
  induction inodes with
  | nil => simp
  | cons x inodes ih =>
    obtain ⟨j, n⟩ := x
    by_cases hj : j = l
    · rw [List.filter_cons_of_neg (by simp [hj]), ih]
      by_cases hk : k = l
      · rw [if_pos hk, if_pos hk]
      · rw [if_neg hk, if_neg hk, lookup_cons_of_ne (hj ▸ hk)]
    · rw [List.filter_cons_of_pos (by simp [hj])]
      by_cases hk : k = l
      · rw [if_pos hk] at ih ⊢
        rw [lookup_cons_of_ne (fun h => hj (h.symm.trans hk)), ih]
      · rw [if_neg hk] at ih ⊢
        rw [List.lookup_cons, List.lookup_cons, ih]

theorem inode?_put (hl : l ≠ []) (n : Inode) (k : Location) :
    (m.put l n).inode? k = if k = l then some n else m.inode? k := by
  unfold inode? put
  by_cases hk : k = []
  · rw [if_pos hk, if_pos hk, if_neg (fun h => hl (h.symm.trans hk))]
  · rw [if_neg hk, if_neg hk, List.lookup_append, lookup_filter_ne]
    by_cases hkl : k = l
    · simp [hkl]
    · rw [if_neg hkl, if_neg hkl, lookup_cons_of_ne hkl, List.lookup_nil, Option.or_none]

theorem inode?_erase (hl : l ≠ []) (k : Location) :
    (m.erase l).inode? k = if k = l then none else m.inode? k := by
  unfold inode? erase
  by_cases hk : k = []
  · rw [if_pos hk, if_pos hk, if_neg (fun h => hl (h.symm.trans hk))]
  · rw [if_neg hk, if_neg hk, lookup_filter_ne]

/-- The two machines have the same at all but some places. -/
structure SameExcept (places : List Location) (m m' : Machine) : Prop where
  workDir : m'.workDir = m.workDir
  inode : ∀ l, l ∉ places → m'.inode? l = m.inode? l

theorem SameExcept.refl (places : List Location) (m : Machine) : SameExcept places m m :=
  ⟨rfl, fun _ _ => rfl⟩

theorem SameExcept.trans (h : SameExcept places m m') (h' : SameExcept others m' m'') :
    SameExcept (places ++ others) m m'' where
  workDir := h'.workDir.trans h.workDir
  inode l hl := by
    rw [List.mem_append, not_or] at hl
    rw [h'.inode l hl.2, h.inode l hl.1]

theorem SameExcept.mono (h : SameExcept places m m') (hsub : places ⊆ others) :
    SameExcept others m m' :=
  ⟨h.workDir, fun l hl => h.inode l fun hmem => hl (hsub hmem)⟩

/-- A place that ends as it was is no exception. -/
theorem SameExcept.restored (h : SameExcept (l :: places) m m') (hback : m'.inode? l = m.inode? l) :
    SameExcept places m m' where
  workDir := h.workDir
  inode k hk := by
    by_cases hkl : k = l
    · rw [hkl, hback]
    · exact h.inode k (by rw [List.mem_cons, not_or]; exact ⟨hkl, hk⟩)

theorem sameExcept_put (hl : l ≠ []) (n : Inode) : SameExcept [l] m (m.put l n) where
  workDir := rfl
  inode k hk := by
    rw [inode?_put hl, if_neg fun h => hk (List.mem_singleton.mpr h)]

theorem sameExcept_erase (hl : l ≠ []) : SameExcept [l] m (m.erase l) where
  workDir := rfl
  inode k hk := by
    rw [inode?_erase hl, if_neg fun h => hk (List.mem_singleton.mpr h)]

/-! ## Directories -/

/-- The two machines have the same directories. -/
structure SameDirectories (m m' : Machine) : Prop where
  workDir : m'.workDir = m.workDir
  directory : ∀ l, m'.inode? l = some .directory ↔ m.inode? l = some .directory

theorem SameDirectories.symm (h : SameDirectories m m') : SameDirectories m' m :=
  ⟨h.workDir.symm, fun l => (h.directory l).symm⟩

/-- Places that are no directories, before and after, do not count. -/
theorem SameExcept.sameDirectories (h : SameExcept places m m')
    (hplaces : ∀ l ∈ places, m.inode? l ≠ some .directory ∧ m'.inode? l ≠ some .directory) :
    SameDirectories m m' where
  workDir := h.workDir
  directory l := by
    by_cases hl : l ∈ places
    · exact ⟨fun hdir => absurd hdir (hplaces l hl).2, fun hdir => absurd hdir (hplaces l hl).1⟩
    · rw [h.inode l hl]

theorem SameExcept.sameDirectories_singleton (h : SameExcept [l] m m')
    (hl : m.inode? l ≠ some .directory) (hl' : m'.inode? l ≠ some .directory) :
    SameDirectories m m' := by
  refine h.sameDirectories fun k hk => ?_
  rw [List.mem_singleton.mp hk]
  exact ⟨hl, hl'⟩

/-- A step on the way to a directory leads to the same place on every machine with these directories,
whatever comes after it. -/
theorem exists_step_of_follow {name : Bytes} {rest : List Bytes}
    (hfollow : m.follow l (name :: rest) = .ok k) (hk : m.inode? k = some .directory) :
    ∃ l', m.follow l' rest = .ok k ∧
      ∀ m', SameDirectories m m' → ∀ names, m'.follow l (name :: names) = m'.follow l' names := by
  rw [follow] at hfollow
  by_cases hhere : name = Path.here
  · rw [if_pos hhere] at hfollow
    exact ⟨l, hfollow, fun m' _ names => by rw [follow, if_pos hhere]⟩
  rw [if_neg hhere] at hfollow
  by_cases habove : name = Path.above
  · rw [if_pos habove] at hfollow
    exact ⟨l.dropLast, hfollow, fun m' _ names => by rw [follow, if_neg hhere, if_pos habove]⟩
  rw [if_neg habove] at hfollow
  by_cases hlong : maxName < name.length
  · rw [if_pos hlong] at hfollow
    cases hfollow
  rw [if_neg hlong] at hfollow
  by_cases hdir : m.inode? (l ++ [name]) = some .directory
  · rw [hdir] at hfollow
    refine ⟨l ++ [name], hfollow, fun m' h names => ?_⟩
    rw [follow, if_neg hhere, if_neg habove, if_neg hlong, (h.directory _).mpr hdir]
  · -- What is no directory can only be the last on the way, and the way ends at a directory.
    exfalso
    split at hfollow
    · cases hfollow
    · exact hdir ‹_›
    all_goals
      split at hfollow
      · rw [← Except.ok.inj hfollow] at hk
        exact hdir hk
      · cases hfollow

/-- A way to a directory is a way through directories. -/
theorem follow_of_sameDirectories (h : SameDirectories m m') {names : List Bytes}
    (hfollow : m.follow l names = .ok k) (hk : m.inode? k = some .directory) :
    m'.follow l names = .ok k := by
  induction names generalizing l with
  | nil => exact hfollow
  | cons name rest ih =>
    obtain ⟨l', hrest, hstep⟩ := exists_step_of_follow hfollow hk
    rw [hstep m' h]
    exact ih hrest

/-- From a directory on the way, the rest of the way is followed. -/
theorem follow_append {names : List Bytes} (hfollow : m.follow l names = .ok k)
    (hk : m.inode? k = some .directory) (rest : List Bytes) :
    m.follow l (names ++ rest) = m.follow k rest := by
  induction names generalizing l with
  | nil =>
    cases hfollow
    rfl
  | cons name names ih =>
    obtain ⟨l', hnames, hstep⟩ := exists_step_of_follow hfollow hk
    rw [List.cons_append, hstep m ⟨rfl, fun _ => Iff.rfl⟩]
    exact ih hnames

/-! ## Places that paths lead to -/

/-- The way to a place that a file can have: through directories to the last of them, then a name. -/
structure Leads (m : Machine) (p : Bytes) (way : List Bytes) (l : Location) (name : Bytes) : Prop where
  valid : validate p = .ok ()
  names : names p = way ++ [name]
  follow : m.follow (m.start p) way = .ok l
  directory : m.inode? l = some .directory
  proper : ¬ (name = Path.here ∨ name = Path.above ∨ Path.endsWithSlash p = true)
  short : ¬ maxName < name.length

theorem locateNew_of_leads {p : Bytes} {way : List Bytes} {name : Bytes} (h : m.Leads p way l name) :
    m.locateNew p = .ok (l ++ [name]) := by
  have hlast : (way ++ [name]).getLast? = some name := List.getLast?_concat
  simp only [locateNew, h.valid, h.names, List.dropLast_concat, hlast, h.follow, h.directory, bind,
    Except.bind, ne_eq, not_true_eq_false, if_false, if_neg h.proper, if_neg h.short]
  rfl

theorem exists_leads_of_locateNew {p : Bytes} (hp : m.locateNew p = .ok k) :
    ∃ way l name, m.Leads p way l name ∧ k = l ++ [name] := by
  unfold locateNew at hp
  cases hvalid : validate p with
  | error cause =>
    rw [hvalid] at hp
    cases hp
  | ok _ =>
    cases hfollow : m.follow (m.start p) (names p).dropLast with
    | error cause =>
      rw [hvalid, hfollow] at hp
      cases hp
    | ok l =>
      simp only [hvalid, hfollow, bind, Except.bind] at hp
      split at hp
      · cases hp
      split at hp
      · cases hp
      split at hp
      · cases hp
      split at hp
      · cases hp
      rename_i hdir _ name hlast hproper hshort
      obtain ⟨way, hnames⟩ := List.getLast?_eq_some_iff.mp hlast
      rw [hnames, List.dropLast_concat] at hfollow
      exact ⟨way, l, name, ⟨hvalid, hnames, hfollow, Decidable.not_not.mp hdir, hproper, hshort⟩,
        (Except.ok.inj hp).symm⟩

theorem locateNew_of_sameDirectories (h : SameDirectories m m') {p : Bytes}
    (hp : m.locateNew p = .ok k) : m'.locateNew p = .ok k := by
  obtain ⟨way, l, name, hleads, rfl⟩ := exists_leads_of_locateNew hp
  have hstart : m'.start p = m.start p := by rw [start, start, h.workDir]
  have hfollow : m'.follow (m'.start p) way = .ok l := by
    rw [hstart]
    exact follow_of_sameDirectories h hleads.follow hleads.directory
  exact locateNew_of_leads { hleads with
    follow := hfollow
    directory := (h.directory l).mpr hleads.directory }

theorem locateNew_ne_nil {p : Bytes} (hp : m.locateNew p = .ok k) : k ≠ [] := by
  obtain ⟨way, l, name, -, rfl⟩ := exists_leads_of_locateNew hp
  simp

/-- A path to a place that a file can have leads there if something is there. -/
theorem locate_of_locateNew {p : Bytes} (hp : m.locateNew p = .ok k) :
    m.locate p = if m.inode? k = none then .error .missing else .ok k := by
  obtain ⟨way, l, name, hleads, rfl⟩ := exists_leads_of_locateNew hp
  obtain ⟨hhere, habove, hslash⟩ := not_or.mp hleads.proper |>.imp id not_or.mp
  have hway : m.locate p = m.follow l [name] := by
    rw [locate, hleads.valid, if_neg hslash, List.append_nil, hleads.names]
    exact follow_append hleads.follow hleads.directory [name]
  rw [hway, follow, if_neg hhere, if_neg habove, if_neg hleads.short]
  cases m.inode? (l ++ [name]) with
  | none => rfl
  | some n => cases n <;> rfl

/-- A path leads to what is there. -/
theorem locate_of_inode {p : Bytes} {n : Inode} (hp : m.locateNew p = .ok k)
    (hk : m.inode? k = some n) : m.locate p = .ok k := by
  rw [locate_of_locateNew hp, if_neg (by simp [hk])]

/-- Where all places are the same, every path finds the same. -/
theorem follow_of_same (h : SameExcept [] m m') (l : Location) (names : List Bytes) :
    m'.follow l names = m.follow l names := by
  induction names generalizing l with
  | nil => rfl
  | cons name rest ih => simp only [follow, ih, h.inode _ List.not_mem_nil]

theorem read_of_same (h : SameExcept [] m m') (p : Bytes) : m'.read p = m.read p := by
  have hlocate : m'.locate p = m.locate p := by
    simp only [locate, start, h.workDir, follow_of_same h]
  simp only [read, hlocate, h.inode _ List.not_mem_nil]

/-! ## Operations -/

/-- The place holds a file with this content. -/
def Holds (m : Machine) (l : Location) (s : Bytes) : Prop := ∃ x, m.inode? l = some (.file s x)

theorem Holds.ne_directory {s : Bytes} (h : m.Holds l s) : m.inode? l ≠ some .directory := by
  obtain ⟨x, hx⟩ := h
  rw [hx]
  simp

theorem Holds.of_sameExcept {s : Bytes} (h : m.Holds l s) (hsame : SameExcept places m m')
    (hl : l ∉ places) : m'.Holds l s := by
  obtain ⟨x, hx⟩ := h
  exact ⟨x, (hsame.inode l hl).trans hx⟩

theorem holds_put (hl : l ≠ []) (s : Bytes) (x : Bool) : (m.put l (.file s x)).Holds l s :=
  ⟨x, (inode?_put hl _ _).trans (if_pos rfl)⟩

theorem read_of_holds {p s : Bytes} (hp : m.locateNew p = .ok l) (hl : m.Holds l s) :
    m.read p = .ok s := by
  obtain ⟨x, hx⟩ := hl
  simp only [read, locate_of_inode hp hx, hx]

/-- A file that is opened anew is empty.  A device is as it was. -/
theorem create_cases (m : Machine) (p : Bytes) :
    (∃ cause, m.create p = (.error (.opening p cause), m)) ∨
      ∃ l, m.locateNew p = .ok l ∧
        ((∃ d, m.inode? l = some (.device d) ∧ m.create p = (.ok (), m)) ∨
          m.inode? l ≠ some .directory ∧ ∃ x, m.create p = (.ok (), m.put l (.file [] x))) := by
  unfold create
  cases hp : m.locateNew p with
  | error cause => exact .inl ⟨cause, rfl⟩
  | ok l =>
    dsimp only
    cases hl : m.inode? l with
    | none => exact .inr ⟨l, rfl, .inr ⟨by simp [hl], false, rfl⟩⟩
    | some n =>
      cases n with
      | directory => exact .inl ⟨.isDirectory, rfl⟩
      | file content x => exact .inr ⟨l, rfl, .inr ⟨by simp [hl], x, rfl⟩⟩
      | device d =>
        cases d with
        | terminal => exact .inl ⟨.noDevice, rfl⟩
        | null | zero | full => exact .inr ⟨l, rfl, .inl ⟨_, hl, rfl⟩⟩

/-- A file takes a text after what it has. -/
theorem append_of_holds {p t : Bytes} (hp : m.locateNew p = .ok l) (hl : m.Holds l t) (s : Bytes) :
    ∃ x, m.append p s = (.ok (), m.put l (.file (t ++ s) x)) := by
  obtain ⟨x, hx⟩ := hl
  exact ⟨x, by simp only [append, locate_of_inode hp hx, hx]⟩

/-- A device keeps nothing of a text. -/
theorem append_of_device {p : Bytes} {d : Device} (hp : m.locateNew p = .ok l)
    (hl : m.inode? l = some (.device d)) (s : Bytes) : (m.append p s).2 = m := by
  cases d <;> simp only [append, locate_of_inode hp hl, hl]

theorem permit_of_holds {p s : Bytes} (hp : m.locateNew p = .ok l) (hl : m.Holds l s) :
    m.permit p = (.ok (), m.put l (.file s false)) := by
  obtain ⟨x, hx⟩ := hl
  simp only [permit, locate_of_inode hp hx, hx]

/-- What is there is moved to the place of a file, or stays where it is. -/
theorem rename_cases {p : Bytes} (q : Bytes) {n : Inode} (hp : m.locate p = .ok k)
    (hk : m.inode? k = some n) :
    (∃ e, m.rename p q = (.error e, m)) ∨
      ∃ target, m.locateNew q = .ok target ∧ m.inode? target ≠ some .directory ∧
        m.rename p q = (.ok (), (m.erase k).put target n) := by
  unfold rename
  rw [hp]
  cases hq : m.locateNew q with
  | error cause => exact .inl ⟨_, rfl⟩
  | ok target =>
    dsimp only
    rw [hk]
    by_cases htarget : m.inode? target = some .directory
    · rw [htarget]
      exact .inl ⟨_, rfl⟩
    · refine .inr ⟨target, rfl, htarget, ?_⟩
      split
      · exact absurd ‹_› htarget
      · rename_i hn _
        cases hn
        rfl
      · rename_i hn _
        cases hn

/-- A file that is removed is gone, and no other place changes. -/
theorem remove_cases {p : Bytes} (hp : m.locateNew p = .ok k) (hk : m.inode? k ≠ some .directory) :
    (m.remove p).inode? k = none ∧ SameExcept [k] m (m.remove p) := by
  have hroot : k ≠ [] := locateNew_ne_nil hp
  unfold remove
  rw [locate_of_locateNew hp]
  by_cases hnone : m.inode? k = none
  · rw [if_pos hnone]
    exact ⟨hnone, SameExcept.refl _ m⟩
  · rw [if_neg hnone]
    dsimp only
    rw [if_neg hk]
    exact ⟨(inode?_erase hroot k).trans (if_pos rfl), sameExcept_erase hroot⟩

end

end LuaToC.Machine
