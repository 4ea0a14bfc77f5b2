import LuaToC.Config
import LuaToC.Host.Process
import LuaToC.Proofs.Host.Temporary
import LuaToC.Proofs.Path

/-! # The nearest configuration

A search looks for a configuration file in a directory and then in its parent, until it finds one or
is at a directory that is its own parent (`climb`).  Going up from a clean absolute path drops one
name after the other, so the search ends at the root at the latest, after as many looks as there are
directories on the way.  The first file that is there decides, whether it can be read or not
(`nearest_closest`).

Nothing of the system matters but what can be seen of it without changing it (`Host.View`).  A file
is there if the system finds something at its path.  One that a directory has and that is not found,
because its path is too long, is passed (`nearest_passes_deepSample`).
-/
namespace LuaToC

/-! ## What can be seen of a system -/

namespace Host

/-- What can be seen of a system: its working directory, at which paths something is, and what
reading gives there. -/
structure View where
  workDir : Bytes
  isPresent : Bytes → Bool
  read : Bytes → Except FileError Bytes

/-- Looking at the system shows the view and leaves the system as it is. -/
structure Shows {σ : Type} [Host (StateM σ)] (s : σ) (v : View) : Prop where
  workDir : (Host.workDir : StateM σ _).run s = (v.workDir, s)
  isPresent : ∀ p, (Host.isPresent p : StateM σ _).run s = (v.isPresent p, s)
  read : ∀ p, (Host.read p : StateM σ _).run s = (v.read p, s)

theorem run_bind_of_run {σ α β : Type} {x : StateM σ α} {f : α → StateM σ β} {s s' : σ} {a : α}
    (h : x.run s = (a, s')) : (x >>= f).run s = (f a).run s' := by
  rw [StateT.run_bind, h]
  rfl

end Host

/-- What can be seen of a machine. -/
def Machine.view (m : Machine) : Host.View := ⟨pathOf m.workDir, m.isPresent, m.read⟩

theorem Machine.shows_view (m : Machine) : Host.Shows m m.view :=
  ⟨rfl, fun _ => rfl, fun _ => rfl⟩

/-! ## What is found at a path -/

namespace Machine

open LuaToC.Path (IsName)

variable {m : Machine} {l k : Location} {names : List Bytes} {name p : Bytes}

/-- A path that is too long leads nowhere. -/
theorem exists_locate_eq_error (h : maxPath ≤ p.length) : ∃ cause, m.locate p = .error cause := by
  have hvalid : ∃ cause, validate p = .error cause := by
    unfold validate
    rw [if_pos h]
    split
    · exact ⟨_, rfl⟩
    · split <;> exact ⟨_, rfl⟩
  obtain ⟨cause, hvalid⟩ := hvalid
  exact ⟨cause, by rw [locate, hvalid]; rfl⟩

theorem isPresent_of_long (h : maxPath ≤ p.length) : m.isPresent p = false := by
  obtain ⟨cause, hlocate⟩ := exists_locate_eq_error (m := m) h
  rw [isPresent, hlocate]
  rfl

theorem exists_read_eq_error (h : maxPath ≤ p.length) : ∃ e, m.read p = .error e := by
  obtain ⟨cause, hlocate⟩ := exists_locate_eq_error (m := m) h
  exact ⟨.opening p cause, by rw [read, hlocate]⟩

/-- Names that are followed to the end lead to the place of these names, and something is there. -/
theorem eq_append_of_follow (h : ∀ n ∈ names, IsName n) (hfollow : m.follow l names = .ok k) :
    k = l ++ names ∧ (names ≠ [] → m.inode? k ≠ none) := by
  induction names generalizing l with
  | nil =>
    cases hfollow
    exact ⟨(List.append_nil _).symm, fun hne => absurd rfl hne⟩
  | cons n names ih =>
    have hn := h n List.mem_cons_self
    rw [follow, if_neg hn.ne_here, if_neg hn.ne_above] at hfollow
    split at hfollow
    · cases hfollow
    split at hfollow
    · cases hfollow
    · rename_i hdir
      obtain ⟨rfl, hthere⟩ := ih (fun n' hn' => h n' (List.mem_cons_of_mem n hn')) hfollow
      refine ⟨by rw [List.append_assoc, List.singleton_append], fun _ => ?_⟩
      by_cases hlast : names = []
      · rw [hlast, List.append_nil, hdir]
        simp
      · exact hthere hlast
    all_goals
      rename_i hinode
      split at hfollow
      · rename_i hlast
        cases hfollow
        exact ⟨by rw [hlast], fun _ => by simp [hinode]⟩
      · cases hfollow

/-- What is found at a path is at its place. -/
theorem inode?_ne_none_of_isPresent (h : ∀ n ∈ names ++ [name], IsName n)
    (hpresent : m.isPresent (pathOf (names ++ [name])) = true) : m.inode? (names ++ [name]) ≠ none := by
  obtain ⟨-, hname⟩ := Path.isName_of_concat h
  have hlast : Bytes.afterLast Path.slash (pathOf (names ++ [name])) = name := by
    rw [Path.pathOf_concat, Bytes.afterLast_append_cons hname.slash_notMem]
  unfold isPresent at hpresent
  cases hlocate : m.locate (pathOf (names ++ [name])) with
  | error cause =>
    rw [hlocate] at hpresent
    cases hpresent
  | ok k =>
    unfold locate at hlocate
    cases hvalid : validate (pathOf (names ++ [name])) with
    | error cause =>
      rw [hvalid] at hlocate
      cases hlocate
    | ok _ =>
      rw [hvalid, endsWithSlash_eq_false (by rw [hlast]; exact hname.ne_nil), Path.names_pathOf h]
        at hlocate
      have hfollow : m.follow [] (names ++ [name] ++ []) = .ok k := hlocate
      rw [List.append_nil] at hfollow
      obtain ⟨rfl, hthere⟩ := eq_append_of_follow h hfollow
      exact hthere (by simp)

end Machine

namespace Config

open Host (View Shows run_bind_of_run)
open Machine (pathOf)
open LuaToC.Path (IsName)

/-! ## What is found in directories -/

/-- There is a configuration file in the directory, or something else of its name. -/
def isIn (v : View) (dir : Bytes) : Bool := v.isPresent (Path.join dir standardName)

/-- The configuration of a directory. -/
def loaded (v : View) (dir : Bytes) : Except Error Config :=
  match v.read (Path.join dir standardName) with
  | .error e => .error (.unreadable (Path.join dir standardName) e)
  | .ok text => ofText v.workDir (Path.join dir standardName) text

/-- What looking into one directory after the other finds. -/
def found (v : View) : List Bytes → Except Error (Option Config)
  | [] => .ok none
  | dir :: rest => if isIn v dir = true then (loaded v dir).map some else found v rest

section

variable {σ : Type} [Host (StateM σ)] {s : σ} {v : View}

theorem run_ofDirectory (hs : Shows s v) (dir : Bytes) :
    (ofDirectory dir : StateM σ _).run s = (loaded v dir, s) := by
  unfold ofDirectory ofFile loaded
  rw [run_bind_of_run (hs.read _)]
  cases v.read (Path.join dir standardName) with
  | error e => rfl
  | ok text =>
    dsimp only
    rw [run_bind_of_run hs.workDir]
    rfl

theorem run_firstWithFile (hs : Shows s v) (dirs : List Bytes) :
    (firstWithFile dirs : StateM σ _).run s = (dirs.find? (isIn v), s) := by
  induction dirs with
  | nil => rfl
  | cons dir dirs ih =>
    rw [firstWithFile, run_bind_of_run (hs.isPresent _)]
    by_cases hdir : isIn v dir = true
    · rw [List.find?_cons_of_pos hdir, ← isIn, if_pos hdir]
      rfl
    · rw [List.find?_cons_of_neg hdir, ← isIn, if_neg hdir]
      exact ih

theorem run_nearest (hs : Shows s v) (start : Bytes) :
    (nearest start : StateM σ _).run s =
      (found v (Path.ancestors (Path.absolute v.workDir start)), s) := by
  rw [nearest, run_bind_of_run hs.workDir, run_bind_of_run (run_firstWithFile hs _)]
  generalize Path.ancestors (Path.absolute v.workDir start) = dirs
  induction dirs with
  | nil => rfl
  | cons dir dirs ih =>
    rw [found]
    by_cases hdir : isIn v dir = true
    · rw [List.find?_cons_of_pos hdir, if_pos hdir]
      dsimp only
      rw [run_bind_of_run (run_ofDirectory hs dir)]
      rfl
    · rw [List.find?_cons_of_neg hdir, if_neg hdir]
      exact ih

/-! ## The search ends -/

theorem run_climb_of_isIn (hs : Shows s v) {dir : Bytes} (hdir : isIn v dir = true) (rounds : Nat) :
    (climb (rounds + 1) dir : StateM σ _).run s = (some ((loaded v dir).map some), s) := by
  rw [climb, run_bind_of_run (hs.isPresent _), ← isIn, if_pos hdir,
    run_bind_of_run (run_ofDirectory hs dir)]
  rfl

theorem run_climb_of_not_isIn (hs : Shows s v) {dir : Bytes} (hdir : ¬isIn v dir = true)
    (rounds : Nat) : (climb (rounds + 1) dir : StateM σ _).run s =
      if Path.directory dir = dir then (some (.ok none), s)
      else (climb rounds (Path.directory dir) : StateM σ _).run s := by
  rw [climb, run_bind_of_run (hs.isPresent _), ← isIn, if_neg hdir]
  by_cases hroot : Path.directory dir = dir
  · rw [if_pos hroot, if_pos hroot]
    rfl
  · rw [if_neg hroot, if_neg hroot]

/-- One round for each directory on the way is enough. -/
theorem run_climb (hs : Shows s v) {names : List Bytes} (h : ∀ n ∈ names, IsName n) {rounds : Nat}
    (hrounds : names.length < rounds) : (climb rounds (pathOf names) : StateM σ _).run s =
      (some (found v (Path.ancestors (pathOf names))), s) := by
  obtain ⟨rounds, rfl⟩ := Nat.exists_eq_add_one_of_ne_zero (Nat.ne_zero_of_lt hrounds)
  -- Each round that does not end the search drops the last name.
  induction names using List.reverseRecOn generalizing rounds with
  | nil =>
    rw [Path.ancestors_root, found]
    by_cases hdir : isIn v (pathOf []) = true
    · rw [run_climb_of_isIn hs hdir, if_pos hdir]
    · rw [run_climb_of_not_isIn hs hdir, if_neg hdir, if_pos Path.directory_root]
      rfl
  | append_singleton names name ih =>
    obtain ⟨hnames, hname⟩ := Path.isName_of_concat h
    rw [Path.ancestors_pathOf_concat hnames hname, found]
    by_cases hdir : isIn v (pathOf (names ++ [name])) = true
    · rw [run_climb_of_isIn hs hdir, if_pos hdir]
    · rw [run_climb_of_not_isIn hs hdir, if_neg hdir,
        if_neg (Path.directory_pathOf_concat_ne hnames hname),
        Path.directory_pathOf_concat hnames hname]
      rw [List.length_append, List.length_singleton] at hrounds
      obtain ⟨rounds, rfl⟩ := Nat.exists_eq_add_one_of_ne_zero (n := rounds) (by omega)
      exact ih hnames rounds (by omega)

end

/-! ## The closest file decides -/

theorem isName_standardName : IsName standardName := by
  constructor <;> decide

/-- The path of the file that the directory of some names can have. -/
def pathIn (names : List Bytes) : Bytes := pathOf (names ++ [standardName])

/-- Of the directories on the way to `names`, the one with the names `dir` has something at the path
of the file, and none that is further down has. -/
structure IsClosest (v : View) (names dir : List Bytes) : Prop where
  onWay : dir <+: names
  isPresent : v.isPresent (pathIn dir) = true
  absent_below : ∀ below, below <+: names → dir.length < below.length →
    v.isPresent (pathIn below) = false

/-- None of the directories on the way has something at the path of the file. -/
def IsAbsent (v : View) (names : List Bytes) : Prop :=
  ∀ dir, dir <+: names → v.isPresent (pathIn dir) = false

section

variable {v : View} {names dir : List Bytes} {name : Bytes}

theorem isClosest_self (h : v.isPresent (pathIn names) = true) : IsClosest v names names where
  onWay := List.prefix_rfl
  isPresent := h
  absent_below := by
    intro below hbelow hlt
    exact absurd hbelow.length_le (by omega)

theorem IsClosest.unique {dir' : List Bytes} (h : IsClosest v names dir)
    (h' : IsClosest v names dir') : dir = dir' := by
  have hle : dir'.length ≤ dir.length := by
    by_contra hlt
    have hnot := h.absent_below dir' h'.onWay (by omega)
    rw [h'.isPresent] at hnot
    cases hnot
  have hge : dir.length ≤ dir'.length := by
    by_contra hlt
    have hnot := h'.absent_below dir h.onWay (by omega)
    rw [h.isPresent] at hnot
    cases hnot
  exact (List.prefix_of_prefix_length_le h.onWay h'.onWay hge).eq_of_length (by omega)

theorem IsClosest.concat (h : IsClosest v names dir)
    (habsent : v.isPresent (pathIn (names ++ [name])) = false) :
    IsClosest v (names ++ [name]) dir where
  onWay := h.onWay.trans (List.prefix_append names [name])
  isPresent := h.isPresent
  absent_below := by
    intro below hbelow hlt
    rcases List.prefix_concat_iff.mp hbelow with rfl | hbelow
    · exact habsent
    · exact h.absent_below below hbelow hlt

theorem IsAbsent.concat (h : IsAbsent v names)
    (habsent : v.isPresent (pathIn (names ++ [name])) = false) : IsAbsent v (names ++ [name]) := by
  intro dir hdir
  rcases List.prefix_concat_iff.mp hdir with rfl | hdir
  · exact habsent
  · exact h dir hdir

theorem isIn_pathOf (h : ∀ n ∈ names, IsName n) :
    isIn v (pathOf names) = v.isPresent (pathIn names) := by
  rw [isIn, Path.join_pathOf h isName_standardName, pathIn]

/-- Going up finds the closest file, and nothing if there is none on the way. -/
theorem found_ancestors (h : ∀ n ∈ names, IsName n) :
    (∃ dir, IsClosest v names dir ∧
        found v (Path.ancestors (pathOf names)) = (loaded v (pathOf dir)).map some) ∨
      (IsAbsent v names ∧ found v (Path.ancestors (pathOf names)) = .ok none) := by
  induction names using List.reverseRecOn with
  | nil =>
    rw [Path.ancestors_root, found, isIn_pathOf h]
    by_cases hdir : v.isPresent (pathIn []) = true
    · rw [if_pos hdir]
      exact .inl ⟨[], isClosest_self hdir, rfl⟩
    · rw [if_neg hdir]
      refine .inr ⟨?_, rfl⟩
      intro dir hon
      rw [List.prefix_nil.mp hon]
      exact Bool.eq_false_iff.mpr hdir
  | append_singleton names name ih =>
    obtain ⟨hnames, hname⟩ := Path.isName_of_concat h
    rw [Path.ancestors_pathOf_concat hnames hname, found, isIn_pathOf h]
    by_cases hdir : v.isPresent (pathIn (names ++ [name])) = true
    · rw [if_pos hdir]
      exact .inl ⟨names ++ [name], isClosest_self hdir, rfl⟩
    · have habsent := Bool.eq_false_iff.mpr hdir
      rw [if_neg hdir]
      rcases ih hnames with ⟨dir, hclosest, hfound⟩ | ⟨hnone, hfound⟩
      · exact .inl ⟨dir, hclosest.concat habsent, hfound⟩
      · exact .inr ⟨hnone.concat habsent, hfound⟩

end

/-- **The closest file decides.**  The search goes from a directory through each one above it to the
root, and ends after at most as many rounds.  It gives what loading the closest directory with
something of the file's name gives, a refusal too; where there is none, it gives none. -/
theorem nearest_closest {σ : Type} [Host (StateM σ)] {s : σ} {v : View} (hs : Shows s v)
    (hworkDir : Path.isAbsolute v.workDir = true) (start : Bytes) :
    let a := Path.absolute v.workDir start
    let names := Machine.names a
    let result := (nearest start : StateM σ _).run s
    (a = pathOf names ∧ ∀ n ∈ names, IsName n) ∧
      Path.ancestors a = names.inits.reverse.map pathOf ∧
      (∀ rounds, names.length + 1 ≤ rounds →
        (climb rounds a : StateM σ _).run s = (some result.1, s)) ∧
      ((∃ dir, IsClosest v names dir ∧
          result = (((ofDirectory (pathOf dir) : StateM σ _).run s).1.map some, s)) ∨
        (IsAbsent v names ∧ result = (.ok none, s))) := by
  dsimp only
  obtain ⟨ha, hnames⟩ := Path.absolute_eq_pathOf hworkDir start
  rw [run_nearest hs]
  generalize Machine.names (Path.absolute v.workDir start) = names at ha hnames ⊢
  rw [ha]
  refine ⟨⟨rfl, hnames⟩, Path.ancestors_pathOf hnames,
    fun rounds hrounds => run_climb hs hnames hrounds, ?_⟩
  rcases found_ancestors (v := v) hnames with ⟨dir, hclosest, hfound⟩ | ⟨hnone, hfound⟩
  · refine .inl ⟨dir, hclosest, ?_⟩
    rw [hfound, run_ofDirectory hs]
  · exact .inr ⟨hnone, by rw [hfound]⟩

/-- A configuration file in `/p`, and a directory of that name in `/p/q`. -/
def blockedSample : Machine where
  inodes := [
    ([ascii "p"], .directory), ([ascii "p", standardName], .file [] false),
    ([ascii "p", ascii "q"], .directory), ([ascii "p", ascii "q", standardName], .directory),
    ([ascii "p", ascii "q", ascii "r"], .directory)]
  workDir := [ascii "p"]

/-- From `/p/q/r` the directory in `/p/q` is found first.  That it cannot be read is the result,
though there is a file in `/p`. -/
theorem nearest_closest_blockedSample :
    let names := [ascii "p", ascii "q", ascii "r"]
    let refusal : Error := .unreadable (ascii "/p/q/luaot.toml")
      (.reading (ascii "/p/q/luaot.toml") .isDirectory)
    Host.Shows blockedSample blockedSample.view ∧
      Path.isAbsolute blockedSample.view.workDir = true ∧
      Path.absolute blockedSample.view.workDir (ascii "q/r") = pathOf names ∧
      IsClosest blockedSample.view names [ascii "p", ascii "q"] ∧
      (nearest (ascii "q/r") : OnMachine _).run blockedSample = (.error refusal, blockedSample) ∧
      (climb 4 (pathOf names) : OnMachine _).run blockedSample =
        (some (.error refusal), blockedSample) := by
  have hworkDir : Path.isAbsolute blockedSample.view.workDir = true := rfl
  have hnames : Machine.names (Path.absolute blockedSample.view.workDir (ascii "q/r")) =
      [ascii "p", ascii "q", ascii "r"] := by decide
  have hclosest : IsClosest blockedSample.view ([ascii "p", ascii "q"] ++ [ascii "r"])
      [ascii "p", ascii "q"] := (isClosest_self (by decide)).concat (by decide)
  obtain ⟨⟨ha, -⟩, -, hends, hresult⟩ :=
    nearest_closest blockedSample.shows_view hworkDir (ascii "q/r")
  rw [hnames] at ha hends hresult
  have hrun : (nearest (ascii "q/r") : OnMachine _).run blockedSample =
      (.error (.unreadable (ascii "/p/q/luaot.toml")
        (.reading (ascii "/p/q/luaot.toml") .isDirectory)), blockedSample) := by
    rcases hresult with ⟨dir, hdir, hresult⟩ | ⟨habsent, -⟩
    · rw [hresult, hdir.unique hclosest, run_ofDirectory blockedSample.shows_view]
      rfl
    · exact absurd (habsent _ hclosest.onWay) (by rw [hclosest.isPresent]; decide)
  refine ⟨blockedSample.shows_view, hworkDir, ha, hclosest, hrun, ?_⟩
  rw [← ha, hends 4 (by decide), hrun]

/-! ## An entry that is not found -/

section

variable {m : Machine} {names : List Bytes} (h : ∀ n ∈ names, IsName n)
include h

theorem absolute_pathOf (workDir : Bytes) : Path.absolute workDir (pathOf names) = pathOf names := by
  have hroot : Path.isAbsolute (pathOf names) = true := rfl
  rw [Path.absolute, if_pos hroot, Path.clean_eq_pathOf_resolved hroot,
    Path.resolved_splitOn_pathOf h]

theorem run_nearest_of_isAbsent (habsent : IsAbsent m.view names) :
    (nearest (pathOf names) : OnMachine _).run m = (.ok none, m) := by
  rw [run_nearest m.shows_view, absolute_pathOf h]
  rcases found_ancestors (v := m.view) h with ⟨dir, hclosest, -⟩ | ⟨-, hfound⟩
  · cases hclosest.isPresent.symm.trans (habsent dir hclosest.onWay)
  · rw [hfound]

theorem exists_run_ofDirectory_eq_error (hlong : Machine.maxPath ≤ (pathIn names).length) :
    ∃ e, ((ofDirectory (pathOf names) : OnMachine _).run m).1 = .error e := by
  obtain ⟨e, hread⟩ := Machine.exists_read_eq_error (m := m) hlong
  have hview : m.view.read (pathIn names) = .error e := hread
  rw [run_ofDirectory m.shows_view, loaded, Path.join_pathOf h isName_standardName, ← pathIn, hview]
  exact ⟨_, rfl⟩

/-- An entry with a path that is too long is not found, and nothing is found above it that is not
there. -/
theorem isAbsent_of_long (hlong : Machine.maxPath ≤ (pathIn names).length)
    (habove : ∀ dir, dir <+: names → dir ≠ names → m.inode? (dir ++ [standardName]) = none) :
    IsAbsent m.view names := by
  intro dir hdir
  change m.isPresent (pathIn dir) = false
  by_cases hlast : dir = names
  · rw [hlast]
    exact Machine.isPresent_of_long hlong
  · refine Bool.eq_false_iff.mpr fun hpresent => ?_
    have hnames : ∀ n ∈ dir ++ [standardName], IsName n := by
      intro n hn
      rcases List.mem_append.mp hn with hn | hn
      · exact h n (hdir.subset hn)
      · rw [List.mem_singleton.mp hn]
        exact isName_standardName
    exact Machine.inode?_ne_none_of_isPresent hnames hpresent (habove dir hdir hlast)

end

/-- The names of a directory whose path is not too long, while the path of a file in it is. -/
def deepNames : List Bytes :=
  List.replicate 15 (List.replicate 255 97) ++ [List.replicate 244 97]

/-- A machine with the directory, those above it, and a configuration file in it. -/
def deepSample : Machine where
  inodes := (deepNames.inits.filter (· ≠ [])).map (fun l => (l, .directory)) ++
    [(deepNames ++ [standardName], .file [] false)]
  workDir := []

theorem isName_deepNames : ∀ n ∈ deepNames, IsName n := by
  have hname (k : Nat) (hk : k ≠ 0) : IsName (List.replicate k 97) := by
    have hbyte (b : UInt8) (hb : b ∈ List.replicate k 97) : b = 97 := List.eq_of_mem_replicate hb
    refine ⟨by simpa using hk, fun h => ?_, fun h => ?_, fun h => absurd (hbyte _ h) (by decide)⟩
    · exact absurd (hbyte 46 (by rw [h]; decide)) (by decide)
    · exact absurd (hbyte 46 (by rw [h]; decide)) (by decide)
  intro n hn
  rcases List.mem_append.mp hn with hn | hn
  · rw [List.eq_of_mem_replicate hn]
    exact hname 255 (by decide)
  · rw [List.mem_singleton.mp hn]
    exact hname 244 (by decide)

theorem length_pathIn_deepNames : (pathIn deepNames).length = Machine.maxPath := by
  decide +kernel

theorem inode?_deepSample {l : Location} (hl : l ≠ []) :
    deepSample.inode? l =
      if l <+: deepNames then some .directory
      else if l = deepNames ++ [standardName] then some (.file [] false)
      else none := by
  let dirs := (deepNames.inits.filter (· ≠ [])).map fun l => (l, Inode.directory)
  have hdirs (x : Location × Inode) (hx : x ∈ dirs) : x.1 <+: deepNames ∧ x.2 = .directory := by
    obtain ⟨d, hd, rfl⟩ := List.mem_map.mp hx
    exact ⟨(List.mem_inits d deepNames).mp (List.mem_filter.mp hd).1, rfl⟩
  rw [Machine.inode?, if_neg hl, deepSample, List.lookup_append]
  change (dirs.lookup l).or _ = _
  cases hlookup : dirs.lookup l with
  | some n =>
    obtain ⟨before, after, heq, -⟩ := List.lookup_eq_some_iff.mp hlookup
    obtain ⟨hwithin, rfl⟩ := hdirs (l, n) (by rw [heq]; simp)
    rw [if_pos hwithin]
    rfl
  | none =>
    have hnot : ¬l <+: deepNames := by
      intro hwithin
      have hmem : (l, Inode.directory) ∈ dirs :=
        List.mem_map.mpr ⟨l, by simpa using ⟨hwithin, hl⟩, rfl⟩
      simpa using List.lookup_eq_none_iff.mp hlookup _ hmem
    rw [if_neg hnot, Option.none_or, List.lookup_cons]
    by_cases hfile : l = deepNames ++ [standardName]
    · simp [hfile]
    · rw [if_neg hfile, beq_false_of_ne hfile]
      rfl

/-- No directory has the name of the file. -/
theorem not_prefix_of_concat (dir : List Bytes) : ¬dir ++ [standardName] <+: deepNames := by
  intro hwithin
  exact absurd (hwithin.subset (by simp : standardName ∈ dir ++ [standardName])) (by decide)

/-- There is a file of the right name in the directory, but its path is too long to be found.  The
search passes it, though loading the directory would have been refused. -/
theorem nearest_passes_deepSample :
    Path.absolute deepSample.view.workDir (pathOf deepNames) = pathOf deepNames ∧
      (∀ dir, dir <+: deepNames → deepSample.inode? dir = some .directory) ∧
      deepSample.inode? (deepNames ++ [standardName]) = some (.file [] false) ∧
      (nearest (pathOf deepNames) : OnMachine _).run deepSample = (.ok none, deepSample) ∧
      ∃ e, ((ofDirectory (pathOf deepNames) : OnMachine _).run deepSample).1 = .error e := by
  have hlong : Machine.maxPath ≤ (pathIn deepNames).length :=
    Nat.le_of_eq length_pathIn_deepNames.symm
  have habsent : IsAbsent deepSample.view deepNames := by
    refine isAbsent_of_long isName_deepNames hlong fun dir _ hdir => ?_
    rw [inode?_deepSample (by simp), if_neg (not_prefix_of_concat dir),
      if_neg fun h => hdir (List.append_cancel_right h)]
  refine ⟨absolute_pathOf isName_deepNames _, fun dir hdir => ?_, ?_,
    run_nearest_of_isAbsent isName_deepNames habsent,
    exists_run_ofDirectory_eq_error isName_deepNames hlong⟩
  · by_cases hroot : dir = []
    · rw [hroot]
      rfl
    · rw [inode?_deepSample hroot, if_pos hdir]
  · rw [inode?_deepSample (by simp), if_neg (not_prefix_of_concat deepNames), if_pos rfl]

end Config
end LuaToC
