import LuaToC.Host.Machine
import LuaToC.Proofs.Splitting
import Mathlib.Data.List.Induction
import Mathlib.Data.List.Infix

/-! # Clean absolute paths

A clean absolute path is a list of names, each with a slash before it (`Machine.pathOf`).  Cleaning
an absolute path gives such a list (`clean_eq_pathOf`), the directory of the path drops the last name
(`directory_pathOf_concat`), and only the root is its own directory.  So going up from a path goes
through the beginnings of its list of names and ends at the root (`ancestors_pathOf`).
-/
namespace LuaToC

namespace Bytes

theorem notMem_of_mem_splitOn {sep : UInt8} {s p : Bytes} (h : p ∈ splitOn sep s) : sep ∉ p := by
  induction s generalizing p with
  | nil =>
    rw [splitOn, List.mem_singleton] at h
    rw [h]
    exact List.not_mem_nil
  | cons c s ih =>
    obtain ⟨q, qs, hs⟩ := List.exists_cons_of_ne_nil (splitOn_ne_nil sep s)
    rw [splitOn] at h
    by_cases hc : c = sep
    · rw [if_pos hc] at h
      rcases List.mem_cons.mp h with rfl | h
      · exact List.not_mem_nil
      · exact ih h
    · rw [if_neg hc, hs] at h
      rcases List.mem_cons.mp h with rfl | h
      · have hq := ih (hs ▸ List.mem_cons_self)
        simp [Ne.symm hc, hq]
      · exact ih (hs ▸ List.mem_cons_of_mem q h)

theorem join_concat {sep name : Bytes} {names : List Bytes} (hne : names ≠ []) :
    join sep (names ++ [name]) = join sep names ++ (sep ++ name) := by
  induction names with
  | nil => exact absurd rfl hne
  | cons first names ih =>
    cases names with
    | nil => simp [join]
    | cons next names =>
      rw [List.cons_append, List.cons_append, join, ← List.cons_append, ih (by simp), join]
      simp only [List.append_assoc]

end Bytes

namespace Path

open Machine (pathOf)

/-- The name of a file or directory, other than those that stand for other directories. -/
structure IsName (name : Bytes) : Prop where
  ne_nil : name ≠ []
  ne_here : name ≠ here
  ne_above : name ≠ above
  slash_notMem : slash ∉ name

/-! ## Cleaning -/

/-- The names that are left of the pieces of an absolute path. -/
def resolved (pieces : List Bytes) : List Bytes := (pieces.foldl (descend true) []).reverse

theorem clean_eq_pathOf_resolved {p : Bytes} (h : isAbsolute p = true) :
    clean p = pathOf (resolved (Bytes.splitOn slash p)) := by
  rw [clean, h]
  rfl

/-- A piece that is a name goes down to it. -/
theorem descend_name {rooted : Bool} {names : List Bytes} {name : Bytes} (h : IsName name) :
    descend rooted names name = name :: names := by
  unfold descend
  rw [if_neg (by simp [h.ne_nil, h.ne_here]), if_neg h.ne_above]

theorem resolved_concat_name {pieces : List Bytes} {name : Bytes} (h : IsName name) :
    resolved (pieces ++ [name]) = resolved pieces ++ [name] := by
  rw [resolved, List.foldl_append, List.foldl_cons, List.foldl_nil, descend_name h,
    List.reverse_cons]
  rfl

theorem resolved_concat_nil (pieces : List Bytes) :
    resolved (pieces ++ [[]]) = resolved pieces := by
  have hstay (names : List Bytes) : descend true names [] = names := if_pos (.inl rfl)
  rw [resolved, List.foldl_append, List.foldl_cons, List.foldl_nil, hstay]
  rfl

/-- A step from a list of names leads to one. -/
theorem isName_of_mem_descend {names : List Bytes} {piece : Bytes} (hnames : ∀ n ∈ names, IsName n)
    (hpiece : slash ∉ piece) : ∀ n ∈ descend true names piece, IsName n := by
  unfold descend
  by_cases hstay : piece = [] ∨ piece = here
  · rw [if_pos hstay]
    exact hnames
  rw [if_neg hstay]
  by_cases habove : piece = above
  · rw [if_pos habove]
    cases names with
    | nil => exact hnames
    | cons last rest =>
      -- A name is not `..`, so going up from it drops it.
      have hlast := (hnames last List.mem_cons_self).ne_above
      dsimp only
      rw [if_neg hlast]
      exact fun n hn => hnames n (List.mem_cons_of_mem last hn)
  · rw [if_neg habove]
    obtain ⟨hnil, hhere⟩ := not_or.mp hstay
    intro n hn
    rcases List.mem_cons.mp hn with rfl | hn
    · exact ⟨hnil, hhere, habove, hpiece⟩
    · exact hnames n hn

theorem isName_of_mem_foldl {pieces names : List Bytes} (hnames : ∀ n ∈ names, IsName n)
    (hpieces : ∀ p ∈ pieces, slash ∉ p) : ∀ n ∈ pieces.foldl (descend true) names, IsName n := by
  induction pieces generalizing names with
  | nil => exact hnames
  | cons p pieces ih =>
    rw [List.foldl_cons]
    exact ih (isName_of_mem_descend hnames (hpieces p List.mem_cons_self))
      fun q hq => hpieces q (List.mem_cons_of_mem p hq)

theorem isName_of_mem_resolved (s : Bytes) :
    ∀ n ∈ resolved (Bytes.splitOn slash s), IsName n := by
  intro n hn
  exact isName_of_mem_foldl (fun n hn => absurd hn List.not_mem_nil)
    (fun p => Bytes.notMem_of_mem_splitOn) n (List.mem_reverse.mp hn)

/-! ## Lists of names -/

section

variable {names : List Bytes} {name : Bytes}

theorem isName_of_concat (h : ∀ n ∈ names ++ [name], IsName n) :
    (∀ n ∈ names, IsName n) ∧ IsName name :=
  ⟨fun n hn => h n (List.mem_append_left _ hn), h name (by simp)⟩

/-- The last name of a path has a slash before it, and before that is the path of the others; the
root adds nothing. -/
theorem pathOf_concat (names : List Bytes) (name : Bytes) :
    pathOf (names ++ [name]) = (if names = [] then [] else pathOf names) ++ slash :: name := by
  by_cases hnames : names = []
  · rw [hnames, if_pos rfl]
    rfl
  · rw [if_neg hnames, pathOf, Bytes.join_concat hnames]
    rfl

theorem length_pathOf_lt (h : IsName name) :
    (pathOf names).length < (pathOf (names ++ [name])).length := by
  have hname := List.length_pos_iff.mpr h.ne_nil
  rw [pathOf_concat, List.length_append, List.length_cons]
  by_cases hnames : names = []
  · rw [hnames, if_pos rfl]
    change 1 < _
    omega
  · rw [if_neg hnames]
    omega

theorem resolved_splitOn_pathOf (h : ∀ n ∈ names, IsName n) :
    resolved (Bytes.splitOn slash (pathOf names)) = names := by
  induction names using List.reverseRecOn with
  | nil => decide
  | append_singleton names name ih =>
    obtain ⟨hnames, hname⟩ := isName_of_concat h
    rw [pathOf_concat, Bytes.splitOn_append_cons, Bytes.splitOn_of_notMem hname.slash_notMem,
      resolved_concat_name hname]
    by_cases hroot : names = []
    · rw [if_pos hroot, hroot]
      rfl
    · rw [if_neg hroot, ih hnames]

/-- A name below a path of names. -/
theorem join_pathOf (h : ∀ n ∈ names, IsName n) (hname : IsName name) :
    join (pathOf names) name = pathOf (names ++ [name]) := by
  have hne : pathOf names ≠ [] := List.cons_ne_nil _ _
  rw [join, if_neg hne, List.append_assoc, List.singleton_append, clean_eq_pathOf_resolved rfl,
    Bytes.splitOn_append_cons, Bytes.splitOn_of_notMem hname.slash_notMem,
    resolved_concat_name hname, resolved_splitOn_pathOf h]

theorem throughLastSlash_append (d : Bytes) (h : slash ∉ name) :
    throughLastSlash (d ++ slash :: name) = d ++ [slash] := by
  have hname : ∀ b ∈ name.reverse, decide (b ≠ slash) = true := by
    intro b hb
    exact decide_eq_true fun heq => h (heq ▸ List.mem_reverse.mp hb)
  rw [throughLastSlash, List.reverse_append, List.reverse_cons, List.append_assoc,
    List.singleton_append, List.dropWhile_append_of_pos hname, List.dropWhile_cons_of_neg (by simp),
    List.reverse_cons, List.reverse_reverse]

/-! ## Going up -/

theorem directory_root : directory (pathOf []) = pathOf [] := by
  decide

theorem directory_pathOf_concat (h : ∀ n ∈ names, IsName n) (hname : IsName name) :
    directory (pathOf (names ++ [name])) = pathOf names := by
  rw [directory, pathOf_concat, throughLastSlash_append _ hname.slash_notMem]
  by_cases hroot : names = []
  · rw [if_pos hroot, hroot]
    decide
  · rw [if_neg hroot, clean_eq_pathOf_resolved rfl, Bytes.splitOn_append_cons]
    exact congrArg pathOf ((resolved_concat_nil _).trans (resolved_splitOn_pathOf h))

/-- Only the root is its own directory. -/
theorem directory_pathOf_concat_ne (h : ∀ n ∈ names, IsName n) (hname : IsName name) :
    directory (pathOf (names ++ [name])) ≠ pathOf (names ++ [name]) := by
  rw [directory_pathOf_concat h hname]
  exact fun heq => absurd (congrArg List.length heq) (Nat.ne_of_lt (length_pathOf_lt hname))

theorem ancestors_root : ancestors (pathOf []) = [pathOf []] := by
  rw [ancestors, dif_neg (by decide)]

theorem ancestors_pathOf_concat (h : ∀ n ∈ names, IsName n) (hname : IsName name) :
    ancestors (pathOf (names ++ [name])) =
      pathOf (names ++ [name]) :: ancestors (pathOf names) := by
  have hdirectory := directory_pathOf_concat h hname
  rw [ancestors, dif_pos (by rw [hdirectory]; exact length_pathOf_lt hname), hdirectory]

/-- The directories on the way up are the beginnings of the list of names, the longest first. -/
theorem ancestors_pathOf (h : ∀ n ∈ names, IsName n) :
    ancestors (pathOf names) = names.inits.reverse.map pathOf := by
  induction names using List.reverseRecOn with
  | nil => exact ancestors_root
  | append_singleton names name ih =>
    obtain ⟨hnames, hname⟩ := isName_of_concat h
    have hinits : (names ++ [name]).inits = names.inits ++ [names ++ [name]] := by
      simp [List.inits_append]
    rw [ancestors_pathOf_concat hnames hname, ih hnames, hinits, List.reverse_append]
    rfl

/-! ## The names of a path -/

theorem names_pathOf (h : ∀ n ∈ names, IsName n) : Machine.names (pathOf names) = names := by
  induction names using List.reverseRecOn with
  | nil => decide
  | append_singleton names name ih =>
    obtain ⟨hnames, hname⟩ := isName_of_concat h
    rw [Machine.names, pathOf_concat, Bytes.splitOn_append_cons,
      Bytes.splitOn_of_notMem hname.slash_notMem, List.filter_append]
    have hlast : [name].filter (· ≠ []) = [name] :=
      List.filter_cons_of_pos (by simpa using hname.ne_nil)
    rw [hlast]
    refine congrArg (· ++ [name]) ?_
    by_cases hroot : names = []
    · rw [if_pos hroot, hroot]
      rfl
    · rw [if_neg hroot]
      exact ih hnames

end

/-- An absolute path is cleaned to the path of its names. -/
theorem clean_eq_pathOf {p : Bytes} (h : isAbsolute p = true) :
    clean p = pathOf (Machine.names (clean p)) ∧ ∀ n ∈ Machine.names (clean p), IsName n := by
  have hresolved := isName_of_mem_resolved p
  rw [clean_eq_pathOf_resolved h, names_pathOf hresolved]
  exact ⟨rfl, hresolved⟩

theorem absolute_eq_pathOf {workDir : Bytes} (h : isAbsolute workDir = true) (p : Bytes) :
    let a := absolute workDir p
    a = pathOf (Machine.names a) ∧ ∀ n ∈ Machine.names a, IsName n := by
  unfold absolute
  by_cases hp : isAbsolute p = true
  · rw [if_pos hp]
    exact clean_eq_pathOf hp
  · rw [if_neg hp, join]
    have hne : workDir ≠ [] := by
      rintro rfl
      cases h
    have hbelow : isAbsolute (workDir ++ [slash] ++ p) = true := by
      obtain ⟨b, s, rfl⟩ := List.exists_cons_of_ne_nil hne
      exact h
    rw [if_neg hne]
    exact clean_eq_pathOf hbelow

end Path
end LuaToC
