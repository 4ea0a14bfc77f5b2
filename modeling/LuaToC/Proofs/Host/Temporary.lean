import LuaToC.Proofs.Host.Files
import LuaToC.Proofs.Numeral
import Mathlib.Data.List.Nodup

/-! # Temporary files

A machine makes a temporary file with the first number that is free among one more than it has
places.  Files with different numbers are at different places, so one of the numbers is free
(`exists_isFree`), and no file is ever taken for the temporary one (`createTemporary_cases`).
-/
namespace LuaToC

/-! ## Names -/

namespace Host

theorem slash_notMem_temporaryName (n : Nat) : Path.slash ∉ temporaryName n := by
  intro hmem
  rcases List.mem_append.mp hmem with hmem | hmem
  · rcases List.mem_append.mp hmem with hmem | hmem
    · exact absurd hmem (by decide)
    · obtain ⟨d, hd, heq⟩ := Bytes.exists_digit_of_mem_digits hmem
      revert heq
      revert d
      decide
  · exact absurd hmem (by decide)

theorem temporaryName_injective {n k : Nat} (h : temporaryName n = temporaryName k) : n = k := by
  have hdigits : Bytes.ofNat n = Bytes.ofNat k :=
    List.append_cancel_left (List.append_cancel_right h)
  have hvalue := congrArg (Numeral.value? 10 0) hdigits
  rw [Bytes.ofNat, Bytes.ofNat, Numeral.value?_digits (by decide),
    Numeral.value?_digits (by decide)] at hvalue
  exact Option.some.inj hvalue

/-- The name of a temporary file begins with a dot. -/
theorem exists_temporaryName_eq (n : Nat) : ∃ s, temporaryName n = 46 :: 108 :: s :=
  ⟨_, rfl⟩

/-- A temporary file is in its directory under its name. -/
theorem exists_temporaryPath_eq (dir : Bytes) (n : Nat) :
    ∃ d, temporaryPath dir n = d ++ Path.slash :: temporaryName n := by
  unfold temporaryPath
  by_cases hslash : Path.endsWithSlash dir = true
  · obtain ⟨d, hd⟩ := List.getLast?_eq_some_iff.mp (of_decide_eq_true hslash)
    refine ⟨d, ?_⟩
    rw [if_pos hslash, hd, List.append_assoc]
    rfl
  · refine ⟨dir, ?_⟩
    rw [if_neg hslash, List.append_assoc]
    rfl

theorem afterLast_temporaryPath (dir : Bytes) (n : Nat) :
    Bytes.afterLast Path.slash (temporaryPath dir n) = temporaryName n := by
  obtain ⟨d, hd⟩ := exists_temporaryPath_eq dir n
  rw [hd, Bytes.afterLast_append_cons (slash_notMem_temporaryName n)]

end Host

namespace Machine

/-- The last name of a path that does not end with a slash. -/
theorem exists_names_eq {p : Bytes} (h : Bytes.afterLast Path.slash p ≠ []) :
    ∃ way, names p = way ++ [Bytes.afterLast Path.slash p] := by
  obtain ⟨pieces, hpieces⟩ := Bytes.exists_splitOn_eq Path.slash p
  refine ⟨pieces.filter (· ≠ []), ?_⟩
  rw [names, hpieces, List.filter_append, List.filter_cons_of_pos (by simpa using h), List.filter_nil]

theorem endsWithSlash_eq_false {p : Bytes} (h : Bytes.afterLast Path.slash p ≠ []) :
    Path.endsWithSlash p = false := by
  obtain ⟨hslash, hp⟩ := Bytes.eq_append_afterLast Path.slash p
  have hlast : p.getLast? = (Bytes.afterLast Path.slash p).getLast? := by
    rcases hp with heq | ⟨d, heq⟩
    · rw [heq]
    · obtain ⟨b, last, hcons⟩ := List.exists_cons_of_ne_nil h
      rw [hcons] at heq ⊢
      rw [heq]
      simp [List.getLast?_cons]
  refine decide_eq_false fun hends => hslash ?_
  rw [hlast] at hends
  exact List.mem_of_getLast? hends

/-- A file gets the last name of its path. -/
theorem getLast?_of_locateNew {m : Machine} {p : Bytes} {k : Location} (hp : m.locateNew p = .ok k)
    (h : Bytes.afterLast Path.slash p ≠ []) : k.getLast? = some (Bytes.afterLast Path.slash p) := by
  obtain ⟨way, l, name, hleads, rfl⟩ := exists_leads_of_locateNew hp
  obtain ⟨way', hnames⟩ := exists_names_eq h
  have hlast := congrArg List.getLast? (hleads.names.symm.trans hnames)
  rw [List.getLast?_concat, List.getLast?_concat] at hlast
  rw [List.getLast?_concat, hlast]

/-- What is found has the last name of its path, and something is there. -/
theorem follow_concat {m : Machine} {l k : Location} {way : List Bytes} {name : Bytes}
    (hname : name ≠ Path.here ∧ name ≠ Path.above) (h : m.follow l (way ++ [name]) = .ok k) :
    k.getLast? = some name ∧ m.inode? k ≠ none := by
  induction way generalizing l with
  | nil =>
    rw [List.nil_append, follow, if_neg hname.1, if_neg hname.2] at h
    split at h
    · cases h
    split at h
    · cases h
    all_goals
      rename_i hinode
      cases h
      exact ⟨List.getLast?_concat, by simp [hinode]⟩
  | cons step way ih =>
    rw [List.cons_append, follow] at h
    split at h
    · exact ih h
    split at h
    · exact ih h
    split at h
    · cases h
    split at h
    · cases h
    · exact ih h
    -- A file is not followed any further, and the last name is still to come.
    all_goals
      rw [if_neg (by simp)] at h
      cases h

/-! ## A free number -/

/-- Each number that is taken has a place of its own. -/
theorem temporaryName_mem_of_isPresent {m : Machine} {dir : Bytes} {n : Nat}
    (h : m.isPresent (Host.temporaryPath dir n) = true) :
    Host.temporaryName n ∈ m.inodes.filterMap fun x => x.1.getLast? := by
  have hlast := Host.afterLast_temporaryPath dir n
  obtain ⟨s, hs⟩ := Host.exists_temporaryName_eq n
  have hne : Bytes.afterLast Path.slash (Host.temporaryPath dir n) ≠ [] := by
    rw [hlast, hs]
    simp
  obtain ⟨way, hway⟩ := exists_names_eq hne
  rw [hlast] at hway
  have hname : Host.temporaryName n ≠ Path.here ∧ Host.temporaryName n ≠ Path.above := by
    have hhere : Path.here = [46] := by decide
    have habove : Path.above = [46, 46] := by decide
    rw [hs, hhere, habove]
    simp
  unfold isPresent at h
  cases hlocate : m.locate (Host.temporaryPath dir n) with
  | error cause =>
    rw [hlocate] at h
    cases h
  | ok k =>
    unfold locate at hlocate
    cases hvalid : validate (Host.temporaryPath dir n) with
    | error cause =>
      rw [hvalid] at hlocate
      cases hlocate
    | ok _ =>
      rw [hvalid, endsWithSlash_eq_false hne, hway] at hlocate
      change m.follow _ (way ++ [Host.temporaryName n] ++ []) = .ok k at hlocate
      rw [List.append_nil] at hlocate
      obtain ⟨hk, hinode⟩ := follow_concat hname hlocate
      obtain ⟨i, hi⟩ := Option.ne_none_iff_exists'.mp hinode
      have hroot : k ≠ [] := by
        rintro rfl
        cases hk
      rw [inode?, if_neg hroot] at hi
      obtain ⟨before, after, hinodes, -⟩ := List.lookup_eq_some_iff.mp hi
      exact List.mem_filterMap.mpr ⟨(k, i), by rw [hinodes]; simp, hk⟩

theorem exists_isFree (m : Machine) (dir : Bytes) :
    ∃ n ∈ List.range (m.inodes.length + 1), m.isPresent (Host.temporaryPath dir n) = false := by
  by_contra hnone
  have htaken : (List.range (m.inodes.length + 1)).map Host.temporaryName ⊆
      m.inodes.filterMap fun x => x.1.getLast? := by
    intro name hname
    obtain ⟨n, hn, rfl⟩ := List.mem_map.mp hname
    have hpresent : m.isPresent (Host.temporaryPath dir n) = true := by
      by_contra hfree
      exact hnone ⟨n, hn, Bool.eq_false_iff.mpr hfree⟩
    exact temporaryName_mem_of_isPresent hpresent
  have hnodup : ((List.range (m.inodes.length + 1)).map Host.temporaryName).Nodup :=
    List.nodup_range.map fun _ _ => Host.temporaryName_injective
  have hle := hnodup.length_le_of_subset htaken
  have hlength := List.length_filterMap_le (fun x : Location × Inode => x.1.getLast?) m.inodes
  rw [List.length_map, List.length_range] at hle
  omega

/-- A temporary file is made where nothing was. -/
theorem createTemporary_cases (m : Machine) (dir : Bytes) :
    (∃ e, m.createTemporary dir = (.error e, m)) ∨
      ∃ n k, m.locateNew (Host.temporaryPath dir n) = .ok k ∧ m.inode? k = none ∧
        m.createTemporary dir = (.ok (Host.temporaryPath dir n), m.put k (.file [] false)) := by
  obtain ⟨free, hrange, hfree⟩ := exists_isFree m dir
  cases hfound : (List.range (m.inodes.length + 1)).find?
      fun n => !m.isPresent (Host.temporaryPath dir n) with
  | none => exact absurd (by rw [hfree]; rfl) (List.find?_eq_none.mp hfound free hrange)
  | some n =>
    have habsent : m.isPresent (Host.temporaryPath dir n) = false := by
      have := List.find?_some hfound
      simpa using this
    simp only [createTemporary, hfound, Option.getD_some]
    cases hk : m.locateNew (Host.temporaryPath dir n) with
    | error cause => exact .inl ⟨_, rfl⟩
    | ok k =>
      refine .inr ⟨n, k, hk, ?_, rfl⟩
      by_contra hinode
      rw [isPresent, locate_of_locateNew hk, if_neg hinode] at habsent
      cases habsent

end Machine
end LuaToC
