import LuaToC.Text.Bytes

/-! # Pieces of a text

Splitting a text at a separator goes along with appending: what stands before a separator and what
stands after it are split on their own (`splitOn_append_cons`), and a text without a separator only
makes the first piece longer (`splitOn_append_of_notMem`).  The last piece is what `afterLast` finds
(`exists_splitOn_eq`).  Lines and the names of a path are such pieces; lines are found again in the text
that has been put together from them (`splitOn_unlines`).
-/
namespace LuaToC.Bytes

theorem splitOn_ne_nil (sep : UInt8) (s : Bytes) : splitOn sep s ≠ [] := by
  cases s with
  | nil => simp [splitOn]
  | cons c s =>
    rw [splitOn]
    split
    · simp
    · split <;> simp

/-- A text is split at a separator into the pieces before it and the pieces after it. -/
theorem splitOn_append_cons (sep : UInt8) (s t : Bytes) :
    splitOn sep (s ++ sep :: t) = splitOn sep s ++ splitOn sep t := by
  induction s with
  | nil => simp [splitOn]
  | cons c s ih =>
    rw [List.cons_append, splitOn, splitOn, ih]
    by_cases hc : c = sep
    · simp [hc]
    · obtain ⟨p, ps, hs⟩ := List.exists_cons_of_ne_nil (splitOn_ne_nil sep s)
      simp [hc, hs]

/-- What has no separator is the beginning of the first piece. -/
theorem splitOn_append_of_notMem {sep : UInt8} {s : Bytes} (hs : sep ∉ s) (t : Bytes) :
    splitOn sep (s ++ t) =
      (s ++ (splitOn sep t).head (splitOn_ne_nil sep t)) :: (splitOn sep t).drop 1 := by
  induction s with
  | nil =>
    obtain ⟨p, ps, ht⟩ := List.exists_cons_of_ne_nil (splitOn_ne_nil sep t)
    simp [ht]
  | cons c s ih =>
    have hc : ¬c = sep := fun heq => hs (heq ▸ List.mem_cons_self)
    rw [List.cons_append, splitOn, ih fun hmem => hs (List.mem_cons_of_mem c hmem), if_neg hc]
    rfl

theorem splitOn_of_notMem {sep : UInt8} {s : Bytes} (hs : sep ∉ s) : splitOn sep s = [s] := by
  have hsplit := splitOn_append_of_notMem hs []
  rw [List.append_nil] at hsplit
  rw [hsplit]
  simp [splitOn]

/-- The lines of a text that starts with whole lines. -/
theorem splitOn_unlines_append (lines : List Bytes) (s : Bytes) :
    splitOn newline (unlines lines ++ s) = lines.flatMap (splitOn newline) ++ splitOn newline s := by
  induction lines with
  | nil => rfl
  | cons l lines ih =>
    have hcons : unlines (l :: lines) ++ s = l ++ newline :: (unlines lines ++ s) := by simp [unlines]
    rw [hcons, splitOn_append_cons, ih, List.flatMap_cons, List.append_assoc]

/-- Lines without line feeds are found again in the text.  It ends with a line feed, after which there
is nothing. -/
theorem splitOn_unlines {lines : List Bytes} (h : ∀ l ∈ lines, newline ∉ l) :
    splitOn newline (unlines lines) = lines ++ [[]] := by
  have hlines : lines.flatMap (splitOn newline) = lines := by
    rw [List.flatMap_def, List.map_congr_left fun l hl => splitOn_of_notMem (h l hl),
      ← List.flatMap_def, List.flatMap_singleton']
  rw [← List.append_nil (unlines lines), splitOn_unlines_append, hlines]
  rfl

/-- A text ends with the part after its last separator, which is all of it when there is none. -/
theorem eq_append_afterLast (sep : UInt8) (s : Bytes) :
    sep ∉ afterLast sep s ∧ (afterLast sep s = s ∨ ∃ d, s = d ++ sep :: afterLast sep s) := by
  induction s with
  | nil => exact ⟨List.not_mem_nil, .inl rfl⟩
  | cons c s ih =>
    rw [afterLast]
    by_cases hs : sep ∈ s
    · rw [if_pos hs]
      refine ⟨ih.1, .inr ?_⟩
      rcases ih.2 with heq | ⟨d, heq⟩
      · exact absurd (by rwa [heq]) ih.1
      · exact ⟨c :: d, by rw [List.cons_append, ← heq]⟩
    · rw [if_neg hs]
      by_cases hc : c = sep
      · rw [if_pos hc]
        exact ⟨hs, .inr ⟨[], by rw [hc, List.nil_append]⟩⟩
      · rw [if_neg hc]
        exact ⟨by simp [hs, Ne.symm hc], .inl rfl⟩

theorem afterLast_append_cons {sep : UInt8} {t : Bytes} (ht : sep ∉ t) (d : Bytes) :
    afterLast sep (d ++ sep :: t) = t := by
  induction d with
  | nil => rw [List.nil_append, afterLast, if_neg ht, if_pos rfl]
  | cons c d ih => rw [List.cons_append, afterLast, if_pos (by simp), ih]

/-- The last piece. -/
theorem exists_splitOn_eq (sep : UInt8) (s : Bytes) :
    ∃ pieces, splitOn sep s = pieces ++ [afterLast sep s] := by
  obtain ⟨hlast, heq | ⟨d, heq⟩⟩ := eq_append_afterLast sep s
  · exact ⟨[], by rw [List.nil_append, heq, splitOn_of_notMem (heq ▸ hlast)]⟩
  · refine ⟨splitOn sep d, ?_⟩
    have hsplit : splitOn sep s = splitOn sep (d ++ sep :: afterLast sep s) :=
      congrArg (splitOn sep) heq
    rw [hsplit, splitOn_append_cons, splitOn_of_notMem hlast]

end LuaToC.Bytes
