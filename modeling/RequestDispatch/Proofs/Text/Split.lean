import RequestDispatch.Text.Split

/-!
Cutting and joining. The pieces of a text are the only texts without the separator that give the
text back when they are joined with it, and a cut is made at the first separator.
-/

namespace RequestDispatch.Text

variable {sep : Char}

theorem pieces_eq_splitOn (sep : Char) (s : List Char) : pieces sep s = s.splitOn sep := by
  induction s with
  | nil => rfl
  | cons c rest ih =>
      rw [List.splitOn_cons_eq_if_modifyHead, pieces, ih]
      by_cases hc : c = sep
      · simp [hc]
      · rw [if_neg hc, if_neg (by simpa using hc)]
        obtain ⟨piece, more, hrest⟩ := List.exists_cons_of_ne_nil (List.splitOn_ne_nil sep rest)
        rw [hrest]
        rfl

theorem pieces_of_not_mem {s : List Char} (hs : sep ∉ s) : pieces sep s = [s] := by
  rw [pieces_eq_splitOn, List.splitOn_eq_singleton hs]

theorem pieces_append_cons {piece : List Char} (hpiece : sep ∉ piece) (rest : List Char) :
    pieces sep (piece ++ sep :: rest) = piece :: pieces sep rest := by
  rw [pieces_eq_splitOn, pieces_eq_splitOn, List.splitOn_append_cons_self_of_not_mem hpiece]

theorem pieces_ne_nil (sep : Char) (s : List Char) : pieces sep s ≠ [] := by
  rw [pieces_eq_splitOn]
  exact List.splitOn_ne_nil sep s

theorem intercalate_pieces (sep : Char) (s : List Char) :
    [sep].intercalate (pieces sep s) = s := by
  rw [pieces_eq_splitOn, List.intercalate_splitOn]

theorem pieces_intercalate {parts : List (List Char)} (hparts : ∀ part ∈ parts, sep ∉ part)
    (hsome : parts ≠ []) : pieces sep ([sep].intercalate parts) = parts := by
  rw [pieces_eq_splitOn, List.splitOn_intercalate sep hparts hsome]

theorem not_mem_of_mem_pieces {s piece : List Char} (hpiece : piece ∈ pieces sep s) :
    sep ∉ piece := by
  induction s generalizing piece with
  | nil =>
      obtain rfl := List.mem_singleton.mp hpiece
      exact List.not_mem_nil
  | cons c rest ih =>
      rw [pieces] at hpiece
      split at hpiece
      · obtain rfl | hrest := List.mem_cons.mp hpiece
        · exact List.not_mem_nil
        · exact ih hrest
      · rename_i hc
        obtain ⟨first, more, hrest⟩ := List.exists_cons_of_ne_nil (pieces_ne_nil sep rest)
        rw [hrest] at hpiece ih
        obtain rfl | hmore := List.mem_cons.mp hpiece
        · rw [List.mem_cons, not_or]
          exact ⟨Ne.symm hc, ih List.mem_cons_self⟩
        · exact ih (List.mem_cons_of_mem _ hmore)

/-- Of several pieces the first one ends at the first separator. -/
theorem pieces_eq_cons_cons_iff {s piece next : List Char} {more : List (List Char)} :
    pieces sep s = piece :: next :: more ↔
      sep ∉ piece ∧ ∃ rest, s = piece ++ sep :: rest ∧ pieces sep rest = next :: more := by
  constructor
  · intro h
    have hfree (part : List Char) (hpart : part ∈ piece :: next :: more) : sep ∉ part :=
      not_mem_of_mem_pieces (h ▸ hpart)
    refine ⟨hfree piece List.mem_cons_self, [sep].intercalate (next :: more), ?_, ?_⟩
    · rw [← intercalate_pieces sep s, h, List.intercalate_cons_cons, List.append_assoc]
      rfl
    · exact pieces_intercalate (fun part hpart => hfree part (List.mem_cons_of_mem _ hpart))
        (List.cons_ne_nil _ _)
  · rintro ⟨hpiece, rest, rfl, hrest⟩
    rw [pieces_append_cons hpiece, hrest]

/-- What the first piece is, whatever follows it. -/
theorem exists_pieces_eq_cons_iff {s piece : List Char} :
    (∃ more, pieces sep s = piece :: more) ↔
      sep ∉ piece ∧ (s = piece ∨ ∃ rest, s = piece ++ sep :: rest) := by
  constructor
  · rintro ⟨more, h⟩
    cases more with
    | nil =>
        have hs : s = piece := by
          rw [← intercalate_pieces sep s, h, List.intercalate_singleton]
        exact ⟨not_mem_of_mem_pieces (h ▸ List.mem_cons_self), .inl hs⟩
    | cons next more =>
        obtain ⟨hpiece, rest, hs, _⟩ := pieces_eq_cons_cons_iff.mp h
        exact ⟨hpiece, .inr ⟨rest, hs⟩⟩
  · rintro ⟨hpiece, rfl | ⟨rest, rfl⟩⟩
    · exact ⟨[], pieces_of_not_mem hpiece⟩
    · exact ⟨_, pieces_append_cons hpiece rest⟩

theorem cut_eq_none_iff {s : List Char} : cut sep s = none ↔ sep ∉ s := by
  induction s with
  | nil => simp [cut]
  | cons c rest ih =>
      by_cases hc : c = sep
      · simp [cut, hc]
      · simp [cut, hc, ih, Ne.symm hc]

/-- A cut is made at the first separator. -/
theorem cut_eq_some_iff {s before after : List Char} :
    cut sep s = some (before, after) ↔ sep ∉ before ∧ s = before ++ sep :: after := by
  induction s generalizing before with
  | nil => simp [cut]
  | cons c rest ih =>
      by_cases hc : c = sep
      · subst hc
        cases before with
        | nil => simp [cut, eq_comm]
        | cons d before =>
            simp only [cut, ↓reduceIte, Option.some.injEq, Prod.mk.injEq, List.nil_eq,
              reduceCtorEq, false_and, List.mem_cons, not_or, List.cons_append, List.cons.injEq,
              false_iff]
            rintro ⟨⟨hd, _⟩, rfl, _⟩
            exact hd rfl
      · cases before with
        | nil => simp [cut, hc]
        | cons d before =>
            have hrest : cut sep rest = some (before, after) ↔ _ := ih
            simp only [cut, if_neg hc, Option.map_eq_some_iff, Prod.mk.injEq, List.cons.injEq,
              List.mem_cons, not_or, List.cons_append, Prod.exists]
            constructor
            · rintro ⟨_, _, hcut, ⟨rfl, rfl⟩, rfl⟩
              obtain ⟨hbefore, rfl⟩ := hrest.mp hcut
              exact ⟨⟨Ne.symm hc, hbefore⟩, rfl, rfl⟩
            · rintro ⟨⟨_, hbefore⟩, rfl, rfl⟩
              exact ⟨before, after, hrest.mpr ⟨hbefore, rfl⟩, ⟨rfl, rfl⟩, rfl⟩

end RequestDispatch.Text
