import RequestDispatch.Proofs.Routing.Search
import RequestDispatch.Routing.Table

/-!
What a table that was built holds at each shape: the entries of its list with that shape, in
the order of registration, no two of them under one method.
-/

namespace RequestDispatch

variable {τ : Type}

/-- The shape of an entry's template. -/
def Entry.shape (entry : Entry τ) : PathShape :=
  entry.template.segments.map Segment.literal?

namespace Tree

/-- No shape has two entries under one method. -/
def Unambiguous {ε : Type} (tree : Tree ε) : Prop :=
  ∀ shape, ((tree.entriesAt shape).map (·.1)).Nodup

theorem unambiguous_empty {ε : Type} : (empty : Tree ε).Unambiguous := by
  intro shape
  simp [entriesAt_empty]

theorem unambiguous_insert {ε : Type} (method : Method) (entry : ε) (segments : List Segment)
    (tree after : Tree ε) (hinsert : insert method entry segments tree = .ok after)
    (htree : tree.Unambiguous) : after.Unambiguous := by
  obtain ⟨hnew, hafter⟩ := entriesAt_insert method entry segments tree after hinsert
  intro shape
  rw [hafter shape]
  by_cases hshape : shape = segments.map Segment.literal?
  · rw [if_pos hshape, List.map_append, List.nodup_append]
    refine ⟨htree shape, by simp, ?_⟩
    intro first hfirst second hsecond hsame
    obtain ⟨pair, hpair, rfl⟩ := List.mem_map.mp hfirst
    have hmethod : pair.1 = method := by simpa using hsame.trans (List.mem_singleton.mp hsecond)
    have hunequal := List.lookup_eq_none_iff.mp (hshape ▸ hnew) pair hpair
    simp [hmethod] at hunequal
  · rw [if_neg hshape]
    exact htree shape

end Tree

namespace Table

open RequestDispatch.Tree

/-- Adding a list of entries puts those of each shape behind what was there. -/
theorem entriesAt_insertAll (entries : List (Entry τ)) (tree after : Tree (Entry τ))
    (hinsert : insertAll tree entries = .ok after) (shape : PathShape) :
    after.entriesAt shape = tree.entriesAt shape ++
      (entries.filter (·.shape = shape)).map fun entry => (entry.method, entry) := by
  induction entries generalizing tree with
  | nil =>
      cases hinsert
      simp
  | cons entry rest ih =>
      simp only [insertAll] at hinsert
      split at hinsert
      · rename_i next hnext
        rw [ih next hinsert, (entriesAt_insert _ _ _ _ _ hnext).2 shape]
        by_cases hshape : shape = entry.template.segments.map Segment.literal?
        · rw [if_pos hshape, List.filter_cons_of_pos (by simp [Entry.shape, hshape])]
          simp
        · rw [if_neg hshape, List.filter_cons_of_neg (by simpa [Entry.shape, eq_comm] using hshape)]
      · cases hinsert

theorem unambiguous_insertAll (entries : List (Entry τ)) (tree after : Tree (Entry τ))
    (hinsert : insertAll tree entries = .ok after) (htree : tree.Unambiguous) :
    after.Unambiguous := by
  induction entries generalizing tree with
  | nil =>
      cases hinsert
      exact htree
  | cons entry rest ih =>
      simp only [insertAll] at hinsert
      split at hinsert
      · rename_i next hnext
        exact ih next hinsert (unambiguous_insert _ _ _ _ _ hnext htree)
      · cases hinsert

variable {entries : List (Entry τ)} {table : Table τ}

private theorem insertAllOfBuilt (hbuilt : ofEntries entries = .ok table) :
    insertAll .empty entries = .ok table.tree := by
  unfold ofEntries at hbuilt
  cases hinsert : insertAll .empty entries with
  | error fault => simp [hinsert, Except.map] at hbuilt
  | ok tree =>
      simp only [hinsert, Except.map, Except.ok.injEq] at hbuilt
      rw [← hbuilt]

/-- The entries at a shape are those of the list with that shape. -/
theorem mem_entriesAt_iff (hbuilt : ofEntries entries = .ok table) (shape : PathShape)
    (method : Method) (entry : Entry τ) :
    (method, entry) ∈ table.tree.entriesAt shape ↔
      entry ∈ entries ∧ entry.shape = shape ∧ entry.method = method := by
  rw [entriesAt_insertAll entries _ _ (insertAllOfBuilt hbuilt), entriesAt_empty]
  simp only [List.nil_append, List.mem_map, List.mem_filter, decide_eq_true_eq, Prod.mk.injEq]
  constructor
  · rintro ⟨other, ⟨hmember, hshape⟩, hmethod, rfl⟩
    exact ⟨hmember, hshape, hmethod⟩
  · rintro ⟨hmember, hshape, hmethod⟩
    exact ⟨entry, ⟨hmember, hshape⟩, hmethod, rfl⟩

/-- The methods at a shape are those of the entries with that shape. -/
theorem mem_methods_iff (hbuilt : ofEntries entries = .ok table) (shape : PathShape)
    (method : Method) :
    method ∈ (table.tree.entriesAt shape).map (·.1) ↔
      ∃ entry ∈ entries, entry.shape = shape ∧ entry.method = method := by
  rw [List.mem_map]
  constructor
  · rintro ⟨⟨found, entry⟩, hmember, rfl⟩
    exact ⟨entry, (mem_entriesAt_iff hbuilt _ _ _).mp hmember⟩
  · rintro ⟨entry, hentry⟩
    exact ⟨(method, entry), (mem_entriesAt_iff hbuilt _ _ _).mpr hentry, rfl⟩

private theorem lookupOfMem {κ α : Type} [BEq κ] [LawfulBEq κ] (key : κ) (value : α)
    (pairs : List (κ × α)) (hdistinct : (pairs.map (·.1)).Nodup)
    (hmember : (key, value) ∈ pairs) : pairs.lookup key = some value := by
  obtain ⟨before, after, rfl⟩ := List.append_of_mem hmember
  rw [List.lookup_eq_some_iff]
  refine ⟨before, after, rfl, ?_⟩
  intro pair hpair
  simp only [List.map_append, List.map_cons, List.nodup_append] at hdistinct
  have hunequal := hdistinct.2.2 pair.1 (List.mem_map_of_mem hpair) key (by simp)
  simpa using Ne.symm hunequal

/-- Looking up a method at a shape finds the one entry of the list with both. -/
theorem lookup_entriesAt_iff (hbuilt : ofEntries entries = .ok table) (shape : PathShape)
    (method : Method) (entry : Entry τ) :
    (table.tree.entriesAt shape).lookup method = some entry ↔
      entry ∈ entries ∧ entry.shape = shape ∧ entry.method = method := by
  rw [← mem_entriesAt_iff hbuilt]
  constructor
  · intro hlookup
    obtain ⟨before, after, hsplit, _⟩ := List.lookup_eq_some_iff.mp hlookup
    rw [hsplit]
    simp
  · exact lookupOfMem method entry _
      (unambiguous_insertAll entries _ _ (insertAllOfBuilt hbuilt) unambiguous_empty shape)

/-- Two entries of a table with the same shape and method are the same. -/
theorem entry_unique (hbuilt : ofEntries entries = .ok table) (first second : Entry τ)
    (hfirst : first ∈ entries) (hsecond : second ∈ entries)
    (hshape : first.shape = second.shape) (hmethod : first.method = second.method) :
    first = second := by
  have hlookup := (lookup_entriesAt_iff hbuilt _ _ first).mpr ⟨hfirst, hshape, hmethod⟩
  have hother := (lookup_entriesAt_iff hbuilt _ _ second).mpr ⟨hsecond, rfl, rfl⟩
  exact Option.some.inj (hlookup.symm.trans hother)

end Table

end RequestDispatch
