import Mathlib.Data.List.Induction
import RequestDispatch.Proofs.Routing.Contents

/-!
Which lists of entries make a table. Two entries clash when they have the same method and their
templates coincide segment by segment. A list makes a table exactly when no two of its entries
clash, in whatever order they stand, and the error of any other list names the first entry that
clashes with an earlier one.
-/

namespace RequestDispatch

variable {τ : Type}

/-- Literals coincide when they have the same text, and placeholders always do, whatever their
names and types. -/
def Segment.Coincides : Segment → Segment → Prop
  | .literal one, .literal two => one = two
  | .placeholder _ _, .placeholder _ _ => True
  | _, _ => False

theorem Segment.coincides_iff (one two : Segment) :
    one.Coincides two ↔ one.literal? = two.literal? := by
  cases one <;> cases two <;> simp [Coincides, literal?]

namespace Entry

/-- Two entries have the same method and templates of the same shape. -/
structure Clashes (one two : Entry τ) : Prop where
  method : one.method = two.method
  segments : List.Forall₂ Segment.Coincides one.template.segments two.template.segments

theorem clashes_iff (one two : Entry τ) :
    one.Clashes two ↔ one.method = two.method ∧ one.shape = two.shape := by
  have hequal : one.shape = two.shape ↔ List.Forall₂ (· = ·) one.shape two.shape := by
    rw [List.forall₂_eq_eq_eq]
  rw [hequal, shape, shape, List.forall₂_map_left_iff, List.forall₂_map_right_iff]
  simp only [← Segment.coincides_iff]
  exact ⟨fun h => ⟨h.method, h.segments⟩, fun h => ⟨h.1, h.2⟩⟩

instance (one two : Entry τ) : Decidable (one.Clashes two) :=
  decidable_of_iff _ (clashes_iff one two).symm

theorem Clashes.symm {one two : Entry τ} (h : one.Clashes two) : two.Clashes one := by
  rw [clashes_iff] at h ⊢
  exact ⟨h.1.symm, h.2.symm⟩

/-- No two of some entries clash. -/
def Apart (entries : List (Entry τ)) : Prop :=
  entries.Pairwise fun one two => ¬one.Clashes two

instance (entries : List (Entry τ)) : Decidable (Apart entries) :=
  inferInstanceAs (Decidable (entries.Pairwise fun one two => ¬one.Clashes two))

theorem apart_concat_iff (before : List (Entry τ)) (entry : Entry τ) :
    Apart (before ++ [entry]) ↔
      Apart before ∧ ∀ existing ∈ before, ¬existing.Clashes entry := by
  simp [Apart, List.pairwise_append]

theorem Apart.perm {entries others : List (Entry τ)} (hperm : others.Perm entries)
    (hapart : Apart entries) : Apart others :=
  List.Pairwise.perm hapart hperm.symm fun hclash hother => hclash hother.symm

/-- What is refused of a list of entries: the first entry that clashes with an earlier one. -/
inductive Refuses (entries : List (Entry τ)) : RegistrationError → Prop where
  | clash {before after : List (Entry τ)} {entry existing : Entry τ}
      (hentries : entries = before ++ entry :: after) (hapart : Apart before)
      (hexisting : existing ∈ before) (hclash : existing.Clashes entry) :
      Refuses entries
        (.ambiguousRoute entry.method entry.template.raw existing.template.raw)

/-- What comes behind the first clash changes nothing. -/
theorem Refuses.append {entries : List (Entry τ)} {fault : RegistrationError}
    (hrefuses : Refuses entries fault) (more : List (Entry τ)) :
    Refuses (entries ++ more) fault := by
  obtain ⟨rfl, hapart, hexisting, hclash⟩ := hrefuses
  exact .clash (List.append_assoc ..) hapart hexisting hclash

/-- Entries are apart, or one of them is the first to clash. -/
theorem apart_or_refuses (entries : List (Entry τ)) :
    Apart entries ∨ ∃ fault, Refuses entries fault := by
  induction entries using List.reverseRecOn with
  | nil => exact .inl List.Pairwise.nil
  | append_singleton before entry ih =>
      obtain hapart | ⟨fault, hrefuses⟩ := ih
      · by_cases hclash : ∃ existing ∈ before, existing.Clashes entry
        · obtain ⟨existing, hexisting, hclash⟩ := hclash
          exact .inr ⟨_, .clash rfl hapart hexisting hclash⟩
        · refine .inl ((apart_concat_iff before entry).mpr ⟨hapart, ?_⟩)
          exact fun existing hexisting hother => hclash ⟨existing, hexisting, hother⟩
      · exact .inr ⟨fault, hrefuses.append [entry]⟩

end Entry

namespace Tree

/-- An entry is refused for the one that is there under its method at its shape. -/
theorem insert_eq_error_iff {ε : Type} (method : Method) (entry existing : ε)
    (segments : List Segment) (tree : Tree ε) :
    insert method entry segments tree = .error existing ↔
      (tree.entriesAt (segments.map Segment.literal?)).lookup method = some existing := by
  induction segments generalizing tree with
  | nil =>
      obtain ⟨literals, placeholder, entries⟩ := tree
      simp only [insert, List.map_nil, entriesAt]
      cases entries.lookup method <;> simp
  | cons segment rest ih =>
      obtain ⟨literals, placeholder, entries⟩ := tree
      cases segment with
      | placeholder name type =>
          simp only [insert, List.map_cons, Segment.literal?, entriesAt_placeholder, ← ih]
          cases insert method entry rest (placeholder.getD empty) <;> simp
      | literal text =>
          simp only [insert, List.map_cons, Segment.literal?, entriesAt_literal, ← ih]
          cases insert method entry rest ((literals.lookup text).getD empty) <;> simp

end Tree

namespace Table

theorem insertAll_append (before after : List (Entry τ)) (tree : Tree (Entry τ)) :
    insertAll tree (before ++ after) =
      match insertAll tree before with
      | .ok tree => insertAll tree after
      | .error fault => .error fault := by
  induction before generalizing tree with
  | nil => rfl
  | cons entry rest ih =>
      simp only [List.cons_append, insertAll]
      cases tree.insert entry.method entry entry.template.segments with
      | error existing => rfl
      | ok next => exact ih next

theorem insertAll_eq_ok_iff {entries : List (Entry τ)} {tree : Tree (Entry τ)} :
    insertAll .empty entries = .ok tree ↔ ofEntries entries = .ok ⟨entries, tree⟩ := by
  unfold ofEntries
  cases insertAll .empty entries <;> simp [Except.map]

/-- One more entry is refused exactly for an earlier one that it clashes with. -/
theorem insert_eq_error_iff_clashes {before : List (Entry τ)} {tree : Tree (Entry τ)}
    (hbefore : insertAll .empty before = .ok tree) (entry existing : Entry τ) :
    tree.insert entry.method entry entry.template.segments = .error existing ↔
      existing ∈ before ∧ existing.Clashes entry := by
  have hlookup := lookup_entriesAt_iff (insertAll_eq_ok_iff.mp hbefore) entry.shape
    entry.method existing
  rw [Tree.insert_eq_error_iff, Entry.clashes_iff]
  exact hlookup.trans (and_congr_right' and_comm)

/-- Entries that are apart can all be added. -/
theorem insertAll_of_apart {entries : List (Entry τ)} (hapart : Entry.Apart entries) :
    ∃ tree, insertAll .empty entries = .ok tree := by
  induction entries using List.reverseRecOn with
  | nil => exact ⟨_, rfl⟩
  | append_singleton before entry ih =>
      obtain ⟨hearlier, hnone⟩ := (Entry.apart_concat_iff before entry).mp hapart
      obtain ⟨tree, htree⟩ := ih hearlier
      rw [insertAll_append, htree]
      simp only [insertAll]
      cases hinsert : tree.insert entry.method entry entry.template.segments with
      | ok next => exact ⟨next, rfl⟩
      | error existing =>
          obtain ⟨hexisting, hclash⟩ := (insert_eq_error_iff_clashes htree _ _).mp hinsert
          exact absurd hclash (hnone existing hexisting)

/-- The first clash is what is reported, however the list goes on. -/
theorem ofEntries_of_refuses {entries : List (Entry τ)} {fault : RegistrationError}
    (hrefuses : Entry.Refuses entries fault) : ofEntries entries = .error fault := by
  obtain ⟨rfl, hapart, hexisting, hclash⟩ := hrefuses
  obtain ⟨tree, htree⟩ := insertAll_of_apart hapart
  have hinsert := (insert_eq_error_iff_clashes htree _ _).mpr ⟨hexisting, hclash⟩
  simp only [ofEntries, insertAll_append, htree, insertAll, hinsert]
  rfl

theorem ofEntries_eq_ok_iff (entries : List (Entry τ)) :
    (∃ table, ofEntries entries = .ok table) ↔ Entry.Apart entries := by
  constructor
  · rintro ⟨table, hbuilt⟩
    obtain hapart | ⟨fault, hrefuses⟩ := Entry.apart_or_refuses entries
    · exact hapart
    · rw [ofEntries_of_refuses hrefuses] at hbuilt
      cases hbuilt
  · intro hapart
    obtain ⟨tree, htree⟩ := insertAll_of_apart hapart
    exact ⟨_, insertAll_eq_ok_iff.mp htree⟩

/-- Exactly the ambiguous lists are refused. A list of entries makes a table if and only if no two
of them clash; an error is that of the first entry that clashes with an earlier one, and names both;
and a list makes a table in one order of its entries if it does in any other. -/
theorem ofEntries_exact (entries : List (Entry τ)) :
    ((∃ table, ofEntries entries = .ok table) ↔ Entry.Apart entries) ∧
    (∀ fault, ofEntries entries = .error fault ↔ Entry.Refuses entries fault) ∧
    ∀ others : List (Entry τ), others.Perm entries →
      ((∃ table, ofEntries others = .ok table) ↔ ∃ table, ofEntries entries = .ok table) := by
  refine ⟨ofEntries_eq_ok_iff entries, ?_, ?_⟩
  · intro fault
    refine ⟨?_, ofEntries_of_refuses⟩
    intro herror
    obtain hapart | ⟨found, hrefuses⟩ := Entry.apart_or_refuses entries
    · obtain ⟨table, hbuilt⟩ := (ofEntries_eq_ok_iff entries).mpr hapart
      rw [herror] at hbuilt
      cases hbuilt
    · rw [ofEntries_of_refuses hrefuses] at herror
      cases herror
      exact hrefuses
  · intro others hperm
    rw [ofEntries_eq_ok_iff, ofEntries_eq_ok_iff]
    exact ⟨Entry.Apart.perm hperm.symm, Entry.Apart.perm hperm⟩

/-- Items by their identifier, and by a name that is told apart from it too late. -/
def clashingEntries : List (Entry String) :=
  [⟨"GET", ⟨"/items/{id}", [.literal "items", .placeholder "id" (some .int)]⟩, "show"⟩,
   ⟨"POST", ⟨"/items/{id}", [.literal "items", .placeholder "id" none]⟩, "change"⟩,
   ⟨"GET", ⟨"/items/new", [.literal "items", .literal "new"]⟩, "form"⟩,
   ⟨"GET", ⟨"/items/{name}", [.literal "items", .placeholder "name" none]⟩, "find"⟩,
   ⟨"POST", ⟨"/items/{name}", [.literal "items", .placeholder "name" none]⟩, "rename"⟩]

/-- The two routes of items that are shown clash; the routes before them do not, in any order. -/
theorem ofEntries_exact_sample :
    ofEntries clashingEntries =
      .error (.ambiguousRoute "GET" "/items/{name}" "/items/{id}") ∧
    ∃ table, ofEntries (clashingEntries.take 3).reverse = .ok table := by
  have hapart : Entry.Apart (clashingEntries.take 3) := by decide
  obtain ⟨_, hrefused, _⟩ := ofEntries_exact clashingEntries
  obtain ⟨hbuilt, _, hordered⟩ := ofEntries_exact (clashingEntries.take 3)
  constructor
  · have hfirst : clashingEntries[0].Clashes clashingEntries[3] := by decide
    exact (hrefused _).mpr
      (.clash (List.take_append_drop 3 clashingEntries).symm hapart List.mem_cons_self hfirst)
  · exact (hordered _ (List.reverse_perm _)).mpr (hbuilt.mpr hapart)

end Table

end RequestDispatch
