import Mathlib
import RequestDispatch.Proofs.Routing.Contents

/-!
Routing by the list of entries. `Answer` says what the outcome for a method and the pieces of
a path has to be, from the templates alone and without a tree, and a table gives exactly that
outcome, whatever branches its search goes through on the way.
-/

namespace RequestDispatch

variable {τ : Type}

namespace Segment

/-- A literal admits its own text, a placeholder every piece of a path. -/
def Admits : Segment → String → Prop
  | .literal text, piece => text = piece
  | .placeholder _ _, _ => True

/-- Whether a segment is a placeholder; literals come before placeholders. -/
def isPlaceholder : Segment → Bool
  | .literal _ => false
  | .placeholder _ _ => true

end Segment

namespace Entry

/-- The template has as many segments as the path has pieces, and each admits its piece. -/
def Fits (entry : Entry τ) (pieces : List String) : Prop :=
  List.Forall₂ Segment.Admits entry.template.segments pieces

/-- The literals and placeholders of the template, compared position by position. -/
def pattern (entry : Entry τ) : List Bool :=
  entry.template.segments.map Segment.isPlaceholder

/-- The decoded pieces at the placeholders of the template, under the names it gives them. -/
def captures (entry : Entry τ) (pieces : List String) : List (String × String) :=
  (entry.template.segments.zip pieces).filterMap fun (segment, piece) =>
    segment.name?.map fun name => (name, Text.Percent.decode piece)

end Entry

/-- The outcome of routing, said of the list of entries. -/
inductive Answer (entries : List (Entry τ)) (method : Method) (pieces : List String) :
    Routing τ → Prop where
  /-- An entry of the method fits, and its pattern is before that of every other such entry. -/
  | matched (entry : Entry τ) (hmember : entry ∈ entries) (hfits : entry.Fits pieces)
      (hmethod : entry.method = method)
      (hfirst : ∀ other ∈ entries, other.Fits pieces → other.method = method →
        other = entry ∨ entry.pattern < other.pattern) :
      Answer entries method pieces (.matched entry.target (entry.captures pieces))
  /-- Some entries fit, none of them under the method; theirs are listed in order. -/
  | methodNotAllowed (allowed : List Method) (hsome : allowed ≠ []) (hother : method ∉ allowed)
      (hsorted : allowed.Pairwise (· < ·))
      (hexact : ∀ other, other ∈ allowed ↔
        ∃ entry ∈ entries, entry.Fits pieces ∧ entry.method = other) :
      Answer entries method pieces (.methodNotAllowed allowed)
  /-- No entry fits. -/
  | notFound (hnone : ∀ entry ∈ entries, ¬ entry.Fits pieces) :
      Answer entries method pieces .notFound

private theorem eqOfSorted {first second : List Method} (hfirst : first.Pairwise (· < ·))
    (hsecond : second.Pairwise (· < ·)) (hsame : ∀ m, m ∈ first ↔ m ∈ second) :
    first = second := by
  have hperm : first.Perm second := by
    rw [List.perm_ext_iff_of_nodup (hfirst.imp ne_of_lt) (hsecond.imp ne_of_lt)]
    exact hsame
  refine List.Perm.eq_of_pairwise ?_ hfirst hsecond hperm
  intro a b _ _ hless hgreater
  exact absurd hgreater (lt_asymm hless)

/-- The entries leave no choice of an outcome. -/
theorem Answer.unique {entries : List (Entry τ)} {method : Method} {pieces : List String}
    {first second : Routing τ} (hfirst : Answer entries method pieces first)
    (hsecond : Answer entries method pieces second) : first = second := by
  cases hfirst with
  | matched entry hmember hfits hmethod hbefore =>
      cases hsecond with
      | matched other hmember' hfits' hmethod' hbefore' =>
          rcases hbefore other hmember' hfits' hmethod' with rfl | hless
          · rfl
          · rcases hbefore' entry hmember hfits hmethod with rfl | hgreater
            · rfl
            · exact absurd hgreater (lt_asymm hless)
      | methodNotAllowed allowed _ hother _ hexact =>
          exact absurd ((hexact method).mpr ⟨entry, hmember, hfits, hmethod⟩) hother
      | notFound hnone => exact absurd hfits (hnone entry hmember)
  | methodNotAllowed allowed hsome hother hsorted hexact =>
      cases hsecond with
      | matched entry hmember hfits hmethod _ =>
          exact absurd ((hexact method).mpr ⟨entry, hmember, hfits, hmethod⟩) hother
      | methodNotAllowed allowed' _ _ hsorted' hexact' =>
          rw [eqOfSorted hsorted hsorted' fun m => (hexact m).trans (hexact' m).symm]
      | notFound hnone =>
          obtain ⟨m, hm⟩ := List.exists_mem_of_ne_nil allowed hsome
          obtain ⟨entry, hmember, hfits, _⟩ := (hexact m).mp hm
          exact absurd hfits (hnone entry hmember)
  | notFound hnone =>
      cases hsecond with
      | matched entry hmember hfits _ _ => exact absurd hfits (hnone entry hmember)
      | methodNotAllowed allowed hsome _ _ hexact =>
          obtain ⟨m, hm⟩ := List.exists_mem_of_ne_nil allowed hsome
          obtain ⟨entry, hmember, hfits, _⟩ := (hexact m).mp hm
          exact absurd hfits (hnone entry hmember)
      | notFound _ => rfl

/-! ### The list of permitted methods -/

theorem mem_dropRepeats_iff {α : Type} [DecidableEq α] (a : α) (items : List α) :
    a ∈ dropRepeats items ↔ a ∈ items := by
  induction items using dropRepeats.induct with
  | case1 => rfl
  | case2 b => rfl
  | case3 b rest ih =>
      rw [dropRepeats, if_pos rfl, ih]
      simp
  | case4 b c rest hne ih =>
      rw [dropRepeats, if_neg hne, List.mem_cons, ih]
      simp

theorem dropRepeats_sorted {α : Type} [LinearOrder α] (items : List α)
    (hsorted : items.Pairwise (· ≤ ·)) : (dropRepeats items).Pairwise (· < ·) := by
  induction items using dropRepeats.induct with
  | case1 => exact List.Pairwise.nil
  | case2 b => simp [dropRepeats]
  | case3 b rest ih =>
      rw [dropRepeats, if_pos rfl]
      exact ih hsorted.tail
  | case4 b c rest hne ih =>
      rw [dropRepeats, if_neg hne, List.pairwise_cons]
      refine ⟨?_, ih hsorted.tail⟩
      intro d hd
      rw [mem_dropRepeats_iff] at hd
      have hbc : b < c := lt_of_le_of_ne (List.rel_of_pairwise_cons hsorted (by simp)) hne
      rcases List.mem_cons.mp hd with rfl | hrest
      · exact hbc
      · exact lt_of_lt_of_le hbc (List.rel_of_pairwise_cons hsorted.tail hrest)

theorem mem_sortMethods_iff (method : Method) (methods : List Method) :
    method ∈ sortMethods methods ↔ method ∈ methods := by
  rw [sortMethods, mem_dropRepeats_iff, List.mem_mergeSort]

theorem sortMethods_sorted (methods : List Method) :
    (sortMethods methods).Pairwise (· < ·) := by
  apply dropRepeats_sorted
  have hsorted : (methods.mergeSort fun a b => decide (a ≤ b)).Pairwise
      fun a b => decide (a ≤ b) = true :=
    List.pairwise_mergeSort (by simpa using fun a b c : Method => le_trans)
      (by simpa using le_total) methods
  simpa using hsorted

/-! ### Entries and shapes -/

namespace Entry

theorem fits_iff (entry : Entry τ) (pieces : List String) :
    entry.Fits pieces ↔ entry.shape ∈ PathShape.fitting pieces := by
  rw [PathShape.mem_fitting_iff, shape, List.forall₂_map_left_iff]
  have hadmits (segment : Segment) (piece : String) :
      segment.Admits piece ↔ PathShape.Admits segment.literal? piece := by
    cases segment <;> simp [Segment.Admits, PathShape.Admits, Segment.literal?]
  simp only [Fits, ← hadmits]

theorem pattern_eq (entry : Entry τ) : entry.pattern = PathShape.pattern entry.shape := by
  rw [pattern, shape, PathShape.pattern, List.map_map]
  apply List.map_congr_left
  intro segment _
  cases segment <;> rfl

/-- Names and captures that are put together afterwards belong to the same placeholders. -/
theorem captures_eq (entry : Entry τ) (pieces : List String) (hfits : entry.Fits pieces) :
    entry.template.names.zip
      ((PathShape.captured entry.shape pieces).map Text.Percent.decode) = entry.captures pieces := by
  simp only [Fits, Template.names, shape, captures] at hfits ⊢
  generalize entry.template.segments = segments at hfits ⊢
  induction hfits with
  | nil => rfl
  | @cons segment piece segments pieces _ _ ih =>
      cases segment with
      | literal text =>
          simpa [Segment.literal?, Segment.name?, PathShape.captured, List.filterMap_cons] using ih
      | placeholder name type =>
          simpa [Segment.literal?, Segment.name?, PathShape.captured, List.filterMap_cons] using ih

end Entry

namespace Table

variable {entries : List (Entry τ)} {table : Table τ}

/-- The search finds an entry exactly when one fits under the method, and it is the one with
the first pattern. -/
theorem first_of_firstAt (hbuilt : ofEntries entries = .ok table) (method : Method)
    (pieces : List String) (shape : PathShape) (entry : Entry τ)
    (hfound : table.tree.firstAt method (PathShape.fitting pieces) = some (shape, entry)) :
    entry ∈ entries ∧ entry.shape = shape ∧ entry.method = method ∧ entry.Fits pieces ∧
      ∀ other ∈ entries, other.Fits pieces → other.method = method →
        other = entry ∨ entry.pattern < other.pattern := by
  obtain ⟨before, found, after, hsplit, hentry, hnone⟩ := List.findSome?_eq_some_iff.mp hfound
  simp only [Option.map_eq_some_iff, Prod.mk.injEq] at hentry
  obtain ⟨value, hlookup, rfl, rfl⟩ := hentry
  obtain ⟨hmember, hshape, hmethod⟩ := (lookup_entriesAt_iff hbuilt _ _ _).mp hlookup
  have hfits : value.Fits pieces := by
    rw [Entry.fits_iff, hshape, hsplit]
    simp
  refine ⟨hmember, hshape, hmethod, hfits, ?_⟩
  intro other hother hotherFits hotherMethod
  have hotherLookup := (lookup_entriesAt_iff hbuilt _ _ other).mpr ⟨hother, rfl, hotherMethod⟩
  rw [Entry.fits_iff, hsplit, List.mem_append, List.mem_cons] at hotherFits
  rcases hotherFits with hbefore | hsame | hafter
  · have hmissing := hnone other.shape hbefore
    simp [hotherLookup] at hmissing
  · exact Or.inl (entry_unique hbuilt other value hother hmember (hsame.trans hshape.symm)
      (hotherMethod.trans hmethod.symm))
  · have hsorted := PathShape.fitting_sorted pieces
    rw [hsplit, List.pairwise_append] at hsorted
    rw [Entry.pattern_eq, Entry.pattern_eq, hshape]
    exact Or.inr (List.rel_of_pairwise_cons hsorted.2.1 hafter)

theorem none_of_firstAt (hbuilt : ofEntries entries = .ok table) (method : Method)
    (pieces : List String)
    (hmissed : table.tree.firstAt method (PathShape.fitting pieces) = none) :
    ∀ entry ∈ entries, entry.Fits pieces → entry.method ≠ method := by
  intro entry hmember hfits hmethod
  have hlookup := (lookup_entriesAt_iff hbuilt _ _ entry).mpr ⟨hmember, rfl, hmethod⟩
  have hmissing := List.findSome?_eq_none_iff.mp hmissed _
    ((Entry.fits_iff entry pieces).mp hfits)
  simp [hlookup] at hmissing

/-- The methods of all entries at the shapes that fit are those of the entries that fit. -/
theorem mem_methodsAt_iff (hbuilt : ofEntries entries = .ok table) (pieces : List String)
    (method : Method) :
    method ∈ table.tree.methodsAt (PathShape.fitting pieces) ↔
      ∃ entry ∈ entries, entry.Fits pieces ∧ entry.method = method := by
  simp only [Tree.methodsAt, List.mem_flatMap, mem_methods_iff hbuilt, Entry.fits_iff]
  constructor
  · rintro ⟨shape, hshape, entry, hmember, rfl, hmethod⟩
    exact ⟨entry, hmember, hshape, hmethod⟩
  · rintro ⟨entry, hmember, hshape, hmethod⟩
    exact ⟨entry.shape, hshape, entry, hmember, rfl, hmethod⟩

/-- What a table answers is right by its list of entries. -/
theorem route_answers (hbuilt : ofEntries entries = .ok table) (method : Method)
    (path : String) :
    Answer entries method ((Template.piecesOf path).map String.ofList)
      (table.route method path) := by
  unfold route
  generalize (Template.piecesOf path).map String.ofList = pieces
  cases hfirst : table.tree.firstAt method (PathShape.fitting pieces) with
  | some found =>
      obtain ⟨shape, entry⟩ := found
      obtain ⟨hmember, rfl, hmethod, hfits, hbefore⟩ :=
        first_of_firstAt hbuilt method pieces shape entry hfirst
      obtain ⟨allowed, hsearch⟩ := Tree.search_found method pieces table.tree .start _ _ hfirst
      rw [hsearch]
      simp only [Trail.start, List.nil_append]
      rw [Entry.captures_eq entry pieces hfits]
      exact .matched entry hmember hfits hmethod hbefore
  | none =>
      rw [Tree.search_missed method pieces table.tree .start hfirst]
      have hnone := none_of_firstAt hbuilt method pieces hfirst
      have hmethods := mem_methodsAt_iff hbuilt pieces
      generalize table.tree.methodsAt (PathShape.fitting pieces) = allowed at hmethods
      change Answer entries method pieces
        (if allowed.isEmpty then .notFound else .methodNotAllowed (sortMethods allowed))
      by_cases hempty : allowed = []
      · subst hempty
        refine .notFound ?_
        intro entry hmember hfits
        exact absurd ((hmethods entry.method).mpr ⟨entry, hmember, hfits, rfl⟩) (by simp)
      · rw [if_neg (by simpa using hempty)]
        refine .methodNotAllowed _ ?_ ?_ (sortMethods_sorted _) ?_
        · obtain ⟨m, hm⟩ := List.exists_mem_of_ne_nil _ hempty
          exact List.ne_nil_of_mem ((mem_sortMethods_iff m _).mpr hm)
        · rw [mem_sortMethods_iff, hmethods]
          rintro ⟨entry, hmember, hfits, hmethod⟩
          exact hnone entry hmember hfits hmethod
        · intro other
          rw [mem_sortMethods_iff, hmethods]

/-- A method under which some entry fits leads to an entry. -/
theorem matched_iff (hbuilt : ofEntries entries = .ok table) (method : Method) (path : String) :
    (∃ target captures, table.route method path = .matched target captures) ↔
      ∃ entry ∈ entries, entry.Fits ((Template.piecesOf path).map String.ofList) ∧
        entry.method = method := by
  have hanswer := route_answers hbuilt method path
  constructor
  · rintro ⟨target, captures, hroute⟩
    rw [hroute] at hanswer
    cases hanswer with
    | matched entry hmember hfits hmethod _ => exact ⟨entry, hmember, hfits, hmethod⟩
  · rintro ⟨entry, hmember, hfits, hmethod⟩
    cases hroute : table.route method path with
    | matched target captures => exact ⟨target, captures, rfl⟩
    | methodNotAllowed allowed =>
        rw [hroute] at hanswer
        cases hanswer with
        | methodNotAllowed _ _ hother _ hexact =>
            exact absurd ((hexact method).mpr ⟨entry, hmember, hfits, hmethod⟩) hother
    | notFound =>
        rw [hroute] at hanswer
        cases hanswer with
        | notFound hnone => exact absurd hfits (hnone entry hmember)

/-- Routing is exact: a table gives the one outcome that its list of entries calls for, and
when it permits other methods, these are the methods that it would have matched. -/
theorem route_exact (hbuilt : ofEntries entries = .ok table) (method : Method)
    (path : String) :
    (∀ outcome, table.route method path = outcome ↔
      Answer entries method ((Template.piecesOf path).map String.ofList) outcome) ∧
    ∀ allowed, table.route method path = .methodNotAllowed allowed → ∀ other,
      other ∈ allowed ↔ ∃ target captures, table.route other path = .matched target captures := by
  have hanswer := route_answers hbuilt method path
  constructor
  · intro outcome
    constructor
    · rintro rfl
      exact hanswer
    · exact hanswer.unique
  · intro allowed hroute other
    rw [hroute] at hanswer
    cases hanswer with
    | methodNotAllowed _ _ _ _ hexact => rw [hexact, matched_iff hbuilt]

/-- A table in which a search can leave a literal branch because of the method alone. -/
def sampleEntries : List (Entry String) :=
  [⟨"GET", ⟨"/items/new", [.literal "items", .literal "new"]⟩, "form"⟩,
   ⟨"GET", ⟨"/items/{id}", [.literal "items", .placeholder "id" none]⟩, "show"⟩,
   ⟨"POST", ⟨"/{kind}/{key}", [.placeholder "kind" none, .placeholder "key" none]⟩, "add"⟩]

theorem route_exact_sample :
    ∃ table, ofEntries sampleEntries = .ok table ∧
      table.route "POST" "/items//new%21" =
        .matched "add" [("kind", "items"), ("key", "new!")] ∧
      table.route "PUT" "/items/new" = .methodNotAllowed ["GET", "POST"] ∧
      ∃ target captures, table.route "POST" "/items/new" = .matched target captures := by
  obtain ⟨table, hbuilt⟩ : ∃ table, ofEntries sampleEntries = .ok table := ⟨_, rfl⟩
  have hadded : Answer sampleEntries "POST" ["items", "new%21"]
      (.matched "add" [("kind", "items"), ("key", "new!")]) := by
    have hcaptures : (sampleEntries[2]).captures ["items", "new%21"] =
        [("kind", "items"), ("key", "new!")] := by cbv
    rw [← hcaptures]
    refine .matched sampleEntries[2] (by simp [sampleEntries]) ?_ rfl ?_
    · simp [sampleEntries, Entry.Fits, Segment.Admits]
    · simp [sampleEntries]
  have hpassed : Answer sampleEntries "PUT" ["items", "new"]
      (.methodNotAllowed ["GET", "POST"]) := by
    refine .methodNotAllowed _ (by simp) (by simp) (by decide) ?_
    intro other
    simp [sampleEntries, Entry.Fits, Segment.Admits, eq_comm]
  have hadd := route_exact hbuilt "POST" "/items//new%21"
  have hput := route_exact hbuilt "PUT" "/items/new"
  rw [show (Template.piecesOf "/items//new%21").map String.ofList = ["items", "new%21"]
    by cbv] at hadd
  rw [show (Template.piecesOf "/items/new").map String.ofList = ["items", "new"] by cbv] at hput
  have hallowed := (hput.1 _).mpr hpassed
  exact ⟨table, hbuilt, (hadd.1 _).mpr hadded, hallowed,
    (hput.2 _ hallowed "POST").mp (by simp)⟩

end Table

end RequestDispatch
