import Mathlib.Data.List.Basic
import Mathlib.Data.List.Forall2
import Mathlib.Order.Lex
import RequestDispatch.Routing.Tree

/-!
What a tree holds and what a search of it finds, told without the nodes. A shape is a template
with the names of its placeholders left out. A tree is a function from shapes to lists of
entries; adding an entry changes that function at one shape, and a search goes through the
shapes that fit a path in one fixed order and stops at the first one with an entry for the
method.
-/

namespace RequestDispatch

/-- A template as a tree sees it: the text of a literal, nothing for a placeholder. -/
abbrev PathShape := List (Option String)

/-- The text of a literal segment. -/
def Segment.literal? : Segment → Option String
  | .literal text => some text
  | .placeholder _ _ => none

namespace PathShape

/-- A piece of a path fits a literal with its text, and every placeholder. -/
def Admits (part : Option String) (piece : String) : Prop :=
  ∀ text, part = some text → text = piece

/-- The literals and placeholders of a shape; a literal is the smaller one. -/
def pattern (shape : PathShape) : List Bool :=
  shape.map Option.isNone

/-- The shapes that fit the pieces of a path, in the order in which a search tries them. -/
def fitting : List String → List PathShape
  | [] => [[]]
  | piece :: rest => (fitting rest).map (some piece :: ·) ++ (fitting rest).map (none :: ·)

/-- The pieces that stand at the placeholders of a shape. -/
def captured : PathShape → List String → List String
  | none :: shape, piece :: rest => piece :: captured shape rest
  | some _ :: shape, _ :: rest => captured shape rest
  | _, _ => []

theorem mem_fitting_iff (shape : PathShape) (pieces : List String) :
    shape ∈ fitting pieces ↔ List.Forall₂ Admits shape pieces := by
  induction pieces generalizing shape with
  | nil => simp [fitting]
  | cons piece rest ih =>
      cases shape with
      | nil => simp [fitting]
      | cons part shape =>
          rw [List.forall₂_cons, ← ih shape]
          cases part with
          | none => simp [fitting, Admits]
          | some text => simp [fitting, Admits, eq_comm, and_comm]

theorem pattern_cons (part : Option String) (shape : PathShape) :
    pattern (part :: shape) = part.isNone :: pattern shape := rfl

/-- A search tries shapes with literals further to the front before the others. -/
theorem fitting_sorted (pieces : List String) :
    (fitting pieces).Pairwise fun first second => pattern first < pattern second := by
  induction pieces with
  | nil => simp [fitting]
  | cons piece rest ih =>
      have hsame (part : Option String) :
          ((fitting rest).map (part :: ·)).Pairwise
            fun first second => pattern first < pattern second := by
        rw [List.pairwise_map]
        refine ih.imp ?_
        intro first second hless
        rw [pattern_cons, pattern_cons]
        exact List.Lex.cons hless
      rw [fitting, List.pairwise_append]
      refine ⟨hsame _, hsame _, ?_⟩
      intro first hfirst second hsecond
      obtain ⟨shape, _, rfl⟩ := List.mem_map.mp hfirst
      obtain ⟨other, _, rfl⟩ := List.mem_map.mp hsecond
      exact List.Lex.rel (show (false < true) by decide)

end PathShape

namespace Tree

variable {ε : Type}

/-- The entries that stand at a shape. -/
def entriesAt : PathShape → Tree ε → List (Method × ε)
  | [], .node _ _ entries => entries
  | some text :: shape, .node literals _ _ =>
      match literals.lookup text with
      | some child => entriesAt shape child
      | none => []
  | none :: shape, .node _ placeholder _ =>
      match placeholder with
      | some child => entriesAt shape child
      | none => []

theorem entriesAt_empty (shape : PathShape) : (empty : Tree ε).entriesAt shape = [] := by
  cases shape with
  | nil => rfl
  | cons part shape => cases part <;> rfl

theorem entriesAt_literal (text : String) (shape : PathShape) (literals : List (String × Tree ε))
    (placeholder : Option (Tree ε)) (entries : List (Method × ε)) :
    (node literals placeholder entries).entriesAt (some text :: shape) =
      ((literals.lookup text).getD empty).entriesAt shape := by
  simp only [entriesAt]
  cases literals.lookup text with
  | none => exact (entriesAt_empty shape).symm
  | some child => rfl

theorem entriesAt_placeholder (shape : PathShape) (literals : List (String × Tree ε))
    (placeholder : Option (Tree ε)) (entries : List (Method × ε)) :
    (node literals placeholder entries).entriesAt (none :: shape) =
      (placeholder.getD empty).entriesAt shape := by
  cases placeholder with
  | none => exact (entriesAt_empty shape).symm
  | some child => rfl

private theorem lookupCons {κ α : Type} [BEq κ] [LawfulBEq κ] [DecidableEq κ] (wanted key : κ)
    (value : α) (rest : List (κ × α)) :
    ((key, value) :: rest).lookup wanted =
      if wanted = key then some value else rest.lookup wanted := by
  by_cases hsame : wanted = key
  · subst hsame
    simp
  · rw [List.lookup_cons, beq_false_of_ne hsame, if_neg hsame]

theorem lookup_putLiteral (text other : String) (child : Tree ε)
    (literals : List (String × Tree ε)) :
    (putLiteral text child literals).lookup other =
      if other = text then some child else literals.lookup other := by
  induction literals with
  | nil => rw [putLiteral, lookupCons]
  | cons head rest ih =>
      obtain ⟨name, tree⟩ := head
      by_cases hname : name = text
      · subst hname
        by_cases hsame : other = name <;> simp [putLiteral, lookupCons, hsame]
      · rw [putLiteral, if_neg hname, lookupCons, lookupCons, ih]
        by_cases hother : other = name
        · subst hother
          simp [hname]
        · simp [hother]

/-- Adding an entry puts it behind the others at its own shape, where its method is new, and
changes nothing at any other shape. -/
theorem entriesAt_insert (method : Method) (entry : ε) (segments : List Segment)
    (tree after : Tree ε) (hinsert : insert method entry segments tree = .ok after) :
    ((tree.entriesAt (segments.map Segment.literal?)).lookup method = none) ∧
    ∀ shape, after.entriesAt shape =
      if shape = segments.map Segment.literal? then tree.entriesAt shape ++ [(method, entry)]
      else tree.entriesAt shape := by
  induction segments generalizing tree after with
  | nil =>
      obtain ⟨literals, placeholder, entries⟩ := tree
      simp only [insert] at hinsert
      split at hinsert
      · cases hinsert
      · rename_i hnew
        cases hinsert
        refine ⟨hnew, ?_⟩
        intro shape
        cases shape with
        | nil => rfl
        | cons part shape => cases part <;> rfl
  | cons segment rest ih =>
      obtain ⟨literals, placeholder, entries⟩ := tree
      cases segment with
      | placeholder name type =>
          simp only [insert] at hinsert
          split at hinsert
          · cases hinsert
          · rename_i child hchild
            cases hinsert
            obtain ⟨hnew, hshape⟩ := ih _ _ hchild
            simp only [List.map_cons, Segment.literal?, entriesAt_placeholder]
            refine ⟨hnew, ?_⟩
            intro shape
            rcases shape with _ | ⟨part, shape⟩
            · rfl
            · cases part with
              | some text => rfl
              | none => simp [entriesAt_placeholder, hshape]
      | literal text =>
          simp only [insert] at hinsert
          split at hinsert
          · cases hinsert
          · rename_i child hchild
            cases hinsert
            obtain ⟨hnew, hshape⟩ := ih _ _ hchild
            simp only [List.map_cons, Segment.literal?, entriesAt_literal]
            refine ⟨hnew, ?_⟩
            intro shape
            rcases shape with _ | ⟨part, shape⟩
            · rfl
            · cases part with
              | none => rfl
              | some other =>
                  rw [entriesAt_literal, entriesAt_literal, lookup_putLiteral]
                  by_cases hother : other = text
                  · subst hother
                    simp [hshape]
                  · simp [hother]

/-- The first of some shapes that has an entry for a method, with the entry. -/
def firstAt (method : Method) (tree : Tree ε) (shapes : List PathShape) : Option (PathShape × ε) :=
  shapes.findSome? fun shape => ((tree.entriesAt shape).lookup method).map (shape, ·)

theorem firstAt_append (method : Method) (tree : Tree ε) (first second : List PathShape) :
    tree.firstAt method (first ++ second) =
      (tree.firstAt method first).or (tree.firstAt method second) :=
  List.findSome?_append

/-- Below one segment the first shape is that of the subtree there. -/
theorem firstAt_below (method : Method) (tree child : Tree ε) (part : Option String)
    (hchild : ∀ shape, tree.entriesAt (part :: shape) = child.entriesAt shape)
    (shapes : List PathShape) :
    tree.firstAt method (shapes.map (part :: ·)) =
      (child.firstAt method shapes).map fun found => (part :: found.1, found.2) := by
  induction shapes with
  | nil => rfl
  | cons shape rest ih =>
      simp only [firstAt, List.map_cons, List.findSome?_cons, hchild] at ih ⊢
      cases (child.entriesAt shape).lookup method with
      | none => exact ih
      | some entry => rfl

theorem search_empty (method : Method) (pieces : List String) (trail : Trail) :
    (empty : Tree ε).search method pieces trail = (none, trail) := by
  cases pieces with
  | nil => simp [search, empty, Trail.pass]
  | cons piece rest => rfl

/-- A search below a node is a search of the literal branch and, when that ends without an
entry, of the placeholder branch; a branch that is missing is an empty tree. -/
theorem search_cons (method : Method) (piece : String) (rest : List String)
    (literals : List (String × Tree ε)) (placeholder : Option (Tree ε))
    (entries : List (Method × ε)) (trail : Trail) :
    (node literals placeholder entries).search method (piece :: rest) trail =
      match ((literals.lookup piece).getD empty).search method rest trail with
      | (some entry, trail) => (some entry, trail)
      | (none, trail) =>
          match (placeholder.getD empty).search method rest (trail.push piece) with
          | (some entry, trail) => (some entry, trail)
          | (none, trail) => (none, trail.pop) := by
  have hplaceholder (trail : Trail) :
      (match placeholder with
        | none => (none, trail)
        | some child =>
            match search method rest child (trail.push piece) with
            | (some entry, trail) => (some entry, trail)
            | (none, trail) => (none, trail.pop)) =
      match (placeholder.getD empty).search method rest (trail.push piece) with
      | (some entry, trail) => (some entry, trail)
      | (none, trail) => (none, trail.pop) := by
    cases placeholder with
    | some child => rfl
    | none => simp [search_empty, Trail.push, Trail.pop]
  rw [search]
  cases hlookup : literals.lookup piece with
  | none =>
      simp only [Option.getD_none, search_empty]
      rw [← hplaceholder]
      cases placeholder <;> rfl
  | some child =>
      simp only [Option.getD_some]
      cases search method rest child trail with
      | mk found after =>
          cases found with
          | some entry => rfl
          | none =>
              rw [← hplaceholder]
              cases placeholder <;> rfl

/-- The methods of all entries at some shapes. -/
def methodsAt (tree : Tree ε) (shapes : List PathShape) : List Method :=
  shapes.flatMap fun shape => (tree.entriesAt shape).map (·.1)

/-- A search that ends without an entry leaves the captures as they were and has noted the
methods of every entry whose shape fits. -/
theorem search_missed (method : Method) (pieces : List String) (tree : Tree ε) (trail : Trail)
    (hmissed : tree.firstAt method (PathShape.fitting pieces) = none) :
    tree.search method pieces trail =
      (none, trail.pass (tree.methodsAt (PathShape.fitting pieces))) := by
  induction pieces generalizing tree trail with
  | nil =>
      obtain ⟨literals, placeholder, entries⟩ := tree
      have hnone : entries.lookup method = none := by
        simpa [firstAt, PathShape.fitting, entriesAt] using hmissed
      simp [search, hnone, methodsAt, PathShape.fitting, entriesAt]
  | cons piece rest ih =>
      obtain ⟨literals, placeholder, entries⟩ := tree
      rw [PathShape.fitting, firstAt_append, Option.or_eq_none_iff,
        firstAt_below _ _ _ _ (entriesAt_literal piece · _ _ _),
        firstAt_below _ _ _ _ (entriesAt_placeholder · _ _ _), Option.map_eq_none_iff,
        Option.map_eq_none_iff] at hmissed
      rw [search_cons, ih _ _ hmissed.1]
      dsimp only
      rw [ih _ _ hmissed.2]
      simp [Trail.pass, Trail.push, Trail.pop, methodsAt, PathShape.fitting, List.flatMap_map,
        entriesAt_literal, entriesAt_placeholder]

/-- A search ends with the entry at the first shape that fits and has one, and has captured
what stands at the placeholders of that shape and nothing from other branches. -/
theorem search_found (method : Method) (pieces : List String) (tree : Tree ε) (trail : Trail)
    (shape : PathShape) (entry : ε)
    (hfound : tree.firstAt method (PathShape.fitting pieces) = some (shape, entry)) :
    ∃ allowed, tree.search method pieces trail =
      (some entry, ⟨trail.captures ++ PathShape.captured shape pieces, allowed⟩) := by
  induction pieces generalizing tree trail shape with
  | nil =>
      obtain ⟨literals, placeholder, entries⟩ := tree
      simp only [firstAt, PathShape.fitting, entriesAt, List.findSome?_cons, List.findSome?_nil] at hfound
      cases hlookup : entries.lookup method with
      | none => simp [hlookup] at hfound
      | some existing =>
          simp only [hlookup, Option.map_some, Option.some.injEq, Prod.mk.injEq] at hfound
          obtain ⟨rfl, rfl⟩ := hfound
          exact ⟨trail.allowed, by simp [search, hlookup, PathShape.captured]⟩
  | cons piece rest ih =>
      obtain ⟨literals, placeholder, entries⟩ := tree
      rw [PathShape.fitting, firstAt_append,
        firstAt_below _ _ _ _ (entriesAt_literal piece · _ _ _),
        firstAt_below _ _ _ _ (entriesAt_placeholder · _ _ _)] at hfound
      rw [search_cons]
      cases hliteral : ((literals.lookup piece).getD empty).firstAt method
          (PathShape.fitting rest) with
      | some found =>
          rw [hliteral] at hfound
          simp only [Option.map_some, Option.some_or, Option.some.injEq, Prod.mk.injEq] at hfound
          obtain ⟨rfl, rfl⟩ := hfound
          obtain ⟨allowed, hsearch⟩ := ih _ trail _ hliteral
          exact ⟨allowed, by rw [hsearch]; rfl⟩
      | none =>
          rw [hliteral] at hfound
          simp only [Option.map_none, Option.none_or, Option.map_eq_some_iff] at hfound
          obtain ⟨⟨below, value⟩, hplaceholder, hshape⟩ := hfound
          simp only [Prod.mk.injEq] at hshape
          obtain ⟨rfl, rfl⟩ := hshape
          rw [search_missed _ _ _ _ hliteral]
          dsimp only
          obtain ⟨allowed, hsearch⟩ := ih _ (Trail.push _ piece) _ hplaceholder
          refine ⟨allowed, ?_⟩
          rw [hsearch]
          simp [Trail.pass, Trail.push, PathShape.captured]

end Tree

end RequestDispatch
