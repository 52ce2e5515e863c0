import Mathlib.Data.List.Forall2
import RequestDispatch.Proofs.Routing.Search
import RequestDispatch.Routing.Table

/-!
Tables with other targets. Tables are made, and requests routed, by methods, templates and paths
only: when the targets of a table are replaced, the same requests are routed to the replacements.
-/

namespace RequestDispatch

variable {ε δ τ υ : Type}

mutual

/-- A tree with its entries replaced. -/
def Tree.map (change : ε → δ) : Tree ε → Tree δ
  | .node literals placeholder entries =>
      .node (mapLiterals change literals) (mapPlaceholder change placeholder)
        (entries.map fun (method, entry) => (method, change entry))

def Tree.mapLiterals (change : ε → δ) : List (String × Tree ε) → List (String × Tree δ)
  | [] => []
  | (text, tree) :: rest => (text, tree.map change) :: mapLiterals change rest

def Tree.mapPlaceholder (change : ε → δ) : Option (Tree ε) → Option (Tree δ)
  | none => none
  | some tree => some (tree.map change)

end

theorem lookup_map_snd {α β γ : Type} [BEq α] (change : β → γ) (pairs : List (α × β)) (key : α) :
    (pairs.map fun (a, b) => (a, change b)).lookup key = (pairs.lookup key).map change := by
  induction pairs with
  | nil => rfl
  | cons pair rest ih =>
      obtain ⟨a, b⟩ := pair
      rw [List.map_cons, List.lookup_cons, List.lookup_cons, ih]
      cases key == a <;> rfl

namespace Tree

theorem lookup_mapLiterals (change : ε → δ) (literals : List (String × Tree ε)) (text : String) :
    (mapLiterals change literals).lookup text = (literals.lookup text).map (·.map change) := by
  induction literals with
  | nil => rfl
  | cons literal rest ih =>
      obtain ⟨other, tree⟩ := literal
      rw [mapLiterals, List.lookup_cons, List.lookup_cons, ih]
      cases text == other <;> rfl

theorem mapPlaceholder_eq (change : ε → δ) (placeholder : Option (Tree ε)) :
    mapPlaceholder change placeholder = placeholder.map (·.map change) := by
  cases placeholder <;> rfl

/-- The empty tree stands for a branch that is missing. -/
theorem getD_map_empty (change : ε → δ) (branch : Option (Tree ε)) :
    (branch.map (·.map change)).getD empty = (branch.getD empty).map change := by
  cases branch <;> rfl

theorem mapLiterals_putLiteral (change : ε → δ) (text : String) (child : Tree ε)
    (literals : List (String × Tree ε)) :
    mapLiterals change (putLiteral text child literals) =
      putLiteral text (child.map change) (mapLiterals change literals) := by
  induction literals with
  | nil => rfl
  | cons literal rest ih =>
      obtain ⟨other, tree⟩ := literal
      simp only [putLiteral, mapLiterals]
      split
      · rfl
      · rw [mapLiterals, ih]

/-- An entry is put where it was put before, or meets the replacement of what was in its place. -/
theorem insert_map (change : ε → δ) (method : Method) (entry : ε) (segments : List Segment)
    (tree : Tree ε) :
    (tree.map change).insert method (change entry) segments =
      ((tree.insert method entry segments).mapError change).map (·.map change) := by
  induction segments generalizing tree with
  | nil =>
      obtain ⟨literals, placeholder, entries⟩ := tree
      simp only [Tree.map, insert, lookup_map_snd]
      cases entries.lookup method with
      | some existing => rfl
      | none =>
          simp only [Option.map_none, Except.mapError, Except.map, Tree.map, List.map_append,
            List.map_cons, List.map_nil]
  | cons segment rest ih =>
      obtain ⟨literals, placeholder, entries⟩ := tree
      cases segment with
      | placeholder name type =>
          simp only [Tree.map, insert, mapPlaceholder_eq, getD_map_empty, ih]
          cases (placeholder.getD empty).insert method entry rest with
          | error existing => rfl
          | ok child => rfl
      | literal text =>
          simp only [Tree.map, insert, lookup_mapLiterals, getD_map_empty, ih]
          cases ((literals.lookup text).getD empty).insert method entry rest with
          | error existing => rfl
          | ok child =>
              simp only [Except.mapError, Except.map, Tree.map, mapLiterals_putLiteral]

/-- A search finds the replacement of what it found before, on the same trail. -/
theorem search_map (change : ε → δ) (method : Method) (pieces : List String) (tree : Tree ε)
    (trail : Trail) :
    (tree.map change).search method pieces trail =
      ((tree.search method pieces trail).1.map change, (tree.search method pieces trail).2) := by
  induction pieces generalizing tree trail with
  | nil =>
      obtain ⟨literals, placeholder, entries⟩ := tree
      simp only [Tree.map, search, lookup_map_snd]
      cases entries.lookup method with
      | some entry => rfl
      | none => simp only [Option.map_none, List.map_map, Function.comp_def]
  | cons piece rest ih =>
      obtain ⟨literals, placeholder, entries⟩ := tree
      rw [Tree.map, search_cons, search_cons, lookup_mapLiterals, mapPlaceholder_eq,
        getD_map_empty, getD_map_empty, ih]
      cases search method rest ((literals.lookup piece).getD empty) trail with
      | mk found after =>
          cases found with
          | some entry => rfl
          | none =>
              simp only [Option.map_none, ih]
              cases search method rest (placeholder.getD empty) (after.push piece) with
              | mk found last => cases found <;> rfl

end Tree

/-- An entry with its target replaced. -/
def Entry.map (change : τ → υ) (entry : Entry τ) : Entry υ :=
  ⟨entry.method, entry.template, change entry.target⟩

/-- A table with its targets replaced. -/
def Table.map (change : τ → υ) (table : Table τ) : Table υ :=
  ⟨table.entries.map (·.map change), table.tree.map (·.map change)⟩

/-- The outcome of routing with its target replaced. -/
def Routing.map (change : τ → υ) : Routing τ → Routing υ
  | .matched target captures => .matched (change target) captures
  | .methodNotAllowed allowed => .methodNotAllowed allowed
  | .notFound => .notFound

namespace Table

theorem insertAll_map (change : τ → υ) (tree : Tree (Entry τ)) (entries : List (Entry τ)) :
    insertAll (tree.map (·.map change)) (entries.map (·.map change)) =
      (insertAll tree entries).map (·.map (·.map change)) := by
  induction entries generalizing tree with
  | nil => rfl
  | cons entry rest ih =>
      have hinsert := Tree.insert_map (·.map change) entry.method entry entry.template.segments tree
      simp only [List.map_cons, insertAll]
      simp only [Entry.map] at hinsert ⊢
      rw [hinsert]
      cases tree.insert entry.method entry entry.template.segments with
      | error existing => rfl
      | ok tree => exact ih tree

/-- Entries with other targets make the table with its targets replaced. -/
theorem ofEntries_map (change : τ → υ) (entries : List (Entry τ)) :
    ofEntries (entries.map (·.map change)) = (ofEntries entries).map (·.map change) := by
  have hempty : (Tree.empty : Tree (Entry τ)).map (·.map change) = Tree.empty := rfl
  rw [ofEntries, ← hempty, insertAll_map, ofEntries]
  cases insertAll Tree.empty entries <;> rfl

/-- A request is routed to the replacement of what it was routed to before. -/
theorem route_map (change : τ → υ) (table : Table τ) (method : Method) (path : String) :
    (table.map change).route method path = (table.route method path).map change := by
  simp only [Table.route, Table.map, Tree.search_map]
  cases table.tree.search method ((Template.piecesOf path).map String.ofList) .start with
  | mk found trail =>
      cases found with
      | some entry => rfl
      | none =>
          simp only [Option.map_none]
          split <;> rfl

end Table

/-! ### Targets that are related -/

/-- Routing that comes to related targets, or to no target for one reason. -/
inductive Routing.Rel (related : τ → υ → Prop) : Routing τ → Routing υ → Prop
  | matched {one : τ} {two : υ} (htargets : related one two)
      (captures : List (String × String)) :
      Rel related (.matched one captures) (.matched two captures)
  | methodNotAllowed (allowed : List Method) :
      Rel related (.methodNotAllowed allowed) (.methodNotAllowed allowed)
  | notFound : Rel related .notFound .notFound

theorem Routing.rel_map {ρ : Type} {related : τ → υ → Prop} {first : ρ → τ} {second : ρ → υ}
    (htargets : ∀ target, related (first target) (second target)) (routing : Routing ρ) :
    Rel related (routing.map first) (routing.map second) := by
  cases routing with
  | matched target captures => exact .matched (htargets target) captures
  | methodNotAllowed allowed => exact .methodNotAllowed allowed
  | notFound => exact .notFound

/-- Entries of one place with related targets. -/
structure Entry.Rel (related : τ → υ → Prop) (one : Entry τ) (two : Entry υ) : Prop where
  method : one.method = two.method
  template : one.template = two.template
  target : related one.target two.target

/-- When entries make a table, entries with related targets make one too, and every request is
routed to related targets by the two. -/
theorem Table.ofEntries_rel {related : τ → υ → Prop} {entries : List (Entry τ)}
    {others : List (Entry υ)} (hentries : List.Forall₂ (Entry.Rel related) entries others)
    {table : Table τ} (htable : ofEntries entries = .ok table) :
    ∃ twin, ofEntries others = .ok twin ∧
      ∀ method path, (table.route method path).Rel related (twin.route method path) := by
  -- Both tables are images of one table, whose targets are pairs of related targets.
  have hpairs : ∃ pairs : List (Entry { pair : τ × υ // related pair.1 pair.2 }),
      pairs.map (·.map fun pair => pair.val.1) = entries ∧
        pairs.map (·.map fun pair => pair.val.2) = others := by
    clear htable
    induction hentries with
    | nil => exact ⟨[], rfl, rfl⟩
    | @cons one two rest more hfirst _ ih =>
        obtain ⟨pairs, rfl, rfl⟩ := ih
        obtain ⟨method, template, target⟩ := one
        obtain ⟨_, _, other⟩ := two
        obtain ⟨rfl, rfl, htarget⟩ := hfirst
        exact ⟨⟨method, template, ⟨(target, other), htarget⟩⟩ :: pairs, rfl, rfl⟩
  obtain ⟨pairs, rfl, rfl⟩ := hpairs
  rw [ofEntries_map] at htable ⊢
  cases hall : ofEntries pairs with
  | error fault =>
      rw [hall] at htable
      cases htable
  | ok common =>
      rw [hall] at htable
      cases htable
      refine ⟨_, rfl, ?_⟩
      intro method path
      rw [route_map, route_map]
      exact Routing.rel_map (fun pair => pair.property) _

end RequestDispatch
