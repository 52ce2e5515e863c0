import RequestDispatch.Proofs.Route.Retrieval
import RequestDispatch.Proofs.Routing.Grammar
import RequestDispatch.Proofs.Text.Percent

/-!
Captures undo percent-encoding. The placeholders of a template are filled with percent-encoded
texts, slashes are put between the pieces, and what a match with the route captures is those texts
again, whatever they hold.
-/

namespace RequestDispatch

namespace Template

/-- The pieces of a path in which the placeholders of some segments are filled: texts that are not
empty stand there, each in a percent-encoded form. -/
inductive Fills : List Segment → List String → List (List Char) → Prop where
  | nil : Fills [] [] []
  | literal (text : String) {segments : List Segment} {texts : List String}
      {pieces : List (List Char)} (hrest : Fills segments texts pieces) :
      Fills (.literal text :: segments) texts (text.toList :: pieces)
  | placeholder (name : String) (type : Option ParamType) {text : String} {written : List Char}
      {segments : List Segment} {texts : List String} {pieces : List (List Char)}
      (hsome : text ≠ "") (hwritten : Text.Percent.Encodes (Text.Utf8.encode text) written)
      (hrest : Fills segments texts pieces) :
      Fills (.placeholder name type :: segments) (text :: texts) (written :: pieces)

/-- A path that a template gives when its placeholders are filled with some texts. -/
def Filled (template : Template) (texts : List String) (path : String) : Prop :=
  ∃ pieces, Fills template.segments texts pieces ∧ Slashed pieces path.toList

variable {segments : List Segment} {texts : List String} {pieces : List (List Char)}

theorem Fills.isPiece (h : Fills segments texts pieces)
    (hliteral : ∀ text, .literal text ∈ segments → IsPiece text.toList) :
    ∀ piece ∈ pieces, IsPiece piece := by
  induction h with
  | nil => nofun
  | literal text _ ih =>
      refine List.forall_mem_cons.mpr ⟨hliteral text List.mem_cons_self, ih ?_⟩
      exact fun other hother => hliteral other (List.mem_cons_of_mem _ hother)
  | placeholder name type hsome hwritten _ ih =>
      have hpiece := hwritten.ne_nil (Text.Percent.encode_ne_nil hsome)
      refine List.forall_mem_cons.mpr ⟨⟨hpiece, hwritten.no_slash⟩, ih ?_⟩
      exact fun other hother => hliteral other (List.mem_cons_of_mem _ hother)

/-- A literal of a template that is read is a piece of a path. -/
theorem isPiece_of_literal {raw : String} {template : Template}
    (hparse : parse raw = .ok template) {text : String}
    (hliteral : .literal text ∈ template.segments) : IsPiece text.toList := by
  obtain ⟨pieces, _, hpieces, hspelled⟩ := (parse_eq_ok_iff.mp hparse).2.pieces
  exact (spelled_texts hspelled hpieces _ hliteral).2

/-- The pieces of a filled path are those that it was filled with. -/
theorem Filled.fills_piecesOf {raw : String} {template : Template} (hparse : parse raw = .ok template)
    {path : String} (h : template.Filled texts path) :
    Fills template.segments texts (piecesOf path) := by
  obtain ⟨pieces, hfills, hslashed⟩ := h
  have hpieces := hfills.isPiece fun text => isPiece_of_literal hparse
  rwa [piecesOf, hslashed.filter_pieces hpieces]

end Template

namespace Entry

variable {τ : Type}

/-- From pieces that are filled with some texts an entry captures the texts. -/
theorem captures_of_fills {method : Method} {raw : String} {segments : List Segment} {target : τ}
    {texts : List String} {pieces : List (List Char)}
    (hfills : Template.Fills segments texts pieces) :
    texts.length = (segments.filterMap Segment.name?).length ∧
      captures ⟨method, ⟨raw, segments⟩, target⟩ (pieces.map String.ofList) =
        (segments.filterMap Segment.name?).zip texts := by
  induction hfills with
  | nil => exact ⟨rfl, rfl⟩
  | @literal text segments texts pieces _ ih =>
      have hname : (Segment.literal text).name? = none := rfl
      rw [List.filterMap_cons_none hname, List.map_cons, captures_cons, hname]
      exact ih
  | @placeholder name type text written segments texts pieces _ hwritten _ ih =>
      have hname : (Segment.placeholder name type).name? = some name := rfl
      obtain ⟨hlength, hcaptures⟩ := ih
      rw [List.filterMap_cons_some hname, List.map_cons, captures_cons, hname, hcaptures,
        hwritten.decode_eq]
      exact ⟨congrArg (· + 1) hlength, rfl⟩

/-- Nothing that is captured from a path is empty. -/
theorem capture_ne_empty {entry : Entry τ} {path : String} {capture : String × String}
    (hcapture : capture ∈ entry.captures ((Template.piecesOf path).map String.ofList)) :
    capture.2 ≠ "" := by
  obtain ⟨⟨segment, piece⟩, hpair, hnamed⟩ := List.mem_filterMap.mp hcapture
  obtain ⟨name, _, rfl⟩ := Option.map_eq_some_iff.mp hnamed
  obtain ⟨written, hwritten, rfl⟩ := List.mem_map.mp (List.of_mem_zip hpair).2
  have hsome : written ≠ [] := by simpa using (List.mem_filter.mp hwritten).2
  exact Text.Percent.decode_ne_empty (String.ofList_eq_empty_iff.not.mpr hsome)

end Entry

namespace Route

variable {n : Nat} {σ : Type}

/-- A route that some declaration was compiled to. -/
def IsCompiled (route : Route n σ) : Prop :=
  ∃ (catalog : Catalog n σ) (b last : GraphBuilder n),
    route.declared.compile catalog b = .ok (route, last)

/-- Captures undo percent-encoding. When a path is made from the template of a route, with a
percent-encoded text in place of each placeholder, and is matched with the route, the texts are
captured under the names of the placeholders. And no match captures an empty text. -/
theorem captures_undo_encoding {routes : List (Route n σ)}
    (hcompiled : ∀ route ∈ routes, route.IsCompiled) {table : Table (Route n σ)}
    (htable : Table.ofEntries (routes.map Route.entry) = .ok table) {method : Method}
    {path : String} {route : Route n σ} {captures : List (String × String)}
    (hmatched : table.route method path = .matched route captures) :
    (∀ texts, route.template.Filled texts path →
      texts.length = route.template.names.length ∧
        captures = route.template.names.zip texts) ∧
    ∀ capture ∈ captures, capture.2 ≠ "" := by
  obtain ⟨entry, hentry, rfl, _, rfl⟩ := Table.entry_of_matched htable hmatched
  obtain ⟨route, hroute, rfl⟩ := List.mem_map.mp hentry
  constructor
  · intro texts hfilled
    obtain ⟨catalog, b, last, hcompile⟩ := hcompiled route hroute
    have hparse := (RouteDeclaration.compile_ok hcompile).template
    exact Entry.captures_of_fills (hfilled.fills_piecesOf hparse)
  · intro capture hcapture
    exact Entry.capture_ne_empty hcapture

def fileRoute : RouteDeclaration 0 Unit :=
  plainRoute "/files/\x7bfolder\x7d//\x7bname:str\x7d/" []

theorem fileRoute_filled :
    ∃ pieces, Template.Fills
        [.literal "files", .placeholder "folder" none, .placeholder "name" (some .string)]
        ["a/b", "%é?"] pieces ∧ Slashed pieces "/files/a%2fb/%25%c3%A9%3F".toList := by
  have hfolder : Text.Percent.Encodes (Text.Utf8.encode "a/b") "a%2fb".toList :=
    .plain (.inl rfl) (.escaped (.inl rfl) (.inl rfl) (.plain (.inl rfl) .nil))
  have hname : Text.Percent.Encodes (Text.Utf8.encode "%é?") "%25%c3%A9%3F".toList :=
    .escaped (.inl rfl) (.inl rfl) (.escaped (.inl rfl) (.inl rfl)
      (.escaped (.inr rfl) (.inl rfl) (.escaped (.inl rfl) (.inr rfl) .nil)))
  exact ⟨_, .literal "files" (.placeholder "folder" none (by simp) hfolder
    (.placeholder "name" (some .string) (by simp) hname .nil)), .piece _ (.piece _ (.piece _ .done))⟩

/-- A slash, a percent sign, a question mark and a letter beyond ASCII are captured. -/
theorem captures_undo_encoding_sample :
    ∃ (route : Route 0 Unit) (last : GraphBuilder 0) (table : Table (Route 0 Unit))
        (captures : List (String × String)),
      fileRoute.compile bareCatalog .empty = .ok (route, last) ∧
      Table.ofEntries ([route].map Route.entry) = .ok table ∧
      table.route "GET" "/files/a%2fb/%25%c3%A9%3F" = .matched route captures ∧
      captures = [("folder", "a/b"), ("name", "%é?")] := by
  obtain ⟨route, last, table, captures, hcompile, htable, hmatched, hsegments⟩ :
      ∃ (route : Route 0 Unit) (last : GraphBuilder 0) (table : Table (Route 0 Unit))
          (captures : List (String × String)),
        fileRoute.compile bareCatalog .empty = .ok (route, last) ∧
        Table.ofEntries ([route].map Route.entry) = .ok table ∧
        table.route "GET" "/files/a%2fb/%25%c3%A9%3F" = .matched route captures ∧
        route.template.segments =
          [.literal "files", .placeholder "folder" none, .placeholder "name" (some .string)] :=
    ⟨_, _, _, _, rfl, rfl, rfl, rfl⟩
  have hdeclared : route.declared = fileRoute :=
    (RouteDeclaration.compile_ok hcompile).declared_eq
  have hcompiled : ∀ other ∈ [route], other.IsCompiled :=
    List.forall_mem_singleton.mpr ⟨bareCatalog, .empty, last, by rw [hdeclared, hcompile]⟩
  have hfilled : route.template.Filled ["a/b", "%é?"] "/files/a%2fb/%25%c3%A9%3F" := by
    rw [Template.Filled, hsegments]
    exact fileRoute_filled
  obtain ⟨htexts, _⟩ := captures_undo_encoding hcompiled htable hmatched
  obtain ⟨_, hcaptures⟩ := htexts _ hfilled
  rw [Template.names, hsegments] at hcaptures
  exact ⟨route, last, table, captures, hcompile, htable, hmatched, hcaptures⟩

end Route

end RequestDispatch
