import RequestDispatch.Proofs.Routing.Captures
import RequestDispatch.Proofs.Text.Blank
import RequestDispatch.Proofs.Text.Split

/-!
The grammar of path templates. A template is a path that begins with a slash; its pieces are
literals without braces, or placeholders in braces with a name and perhaps a type, where no name
stands twice. Reading accepts exactly these texts and gives the segments that they spell; and what
is written back in the shortest form is read as the same segments.
-/

namespace RequestDispatch

/-! ### Paths and their pieces -/

/-- A path with some pieces, each behind a slash. Further slashes may stand in front of a piece and
behind the last one. -/
inductive Slashed : List (List Char) → List Char → Prop where
  | done : Slashed [] []
  | slash {pieces : List (List Char)} {path : List Char} (hrest : Slashed pieces path) :
      Slashed pieces ('/' :: path)
  | piece (piece : List Char) {pieces : List (List Char)} {path : List Char}
      (hrest : Slashed pieces path) : Slashed (piece :: pieces) ('/' :: (piece ++ path))

/-- What can stand between two slashes: a text with no slash and with some character. -/
def IsPiece (piece : List Char) : Prop :=
  piece ≠ [] ∧ '/' ∉ piece

namespace Slashed

variable {pieces : List (List Char)} {path : List Char}

theorem nil_or_slash (h : Slashed pieces path) :
    path = [] ∧ pieces = [] ∨ ∃ rest, path = '/' :: rest := by
  cases h with
  | done => exact .inl ⟨rfl, rfl⟩
  | slash hrest => exact .inr ⟨_, rfl⟩
  | piece piece hrest => exact .inr ⟨_, rfl⟩

/-- The pieces between slashes are told from the path. -/
theorem filter_pieces (h : Slashed pieces path) (hpieces : ∀ piece ∈ pieces, IsPiece piece) :
    (Text.pieces '/' path).filter (!·.isEmpty) = pieces := by
  have hslash (rest : List Char) :
      (Text.pieces '/' ('/' :: rest)).filter (!·.isEmpty) =
        (Text.pieces '/' rest).filter (!·.isEmpty) := by
    rw [Text.pieces, if_pos rfl]
    rfl
  induction h with
  | done => rfl
  | slash _ ih => rw [hslash, ih hpieces]
  | @piece piece pieces path hrest ih =>
      obtain ⟨⟨hsome, hfree⟩, hmore⟩ := List.forall_mem_cons.mp hpieces
      have hkeep (more : List (List Char)) : (piece :: more).filter (!·.isEmpty) =
          piece :: more.filter (!·.isEmpty) :=
        List.filter_cons_of_pos (by simpa using hsome)
      rw [hslash]
      obtain ⟨rfl, rfl⟩ | ⟨rest, rfl⟩ := hrest.nil_or_slash
      · rw [List.append_nil, Text.pieces_of_not_mem hfree, hkeep, List.filter_nil]
      · rw [Text.pieces_append_cons hfree, hkeep, ← hslash, ih hmore]

theorem of_pieces (pieces : List (List Char)) : Slashed pieces (pieces.flatMap ('/' :: ·)) := by
  induction pieces with
  | nil => exact .done
  | cons first rest ih => exact .piece first ih

theorem of_flatMap (parts : List (List Char)) :
    Slashed (parts.filter (!·.isEmpty)) (parts.flatMap ('/' :: ·)) := by
  induction parts with
  | nil => exact .done
  | cons part rest ih =>
      rw [List.flatMap_cons, List.cons_append]
      cases part with
      | nil => exact .slash ih
      | cons c part => exact .piece (c :: part) ih

end Slashed

theorem flatMap_slash {parts : List (List Char)} (hsome : parts ≠ []) :
    parts.flatMap ('/' :: ·) = '/' :: ['/'].intercalate parts := by
  obtain ⟨first, more, rfl⟩ := List.exists_cons_of_ne_nil hsome
  induction more generalizing first with
  | nil => simp
  | cons next more ih =>
      rw [List.flatMap_cons, ih next (List.cons_ne_nil _ _), List.intercalate_cons_cons]
      simp

namespace Template

/-- The pieces of a path that begins with a slash are what it is made of. -/
theorem piecesOf_eq_iff {path : String} {pieces : List (List Char)}
    (hslash : path.toList.head? = some '/') :
    piecesOf path = pieces ↔
      Slashed pieces path.toList ∧ ∀ piece ∈ pieces, IsPiece piece := by
  constructor
  · rintro rfl
    obtain ⟨rest, hrest⟩ : ∃ rest, path.toList = '/' :: rest := by
      cases hpath : path.toList with
      | nil => simp [hpath] at hslash
      | cons c rest =>
          rw [hpath, List.head?_cons, Option.some.injEq] at hslash
          exact ⟨rest, by rw [hslash]⟩
    constructor
    · have hslashed := Slashed.of_flatMap (Text.pieces '/' rest)
      rw [flatMap_slash (Text.pieces_ne_nil '/' rest), Text.intercalate_pieces] at hslashed
      rw [piecesOf, hrest, Text.pieces, if_pos rfl]
      exact hslashed
    · intro piece hpiece
      obtain ⟨hmember, hsome⟩ := List.mem_filter.mp hpiece
      exact ⟨by simpa using hsome, Text.not_mem_of_mem_pieces hmember⟩
  · rintro ⟨hslashed, hpieces⟩
    exact hslashed.filter_pieces hpieces

end Template

/-! ### Names and types -/

/-- A letter of ASCII or an underscore. -/
def IsWordStart (c : Char) : Prop :=
  ('A' ≤ c ∧ c ≤ 'Z') ∨ ('a' ≤ c ∧ c ≤ 'z') ∨ c = '_'

/-- A letter or digit of ASCII or an underscore. -/
def IsWordPart (c : Char) : Prop :=
  IsWordStart c ∨ ('0' ≤ c ∧ c ≤ '9')

/-- A name of letters, digits and underscores that does not begin with a digit. -/
def IsIdentifier (name : List Char) : Prop :=
  ∃ first rest, name = first :: rest ∧ IsWordStart first ∧ ∀ c ∈ rest, IsWordPart c

theorem isNameStart_iff (c : Char) : Template.isNameStart c = true ↔ IsWordStart c := by
  simp [Template.isNameStart, IsWordStart, Char.isAlpha, Char.isUpper, Char.isLower, Char.le_def,
    or_assoc]

theorem isName_iff (name : List Char) : Template.isName name = true ↔ IsIdentifier name := by
  cases name with
  | nil => simp [Template.isName, IsIdentifier]
  | cons first rest =>
      simp only [Template.isName, IsIdentifier, Bool.and_eq_true, isNameStart_iff, List.all_eq_true,
        Bool.or_eq_true, IsWordPart, List.cons.injEq, Char.isDigit, decide_eq_true_eq, Char.le_def]
      constructor
      · rintro ⟨hfirst, hrest⟩
        exact ⟨first, rest, ⟨rfl, rfl⟩, hfirst, hrest⟩
      · rintro ⟨_, _, ⟨rfl, rfl⟩, hfirst, hrest⟩
        exact ⟨hfirst, hrest⟩

theorem IsWordPart.plain {c : Char} (h : IsWordPart c) :
    Text.isBlank c = false ∧ c ∉ [':', '/', '\x7b', '\x7d'] := by
  have hrange : (48 ≤ c.toNat ∧ c.toNat ≤ 57) ∨ (65 ≤ c.toNat ∧ c.toNat ≤ 90) ∨ c.toNat = 95 ∨
      (97 ≤ c.toNat ∧ c.toNat ≤ 122) := by
    simp only [IsWordPart, IsWordStart, Char.le_def, UInt32.le_iff_toNat_le, Char.toNat_val,
      Char.reduceToNat, ← Char.toNat_inj] at h
    omega
  constructor
  · rw [← Bool.not_eq_true]
    intro hblank
    simp only [Text.isBlank, Bool.or_eq_true, Bool.and_eq_true, decide_eq_true_eq,
      beq_iff_eq] at hblank
    omega
  · intro hsign
    simp only [List.mem_cons, List.not_mem_nil, or_false, ← Char.toNat_inj,
      Char.reduceToNat] at hsign
    omega

/-- The types that a placeholder can name, under every name. -/
def ParamType.templateNames : List (String × ParamType) :=
  [("int", .int), ("integer", .int), ("float", .float), ("number", .float), ("str", .string),
   ("string", .string), ("bool", .bool), ("boolean", .bool)]

theorem ParamType.ofTemplateName?_eq_some_iff {name : String} {type : ParamType} :
    ofTemplateName? name = some type ↔ (name, type) ∈ templateNames := by
  simp only [ofTemplateName?, templateNames, List.mem_cons, Prod.mk.injEq, List.not_mem_nil,
    or_false]
  constructor
  · intro h
    split at h
    · grind
    · grind
  · rintro (⟨rfl, rfl⟩ | ⟨rfl, rfl⟩ | ⟨rfl, rfl⟩ | ⟨rfl, rfl⟩ | ⟨rfl, rfl⟩ | ⟨rfl, rfl⟩ |
      ⟨rfl, rfl⟩ | ⟨rfl, rfl⟩) <;> rfl

theorem ParamType.isIdentifier_of_templateNames {name : String} {type : ParamType}
    (h : (name, type) ∈ templateNames) : IsIdentifier name.toList := by
  have hall : ∀ known ∈ templateNames, Template.isName known.1.toList = true := by decide
  exact (isName_iff _).mp (hall _ h)

/-! ### Segments -/

/-- The texts that spell a segment. A literal is a text without braces and stands for itself. A
placeholder stands in braces; blanks around its name and its type do not count. -/
inductive Segment.Spelled : Segment → List Char → Prop where
  | literal {text : String} (hplain : ∀ c ∈ text.toList, c ≠ '\x7b' ∧ c ≠ '\x7d') :
      Spelled (.literal text) text.toList
  | untyped {name : String} {left right : List Char} (hname : IsIdentifier name.toList)
      (hleft : Text.Blank left) (hright : Text.Blank right) :
      Spelled (.placeholder name none) ('\x7b' :: (left ++ name.toList ++ right ++ ['\x7d']))
  | typed {name typeName : String} {type : ParamType} {left right before after : List Char}
      (hname : IsIdentifier name.toList) (htype : (typeName, type) ∈ ParamType.templateNames)
      (hleft : Text.Blank left) (hright : Text.Blank right) (hbefore : Text.Blank before)
      (hafter : Text.Blank after) :
      Spelled (.placeholder name (some type))
        ('\x7b' :: (left ++ name.toList ++ right ++ ':' :: (before ++ typeName.toList ++ after)
          ++ ['\x7d']))

/-- The shortest text of a segment. -/
def Segment.text : Segment → List Char
  | .literal text => text.toList
  | .placeholder name none => '\x7b' :: (name.toList ++ ['\x7d'])
  | .placeholder name (some type) =>
      '\x7b' :: (name.toList ++ ':' :: type.text.toList ++ ['\x7d'])

theorem IsIdentifier.parts {name : List Char} (h : IsIdentifier name) :
    ∀ c ∈ name, IsWordPart c := by
  obtain ⟨first, rest, rfl, hfirst, hrest⟩ := h
  exact List.forall_mem_cons.mpr ⟨.inl hfirst, hrest⟩

theorem IsIdentifier.trimmed {name : List Char} (h : IsIdentifier name) : Text.Trimmed name :=
  Text.trimmed_of_free fun c hc => (h.parts c hc).plain.1

/-- A name holds nothing of what a template is divided by. -/
theorem IsIdentifier.not_mem {name : List Char} (h : IsIdentifier name) {c : Char}
    (hc : c ∈ [':', '/', '\x7b', '\x7d']) : c ∉ name :=
  fun hmember => (h.parts c hmember).plain.2 hc

theorem IsIdentifier.colon_not_mem {name left right : List Char} (h : IsIdentifier name)
    (hleft : Text.Blank left) (hright : Text.Blank right) : ':' ∉ left ++ name ++ right :=
  Text.not_mem_padded hleft hright (by decide) (h.not_mem (by simp))

theorem ParamType.text_mem_templateNames {name : String} {type : ParamType}
    (h : (name, type) ∈ templateNames) : (type.text, type) ∈ templateNames := by
  have hall : ∀ known ∈ templateNames, (known.2.text, known.2) ∈ templateNames := by decide
  exact hall _ h

/-- A segment that a piece spells is spelled by its shortest text. -/
theorem Segment.Spelled.text {segment : Segment} {piece : List Char} (h : segment.Spelled piece)
    (hpiece : IsPiece piece) : segment.Spelled segment.text ∧ IsPiece segment.text := by
  have hblank : Text.Blank [] := nofun
  cases h with
  | literal hplain => exact ⟨.literal hplain, hpiece⟩
  | @untyped name left right hname hleft hright =>
      constructor
      · simpa [Segment.text] using Segment.Spelled.untyped hname hblank hblank
      · have hfree : '/' ∉ name.toList := hname.not_mem (by simp)
        exact ⟨List.cons_ne_nil _ _, by simp [Segment.text, hfree]⟩
  | @typed name typeName type left right before after hname htype hleft hright hbefore hafter =>
      have htext := ParamType.text_mem_templateNames htype
      constructor
      · simpa [Segment.text] using Segment.Spelled.typed hname htext hblank hblank hblank hblank
      · have hfree : '/' ∉ name.toList := hname.not_mem (by simp)
        have htypeFree : '/' ∉ type.text.toList :=
          (ParamType.isIdentifier_of_templateNames htext).not_mem (by simp)
        exact ⟨List.cons_ne_nil _ _, by simp [Segment.text, hfree, htypeFree]⟩

namespace Template

theorem enclosed?_eq_some_iff {piece inner : List Char} :
    enclosed? piece = some inner ↔ piece = '\x7b' :: (inner ++ ['\x7d']) := by
  constructor
  · intro h
    unfold enclosed? at h
    split at h
    · rename_i rest
      split at h
      · rename_i hlast
        cases h
        obtain ⟨front, rfl⟩ := List.getLast?_eq_some_iff.mp hlast
        rw [List.dropLast_concat]
      · cases h
    · cases h
  · rintro rfl
    simp [enclosed?]

theorem readPlaceholder_untyped {inner : List Char} (hcolon : ':' ∉ inner) :
    readPlaceholder inner = .ok (Text.trimChars inner, none) := by
  rw [readPlaceholder, Text.cut_eq_none_iff.mpr hcolon]

theorem readPlaceholder_typed {before after : List Char} (hcolon : ':' ∉ before)
    {type : ParamType}
    (htype : (String.ofList (Text.trimChars after), type) ∈ ParamType.templateNames) :
    readPlaceholder (before ++ ':' :: after) = .ok (Text.trimChars before, some type) := by
  rw [readPlaceholder, Text.cut_eq_some_iff.mpr ⟨hcolon, rfl⟩]
  simp only [ParamType.ofTemplateName?_eq_some_iff.mpr htype]

/-- What stands between braces is a name, or a name and a type behind the first colon. -/
theorem readPlaceholder_ok {inner name : List Char} {type : Option ParamType}
    (h : readPlaceholder inner = .ok (name, type)) :
    (type = none ∧ Text.trimChars inner = name) ∨
      ∃ before after known, inner = before ++ ':' :: after ∧ Text.trimChars before = name ∧
        type = some known ∧
        (String.ofList (Text.trimChars after), known) ∈ ParamType.templateNames := by
  unfold readPlaceholder at h
  split at h
  · cases h
    exact .inl ⟨rfl, rfl⟩
  · rename_i before after hcut
    obtain ⟨_, rfl⟩ := Text.cut_eq_some_iff.mp hcut
    split at h
    · cases h
    · rename_i known hknown
      cases h
      exact .inr ⟨before, after, known, rfl, rfl, rfl,
        ParamType.ofTemplateName?_eq_some_iff.mp hknown⟩

theorem spelled_of_readPlaceholder {inner name : List Char} {type : Option ParamType}
    (h : readPlaceholder inner = .ok (name, type)) (hname : IsIdentifier name) :
    (Segment.placeholder (String.ofList name) type).Spelled ('\x7b' :: (inner ++ ['\x7d'])) := by
  have hid : IsIdentifier (String.ofList name).toList := by rwa [String.toList_ofList]
  obtain ⟨rfl, htrim⟩ | ⟨before, after, known, rfl, htrim, rfl, hknown⟩ := readPlaceholder_ok h
  · obtain ⟨_, left, right, hleft, hright, rfl⟩ := Text.trimChars_eq_iff.mp htrim
    have hspelled := Segment.Spelled.untyped hid hleft hright
    rwa [String.toList_ofList] at hspelled
  · obtain ⟨_, left, right, hleft, hright, rfl⟩ := Text.trimChars_eq_iff.mp htrim
    obtain ⟨front, back, hfront, hback, hafter⟩ := Text.exists_padding after
    have hspelled := Segment.Spelled.typed hid hknown hleft hright hfront hback
    rw [String.toList_ofList, String.toList_ofList, ← hafter] at hspelled
    exact hspelled

theorem plain_iff {piece : List Char} :
    (!piece.contains '\x7b' && !piece.contains '\x7d') = true ↔
      ∀ c ∈ piece, c ≠ '\x7b' ∧ c ≠ '\x7d' := by
  simp only [Bool.and_eq_true, Bool.not_eq_true', List.contains_eq_mem, decide_eq_false_iff_not]
  constructor
  · rintro ⟨hopen, hclose⟩ c hc
    exact ⟨fun h => hopen (h ▸ hc), fun h => hclose (h ▸ hc)⟩
  · intro hplain
    exact ⟨fun h => (hplain _ h).1 rfl, fun h => (hplain _ h).2 rfl⟩

/-- A piece in braces is read by what they enclose. -/
theorem readSegment_enclosed (names : List String) {inner name : List Char}
    {type : Option ParamType} (hread : readPlaceholder inner = .ok (name, type))
    (hname : IsIdentifier name) (hnew : String.ofList name ∉ names) :
    readSegment names ('\x7b' :: (inner ++ ['\x7d'])) =
      .ok (.placeholder (String.ofList name) type) := by
  have hbraces : ¬(!('\x7b' :: (inner ++ ['\x7d'])).contains '\x7b' &&
      !('\x7b' :: (inner ++ ['\x7d'])).contains '\x7d') = true := by simp
  rw [readSegment, if_neg hbraces, enclosed?_eq_some_iff.mpr rfl]
  simp [hread, (isName_iff name).mpr hname, hnew]

/-- A piece is read as a segment when it spells the segment and the name is new. -/
theorem readSegment_eq_ok_iff {names : List String} {piece : List Char} {segment : Segment} :
    readSegment names piece = .ok segment ↔
      segment.Spelled piece ∧ ∀ name ∈ segment.name?, name ∉ names := by
  constructor
  · intro h
    refine ⟨?_, readSegment_new h⟩
    unfold readSegment at h
    split at h
    · rename_i hplain
      cases h
      have hspelled := @Segment.Spelled.literal (String.ofList piece)
      rw [String.toList_ofList] at hspelled
      exact hspelled (plain_iff.mp hplain)
    · split at h
      · cases h
      · rename_i inner hinner
        obtain rfl := enclosed?_eq_some_iff.mp hinner
        split at h
        · cases h
        · rename_i name type hread
          dsimp only at h
          split at h
          · cases h
          · rename_i hname
            split at h
            · cases h
            · cases h
              exact spelled_of_readPlaceholder hread ((isName_iff name).mp (by simpa using hname))
  · rintro ⟨hspelled, hnew⟩
    cases hspelled with
    | @literal text hplain =>
        rw [readSegment, if_pos (plain_iff.mpr hplain), String.ofList_toList]
    | @untyped name left right hname hleft hright =>
        have hread := readPlaceholder_untyped (hname.colon_not_mem hleft hright)
        rw [Text.trimChars_padded hleft hright, hname.trimmed] at hread
        have hsegment := readSegment_enclosed names hread hname
        rw [String.ofList_toList] at hsegment
        exact hsegment (hnew name rfl)
    | @typed name typeName type left right before after hname htype hleft hright hbefore hafter =>
        have htrim : String.ofList (Text.trimChars (before ++ typeName.toList ++ after)) =
            typeName := by
          rw [Text.trimChars_padded hbefore hafter,
            (ParamType.isIdentifier_of_templateNames htype).trimmed, String.ofList_toList]
        have hread := readPlaceholder_typed (hname.colon_not_mem hleft hright)
          (htrim.symm ▸ htype)
        rw [Text.trimChars_padded hleft hright, hname.trimmed] at hread
        have hsegment := readSegment_enclosed names hread hname
        rw [String.ofList_toList] at hsegment
        exact hsegment (hnew name rfl)

/-- Pieces are read when each spells a segment and all names are new and different. -/
theorem readSegments_eq_ok_iff {names : List String} {pieces : List (List Char)}
    {segments : List Segment} :
    readSegments names pieces = .ok segments ↔
      List.Forall₂ Segment.Spelled segments pieces ∧
        (segments.filterMap Segment.name?).Nodup ∧
        ∀ name ∈ segments.filterMap Segment.name?, name ∉ names := by
  induction pieces generalizing names segments with
  | nil =>
      rw [readSegments, Except.ok.injEq, List.forall₂_nil_right_iff]
      constructor
      · rintro rfl
        exact ⟨rfl, List.nodup_nil, List.forall_mem_nil _⟩
      · rintro ⟨rfl, _⟩
        rfl
  | cons piece rest ih =>
      constructor
      · intro h
        refine ⟨?_, readSegments_distinct h⟩
        rw [readSegments] at h
        split at h
        · cases h
        · rename_i segment hsegment
          cases hrest : readSegments (names ++ segment.name?.toList) rest with
          | error fault =>
              rw [hrest] at h
              cases h
          | ok more =>
              rw [hrest] at h
              cases h
              exact .cons (readSegment_eq_ok_iff.mp hsegment).1 (ih.mp hrest).1
      · rintro ⟨hspelled, hdistinct, hnew⟩
        obtain ⟨segment, more, hfirst, hmore, rfl⟩ := List.forall₂_cons_right_iff.mp hspelled
        have hsegment : readSegment names piece = .ok segment := by
          refine readSegment_eq_ok_iff.mpr ⟨hfirst, fun name hname => hnew name ?_⟩
          rw [List.filterMap_cons_some hname]
          exact List.mem_cons_self
        have hrest : readSegments (names ++ segment.name?.toList) rest = .ok more := by
          rw [ih]
          cases hname : segment.name? with
          | none =>
              rw [List.filterMap_cons_none hname] at hdistinct hnew
              rw [Option.toList_none, List.append_nil]
              exact ⟨hmore, hdistinct, hnew⟩
          | some name =>
              rw [List.filterMap_cons_some hname] at hdistinct hnew
              obtain ⟨honce, hdistinct⟩ := List.nodup_cons.mp hdistinct
              refine ⟨hmore, hdistinct, fun other hother => ?_⟩
              rw [Option.toList_some, List.mem_append, List.mem_singleton, not_or]
              refine ⟨hnew other (List.mem_cons_of_mem _ hother), ?_⟩
              rintro rfl
              exact honce hother
        rw [readSegments, hsegment]
        simp only [hrest]
        rfl

/-- The texts of a template with some segments: a path of pieces that spell the segments, in which
no name stands twice. -/
structure Spells (raw : String) (segments : List Segment) : Prop where
  slash : raw.toList.head? = some '/'
  pieces : ∃ pieces, Slashed pieces raw.toList ∧ (∀ piece ∈ pieces, IsPiece piece) ∧
    List.Forall₂ Segment.Spelled segments pieces
  distinct : (segments.filterMap Segment.name?).Nodup

/-- A text is read as the segments that it spells, and only such texts are read. -/
theorem parse_eq_ok_iff {raw : String} {template : Template} :
    parse raw = .ok template ↔ template.raw = raw ∧ Spells raw template.segments := by
  by_cases hslash : raw.toList.head? = some '/'
  · have hread : parse raw = .ok template ↔
        template.raw = raw ∧ readSegments [] (piecesOf raw) = .ok template.segments := by
      obtain ⟨rest, hrest⟩ := List.head?_eq_some_iff.mp hslash
      obtain ⟨text, segments⟩ := template
      simp only [parse, hrest]
      cases readSegments [] (piecesOf raw) with
      | error fault => simp
      | ok found => simp [eq_comm]
    rw [hread, readSegments_eq_ok_iff]
    constructor
    · rintro ⟨hraw, hspelled, hdistinct, _⟩
      obtain ⟨hslashed, hpieces⟩ := (piecesOf_eq_iff hslash).mp rfl
      exact ⟨hraw, hslash, ⟨_, hslashed, hpieces, hspelled⟩, hdistinct⟩
    · rintro ⟨hraw, _, ⟨pieces, hslashed, hpieces, hspelled⟩, hdistinct⟩
      rw [(piecesOf_eq_iff hslash).mpr ⟨hslashed, hpieces⟩]
      exact ⟨hraw, hspelled, hdistinct, fun _ _ => List.not_mem_nil⟩
  · constructor
    · intro h
      simp only [parse] at h
      split at h
      · rename_i hread
        split at hread
        · rename_i hraw
          exact absurd (by rw [hraw]; rfl) hslash
        · cases hread
      · cases h
    · rintro ⟨_, hspells⟩
      exact absurd hspells.slash hslash

/-! ### The shortest form -/

/-- The shortest template with some segments. -/
def render (segments : List Segment) : String :=
  if segments.isEmpty then "/"
  else String.ofList ((segments.map Segment.text).flatMap ('/' :: ·))

theorem slashed_render (segments : List Segment) :
    Slashed (segments.map Segment.text) (render segments).toList := by
  cases segments with
  | nil => exact .slash .done
  | cons segment rest =>
      have hrender : (render (segment :: rest)).toList =
          ((segment :: rest).map Segment.text).flatMap ('/' :: ·) := String.toList_ofList
      rw [hrender]
      exact .of_pieces _

theorem spelled_texts {segments : List Segment} {pieces : List (List Char)}
    (hspelled : List.Forall₂ Segment.Spelled segments pieces)
    (hpieces : ∀ piece ∈ pieces, IsPiece piece) :
    ∀ segment ∈ segments, segment.Spelled segment.text ∧ IsPiece segment.text := by
  induction hspelled with
  | nil => nofun
  | cons hfirst _ ih =>
      obtain ⟨hpiece, hmore⟩ := List.forall_mem_cons.mp hpieces
      exact List.forall_mem_cons.mpr ⟨hfirst.text hpiece, ih hmore⟩

/-- What is read is read again from its shortest form. -/
theorem Spells.render {raw : String} {segments : List Segment} (h : Spells raw segments) :
    Spells (render segments) segments := by
  obtain ⟨pieces, _, hpieces, hspelled⟩ := h.pieces
  have htexts := spelled_texts hspelled hpieces
  refine ⟨?_, ⟨_, slashed_render segments, ?_, ?_⟩, h.distinct⟩
  · cases segments with
    | nil => rfl
    | cons segment rest => rw [Template.render]; simp
  · intro piece hpiece
    obtain ⟨segment, hsegment, rfl⟩ := List.mem_map.mp hpiece
    exact (htexts segment hsegment).2
  · rw [List.forall₂_map_right_iff, List.forall₂_same]
    exact fun segment hsegment => (htexts segment hsegment).1

/-- Reading accepts exactly the grammar of templates: a text is read as some segments if and only if
it spells them. And what was read is read again, as the same segments, from its shortest form. -/
theorem parse_exact (raw : String) :
    (∀ template, parse raw = .ok template ↔
      template.raw = raw ∧ Spells raw template.segments) ∧
    ((∃ template, parse raw = .ok template) ↔ ∃ segments, Spells raw segments) ∧
    ∀ template, parse raw = .ok template →
      parse (render template.segments) =
        .ok ⟨render template.segments, template.segments⟩ := by
  refine ⟨fun template => parse_eq_ok_iff, ?_, ?_⟩
  · constructor
    · rintro ⟨template, hparse⟩
      exact ⟨template.segments, (parse_eq_ok_iff.mp hparse).2⟩
    · rintro ⟨segments, hspells⟩
      exact ⟨⟨raw, segments⟩, parse_eq_ok_iff.mpr ⟨rfl, hspells⟩⟩
  · intro template hparse
    exact parse_eq_ok_iff.mpr ⟨rfl, (parse_eq_ok_iff.mp hparse).2.render⟩

/-- Repeated slashes, blanks around a name and its type, and a type under its other name. -/
theorem parse_exact_sample :
    let raw := "//a:b/\x7b\tid : integer \x7d//\x7b _x2\x7d/"
    let again := "/a:b/\x7bid:int\x7d/\x7b_x2\x7d"
    let segments :=
      [Segment.literal "a:b", .placeholder "id" (some .int), .placeholder "_x2" none]
    parse raw = .ok ⟨raw, segments⟩ ∧ Spells raw segments ∧
      parse again = .ok ⟨again, segments⟩ := by
  intro raw again segments
  have hparse : parse raw = .ok ⟨raw, segments⟩ := by decide
  obtain ⟨hexact, _, hrender⟩ := parse_exact raw
  exact ⟨hparse, ((hexact _).mp hparse).2, hrender _ hparse⟩

end Template

end RequestDispatch
