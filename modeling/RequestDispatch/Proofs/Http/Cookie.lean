import RequestDispatch.Http.Request
import RequestDispatch.Proofs.Text.Blank
import RequestDispatch.Proofs.Text.Split

/-!
Cookies in header lines. A piece of a header value that a cookie was written to is read as the
cookie, and the first cookie with a name is found. So cookies are read as they were written,
whatever lines and blanks they were distributed over.
-/

namespace RequestDispatch

namespace Cookie

/-- The pieces of a header value that a cookie can be written as. Blanks around the name and the
value do not count, and further equals signs belong to the value. -/
inductive Spells : String × String → List Char → Prop where
  | intro {name value : String} {before left right after : List Char} (hnamed : name ≠ "")
      (hname : Text.Trimmed name.toList) (hfree : '=' ∉ name.toList)
      (hvalue : Text.Trimmed value.toList) (hbefore : Text.Blank before) (hleft : Text.Blank left)
      (hright : Text.Blank right) (hafter : Text.Blank after) :
      Spells (name, value) (before ++ name.toList ++ left ++ '=' :: (right ++ value.toList ++ after))

/-- A cookie is read from the pieces that it is written as. -/
theorem Spells.ofPiece_eq {cookie : String × String} {piece : List Char}
    (h : Spells cookie piece) : ofPiece piece = some cookie := by
  obtain ⟨hnamed, hname, hfree, hvalue, hbefore, hleft, hright, hafter⟩ := h
  rename_i name value before left right after
  have hequals : Text.isBlank '=' = false := by decide
  have hfront : '=' ∉ (before ++ name.toList ++ left).dropWhile Text.isBlank := by
    have hwhole := Text.not_mem_padded hbefore hleft hequals hfree
    exact fun hmember => hwhole ((List.dropWhile_sublist Text.isBlank).subset hmember)
  have hcut := Text.cut_eq_some_iff.mpr
    ⟨hfront, Text.trimChars_append_cons hequals _ (right ++ value.toList ++ after)⟩
  have htrim : Text.trimChars ((before ++ name.toList ++ left).dropWhile Text.isBlank) =
      name.toList := by
    rw [Text.trimChars_dropWhile, Text.trimChars_padded hbefore hleft, hname]
  have hrest : Text.trimChars ((right ++ value.toList ++ after).rdropWhile Text.isBlank) =
      value.toList := by
    rw [Text.trimChars_rdropWhile, Text.trimChars_padded hright hafter, hvalue]
  have hsome : ¬name.toList.isEmpty = true := by simpa using hnamed
  simp only [ofPiece, hcut, Option.getD_some, htrim, hrest, if_neg hsome, String.ofList_toList]

theorem Spells.value_trimmed {cookie : String × String} {piece : List Char}
    (h : Spells cookie piece) : Text.Trimmed cookie.2.toList := by
  obtain ⟨_, _, _, hvalue, _, _, _, _⟩ := h
  exact hvalue

/-- A header value is read piece by piece. -/
theorem parse_intercalate {pieces : List (List Char)} (hpieces : ∀ piece ∈ pieces, ';' ∉ piece) :
    parse (String.ofList ([';'].intercalate pieces)) = pieces.filterMap ofPiece := by
  rw [parse, String.toList_ofList]
  by_cases hsome : pieces = []
  · subst hsome
    rfl
  · rw [Text.pieces_intercalate hpieces hsome]

end Cookie

namespace Request

/-- The cookies of a request are those of its `Cookie` lines, line by line. -/
theorem cookies_of_line {r : Request} {before after : Headers} {line value : String}
    (hheaders : r.headers = before ++ (line, value) :: after)
    (hline : Text.sameIgnoringCase line "cookie" = true) :
    r.cookies = (before.valuesOf "cookie").flatMap Cookie.parse ++
      (Cookie.parse value ++ (Headers.valuesOf after "cookie").flatMap Cookie.parse) := by
  have hnamed : Headers.named "cookie" (line, value) = true := hline
  rw [cookies, hheaders]
  simp only [Headers.valuesOf, List.filter_append, List.filter_cons_of_pos hnamed, List.map_append,
    List.map_cons, List.flatMap_append, List.flatMap_cons]

/-- The first cookie with a name is found, wherever it stands. -/
theorem cookie?_of_first {r : Request} {before after : Headers} {line name value : String}
    {piece : List Char} {fore aft : List (List Char)}
    (hheaders : r.headers = before ++
      (line, String.ofList ([';'].intercalate (fore ++ piece :: aft))) :: after)
    (hline : Text.sameIgnoringCase line "cookie" = true)
    (hpiece : Cookie.Spells (name, value) piece)
    (hpieces : ∀ other ∈ fore ++ piece :: aft, ';' ∉ other)
    (hbefore : ∀ other ∈ before, Text.sameIgnoringCase other.1 "cookie" = true →
      ∀ c ∈ Cookie.parse other.2, c.1 ≠ name)
    (hfore : ∀ other ∈ fore, ∀ c ∈ Cookie.ofPiece other, c.1 ≠ name) :
    r.cookie? name = some value := by
  have hlines : ((before.valuesOf "cookie").flatMap Cookie.parse).find? (·.1 == name) = none := by
    rw [List.find?_eq_none]
    intro c hc
    obtain ⟨header, hheader, hcookie⟩ := List.mem_flatMap.mp hc
    obtain ⟨other, hother, rfl⟩ := List.mem_map.mp hheader
    obtain ⟨hmember, hnamed⟩ := List.mem_filter.mp hother
    simpa using hbefore other hmember hnamed c hcookie
  have hpiecesBefore : (fore.filterMap Cookie.ofPiece).find? (·.1 == name) = none := by
    rw [List.find?_eq_none]
    intro c hc
    obtain ⟨other, hother, hcookie⟩ := List.mem_filterMap.mp hc
    simpa using hfore other hother c hcookie
  rw [cookie?, cookies_of_line hheaders hline, Cookie.parse_intercalate hpieces,
    List.filterMap_append, List.filterMap_cons_some hpiece.ofPiece_eq, List.find?_append, hlines,
    List.find?_append, List.find?_append, hpiecesBefore, List.find?_cons_of_pos (by simp)]
  rfl

end Request

/-! ### Written cookies -/

namespace Cookie

/-- A cookie that a header can hold. The value may hold equals signs, and may be empty. -/
structure Writable (cookie : String × String) : Prop where
  named : cookie.1 ≠ ""
  name_trimmed : Text.Trimmed cookie.1.toList
  name_free : ';' ∉ cookie.1.toList ∧ '=' ∉ cookie.1.toList
  value_trimmed : Text.Trimmed cookie.2.toList
  value_free : ';' ∉ cookie.2.toList

/-- The pieces of a header value to which cookies are written in order. There may be blanks around
names and values, and pieces between them that are blank or have no name. -/
inductive Fills : List (String × String) → List (List Char) → Prop where
  | nil : Fills [] []
  | blank {blanks : List Char} {cookies : List (String × String)} {pieces : List (List Char)}
      (hblanks : Text.Blank blanks) (hrest : Fills cookies pieces) :
      Fills cookies (blanks :: pieces)
  | nameless {blanks rest : List Char} {cookies : List (String × String)}
      {pieces : List (List Char)} (hblanks : Text.Blank blanks) (hfree : ';' ∉ rest)
      (hrest : Fills cookies pieces) : Fills cookies ((blanks ++ '=' :: rest) :: pieces)
  | cookie {name value : String} {before left right after : List Char}
      {cookies : List (String × String)} {pieces : List (List Char)} (hbefore : Text.Blank before)
      (hleft : Text.Blank left) (hright : Text.Blank right) (hafter : Text.Blank after)
      (hrest : Fills cookies pieces) :
      Fills ((name, value) :: cookies)
        ((before ++ name.toList ++ left ++ '=' :: (right ++ value.toList ++ after)) :: pieces)

theorem ofPiece_blank {blanks : List Char} (hblanks : Text.Blank blanks) :
    ofPiece blanks = none := by
  rw [ofPiece, hblanks.trimChars]
  rfl

theorem ofPiece_nameless {blanks : List Char} (hblanks : Text.Blank blanks) (rest : List Char) :
    ofPiece (blanks ++ '=' :: rest) = none := by
  have hequals : Text.isBlank '=' = false := by decide
  have htrim := Text.trimChars_append_cons hequals blanks rest
  rw [hblanks.dropWhile, List.nil_append] at htrim
  rw [ofPiece, htrim]
  rfl

/-- The pieces that writable cookies are written to hold no semicolon, and are read as the
cookies. -/
theorem Fills.read {cookies : List (String × String)} {pieces : List (List Char)}
    (h : Fills cookies pieces) (hwritable : ∀ cookie ∈ cookies, Writable cookie) :
    (∀ piece ∈ pieces, ';' ∉ piece) ∧ pieces.filterMap ofPiece = cookies := by
  have hsemicolon : Text.isBlank ';' = false := by decide
  induction h with
  | nil => exact ⟨by simp, rfl⟩
  | blank hblanks _ ih =>
      obtain ⟨hfree, hread⟩ := ih hwritable
      refine ⟨List.forall_mem_cons.mpr ⟨hblanks.not_mem hsemicolon, hfree⟩, ?_⟩
      rw [List.filterMap_cons_none (ofPiece_blank hblanks), hread]
  | @nameless blanks rest _ _ hblanks hrest _ ih =>
      obtain ⟨hfree, hread⟩ := ih hwritable
      refine ⟨List.forall_mem_cons.mpr ⟨?_, hfree⟩, ?_⟩
      · simpa using ⟨hblanks.not_mem hsemicolon, hrest⟩
      · rw [List.filterMap_cons_none (ofPiece_nameless hblanks rest), hread]
  | @cookie name value before left right after _ _ hbefore hleft hright hafter _ ih =>
      obtain ⟨hfirst, hothers⟩ := List.forall_mem_cons.mp hwritable
      obtain ⟨hfree, hread⟩ := ih hothers
      have hspells := Spells.intro hfirst.named hfirst.name_trimmed hfirst.name_free.2
        hfirst.value_trimmed hbefore hleft hright hafter
      refine ⟨List.forall_mem_cons.mpr ⟨?_, hfree⟩, ?_⟩
      · have hname := Text.not_mem_padded hbefore hleft hsemicolon hfirst.name_free.1
        have hvalue := Text.not_mem_padded hright hafter hsemicolon hfirst.value_free
        rw [List.mem_append, List.mem_cons, not_or, not_or]
        exact ⟨hname, by decide, hvalue⟩
      · rw [List.filterMap_cons_some hspells.ofPiece_eq, hread]

end Cookie

/-- Header lines that cookies are distributed over in order. The cookies of a line are joined by
semicolons, the name of the line is spelled in any case, and other lines stand between them. -/
inductive Headers.Carries : Headers → List (String × String) → Prop where
  | nil : Carries [] []
  | other {line : String × String} {headers : Headers} {cookies : List (String × String)}
      (hother : Text.sameIgnoringCase line.1 "cookie" = false) (hrest : Carries headers cookies) :
      Carries (line :: headers) cookies
  | line {name : String} {pieces : List (List Char)} {headers : Headers}
      {cookies more : List (String × String)} (hname : Text.sameIgnoringCase name "cookie" = true)
      (hfills : Cookie.Fills cookies pieces) (hrest : Carries headers more) :
      Carries ((name, String.ofList ([';'].intercalate pieces)) :: headers) (cookies ++ more)

theorem Headers.Carries.parse_valuesOf {headers : Headers} {cookies : List (String × String)}
    (h : headers.Carries cookies) (hwritable : ∀ cookie ∈ cookies, Cookie.Writable cookie) :
    (headers.valuesOf "cookie").flatMap Cookie.parse = cookies := by
  induction h with
  | nil => rfl
  | @other line headers _ hother _ ih =>
      have hskipped : valuesOf (line :: headers) "cookie" = headers.valuesOf "cookie" := by
        rw [valuesOf, List.filter_cons_of_neg (by simpa [named] using hother), valuesOf]
      rw [hskipped, ih hwritable]
  | @line name pieces headers cookies more hname hfills _ ih =>
      obtain ⟨hfirst, hrest⟩ := List.forall_mem_append.mp hwritable
      obtain ⟨hpieces, hread⟩ := hfills.read hfirst
      have hnamed : named "cookie" (name, String.ofList ([';'].intercalate pieces)) = true := hname
      rw [valuesOf, List.filter_cons_of_pos hnamed, List.map_cons, List.flatMap_cons,
        Cookie.parse_intercalate hpieces, hread]
      exact congrArg (cookies ++ ·) (ih hrest)

namespace Request

/-- Reading cookies undoes writing them. When writable cookies are distributed over the header
lines of a request, the request has exactly these cookies in order, and under a name it finds the
value of the first of them with that name, or nothing. -/
theorem cookies_undo_writing {r : Request} {cookies : List (String × String)}
    (hwritable : ∀ cookie ∈ cookies, Cookie.Writable cookie)
    (hcarries : Headers.Carries r.headers cookies) :
    r.cookies = cookies ∧ ∀ name,
      (∀ value, r.cookie? name = some value ↔ ∃ before after,
        cookies = before ++ (name, value) :: after ∧ ∀ other ∈ before, other.1 ≠ name) ∧
      (r.cookie? name = none ↔ ∀ cookie ∈ cookies, cookie.1 ≠ name) := by
  have hcookies : r.cookies = cookies := hcarries.parse_valuesOf hwritable
  refine ⟨hcookies, fun name => ⟨fun value => ?_, ?_⟩⟩
  · rw [cookie?, hcookies, Option.map_eq_some_iff]
    constructor
    · rintro ⟨⟨found, _⟩, hfound, rfl⟩
      obtain ⟨hname, before, after, hsplit, hbefore⟩ := List.find?_eq_some_iff_append.mp hfound
      obtain rfl : found = name := by simpa using hname
      exact ⟨before, after, hsplit, by simpa using hbefore⟩
    · rintro ⟨before, after, hsplit, hbefore⟩
      refine ⟨(name, value), List.find?_eq_some_iff_append.mpr ?_, rfl⟩
      exact ⟨by simp, before, after, hsplit, by simpa using hbefore⟩
  · rw [cookie?, hcookies, Option.map_eq_none_iff, List.find?_eq_none]
    simp

/-- A session token with equals signs, a value that is empty, and a name that comes twice. -/
theorem cookies_undo_writing_sample :
    let cookies := [("session", "dG9rZW4=="), ("theme", ""), ("session", "old")]
    let r : Request := { (default : Request) with headers :=
      [("COOKIE", " session=dG9rZW4== ;; theme= "), ("accept", "*/*"), ("Cookie", "session=old")] }
    r.cookies = cookies ∧ r.cookie? "session" = some "dG9rZW4==" ∧ r.cookie? "Session" = none := by
  intro cookies r
  have hwritable : ∀ cookie ∈ cookies, Cookie.Writable cookie := by
    intro cookie hcookie
    simp only [cookies, List.mem_cons, List.not_mem_nil, or_false] at hcookie
    obtain rfl | rfl | rfl := hcookie <;>
      exact ⟨by decide, by decide, by decide, by decide, by decide⟩
  have hnone : Text.Blank [] := List.forall_mem_nil _
  have hblank : Text.Blank [' '] := by simp [Text.Blank, Text.isBlank]
  have htheme : Cookie.Fills [("theme", "")] [" theme= ".toList] :=
    @Cookie.Fills.cookie "theme" "" [' '] [] [] [' '] _ _ hblank hnone hnone hblank .nil
  have hfirst : Cookie.Fills [("session", "dG9rZW4=="), ("theme", "")]
      [" session=dG9rZW4== ".toList, [], " theme= ".toList] :=
    @Cookie.Fills.cookie "session" "dG9rZW4==" [' '] [] [] [' '] _ _ hblank hnone hnone hblank
      (.blank hnone htheme)
  have hsecond : Cookie.Fills [("session", "old")] ["session=old".toList] :=
    @Cookie.Fills.cookie "session" "old" [] [] [] [] _ _ hnone hnone hnone hnone .nil
  have hcarries : Headers.Carries r.headers cookies :=
    .line (by decide) hfirst (.other (by decide) (.line (by decide) hsecond .nil))
  obtain ⟨hcookies, hfound⟩ := cookies_undo_writing hwritable hcarries
  refine ⟨hcookies, ?_, ?_⟩
  · exact ((hfound "session").1 _).mpr ⟨[], _, rfl, List.forall_mem_nil _⟩
  · exact (hfound "Session").2.mpr (by decide)

end Request

end RequestDispatch
