import Mathlib.Data.List.Nodup
import RequestDispatch.Proofs.Routing.Exact

/-!
What a match captures. The placeholders of a template that can be parsed have different names,
so what stands under a name in the captures of a match is one text: the decoded piece of the path
at the place of that placeholder.
-/

namespace RequestDispatch

variable {τ : Type}

namespace Template

/-- A placeholder that is read has a name that was not there before. -/
theorem readSegment_new {names : List String} {piece : List Char} {segment : Segment}
    (hread : readSegment names piece = .ok segment) :
    ∀ name ∈ segment.name?, name ∉ names := by
  unfold readSegment at hread
  split at hread
  · cases hread
    rintro name ⟨⟩
  · split at hread
    · cases hread
    · split at hread
      · cases hread
      · dsimp only at hread
        split at hread
        · cases hread
        · split at hread
          · cases hread
          · rename_i hnew
            cases hread
            rintro name ⟨⟩
            exact hnew

theorem readSegments_distinct {names : List String} {pieces : List (List Char)}
    {segments : List Segment} (hread : readSegments names pieces = .ok segments) :
    (segments.filterMap Segment.name?).Nodup ∧
      ∀ name ∈ segments.filterMap Segment.name?, name ∉ names := by
  induction pieces generalizing names segments with
  | nil =>
      cases hread
      exact ⟨List.nodup_nil, by rintro name ⟨⟩⟩
  | cons piece rest ih =>
      simp only [readSegments] at hread
      split at hread
      · cases hread
      · rename_i segment hfirst
        have hnew := readSegment_new hfirst
        cases hrest : readSegments (names ++ segment.name?.toList) rest with
        | error fault =>
            rw [hrest] at hread
            cases hread
        | ok more =>
            rw [hrest] at hread
            cases hread
            obtain ⟨hdistinct, hlater⟩ := ih hrest
            cases hname : segment.name? with
            | none =>
                simp only [hname, Option.toList_none, List.append_nil] at hlater
                rw [List.filterMap_cons_none hname]
                exact ⟨hdistinct, hlater⟩
            | some name =>
                simp only [hname, Option.toList_some, List.mem_append, List.mem_singleton,
                  not_or] at hlater
                rw [List.filterMap_cons_some hname, List.nodup_cons]
                refine ⟨⟨fun hagain => (hlater name hagain).2 rfl, hdistinct⟩, ?_⟩
                intro other hother
                obtain rfl | hother := List.mem_cons.mp hother
                · exact hnew other (by rw [hname]; rfl)
                · exact (hlater other hother).1

/-- The placeholders of a parsed template have different names. -/
theorem names_nodup {raw : String} {template : Template} (hparse : parse raw = .ok template) :
    template.names.Nodup := by
  simp only [parse] at hparse
  split at hparse
  · rename_i segments hread
    cases hparse
    split at hread
    · exact (readSegments_distinct hread).1
    · cases hread
  · cases hparse

end Template

namespace Entry

theorem name_of_capture {entry : Entry τ} {pieces : List String} {capture : String × String}
    (hcapture : capture ∈ entry.captures pieces) : capture.1 ∈ entry.template.names := by
  obtain ⟨⟨segment, piece⟩, hpair, hnamed⟩ := List.mem_filterMap.mp hcapture
  obtain ⟨name, hname, rfl⟩ := Option.map_eq_some_iff.mp hnamed
  exact List.mem_filterMap.mpr ⟨segment, (List.of_mem_zip hpair).1, hname⟩

theorem captures_cons (method : Method) (raw : String) (segment : Segment)
    (segments : List Segment) (target : τ) (piece : String) (pieces : List String) :
    captures ⟨method, ⟨raw, segment :: segments⟩, target⟩ (piece :: pieces) =
      (segment.name?.map fun name => (name, Text.Percent.decode piece)).toList ++
        captures ⟨method, ⟨raw, segments⟩, target⟩ pieces := by
  simp only [captures, List.zip_cons_cons, List.filterMap_cons]
  cases segment.name? <;> rfl

/-- Under the name of a placeholder there is one capture: the decoded piece at its place. -/
theorem capture_of_name {entry : Entry τ} {pieces : List String} (hfits : entry.Fits pieces)
    (hdistinct : entry.template.names.Nodup) {name : String}
    (hname : name ∈ entry.template.names) :
    ∃ (place : Nat) (type : Option ParamType) (piece : String),
      entry.template.segments[place]? = some (.placeholder name type) ∧
      pieces[place]? = some piece ∧
      (entry.captures pieces).filter (·.1 == name) = [(name, Text.Percent.decode piece)] := by
  obtain ⟨method, ⟨raw, segments⟩, target⟩ := entry
  simp only [Fits] at hfits
  simp only [Template.names] at hdistinct hname
  induction hfits with
  | nil => cases hname
  | @cons segment piece segments pieces _ _ ih =>
      rw [captures_cons]
      cases segment with
      | literal text =>
          obtain ⟨place, type, found, hsegment, hpiece, hfilter⟩ := ih hdistinct hname
          exact ⟨place + 1, type, found, hsegment, hpiece, hfilter⟩
      | placeholder first type =>
          obtain ⟨hnew, hrest⟩ := List.nodup_cons.mp hdistinct
          obtain rfl | hlater := List.mem_cons.mp hname
          · refine ⟨0, type, piece, rfl, rfl, ?_⟩
            have hnone : (captures ⟨method, ⟨raw, segments⟩, target⟩ pieces).filter
                (·.1 == name) = [] := by
              rw [List.filter_eq_nil_iff]
              intro capture hcapture hsame
              exact hnew (eq_of_beq hsame ▸ name_of_capture hcapture)
            simp only [Segment.name?, Option.map_some, Option.toList_some, List.cons_append,
              List.nil_append, List.filter_cons, beq_self_eq_true, ↓reduceIte, hnone]
          · obtain ⟨place, type, found, hsegment, hpiece, hfilter⟩ := ih hrest hlater
            refine ⟨place + 1, type, found, hsegment, hpiece, ?_⟩
            have hother : (first == name) = false := by
              rw [beq_eq_false_iff_ne]
              rintro rfl
              exact hnew hlater
            simp only [Segment.name?, Option.map_some, Option.toList_some, List.cons_append,
              List.nil_append, List.filter_cons, hother, Bool.false_eq_true, ↓reduceIte, hfilter]

end Entry

/-- What a table matches is the target of an entry that fits, with the captures of the entry. -/
theorem Table.entry_of_matched {entries : List (Entry τ)} {table : Table τ}
    (hbuilt : Table.ofEntries entries = .ok table) {method : Method} {path : String} {target : τ}
    {captures : List (String × String)}
    (hmatched : table.route method path = .matched target captures) :
    let pieces := (Template.piecesOf path).map String.ofList
    ∃ entry ∈ entries, entry.target = target ∧ entry.Fits pieces ∧
      entry.captures pieces = captures := by
  intro pieces
  have hanswer := Table.route_answers hbuilt method path
  rw [hmatched] at hanswer
  cases hanswer with
  | matched entry hmember hfits _ _ => exact ⟨entry, hmember, rfl, hfits, rfl⟩

end RequestDispatch
