import Mathlib.Data.List.Basic
import RequestDispatch.Parameter.Declaration

/-!
What can be wrong with the declarations of one owner. They compile exactly when no name occurs
twice in one location and every pattern and schema can be read.
-/

namespace RequestDispatch

namespace Parameter

/-- The pattern and the schema of a declaration are a pattern and a schema. -/
structure Readable (p : Parameter) : Prop where
  pattern : ∀ source, p.constraints.pattern = some source →
    ∃ pattern, Pattern.parse? source = some pattern
  schema : ∀ document, p.schema = some document →
    ∃ validator, Validator.compile? document = some validator

theorem compilePattern_ok_iff (p : Parameter) (owner : String) :
    (∃ pattern, p.compilePattern owner = .ok pattern) ↔
      ∀ source, p.constraints.pattern = some source →
        ∃ pattern, Pattern.parse? source = some pattern := by
  unfold compilePattern
  cases p.constraints.pattern with
  | none => simp
  | some source =>
      dsimp only
      cases hparse : Pattern.parse? source <;> simp [hparse]

theorem compileSchema_ok_iff (p : Parameter) (owner : String) :
    (∃ validator, p.compileSchema owner = .ok validator) ↔
      ∀ document, p.schema = some document →
        ∃ validator, Validator.compile? document = some validator := by
  unfold compileSchema
  cases p.schema with
  | none => simp
  | some document =>
      dsimp only
      cases hcompile : Validator.compile? document <;> simp [hcompile]

theorem compile_ok_iff (p : Parameter) (owner : String) :
    (∃ compiled, p.compile owner = .ok compiled) ↔ p.Readable := by
  have hpattern := p.compilePattern_ok_iff owner
  have hschema := p.compileSchema_ok_iff owner
  have hreadable : p.Readable ↔ (∃ pattern, p.compilePattern owner = .ok pattern) ∧
      ∃ validator, p.compileSchema owner = .ok validator := by
    rw [hpattern, hschema]
    exact ⟨fun h => ⟨h.pattern, h.schema⟩, fun h => ⟨h.1, h.2⟩⟩
  rw [hreadable]
  unfold compile
  cases p.compilePattern owner with
  | error fault => simp
  | ok pattern => cases p.compileSchema owner <;> simp

/-- The location and the name of a declaration, which no other one of its owner has. -/
def site (p : Parameter) : Location × String :=
  (p.location, p.name)

theorem compileAll_cons (owner : String) (p : Parameter) (rest : List Parameter)
    (seen : List (Location × String)) :
    compileAll owner (fun _ => .ok ()) seen (p :: rest) =
      if p.site ∈ seen then .error (.duplicateParameter owner p.name p.location)
      else
        match p.compile owner with
        | .error fault => .error fault
        | .ok compiled =>
            (compileAll owner (fun _ => .ok ()) (p.site :: seen) rest).map (compiled :: ·) := rfl

theorem compileAll_ok_iff (owner : String) (params : List Parameter)
    (seen : List (Location × String)) :
    (∃ compiled, compileAll owner (fun _ => .ok ()) seen params = .ok compiled) ↔
      (∀ p ∈ params, p.site ∉ seen) ∧ (params.map site).Nodup ∧ ∀ p ∈ params, p.Readable := by
  induction params generalizing seen with
  | nil => simp [compileAll]
  | cons p rest ih =>
      have hcompile := p.compile_ok_iff owner
      have hrest := ih (p.site :: seen)
      rw [compileAll_cons]
      by_cases hseen : p.site ∈ seen
      · simp [hseen]
      · rw [if_neg hseen]
        cases hfirst : p.compile owner with
        | error fault =>
            have hunreadable : ¬p.Readable := by
              rw [← hcompile, hfirst]
              simp
            simp [hunreadable]
        | ok compiled =>
            have hreadable : p.Readable := hcompile.mp ⟨compiled, hfirst⟩
            have hmap : (∃ all, (compileAll owner (fun _ => .ok ()) (p.site :: seen) rest).map
                (compiled :: ·) = .ok all) ↔
                  ∃ more, compileAll owner (fun _ => .ok ()) (p.site :: seen) rest = .ok more := by
              cases compileAll owner (fun _ => .ok ()) (p.site :: seen) rest <;> simp [Except.map]
            -- The rest was compiled with this site seen, so that none of its sites is this one.
            refine hmap.trans (hrest.trans ?_)
            simp only [List.mem_cons, forall_eq_or_imp, not_or, List.map_cons, List.nodup_cons,
              List.mem_map, not_exists, not_and, hseen, hreadable]
            constructor
            · rintro ⟨hnew, hdistinct, hread⟩
              exact ⟨⟨not_false, fun q hq => (hnew q hq).2⟩,
                ⟨fun q hq => (hnew q hq).1, hdistinct⟩, trivial, hread⟩
            · rintro ⟨⟨_, hnew⟩, ⟨hother, hdistinct⟩, _, hread⟩
              exact ⟨fun q hq => ⟨hother q hq, hnew q hq⟩, hdistinct, hread⟩

/-- The faults that a declaration of an owner can have. Each names the declaration. -/
inductive Fault (owner : String) (p : Parameter) : RegistrationError → Prop where
  | duplicate : Fault owner p (.duplicateParameter owner p.name p.location)
  | pattern {source : String} (hsource : p.constraints.pattern = some source) :
      Fault owner p (.invalidPattern (owner ++ "." ++ p.name) source)
  | schema : Fault owner p (.invalidSchema (owner ++ "." ++ p.name))

theorem compile_error {p : Parameter} {owner : String} {fault : RegistrationError}
    (herror : p.compile owner = .error fault) : Fault owner p fault := by
  unfold compile at herror
  split at herror
  · rename_i found hpattern
    cases herror
    unfold compilePattern at hpattern
    split at hpattern
    · cases hpattern
    · rename_i source hsource
      split at hpattern
      · cases hpattern
      · cases hpattern
        exact .pattern hsource
  · split at herror
    · rename_i found hschema
      cases herror
      unfold compileSchema at hschema
      split at hschema
      · cases hschema
      · split at hschema
        · cases hschema
        · cases hschema
          exact .schema
    · cases herror

theorem compileAll_error {owner : String} {params : List Parameter}
    {seen : List (Location × String)} {fault : RegistrationError}
    (herror : compileAll owner (fun _ => .ok ()) seen params = .error fault) :
    ∃ p ∈ params, Fault owner p fault := by
  induction params generalizing seen with
  | nil => cases herror
  | cons p rest ih =>
      rw [compileAll_cons] at herror
      split at herror
      · cases herror
        exact ⟨p, List.mem_cons_self, .duplicate⟩
      · cases hfirst : p.compile owner with
        | error found =>
            rw [hfirst] at herror
            cases herror
            exact ⟨p, List.mem_cons_self, compile_error hfirst⟩
        | ok compiled =>
            simp only [hfirst] at herror
            cases hmore : compileAll owner (fun _ => .ok ()) (p.site :: seen) rest with
            | error found =>
                rw [hmore] at herror
                cases herror
                obtain ⟨q, hq, hfault⟩ := ih hmore
                exact ⟨q, List.mem_cons_of_mem _ hq, hfault⟩
            | ok more =>
                rw [hmore] at herror
                cases herror

end Parameter

end RequestDispatch
