import Mathlib.Data.List.DropRight
import RequestDispatch.Text.Blank

/-!
Blanks around texts and between words. Trimming takes off exactly the blanks at both ends, and the
words of a text are its runs of other characters.
-/

namespace RequestDispatch.Text

/-- A text of blanks only. -/
def Blank (cs : List Char) : Prop :=
  ∀ c ∈ cs, isBlank c = true

/-- A text that neither begins nor ends with a blank. -/
def Trimmed (cs : List Char) : Prop :=
  trimChars cs = cs

instance (cs : List Char) : Decidable (Blank cs) :=
  inferInstanceAs (Decidable (∀ c ∈ cs, isBlank c = true))

instance (cs : List Char) : Decidable (Trimmed cs) :=
  inferInstanceAs (Decidable (trimChars cs = cs))

theorem trimChars_eq (cs : List Char) :
    trimChars cs = (cs.dropWhile isBlank).rdropWhile isBlank :=
  rfl

theorem dropWhile_append_cons {c : Char} (hc : isBlank c = false) (before after : List Char) :
    (before ++ c :: after).dropWhile isBlank = before.dropWhile isBlank ++ c :: after := by
  induction before with
  | nil => simp [hc]
  | cons d rest ih => cases hd : isBlank d <;> simp [hd, ih]

theorem rdropWhile_append_cons {c : Char} (hc : isBlank c = false) (before after : List Char) :
    (before ++ c :: after).rdropWhile isBlank = before ++ c :: after.rdropWhile isBlank := by
  simp only [List.rdropWhile, List.reverse_append, List.reverse_cons, List.append_assoc,
    List.singleton_append, dropWhile_append_cons hc, List.reverse_reverse]

theorem rdropWhile_append_blank {blanks : List Char} (hblanks : Blank blanks) (cs : List Char) :
    (cs ++ blanks).rdropWhile isBlank = cs.rdropWhile isBlank := by
  rw [List.rdropWhile, List.reverse_append, List.dropWhile_append_of_pos, List.rdropWhile]
  exact fun c hc => hblanks c (List.mem_reverse.mp hc)

/-- A text is blank, or there is another character in it. -/
theorem blank_or_split (cs : List Char) :
    Blank cs ∨ ∃ before c after, isBlank c = false ∧ cs = before ++ c :: after := by
  by_cases hother : ∃ c ∈ cs, isBlank c = false
  · obtain ⟨c, hmember, hc⟩ := hother
    obtain ⟨before, after, rfl⟩ := List.append_of_mem hmember
    exact .inr ⟨before, c, after, hc, rfl⟩
  · refine .inl fun c hmember => ?_
    cases hc : isBlank c with
    | true => rfl
    | false => exact absurd ⟨c, hmember, hc⟩ hother

theorem Blank.not_mem {blanks : List Char} (h : Blank blanks) {c : Char}
    (hc : isBlank c = false) : c ∉ blanks := by
  intro hmember
  rw [h c hmember] at hc
  cases hc

/-- Blanks around a text bring no other character into it. -/
theorem not_mem_padded {left cs right : List Char} (hleft : Blank left) (hright : Blank right)
    {c : Char} (hc : isBlank c = false) (hcs : c ∉ cs) : c ∉ left ++ cs ++ right := by
  simp only [List.mem_append, not_or]
  exact ⟨⟨hleft.not_mem hc, hcs⟩, hright.not_mem hc⟩

theorem Blank.dropWhile {cs : List Char} (h : Blank cs) : cs.dropWhile isBlank = [] :=
  List.dropWhile_eq_nil_iff.mpr h

theorem Blank.trimChars {cs : List Char} (h : Blank cs) : trimChars cs = [] := by
  rw [trimChars_eq, h.dropWhile, List.rdropWhile_nil]

/-- Trimming works from either side. -/
theorem trimChars_eq_swapped (cs : List Char) :
    trimChars cs = (cs.rdropWhile isBlank).dropWhile isBlank := by
  rw [trimChars_eq]
  obtain hblank | ⟨before, c, after, hc, rfl⟩ := blank_or_split cs
  · rw [hblank.dropWhile, List.rdropWhile_eq_nil_iff.mpr hblank]
    rfl
  · rw [dropWhile_append_cons hc, rdropWhile_append_cons hc, rdropWhile_append_cons hc,
      dropWhile_append_cons hc]

theorem trimChars_dropWhile (cs : List Char) :
    trimChars (cs.dropWhile isBlank) = trimChars cs := by
  rw [trimChars_eq, trimChars_eq, List.dropWhile_idempotent]

theorem trimChars_rdropWhile (cs : List Char) :
    trimChars (cs.rdropWhile isBlank) = trimChars cs := by
  rw [trimChars_eq_swapped, trimChars_eq_swapped, List.rdropWhile_idempotent]

theorem trimChars_append_cons {c : Char} (hc : isBlank c = false) (before after : List Char) :
    trimChars (before ++ c :: after) =
      before.dropWhile isBlank ++ c :: after.rdropWhile isBlank := by
  rw [trimChars_eq, dropWhile_append_cons hc, rdropWhile_append_cons hc]

/-- Blanks around a text do not count. -/
theorem trimChars_padded {left right : List Char} (hleft : Blank left) (hright : Blank right)
    (cs : List Char) : trimChars (left ++ cs ++ right) = trimChars cs := by
  rw [trimChars_eq_swapped, rdropWhile_append_blank hright, ← trimChars_eq_swapped, trimChars_eq,
    List.dropWhile_append_of_pos hleft, ← trimChars_eq]

theorem Trimmed.rdropWhile {cs : List Char} (h : Trimmed cs) : cs.rdropWhile isBlank = cs := by
  have hcs : (cs.dropWhile isBlank).rdropWhile isBlank = cs := h
  rw [← hcs, List.rdropWhile_idempotent]

/-- What trimming takes off is blank. -/
theorem exists_padding (cs : List Char) :
    ∃ left right, Blank left ∧ Blank right ∧ cs = left ++ trimChars cs ++ right := by
  refine ⟨cs.takeWhile isBlank, (cs.dropWhile isBlank).rtakeWhile isBlank,
    fun c hc => List.mem_takeWhile_imp hc, fun c hc => List.mem_rtakeWhile_imp hc, ?_⟩
  rw [trimChars_eq, List.append_assoc, List.rdropWhile_append_rtakeWhile, List.takeWhile_append_dropWhile]

theorem trimmed_trimChars (cs : List Char) : Trimmed (trimChars cs) := by
  obtain ⟨left, right, hleft, hright, hcs⟩ := exists_padding cs
  rw [Trimmed, ← trimChars_padded hleft hright, ← hcs]

/-- A text is trimmed to what has no blanks at its ends and only blanks around it. -/
theorem trimChars_eq_iff {cs word : List Char} :
    trimChars cs = word ↔
      Trimmed word ∧ ∃ left right, Blank left ∧ Blank right ∧ cs = left ++ word ++ right := by
  constructor
  · rintro rfl
    exact ⟨trimmed_trimChars cs, exists_padding cs⟩
  · rintro ⟨hword, left, right, hleft, hright, rfl⟩
    rw [trimChars_padded hleft hright, hword]

theorem trimmed_of_free {cs : List Char} (hfree : ∀ c ∈ cs, isBlank c = false) : Trimmed cs := by
  cases cs with
  | nil => rfl
  | cons c rest =>
      have hc := hfree c List.mem_cons_self
      have hrest : rest.rdropWhile isBlank = rest := by
        rw [List.rdropWhile_eq_self_iff]
        intro hsome
        simp [hfree _ (List.mem_cons_of_mem _ (List.getLast_mem hsome))]
      have htrim := trimChars_append_cons hc [] rest
      rw [hrest] at htrim
      exact htrim

/-! ### Words -/

/-- The words of a text, told from the text outwards: blanks, a word that goes up to the next blank
or to the end, and so on. -/
inductive Words : List Char → List (List Char) → Prop where
  | none {blanks : List Char} (hblanks : Blank blanks) : Words blanks []
  | word {blanks word rest : List Char} {more : List (List Char)} (hblanks : Blank blanks)
      (hsome : word ≠ []) (hfree : ∀ c ∈ word, isBlank c = false)
      (hend : ∀ c ∈ rest.head?, isBlank c = true) (hrest : Words rest more) :
      Words (blanks ++ word ++ rest) (word :: more)

theorem wordsOfChars_of_blank {c : Char} (hc : isBlank c = true) (rest : List Char) :
    wordsOfChars (c :: rest) = wordsOfChars rest := by
  rw [wordsOfChars.eq_def]
  exact if_pos hc

theorem wordsOfChars_blank {blanks : List Char} (hblanks : Blank blanks) (cs : List Char) :
    wordsOfChars (blanks ++ cs) = wordsOfChars cs := by
  induction blanks with
  | nil => rfl
  | cons c rest ih =>
      rw [List.cons_append, wordsOfChars_of_blank (hblanks c List.mem_cons_self)]
      exact ih fun d hd => hblanks d (List.mem_cons_of_mem _ hd)

theorem wordsOfChars_word {word rest : List Char} (hsome : word ≠ [])
    (hfree : ∀ c ∈ word, isBlank c = false) (hend : ∀ c ∈ rest.head?, isBlank c = true) :
    wordsOfChars (word ++ rest) = word :: wordsOfChars rest := by
  induction word with
  | nil => exact absurd rfl hsome
  | cons c more ih =>
      obtain ⟨hc, hmore⟩ := List.forall_mem_cons.mp hfree
      cases more with
      | nil =>
          cases rest with
          | nil => simp [wordsOfChars, hc]
          | cons d rest => simp [wordsOfChars, hc, hend d rfl]
      | cons d more =>
          have hd := hmore d List.mem_cons_self
          have hrest := ih (List.cons_ne_nil _ _) hmore
          rw [List.cons_append] at hrest
          rw [List.cons_append, List.cons_append, wordsOfChars.eq_def]
          simp only [hc, hd, hrest, Bool.false_eq_true, ↓reduceIte]

/-- The longest run of a kind of character at the beginning of a text, and what follows it. -/
theorem exists_run (kind : Char → Bool) (cs : List Char) :
    ∃ run rest, cs = run ++ rest ∧ (∀ c ∈ run, kind c = true) ∧
      ∀ c ∈ rest.head?, kind c = false := by
  refine ⟨cs.takeWhile kind, cs.dropWhile kind, List.takeWhile_append_dropWhile.symm,
    fun c hc => List.mem_takeWhile_imp hc, ?_⟩
  intro c hc
  have hhead := List.head?_dropWhile_not kind cs
  rw [Option.mem_def.mp hc] at hhead
  simpa using hhead

theorem exists_words (cs : List Char) : ∃ words, Words cs words := by
  induction hsize : cs.length using Nat.strongRecOn generalizing cs with
  | ind size ih =>
      subst hsize
      obtain ⟨blanks, rest, rfl, hblanks, hstart⟩ := exists_run isBlank cs
      cases rest with
      | nil => exact ⟨[], by simpa using Words.none hblanks⟩
      | cons c rest =>
          obtain ⟨word, after, hrest, hfree, hend⟩ := exists_run (fun d => !isBlank d) (c :: rest)
          have hsome : word ≠ [] := by
            rintro rfl
            rw [List.nil_append] at hrest
            have hblank := hend c (by rw [← hrest]; rfl)
            simp [hstart c rfl] at hblank
          rw [hrest, ← List.append_assoc]
          have hshorter : after.length < (blanks ++ c :: rest).length := by
            have hpos := List.length_pos_of_ne_nil hsome
            rw [hrest, List.length_append, List.length_append]
            omega
          obtain ⟨more, hmore⟩ := ih _ hshorter after rfl
          exact ⟨word :: more, .word hblanks hsome (by simpa using hfree) (by simpa using hend) hmore⟩

/-- The words of a text are told by their definition. -/
theorem wordsOfChars_eq_iff {cs : List Char} {words : List (List Char)} :
    wordsOfChars cs = words ↔ Words cs words := by
  have hread {cs : List Char} {words : List (List Char)} (h : Words cs words) :
      wordsOfChars cs = words := by
    induction h with
    | none hblanks => simpa [wordsOfChars] using wordsOfChars_blank hblanks []
    | word hblanks hsome hfree hend _ ih =>
        rw [List.append_assoc, wordsOfChars_blank hblanks, wordsOfChars_word hsome hfree hend, ih]
  refine ⟨?_, hread⟩
  rintro rfl
  obtain ⟨words, hwords⟩ := exists_words cs
  rw [hread hwords]
  exact hwords

end RequestDispatch.Text
