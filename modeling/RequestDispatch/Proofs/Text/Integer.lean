import RequestDispatch.Text.Integer

/-!
Which texts are integers. A text is read as an integer exactly when it is an optional sign followed
by digits and what it denotes is in range, and then that is what is read. The decimal text of every
integer denotes it.
-/

namespace RequestDispatch.Text

/-- A text is the number: a sign or none, and decimal digits, of which there is at least one. -/
inductive Denotes : List Char → Int → Prop where
  | unsigned {digits : List Char} (hsome : digits ≠ []) (hdigits : ∀ c ∈ digits, c.isDigit) :
      Denotes digits (Nat.ofDigitChars 10 digits 0)
  | plus {digits : List Char} (hsome : digits ≠ []) (hdigits : ∀ c ∈ digits, c.isDigit) :
      Denotes ('+' :: digits) (Nat.ofDigitChars 10 digits 0)
  | minus {digits : List Char} (hsome : digits ≠ []) (hdigits : ∀ c ∈ digits, c.isDigit) :
      Denotes ('-' :: digits) (-(Nat.ofDigitChars 10 digits 0))

theorem Denotes.ne_nil {s : List Char} {n : Int} (h : Denotes s n) : s ≠ [] := by
  cases h with
  | unsigned hsome _ => exact hsome
  | plus _ _ => exact List.cons_ne_nil _ _
  | minus _ _ => exact List.cons_ne_nil _ _

theorem digit?_eq_some_iff {c : Char} {d : Nat} :
    digit? 10 c = some d ↔ c.isDigit ∧ c.toNat - '0'.toNat = d := by
  have hclass : c.isDigit ↔ 48 ≤ c.toNat ∧ c.toNat ≤ 57 := by
    simp only [Char.isDigit, Bool.and_eq_true, decide_eq_true_eq, ge_iff_le,
      UInt32.le_iff_toNat_le]
    rfl
  have hzero : '0'.toNat = 48 := rfl
  rw [hclass, hzero]
  simp only [digit?, Option.filter_eq_some_iff, decide_eq_true_eq]
  -- Letters are digits of larger bases only.
  split
  · simp
    omega
  · split
    · simp
      omega
    · split <;> simp <;> omega

theorem le_ofDigitChars (s : List Char) (read : Nat) : read ≤ Nat.ofDigitChars 10 s read := by
  induction s generalizing read with
  | nil => exact Nat.le_refl _
  | cons c rest ih =>
      rw [Nat.ofDigitChars_cons]
      exact Nat.le_trans (by omega) (ih _)

/-- Digits are read to the end when they are digits and the number stays within the limit. -/
theorem readDigits_eq_ok_iff {limit read n : Nat} {tooFar : IntegerError} {s : List Char}
    (hread : read ≤ limit) :
    readDigits 10 limit tooFar read s = .ok n ↔
      (∀ c ∈ s, c.isDigit) ∧ Nat.ofDigitChars 10 s read = n ∧ n ≤ limit := by
  induction s generalizing read with
  | nil =>
      simp only [readDigits, Except.ok.injEq, List.not_mem_nil, Nat.ofDigitChars_nil]
      constructor
      · rintro rfl
        exact ⟨by simp, rfl, hread⟩
      · rintro ⟨_, rfl, _⟩
        rfl
  | cons c rest ih =>
      simp only [readDigits, List.forall_mem_cons, Nat.ofDigitChars_cons]
      cases hdigit : digit? 10 c with
      | none =>
          simp only [reduceCtorEq, false_iff]
          rintro ⟨⟨hc, _⟩, _⟩
          rw [digit?_eq_some_iff.mpr ⟨hc, rfl⟩] at hdigit
          cases hdigit
      | some d =>
          obtain ⟨hc, rfl⟩ := digit?_eq_some_iff.mp hdigit
          rw [Nat.mul_comm 10 read]
          simp only [hc, true_and]
          split
          · exact ih ‹_›
          · rename_i hfar
            simp only [reduceCtorEq, false_iff]
            rintro ⟨_, rfl, hle⟩
            exact hfar (Nat.le_trans (le_ofDigitChars _ _) hle)

/-- What digits are read to under a sign, where the bound on the digits is the range of the signed
number. -/
theorem map_readDigits_eq_ok_iff {limit bound : Nat} {tooFar : IntegerError} {digits : List Char}
    {sign : Nat → Int} {n : Int} (hsome : digits ≠ [])
    (hrange : ∀ m, m ≤ bound ↔ -(limit : Int) - 1 ≤ sign m ∧ sign m ≤ limit) :
    (readDigits 10 bound tooFar 0 digits).map sign = .ok n ↔
      (digits ≠ [] ∧ (∀ c ∈ digits, c.isDigit) ∧ sign (Nat.ofDigitChars 10 digits 0) = n) ∧
        -(limit : Int) - 1 ≤ n ∧ n ≤ limit := by
  have hdigits (m : Nat) : readDigits 10 bound tooFar 0 digits = .ok m ↔ _ :=
    readDigits_eq_ok_iff (Nat.zero_le bound)
  cases hread : readDigits 10 bound tooFar 0 digits with
  | ok m =>
      obtain ⟨hall, rfl, hle⟩ := (hdigits m).mp hread
      simp only [Except.map, Except.ok.injEq]
      constructor
      · rintro rfl
        exact ⟨⟨hsome, hall, rfl⟩, (hrange _).mp hle⟩
      · rintro ⟨⟨_, _, hsign⟩, _⟩
        exact hsign
  | error fault =>
      simp only [Except.map, reduceCtorEq, false_iff]
      rintro ⟨⟨_, hall, rfl⟩, hwithin⟩
      rw [(hdigits _).mpr ⟨hall, rfl, (hrange _).mpr hwithin⟩] at hread
      cases hread

theorem denotes_plus_iff {digits : List Char} {n : Int} :
    Denotes ('+' :: digits) n ↔
      digits ≠ [] ∧ (∀ c ∈ digits, c.isDigit) ∧ Int.ofNat (Nat.ofDigitChars 10 digits 0) = n := by
  constructor
  · intro h
    cases h with
    | unsigned _ hdigits => exact absurd (hdigits '+' List.mem_cons_self) (by decide)
    | plus hsome hdigits => exact ⟨hsome, hdigits, rfl⟩
  · rintro ⟨hsome, hdigits, rfl⟩
    exact .plus hsome hdigits

theorem denotes_minus_iff {digits : List Char} {n : Int} :
    Denotes ('-' :: digits) n ↔
      digits ≠ [] ∧ (∀ c ∈ digits, c.isDigit) ∧
        -Int.ofNat (Nat.ofDigitChars 10 digits 0) = n := by
  constructor
  · intro h
    cases h with
    | unsigned _ hdigits => exact absurd (hdigits '-' List.mem_cons_self) (by decide)
    | minus hsome hdigits => exact ⟨hsome, hdigits, rfl⟩
  · rintro ⟨hsome, hdigits, rfl⟩
    exact .minus hsome hdigits

theorem denotes_unsigned_iff {s : List Char} {n : Int} (hplus : ∀ digits, s ≠ '+' :: digits)
    (hminus : ∀ digits, s ≠ '-' :: digits) :
    Denotes s n ↔
      s ≠ [] ∧ (∀ c ∈ s, c.isDigit) ∧ Int.ofNat (Nat.ofDigitChars 10 s 0) = n := by
  constructor
  · intro h
    cases h with
    | unsigned hsome hdigits => exact ⟨hsome, hdigits, rfl⟩
    | plus => exact absurd rfl (hplus _)
    | minus => exact absurd rfl (hminus _)
  · rintro ⟨hsome, hdigits, rfl⟩
    exact .unsigned hsome hdigits

/-- An integer is read exactly when the text denotes it and it is in range. -/
theorem readSigned_eq_ok_iff {limit : Nat} {s : List Char} {n : Int} :
    readSigned limit s = .ok n ↔ Denotes s n ∧ -(limit : Int) - 1 ≤ n ∧ n ≤ limit := by
  unfold readSigned
  split
  · simp [denotes_unsigned_iff]
  · simp [denotes_plus_iff]
  · simp [denotes_minus_iff]
  · rename_i digits hsome
    rw [denotes_plus_iff]
    exact map_readDigits_eq_ok_iff (by simpa using hsome) fun m => by
      simp only [Int.ofNat_eq_natCast]
      omega
  · rename_i digits hsome
    rw [denotes_minus_iff]
    exact map_readDigits_eq_ok_iff (by simpa using hsome) fun m => by
      simp only [Int.ofNat_eq_natCast]
      omega
  · rename_i hsome _ _ hplus hminus
    rw [denotes_unsigned_iff (fun _ => hplus _) (fun _ => hminus _)]
    exact map_readDigits_eq_ok_iff hsome fun m => by
      simp only [Int.ofNat_eq_natCast]
      omega

/-- The decimal text of an integer denotes it. -/
theorem denotes_toString (n : Int) : Denotes (toString n).toList n := by
  have hdenotes (m : Nat) : Nat.toDigits 10 m ≠ [] ∧ (∀ c ∈ Nat.toDigits 10 m, c.isDigit) ∧
      Nat.ofDigitChars 10 (Nat.toDigits 10 m) 0 = m :=
    ⟨Nat.toDigits_ne_nil, fun _ => Nat.isDigit_of_mem_toDigits (by decide) (by decide),
      Nat.ofDigitChars_toDigits (by decide) (by decide)⟩
  rw [Int.toString_eq_repr, Int.repr_eq_if]
  split
  · obtain ⟨hsome, hdigits, hvalue⟩ := hdenotes n.toNat
    have hunsigned := Denotes.unsigned hsome hdigits
    rwa [hvalue, Int.toNat_of_nonneg ‹_›, ← Nat.toList_repr] at hunsigned
  · obtain ⟨hsome, hdigits, hvalue⟩ := hdenotes (-n).toNat
    have hminus := Denotes.minus hsome hdigits
    rw [hvalue, Int.toNat_of_nonneg (by omega), Int.neg_neg, ← Nat.toList_repr] at hminus
    rwa [String.toList_append]

end RequestDispatch.Text
