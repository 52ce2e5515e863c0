import RequestDispatch.Text.Utf8

/-!
UTF-8 is read back. The octets that encode a text are those that it is stored as. Decoding them
gives that text, and only from no octets at all does it give the empty one.
-/

namespace RequestDispatch.Text.Utf8

/-- A text is encoded as the octets that it is stored as. -/
theorem toByteArray_encode (s : String) : (encode s).toByteArray = s.toUTF8 :=
  String.utf8Encode_toList

theorem length_encode (s : String) : (encode s).length = s.utf8ByteSize := by
  rw [← List.size_toByteArray, toByteArray_encode]
  rfl

/-- A character of ASCII is encoded as one octet. -/
theorem utf8EncodeChar_of_ascii {c : Char} (hc : c.toNat < 0x80) :
    String.utf8EncodeChar c = [UInt8.ofNat c.toNat] := by
  have hle : c.val.toNat ≤ 0x7f := Nat.le_of_lt_succ hc
  rw [String.utf8EncodeChar, if_pos hle]
  rfl

theorem encode_of_ascii {chars : List Char} (hascii : ∀ c ∈ chars, c.toNat < 0x80) :
    encode (String.ofList chars) = chars.map fun c => UInt8.ofNat c.toNat := by
  rw [encode, String.toList_ofList]
  induction chars with
  | nil => rfl
  | cons c rest ih =>
      obtain ⟨hc, hrest⟩ := List.forall_mem_cons.mp hascii
      rw [List.flatMap_cons, utf8EncodeChar_of_ascii hc, ih hrest]
      rfl

/-! ### Single characters -/

theorem not_lt_of_toNat {b : UInt8} {least : Nat} (h : least ≤ b.toNat) (bound : UInt8)
    (hbound : bound.toNat ≤ least) : ¬b < bound := by
  rw [UInt8.lt_iff_toNat_lt]
  omega

theorem scan_one {lead : UInt8} (h : lead.toNat < 0x80) (rest : List UInt8) :
    scan lead rest = .scalar (Char.ofNat lead.toNat) 1 := by
  have hlead : lead < 0x80 := UInt8.lt_iff_toNat_lt.mpr h
  rw [scan.eq_def, if_pos hlead]

theorem scan_two {lead b : UInt8} (h : 0xC2 ≤ lead.toNat ∧ lead.toNat < 0xE0)
    (hb : isContinuation b = true) (rest : List UInt8) :
    scan lead (b :: rest) = .scalar (Char.ofNat (lead.toNat % 32 * 64 + payload b)) 2 := by
  have hless : lead < 0xE0 := UInt8.lt_iff_toNat_lt.mpr h.2
  simp only [scan, not_lt_of_toNat h.1 0x80 (by decide), not_lt_of_toNat h.1 0xC2 (by decide),
    hless, hb, ↓reduceIte]

theorem scan_three {lead b c : UInt8} (h : 0xE0 ≤ lead.toNat ∧ lead.toNat < 0xF0)
    (hb : secondOfThree lead b = true) (hc : isContinuation c = true) (rest : List UInt8) :
    scan lead (b :: c :: rest) =
      .scalar (Char.ofNat (lead.toNat % 16 * 4096 + payload b * 64 + payload c)) 3 := by
  have hless : lead < 0xF0 := UInt8.lt_iff_toNat_lt.mpr h.2
  simp only [scan, not_lt_of_toNat h.1 0x80 (by decide), not_lt_of_toNat h.1 0xC2 (by decide),
    not_lt_of_toNat h.1 0xE0 (by decide), hless, hb, hc, ↓reduceIte]

theorem scan_four {lead b c d : UInt8} (h : 0xF0 ≤ lead.toNat ∧ lead.toNat < 0xF5)
    (hb : secondOfFour lead b = true) (hc : isContinuation c = true)
    (hd : isContinuation d = true) (rest : List UInt8) :
    scan lead (b :: c :: d :: rest) =
      .scalar (Char.ofNat (lead.toNat % 8 * 262144 + payload b * 4096 + payload c * 64
        + payload d)) 4 := by
  have hless : lead < 0xF5 := UInt8.lt_iff_toNat_lt.mpr h.2
  simp only [scan, not_lt_of_toNat h.1 0x80 (by decide), not_lt_of_toNat h.1 0xC2 (by decide),
    not_lt_of_toNat h.1 0xE0 (by decide), not_lt_of_toNat h.1 0xF0 (by decide), hless, hb, hc, hd,
    ↓reduceIte]

/-- The octet behind the first one that holds six bits of a character. -/
theorem toNat_trailing (n : Nat) : (UInt8.ofNat (n % 64 + 0x80)).toNat = n % 64 + 0x80 := by
  rw [UInt8.toNat_ofNat']
  omega

theorem isContinuation_trailing (n : Nat) : isContinuation (UInt8.ofNat (n % 64 + 0x80)) = true := by
  simp only [isContinuation, Bool.and_eq_true, decide_eq_true_eq, UInt8.le_iff_toNat_le,
    toNat_trailing]
  simp
  omega

theorem payload_trailing (n : Nat) : payload (UInt8.ofNat (n % 64 + 0x80)) = n % 64 := by
  rw [payload, toNat_trailing]
  omega

/-- Two leading octets restrict what may follow them, one from below and one from above. -/
theorem second_of_isContinuation {lead b low high least greatest : UInt8}
    (hb : isContinuation b = true) (hlow : lead.toNat = low.toNat → least.toNat ≤ b.toNat)
    (hhigh : lead.toNat = high.toNat → b.toNat ≤ greatest.toNat) :
    (if lead == low then decide (least ≤ b) && decide (b ≤ 0xBF)
      else if lead == high then decide (0x80 ≤ b) && decide (b ≤ greatest)
      else isContinuation b) = true := by
  have hrange : 0x80 ≤ b ∧ b ≤ 0xBF := by simpa [isContinuation] using hb
  simp only [beq_iff_eq, ← UInt8.toNat_inj]
  split
  · rename_i hlead
    simp [UInt8.le_iff_toNat_le.mpr (hlow hlead), hrange]
  · split
    · rename_i hlead
      simp [UInt8.le_iff_toNat_le.mpr (hhigh hlead), hrange]
    · exact hb

/-- A character is scanned from the octets that encode it, whatever follows them. -/
theorem scan_utf8EncodeChar (c : Char) :
    ∃ lead more, String.utf8EncodeChar c = lead :: more ∧
      ∀ rest, scan lead (more ++ rest) = .scalar c (more.length + 1) := by
  have hvalid : c.val.toNat < 0xD800 ∨ 0xDFFF < c.val.toNat ∧ c.val.toNat < 0x110000 := c.valid
  have hc : Char.ofNat c.val.toNat = c := Char.ofNat_toNat c
  unfold String.utf8EncodeChar
  generalize c.val.toNat = v at hc hvalid
  dsimp only
  split
  · refine ⟨_, _, rfl, fun rest => ?_⟩
    have hlead : (UInt8.ofNat v).toNat = v := by
      rw [UInt8.toNat_ofNat']
      omega
    rw [List.nil_append, scan_one (by omega), hlead, hc]
    rfl
  · split
    · refine ⟨_, _, rfl, fun rest => ?_⟩
      have hlead : (UInt8.ofNat (v / 64 % 0x20 + 0xc0)).toNat = v / 64 + 0xc0 := by
        rw [UInt8.toNat_ofNat']
        omega
      have hv : (v / 64 + 0xc0) % 32 * 64 + v % 64 = v := by omega
      rw [List.singleton_append, scan_two (by omega) (isContinuation_trailing v), hlead,
        payload_trailing, hv, hc]
      rfl
    · split
      · refine ⟨_, _, rfl, fun rest => ?_⟩
        have hlead : (UInt8.ofNat (v / 4096 % 0x10 + 0xe0)).toNat = v / 4096 + 0xe0 := by
          rw [UInt8.toNat_ofNat']
          omega
        have hsecond : secondOfThree (UInt8.ofNat (v / 4096 % 0x10 + 0xe0))
            (UInt8.ofNat (v / 64 % 0x40 + 0x80)) = true := by
          refine second_of_isContinuation (isContinuation_trailing _) ?_ ?_ <;>
            rw [hlead, toNat_trailing] <;> simp <;> omega
        have hv : (v / 4096 + 0xe0) % 16 * 4096 + v / 64 % 64 * 64 + v % 64 = v := by omega
        rw [List.cons_append, List.singleton_append,
          scan_three (by omega) hsecond (isContinuation_trailing v), hlead, payload_trailing,
          payload_trailing, hv, hc]
        rfl
      · refine ⟨_, _, rfl, fun rest => ?_⟩
        have hlead : (UInt8.ofNat (v / 262144 % 0x08 + 0xf0)).toNat = v / 262144 + 0xf0 := by
          rw [UInt8.toNat_ofNat']
          omega
        have hsecond : secondOfFour (UInt8.ofNat (v / 262144 % 0x08 + 0xf0))
            (UInt8.ofNat (v / 4096 % 0x40 + 0x80)) = true := by
          refine second_of_isContinuation (isContinuation_trailing _) ?_ ?_ <;>
            rw [hlead, toNat_trailing] <;> simp <;> omega
        have hv : (v / 262144 + 0xf0) % 8 * 262144 + v / 4096 % 64 * 4096 + v / 64 % 64 * 64
            + v % 64 = v := by omega
        rw [List.cons_append, List.cons_append, List.singleton_append,
          scan_four (by omega) hsecond (isContinuation_trailing _) (isContinuation_trailing v),
          hlead, payload_trailing, payload_trailing, payload_trailing, hv, hc]
        rfl

/-! ### Texts -/

theorem scanAll_encode (chars : List Char) {fuel : Nat} (hfuel : chars.length < fuel)
    (read : List Char) (size : Nat) :
    ∃ total, scanAll fuel read size (chars.flatMap String.utf8EncodeChar) =
      (chars.reverse ++ read, total, []) := by
  induction chars generalizing fuel read size with
  | nil =>
      obtain ⟨fuel, rfl⟩ := Nat.exists_eq_succ_of_ne_zero (Nat.ne_of_gt hfuel)
      exact ⟨size, rfl⟩
  | cons c rest ih =>
      obtain ⟨fuel, rfl⟩ := Nat.exists_eq_succ_of_ne_zero (Nat.ne_of_gt (Nat.zero_lt_of_lt hfuel))
      obtain ⟨lead, more, hencode, hscan⟩ := scan_utf8EncodeChar c
      obtain ⟨total, hrest⟩ := ih (Nat.lt_of_succ_lt_succ hfuel) (c :: read)
        (size + (more.length + 1))
      refine ⟨total, ?_⟩
      rw [List.flatMap_cons, hencode, List.cons_append, scanAll]
      simp only [hscan, Nat.add_sub_cancel, List.drop_left, hrest, List.reverse_cons,
        List.append_assoc, List.singleton_append]

theorem length_le_encode (chars : List Char) :
    chars.length ≤ (chars.flatMap String.utf8EncodeChar).length := by
  induction chars with
  | nil => exact Nat.le_refl _
  | cons c rest ih =>
      have hpos := c.utf8Size_pos
      rw [List.flatMap_cons, List.length_append, String.length_utf8EncodeChar, List.length_cons]
      omega

/-- What is encoded is decoded to what it was. -/
theorem decode?_encode (s : String) : decode? (encode s) = some s := by
  have hfuel : s.toList.length < (encode s).length + 1 :=
    Nat.lt_succ_of_le (length_le_encode s.toList)
  obtain ⟨total, hscan⟩ := scanAll_encode s.toList hfuel [] 0
  rw [← encode] at hscan
  simp only [decode?, hscan, List.isEmpty_nil, ↓reduceIte, List.append_nil, List.reverse_reverse,
    String.ofList_toList]

theorem encode_injective : Function.Injective encode := by
  intro a b h
  rw [← Option.some.injEq, ← decode?_encode a, h, decode?_encode]

theorem suffix_scanAll (fuel : Nat) (read : List Char) (size : Nat) (bytes : List UInt8) :
    read <:+ (scanAll fuel read size bytes).1 := by
  fun_induction scanAll fuel read size bytes with
  | case1 => exact List.suffix_refl _
  | case2 => exact List.suffix_refl _
  | case3 fuel read size b rest c n hscan ih => exact (List.suffix_cons c read).trans ih
  | case4 => exact List.suffix_refl _

/-- Some octets do not decode to the empty text. -/
theorem decode?_ne_empty {bytes : List UInt8} (hsome : bytes ≠ []) :
    decode? bytes ≠ some "" := by
  obtain ⟨b, rest, rfl⟩ := List.exists_cons_of_ne_nil hsome
  rw [decode?, scanAll]
  cases scan b rest with
  | illFormed n => simp
  | scalar c n =>
      have hsuffix := suffix_scanAll (b :: rest).length [c] (0 + n) (rest.drop (n - 1))
      dsimp only
      split
      · rw [ne_eq, Option.some.injEq, ← String.toList_inj, String.toList_ofList]
        intro hread
        rw [List.reverse_eq_nil_iff.mp hread] at hsuffix
        exact absurd (List.suffix_nil.mp hsuffix) (List.cons_ne_nil _ _)
      · exact nofun

end RequestDispatch.Text.Utf8
