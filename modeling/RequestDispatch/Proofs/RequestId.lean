import Mathlib.Data.Nat.Digits.Lemmas
import RequestDispatch.Proofs.Text.Blank
import RequestDispatch.Proofs.Text.Utf8
import RequestDispatch.RequestId

/-!
Identifiers as texts. The text of an identifier is its numeral in base 32 with 26 digits, the most
significant first, and the identifier is read from its text again, also with blanks around it.
-/

namespace RequestDispatch.RequestId

/-- Digits that stand for a number in base 32, the most significant first. -/
structure Numeral (cs : List Char) (value : Nat) : Prop where
  digits : ∀ c ∈ cs, c ∈ alphabet
  value : Nat.ofDigits 32 (cs.reverse.map (alphabet.idxOf ·)) = value

/-! ### Digits -/

theorem digit?_of_mem {c : Char} (hc : c ∈ alphabet) : digit? c = some (alphabet.idxOf c) := by
  have hall : (alphabet.all fun c => digit? c = some (alphabet.idxOf c)) = true := by decide
  simpa using List.all_eq_true.mp hall c hc

theorem idxOf_lt {c : Char} (hc : c ∈ alphabet) : alphabet.idxOf c < 32 :=
  List.idxOf_lt_length_of_mem hc

theorem digitChar_spec : ∀ d < 32, digitChar d ∈ alphabet ∧ alphabet.idxOf (digitChar d) = d := by
  decide

theorem plain_of_mem {c : Char} (hc : c ∈ alphabet) :
    Text.isBlank c = false ∧ c.toNat < 0x80 := by
  have hall : (alphabet.all fun c => !Text.isBlank c && c.toNat < 0x80) = true := by decide
  simpa using List.all_eq_true.mp hall c hc

/-- A digit is read onto a number that was read before. -/
theorem shift_or_digit (read : Nat) {d : Nat} (hd : d < 32) :
    (BitVec.ofNat 128 read <<< 5) ||| BitVec.ofNat 128 d = BitVec.ofNat 128 (32 * read + d) := by
  have hshift : BitVec.ofNat 128 read <<< 5 = BitVec.ofNat 128 (2 ^ 5 * read) := by
    apply BitVec.eq_of_toNat_eq
    simp only [BitVec.toNat_shiftLeft, BitVec.toNat_ofNat, Nat.shiftLeft_eq]
    omega
  rw [hshift, ← BitVec.ofNat_or, ← Nat.two_pow_add_eq_or_of_lt (i := 5) hd]

/-! ### Numerals -/

theorem numeral_cons_iff {c : Char} {rest : List Char} {value : Nat} :
    Numeral (c :: rest) value ↔ c ∈ alphabet ∧ ∃ lower, Numeral rest lower ∧
      value = 32 ^ rest.length * alphabet.idxOf c + lower := by
  have hvalue : Nat.ofDigits 32 ((c :: rest).reverse.map (alphabet.idxOf ·)) =
      32 ^ rest.length * alphabet.idxOf c +
        Nat.ofDigits 32 (rest.reverse.map (alphabet.idxOf ·)) := by
    rw [List.reverse_cons, List.map_append, List.map_singleton, Nat.ofDigits_append,
      Nat.ofDigits_singleton, List.length_map, List.length_reverse, Nat.add_comm]
  constructor
  · rintro ⟨hdigits, rfl⟩
    obtain ⟨hc, hrest⟩ := List.forall_mem_cons.mp hdigits
    exact ⟨hc, _, ⟨hrest, rfl⟩, hvalue⟩
  · rintro ⟨hc, _, ⟨hrest, rfl⟩, rfl⟩
    exact ⟨List.forall_mem_cons.mpr ⟨hc, hrest⟩, hvalue⟩

/-- A numeral is read onto a number that was read before. What exceeds 128 bits is dropped. -/
theorem readDigits_of_numeral {cs : List Char} {value : Nat} (hcs : Numeral cs value)
    (read : Nat) :
    readDigits (BitVec.ofNat 128 read) cs =
      .ok (BitVec.ofNat 128 (32 ^ cs.length * read + value)) := by
  induction cs generalizing read value with
  | nil =>
      obtain rfl := hcs.value
      simp [readDigits]
  | cons c rest ih =>
      obtain ⟨hc, lower, hrest, rfl⟩ := numeral_cons_iff.mp hcs
      have hplace : 32 ^ rest.length * (32 * read + alphabet.idxOf c) + lower =
          32 ^ (c :: rest).length * read + (32 ^ rest.length * alphabet.idxOf c + lower) := by
        rw [List.length_cons, Nat.pow_succ]
        ring
      simp only [readDigits, digit?_of_mem hc, shift_or_digit read (idxOf_lt hc)]
      rw [ih hrest, hplace]

/-- The lowest digits of a number in base 32, the least significant first. -/
theorem ofDigits_lowest (value places : Nat) :
    Nat.ofDigits 32 ((List.range places).map fun i => value / 32 ^ i % 32) =
      value % 32 ^ places := by
  induction places with
  | zero => simp [Nat.mod_one]
  | succ places ih =>
      rw [List.range_succ, List.map_append, List.map_singleton, Nat.ofDigits_append, ih,
        Nat.ofDigits_singleton, List.length_map, List.length_range, Nat.mod_pow_succ]

theorem reverse_digits (id : RequestId) :
    id.digits.reverse = (List.range 26).map fun i => digitChar (id.bits.toNat / 32 ^ i % 32) := by
  have hplaces : (List.range 26).reverse = (List.range 26).map (25 - ·) := by decide
  rw [digits, ← List.map_reverse, hplaces, List.map_map]
  apply List.map_congr_left
  intro i hi
  have hback : 25 - (25 - i) = i := by
    have := List.mem_range.mp hi
    omega
  simp only [Function.comp_apply, BitVec.toNat_ushiftRight, Nat.shiftRight_eq_div_pow, hback,
    Nat.pow_mul, Nat.reducePow]

/-- The digits of an identifier are its numeral. -/
theorem numeral_digits (id : RequestId) : Numeral id.digits id.bits.toNat := by
  constructor
  · intro c hc
    rw [← List.mem_reverse, reverse_digits] at hc
    obtain ⟨i, _, rfl⟩ := List.mem_map.mp hc
    exact (digitChar_spec _ (Nat.mod_lt _ (by decide))).1
  · have hvalues : id.digits.reverse.map (alphabet.idxOf ·) =
        (List.range 26).map fun i => id.bits.toNat / 32 ^ i % 32 := by
      rw [reverse_digits, List.map_map]
      apply List.map_congr_left
      intro i _
      exact (digitChar_spec _ (Nat.mod_lt _ (by decide))).2
    -- The 26 digits have room for two bits more than there are.
    have hroom : id.bits.toNat < 32 ^ 26 := Nat.lt_trans id.bits.isLt (by decide)
    rw [hvalues, ofDigits_lowest, Nat.mod_eq_of_lt hroom]

/-! ### Texts -/

theorem length_digits (id : RequestId) : id.digits.length = 26 := by
  rw [digits, List.length_map, List.length_range]

theorem utf8ByteSize_text (id : RequestId) : id.text.utf8ByteSize = 26 := by
  have hascii : ∀ c ∈ id.digits, c.toNat < 0x80 :=
    fun c hc => (plain_of_mem (id.numeral_digits.digits c hc)).2
  rw [text, ← Text.Utf8.length_encode, Text.Utf8.encode_of_ascii hascii, List.length_map,
    length_digits]

/-- An identifier is read from its text. -/
theorem parse_text (id : RequestId) : parse id.text = .ok id := by
  have hread := readDigits_of_numeral id.numeral_digits 0
  rw [Nat.mul_zero, Nat.zero_add, BitVec.ofNat_toNat, BitVec.setWidth_eq] at hread
  rw [parse, if_pos id.utf8ByteSize_text, text, String.toList_ofList]
  exact congrArg (Except.map RequestId.mk) hread

/-- Blanks around the text of an identifier in a header do not count. -/
theorem ofHeader?_padded (id : RequestId) {left right : List Char} (hleft : Text.Blank left)
    (hright : Text.Blank right) :
    ofHeader? (some (String.ofList (left ++ id.text.toList ++ right))) = some id := by
  have htrimmed : Text.Trimmed id.digits :=
    Text.trimmed_of_free fun c hc => (plain_of_mem (id.numeral_digits.digits c hc)).1
  have htrim : Text.trim (String.ofList (left ++ id.text.toList ++ right)) = id.text := by
    rw [Text.trim, String.toList_ofList, Text.trimChars_padded hleft hright, text,
      String.toList_ofList, htrimmed]
  rw [ofHeader?, Option.bind_some, htrim, parse_text]
  rfl

end RequestDispatch.RequestId
