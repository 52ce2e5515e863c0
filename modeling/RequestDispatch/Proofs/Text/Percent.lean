import Mathlib
import RequestDispatch.Proofs.Text.Utf8
import RequestDispatch.Text.Percent

/-!
Percent-encoding is undone. Every percent-encoded form of a text is decoded to the text, and holds
no slash; and a segment that is not empty is not decoded to the empty text.
-/

namespace RequestDispatch.Text.Percent

/-- A character that may stand for itself: a letter or digit of ASCII, or one of four signs. -/
def IsUnreserved (c : Char) : Prop :=
  c.isAlphanum = true ∨ c ∈ ['-', '.', '_', '~']

/-- The hexadecimal digit of a number below sixteen, in either case. -/
def IsHexDigit (c : Char) (n : Nat) : Prop :=
  c = n.digitChar ∨ c = n.digitChar.toUpper

/-- The percent-encoded forms of some octets. -/
inductive Encodes : List UInt8 → List Char → Prop where
  | nil : Encodes [] []
  | plain {c : Char} {bytes : List UInt8} {rest : List Char} (hplain : IsUnreserved c)
      (hrest : Encodes bytes rest) : Encodes (UInt8.ofNat c.toNat :: bytes) (c :: rest)
  | escaped {b : UInt8} {high low : Char} {bytes : List UInt8} {rest : List Char}
      (hhigh : IsHexDigit high (b.toNat / 16)) (hlow : IsHexDigit low (b.toNat % 16))
      (hrest : Encodes bytes rest) : Encodes (b :: bytes) ('%' :: high :: low :: rest)

theorem IsUnreserved.ascii {c : Char} (h : IsUnreserved c) : c.toNat < 0x80 := by
  obtain halphanum | hsign := h
  · simp only [Char.isAlphanum, Char.isAlpha, Char.isUpper, Char.isLower, Char.isDigit,
      Bool.or_eq_true, Bool.and_eq_true, decide_eq_true_eq, ge_iff_le,
      UInt32.le_iff_toNat_le, Char.toNat_val, Char.reduceToNat] at halphanum
    omega
  · have hall : ∀ sign ∈ ['-', '.', '_', '~'], sign.toNat < 0x80 := by simp
    exact hall c hsign

theorem not_isUnreserved : ∀ c ∈ ['%', '/'], ¬IsUnreserved c := by
  simp [IsUnreserved, Char.isAlphanum, Char.isAlpha, Char.isUpper, Char.isLower, Char.isDigit]

/-- A hexadecimal digit is read as its number. -/
theorem IsHexDigit.reads {c : Char} {n : Nat} (h : IsHexDigit c n) (hn : n < 16) :
    c.toNat < 0x80 ∧ c ≠ '/' ∧ hexDigit? (UInt8.ofNat c.toNat) = some (UInt8.ofNat n) := by
  have hlower : ∀ m < 16, m.digitChar.toNat < 0x80 ∧ m.digitChar ≠ '/' ∧
      hexDigit? (UInt8.ofNat m.digitChar.toNat) = some (UInt8.ofNat m) := by decide
  have hupper : ∀ m < 16, m.digitChar.toUpper.toNat < 0x80 ∧ m.digitChar.toUpper ≠ '/' ∧
      hexDigit? (UInt8.ofNat m.digitChar.toUpper.toNat) = some (UInt8.ofNat m) := by decide
  obtain rfl | rfl := h
  · exact hlower n hn
  · exact hupper n hn

theorem decodeBytes_cons_of_ne {b : UInt8} (hb : b ≠ 0x25) (rest : List UInt8) :
    decodeBytes (b :: rest) = b :: decodeBytes rest := by
  rw [decodeBytes.eq_def]
  split
  · rename_i h
    cases h
  · rename_i h
    cases h
    exact absurd rfl hb
  · rename_i h
    cases h
    rfl

/-- The octets of a percent-encoded form are those that it was made from. -/
theorem Encodes.decodeBytes_eq {bytes : List UInt8} {written : List Char}
    (h : Encodes bytes written) :
    decodeBytes (written.flatMap String.utf8EncodeChar) = bytes := by
  induction h with
  | nil => rfl
  | @plain c bytes rest hplain _ ih =>
      have hb : UInt8.ofNat c.toNat ≠ 0x25 := by
        have hc := hplain.ascii
        intro hb
        have hpercent : c.toNat = '%'.toNat := by
          have hvalue := congrArg UInt8.toNat hb
          rw [UInt8.toNat_ofNat', Nat.mod_eq_of_lt (by omega)] at hvalue
          exact hvalue
        obtain rfl : c = '%' := Char.toNat_inj.mp hpercent
        exact not_isUnreserved '%' (by simp) hplain
      rw [List.flatMap_cons, Utf8.utf8EncodeChar_of_ascii hplain.ascii, List.singleton_append,
        decodeBytes_cons_of_ne hb, ih]
  | @escaped b high low bytes rest hhigh hlow _ ih =>
      have hb : b.toNat < 256 := b.toNat_lt
      obtain ⟨hhighAscii, _, hhighDigit⟩ := hhigh.reads (by omega)
      obtain ⟨hlowAscii, _, hlowDigit⟩ := hlow.reads (by omega)
      have hvalue : UInt8.ofNat (b.toNat / 16) * 16 + UInt8.ofNat (b.toNat % 16) = b := by
        rw [← UInt8.toNat_inj]
        simp
        omega
      simp only [List.flatMap_cons, Utf8.utf8EncodeChar_of_ascii (c := '%') (by decide),
        Utf8.utf8EncodeChar_of_ascii hhighAscii, Utf8.utf8EncodeChar_of_ascii hlowAscii,
        List.singleton_append]
      rw [show UInt8.ofNat '%'.toNat = 0x25 from rfl, decodeBytes, hhighDigit, hlowDigit]
      dsimp only
      rw [hvalue, ih]

theorem Encodes.no_slash {bytes : List UInt8} {written : List Char} (h : Encodes bytes written) :
    '/' ∉ written := by
  induction h with
  | nil => exact List.not_mem_nil
  | @plain c _ _ hplain _ ih =>
      rw [List.mem_cons, not_or]
      refine ⟨?_, ih⟩
      rintro rfl
      exact not_isUnreserved '/' (by simp) hplain
  | @escaped b high low _ _ hhigh hlow _ ih =>
      have hb : b.toNat < 256 := b.toNat_lt
      obtain ⟨_, hhighSlash, _⟩ := hhigh.reads (by omega)
      obtain ⟨_, hlowSlash, _⟩ := hlow.reads (by omega)
      simp only [List.mem_cons, not_or]
      exact ⟨by decide, hhighSlash.symm, hlowSlash.symm, ih⟩

theorem Encodes.ne_nil {bytes : List UInt8} {written : List Char} (h : Encodes bytes written)
    (hsome : bytes ≠ []) : written ≠ [] := by
  cases h with
  | nil => exact absurd rfl hsome
  | plain => exact List.cons_ne_nil _ _
  | escaped => exact List.cons_ne_nil _ _

/-- Every percent-encoded form of a text is decoded to the text. -/
theorem Encodes.decode_eq {text : String} {written : List Char}
    (h : Encodes (Utf8.encode text) written) : decode (String.ofList written) = text := by
  have hbytes : decodeBytes (Utf8.encode (String.ofList written)) = Utf8.encode text := by
    rw [Utf8.encode, String.toList_ofList, h.decodeBytes_eq]
  rw [decode, hbytes, Utf8.decode?_encode, Option.getD_some]

theorem decodeBytes_ne_nil {bytes : List UInt8} (hsome : bytes ≠ []) : decodeBytes bytes ≠ [] := by
  rw [decodeBytes.eq_def]
  split
  · exact absurd rfl hsome
  · split <;> exact List.cons_ne_nil _ _
  · exact List.cons_ne_nil _ _

theorem encode_ne_nil {text : String} (hsome : text ≠ "") : Utf8.encode text ≠ [] := by
  intro h
  exact hsome (Utf8.encode_injective h)

theorem decode_ne_empty {segment : String} (hsome : segment ≠ "") : decode segment ≠ "" := by
  have hbytes := decodeBytes_ne_nil (encode_ne_nil hsome)
  rw [decode]
  cases hdecode : Utf8.decode? (decodeBytes (Utf8.encode segment)) with
  | none => exact hsome
  | some text =>
      rintro rfl
      exact Utf8.decode?_ne_empty hbytes hdecode

end RequestDispatch.Text.Percent
