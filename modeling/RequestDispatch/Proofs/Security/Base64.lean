import Mathlib.Data.List.Basic
import RequestDispatch.Proofs.Text.Utf8
import RequestDispatch.Security.Base64

/-!
Base 64 is exact. Octets have one form for URLs and one standard form, and reading accepts these
forms and nothing else. The two forms do not get into each other's way: a text that is both stands
for the same octets in both.
-/

namespace RequestDispatch.Base64

/-! ### Sextets and octets -/

/-- The sextets of some octets. The bits that the last sextet has beyond the last octet are zero. -/
def sextetsOf : List UInt8 → List Nat
  | a :: b :: c :: rest =>
      a.toNat / 4 :: (a.toNat % 4 * 16 + b.toNat / 16) :: (b.toNat % 16 * 4 + c.toNat / 64) ::
        c.toNat % 64 :: sextetsOf rest
  | [a, b] => [a.toNat / 4, a.toNat % 4 * 16 + b.toNat / 16, b.toNat % 16 * 4]
  | [a] => [a.toNat / 4, a.toNat % 4 * 16]
  | [] => []

/-- Sextets that some octets have. -/
def Canonical : List Nat → Prop
  | a :: b :: c :: d :: rest => a < 64 ∧ b < 64 ∧ c < 64 ∧ d < 64 ∧ Canonical rest
  | [a, b, c] => a < 64 ∧ b < 64 ∧ c < 64 ∧ c % 4 = 0
  | [a, b] => a < 64 ∧ b < 64 ∧ b % 16 = 0
  | [_] => False
  | [] => True

theorem octets_sextetsOf (bytes : List UInt8) : octets (sextetsOf bytes) = bytes := by
  fun_induction sextetsOf bytes with
  | case1 a b c rest ih =>
      have ha := a.toNat_lt
      have hb := b.toNat_lt
      have hc := c.toNat_lt
      simp only [octets, ih, List.cons.injEq, and_true, ← UInt8.toNat_inj, UInt8.toNat_ofNat']
      omega
  | case2 a b =>
      have ha := a.toNat_lt
      have hb := b.toNat_lt
      simp only [octets, List.cons.injEq, and_true, ← UInt8.toNat_inj, UInt8.toNat_ofNat']
      omega
  | case3 a =>
      have ha := a.toNat_lt
      simp only [octets, List.cons.injEq, and_true, ← UInt8.toNat_inj, UInt8.toNat_ofNat']
      omega
  | case4 => rfl

theorem canonical_sextetsOf (bytes : List UInt8) : Canonical (sextetsOf bytes) := by
  fun_induction sextetsOf bytes with
  | case1 a b c rest ih =>
      have ha := a.toNat_lt
      have hb := b.toNat_lt
      have hc := c.toNat_lt
      exact ⟨by omega, by omega, by omega, by omega, ih⟩
  | case2 a b =>
      have ha := a.toNat_lt
      have hb := b.toNat_lt
      exact ⟨by omega, by omega, by omega, by omega⟩
  | case3 a =>
      have ha := a.toNat_lt
      exact ⟨by omega, by omega, by omega⟩
  | case4 => trivial

theorem sextetsOf_octets {ns : List Nat} (h : Canonical ns) : sextetsOf (octets ns) = ns := by
  fun_induction Canonical ns with
  | case1 a b c d rest ih =>
      obtain ⟨ha, hb, hc, hd, hrest⟩ := h
      simp only [octets, sextetsOf, UInt8.toNat_ofNat', ih hrest, List.cons.injEq, and_true]
      omega
  | case2 a b c =>
      obtain ⟨ha, hb, hc, hstray⟩ := h
      simp only [octets, sextetsOf, UInt8.toNat_ofNat', List.cons.injEq, and_true]
      omega
  | case3 a b =>
      obtain ⟨ha, hb, hstray⟩ := h
      simp only [octets, sextetsOf, UInt8.toNat_ofNat', List.cons.injEq, and_true]
      omega
  | case4 a => exact h.elim
  | case5 => rfl

/-- Sextets are canonical when they are those of the octets that they are read as. -/
theorem canonical_iff {ns : List Nat} {bytes : List UInt8} :
    Canonical ns ∧ octets ns = bytes ↔ ns = sextetsOf bytes := by
  constructor
  · rintro ⟨hcanonical, rfl⟩
    exact (sextetsOf_octets hcanonical).symm
  · rintro rfl
    exact ⟨canonical_sextetsOf bytes, octets_sextetsOf bytes⟩

/-- Full groups in front of others can hold any sextets. -/
theorem canonical_append {front group : List Nat} (hfull : front.length % 4 = 0) :
    Canonical (front ++ group) ↔ (∀ n ∈ front, n < 64) ∧ Canonical group := by
  fun_induction Canonical front with
  | case1 a b c d rest ih =>
      have hrest : rest.length % 4 = 0 := by
        simp only [List.length_cons] at hfull
        omega
      simp only [List.cons_append, Canonical, ih hrest, List.forall_mem_cons, and_assoc]
  | case2 a b c => simp at hfull
  | case3 a b => simp at hfull
  | case4 a => simp at hfull
  | case5 => simp

/-- A last group is not a single symbol and has no stray bits. -/
theorem canonical_group {group : List Nat} (hlength : group.length ≤ 4) :
    Canonical group ↔
      (∀ n ∈ group, n < 64) ∧ group.length ≠ 1 ∧ hasStrayBits group = false := by
  match group, hlength with
  | [], _ => simp [Canonical, hasStrayBits]
  | [_], _ => simp [Canonical]
  | [a, b], _ => simp [Canonical, hasStrayBits, and_assoc]
  | [a, b, c], _ => simp [Canonical, hasStrayBits, and_assoc]
  | [a, b, c, d], _ => simp [Canonical, hasStrayBits]
  | _ :: _ :: _ :: _ :: _ :: _, hlength =>
      simp only [List.length_cons] at hlength
      omega

/-! ### Reading symbols -/

/-- Symbols that are read back as what they were written for. None of them is the padding. -/
structure Alphabet (symbol : UInt8 → Option Nat) (write : Nat → UInt8) : Prop where
  reads : ∀ b n, symbol b = some n ↔ n < 64 ∧ b = write n
  padding : symbol padding = none

section Alphabet

variable {symbol : UInt8 → Option Nat} {write : Nat → UInt8}

theorem sextets_eq_ok_iff (hsymbol : Alphabet symbol write) {offset : Nat} {text : List UInt8}
    {ns : List Nat} :
    sextets symbol offset text = .ok ns ↔ text = ns.map write ∧ ∀ n ∈ ns, n < 64 := by
  induction text generalizing offset ns with
  | nil =>
      rw [sextets, Except.ok.injEq]
      constructor
      · rintro rfl
        exact ⟨rfl, nofun⟩
      · rintro ⟨hnone, _⟩
        exact (List.map_eq_nil_iff.mp hnone.symm).symm
  | cons b rest ih =>
      constructor
      · intro h
        rw [sextets] at h
        split at h
        · cases h
        · rename_i n hn
          obtain ⟨hbound, rfl⟩ := (hsymbol.reads b n).mp hn
          cases hrest : sextets symbol (offset + 1) rest with
          | error fault =>
              rw [hrest] at h
              cases h
          | ok more =>
              rw [hrest] at h
              cases h
              obtain ⟨rfl, hmore⟩ := ih.mp hrest
              exact ⟨rfl, List.forall_mem_cons.mpr ⟨hbound, hmore⟩⟩
      · rintro ⟨htext, hbounds⟩
        obtain ⟨n, more, rfl, rfl, rfl⟩ := List.map_eq_cons_iff.mp htext.symm
        obtain ⟨hbound, hmore⟩ := List.forall_mem_cons.mp hbounds
        have hn := (hsymbol.reads (write n) n).mpr ⟨hbound, rfl⟩
        have hrest : sextets symbol (offset + 1) (more.map write) = .ok more :=
          ih.mpr ⟨rfl, hmore⟩
        rw [sextets, hn, hrest]
        rfl

theorem Alphabet.write_ne_padding (hsymbol : Alphabet symbol write) {n : Nat} (hn : n < 64) :
    write n ≠ Base64.padding := by
  intro hpadding
  have hreads := (hsymbol.reads (write n) n).mpr ⟨hn, rfl⟩
  rw [hpadding, hsymbol.padding] at hreads
  cases hreads

/-- What the last group is read as: further symbols, and then padding when two symbols are there. -/
theorem lastGroup_eq_ok_iff (hsymbol : Alphabet symbol write) {start : Nat} {read : List Nat}
    {pads : Nat} {text : List UInt8} {group : List Nat} {total : Nat} :
    lastGroup symbol start read pads text = .ok (group, total) ↔
      ∃ more extra, text = more.map write ++ List.replicate extra padding ∧
        (∀ n ∈ more, n < 64) ∧ group = read.reverse ++ more ∧ total = pads + extra ∧
        (0 < pads → more = []) ∧ (0 < extra → 2 ≤ read.length + more.length + pads) := by
  induction text generalizing read pads with
  | nil =>
      rw [lastGroup, Except.ok.injEq, Prod.mk.injEq]
      constructor
      · rintro ⟨rfl, rfl⟩
        exact ⟨[], 0, rfl, nofun, by simp, rfl, fun _ => rfl, nofun⟩
      · rintro ⟨more, extra, htext, _, rfl, rfl, _, _⟩
        obtain ⟨hmore, hextra⟩ := List.append_eq_nil_iff.mp htext.symm
        obtain rfl := List.map_eq_nil_iff.mp hmore
        obtain rfl := (List.replicate_eq_nil_iff _).mp hextra
        exact ⟨by simp, rfl⟩
  | cons b rest ih =>
      constructor
      · intro h
        rw [lastGroup] at h
        split at h
        · rename_i hpadding
          obtain rfl := eq_of_beq hpadding
          split at h
          · cases h
          · rename_i hplace
            obtain ⟨more, extra, rfl, hbounds, rfl, rfl, hnone, hbehind⟩ := ih.mp h
            obtain rfl := hnone (by omega)
            refine ⟨[], extra + 1, by simp [List.replicate_succ], hbounds, rfl, by omega,
              fun _ => rfl, fun _ => ?_⟩
            rw [List.length_nil]
            omega
        · split at h
          · cases h
          · rename_i hpads
            split at h
            · cases h
            · rename_i n hn
              obtain ⟨hbound, rfl⟩ := (hsymbol.reads b n).mp hn
              obtain ⟨more, extra, rfl, hbounds, rfl, rfl, _, hbehind⟩ := ih.mp h
              refine ⟨n :: more, extra, rfl, List.forall_mem_cons.mpr ⟨hbound, hbounds⟩,
                by simp, by omega, by omega, fun hextra => ?_⟩
              have htwo := hbehind hextra
              simp only [List.length_cons] at htwo ⊢
              omega
      · rintro ⟨more, extra, htext, hbounds, rfl, rfl, hnone, hbehind⟩
        rw [lastGroup]
        cases more with
        | nil =>
            obtain ⟨extra, rfl⟩ : ∃ k, extra = k + 1 := by
              cases extra with
              | zero => cases htext
              | succ k => exact ⟨k, rfl⟩
            rw [List.map_nil, List.nil_append, List.replicate_succ, List.cons.injEq] at htext
            obtain ⟨rfl, rfl⟩ := htext
            have htwo := hbehind (by omega)
            rw [List.length_nil] at htwo
            rw [if_pos (beq_self_eq_true _), if_neg (by omega)]
            exact ih.mpr ⟨[], extra, rfl, nofun, rfl, by omega, fun _ => rfl, fun _ => by
              rw [List.length_nil]; omega⟩
        | cons n more =>
            obtain ⟨rfl, rfl⟩ := List.cons.inj htext
            obtain ⟨hbound, hbounds⟩ := List.forall_mem_cons.mp hbounds
            have hpads : ¬0 < pads := fun hpads => List.cons_ne_nil _ _ (hnone hpads)
            have hpadding : ¬(write n == padding) = true := by
              simpa using hsymbol.write_ne_padding hbound
            rw [if_neg hpadding, if_neg hpads, (hsymbol.reads (write n) n).mpr ⟨hbound, rfl⟩]
            refine ih.mpr ⟨more, extra, rfl, hbounds, by simp, by omega, by omega, fun hextra => ?_⟩
            have htwo := hbehind hextra
            simp only [List.length_cons] at htwo ⊢
            omega

/-- How much padding stands behind some symbols. -/
def fill (padded : Bool) (length : Nat) : Nat :=
  if padded then (4 - length % 4) % 4 else 0

/-- The form of some octets: their symbols, and then the padding. -/
def written (write : Nat → UInt8) (padded : Bool) (bytes : List UInt8) : List UInt8 :=
  (sextetsOf bytes).map write ++ List.replicate (fill padded (sextetsOf bytes).length) padding

/-- Where the last group begins. -/
theorem start_of_lastGroup (size : Nat) :
    let start := size - (if size % 4 = 0 then 4 else size % 4)
    start % 4 = 0 ∧ start ≤ size ∧ size ≤ start + 4 ∧ (0 < size → start < size) := by
  intro start
  by_cases hfull : size % 4 = 0
  · simp only [start, if_pos hfull]
    omega
  · simp only [start, if_neg hfull]
    omega

theorem written_of_decode (hsymbol : Alphabet symbol write) {padded : Bool}
    {text bytes : List UInt8} (h : decode symbol padded text = .ok bytes) :
    text = written write padded bytes := by
  simp only [decode, bind, Except.bind] at h
  obtain ⟨hfull, hstart, hend, hsome⟩ := start_of_lastGroup text.length
  generalize text.length - (if text.length % 4 = 0 then 4 else text.length % 4) = start at *
  split at h
  · cases h
  · split at h
    · cases h
    · rename_i front hfront
      split at h
      · cases h
      · rename_i result hresult
        obtain ⟨group, pads⟩ := result
        obtain ⟨hfrontText, hfrontBounds⟩ := (sextets_eq_ok_iff hsymbol).mp hfront
        obtain ⟨group, pads, hgroupText, hgroupBounds, rfl, rfl, _, _⟩ :=
          (lastGroup_eq_ok_iff hsymbol).mp hresult
        simp only [Nat.zero_add] at h
        split_ifs at h with hshort hunfilled hfilled hstray
        cases h
        have hfrontLength : front.length = start := by
          simpa [hstart] using (congrArg List.length hfrontText).symm
        have hgroupLength : group.length + pads = text.length - start := by
          simpa using (congrArg List.length hgroupText).symm
        have hcanonical : Canonical (front ++ group) := by
          rw [canonical_append (by omega), canonical_group (by omega)]
          exact ⟨hfrontBounds, hgroupBounds, by omega, by simpa using hstray⟩
        have hfill : fill padded (front ++ group).length = pads := by
          rw [List.length_append, fill]
          cases padded with
          | false =>
              have hnone : pads = 0 := by simpa using hfilled
              rw [hnone]
              rfl
          | true =>
              have hwhole : (group.length + pads) % 4 = 0 := by simpa using hunfilled
              rw [if_pos rfl]
              omega
        rw [written, sextetsOf_octets hcanonical, hfill, List.map_append, List.append_assoc,
          ← hfrontText, ← hgroupText, List.take_append_drop]

theorem Canonical.length {ns : List Nat} (h : Canonical ns) : ns.length % 4 ≠ 1 := by
  fun_induction Canonical ns with
  | case1 a b c d rest ih =>
      have hrest := ih h.2.2.2.2
      simp only [List.length_cons]
      omega
  | case2 a b c => simp
  | case3 a b => simp
  | case4 a => exact h.elim
  | case5 => simp

/-- Symbols and the padding behind them fill the last group, and two of them at least are there. -/
theorem fill_spec (padded : Bool) {length : Nat} (hlength : length % 4 ≠ 1) :
    (length + fill padded length) % 4 ≠ 1 ∧ fill padded length ≤ 2 ∧
      (padded = true → (length + fill padded length) % 4 = 0) ∧
      (padded = false → fill padded length = 0) := by
  cases padded with
  | false => exact ⟨hlength, Nat.zero_le 2, nofun, fun _ => rfl⟩
  | true =>
      rw [fill, if_pos rfl]
      exact ⟨by omega, by omega, fun _ => by omega, nofun⟩

theorem decode_written (hsymbol : Alphabet symbol write) (padded : Bool) (bytes : List UInt8) :
    decode symbol padded (written write padded bytes) = .ok bytes := by
  obtain ⟨hcanonical, hoctets⟩ := canonical_iff.mpr (rfl : sextetsOf bytes = _)
  rw [written]
  generalize sextetsOf bytes = ns at hcanonical hoctets
  obtain ⟨hsingle, hpads, hpadded, hunpadded⟩ := fill_spec padded hcanonical.length
  generalize fill padded ns.length = pads at *
  generalize htext : ns.map write ++ List.replicate pads padding = text
  have hsize : text.length = ns.length + pads := by simp [← htext]
  obtain ⟨hfull, hstart, hend, hsome⟩ := start_of_lastGroup text.length
  simp only [decode, bind, Except.bind]
  generalize text.length - (if text.length % 4 = 0 then 4 else text.length % 4) = start at *
  have hlast : 0 < text.length → start + 2 ≤ ns.length := by
    cases padded with
    | false =>
        have hnone := hunpadded rfl
        omega
    | true =>
        have hwhole := hpadded rfl
        omega
  have hstartNs : start ≤ ns.length := by omega
  rw [← List.take_append_drop start ns,
    canonical_append (by rw [List.length_take]; omega),
    canonical_group (by rw [List.length_drop]; omega)] at hcanonical
  obtain ⟨hfrontBounds, hgroupBounds, _, hstray⟩ := hcanonical
  have hfront : sextets symbol 0 (text.take start) = .ok (ns.take start) := by
    rw [sextets_eq_ok_iff hsymbol]
    refine ⟨?_, hfrontBounds⟩
    rw [← htext, List.take_append_of_le_length (by simpa using hstartNs), List.map_take]
  have hgroup : lastGroup symbol start [] 0 (text.drop start) = .ok (ns.drop start, pads) := by
    rw [lastGroup_eq_ok_iff hsymbol]
    refine ⟨ns.drop start, pads, ?_, hgroupBounds, rfl, (Nat.zero_add pads).symm, nofun, ?_⟩
    · rw [← htext, List.drop_append_of_le_length (by simpa using hstartNs), List.map_drop]
    · intro hsomePads
      rw [List.length_drop]
      omega
  have hgroupLength : ¬(0 < text.length ∧ (ns.drop start).length < 2) := by
    rw [List.length_drop]
    omega
  have hfilled : ¬(padded = true ∧ ((ns.drop start).length + pads) % 4 ≠ 0) := by
    rintro ⟨rfl, hunfilled⟩
    have hwhole := hpadded rfl
    rw [List.length_drop] at hunfilled
    omega
  have hplain : ¬((!padded) = true ∧ 0 < pads) := by
    rintro ⟨hpadding, hsomePads⟩
    rw [hunpadded (by simpa using hpadding)] at hsomePads
    exact Nat.lt_irrefl 0 hsomePads
  rw [if_neg (by omega), hfront]
  dsimp only
  rw [hgroup]
  dsimp only
  rw [if_neg hgroupLength, if_neg hfilled, if_neg hplain, if_neg (by simp [hstray]),
    List.take_append_drop, hoctets]

/-- A text is read as some octets if and only if it is their form. -/
theorem decode_eq_ok_iff (hsymbol : Alphabet symbol write) {padded : Bool}
    {text bytes : List UInt8} :
    decode symbol padded text = .ok bytes ↔ text = written write padded bytes := by
  constructor
  · exact written_of_decode hsymbol
  · rintro rfl
    exact decode_written hsymbol padded bytes

end Alphabet

/-! ### The two alphabets -/

/-- The symbol of a sextet: a letter, a digit, or one of two more signs. -/
def symbolAt (plus slash : Char) (n : Nat) : Char :=
  if n < 26 then Char.ofNat ('A'.toNat + n)
  else if n < 52 then Char.ofNat ('a'.toNat + (n - 26))
  else if n < 62 then Char.ofNat ('0'.toNat + (n - 52))
  else if n = 62 then plus
  else slash

/-- The text of some octets in an alphabet, with or without padding. -/
def encode (plus slash : Char) (padded : Bool) (bytes : List UInt8) : String :=
  String.ofList ((sextetsOf bytes).map (symbolAt plus slash) ++
    List.replicate (fill padded (sextetsOf bytes).length) '=')

/-- The form for URLs. -/
def encodeUrl (bytes : List UInt8) : String :=
  encode '-' '_' false bytes

/-- The standard form. -/
def encodeStandard (bytes : List UInt8) : String :=
  encode '+' '/' true bytes

/-- The texts that stand for some octets. -/
def Encodes (bytes : List UInt8) (payload : String) : Prop :=
  payload = encodeUrl bytes ∨ payload = encodeStandard bytes

def octetAt (plus slash : Char) (n : Nat) : UInt8 :=
  UInt8.ofNat (symbolAt plus slash n).toNat

/-- Symbols are read back when this is seen of each of the sextets and of each of the octets. -/
theorem Alphabet.of_each {symbol : UInt8 → Option Nat} {write : Nat → UInt8}
    (hwritten : ∀ n < 64, symbol (write n) = some n)
    (hread : ∀ k < 256, ∀ n ∈ symbol (UInt8.ofNat k), n < 64 ∧ UInt8.ofNat k = write n)
    (hpadding : symbol Base64.padding = none) : Alphabet symbol write where
  reads b n := by
    constructor
    · intro hn
      have hb := hread b.toNat b.toNat_lt n
      rw [UInt8.ofNat_toNat] at hb
      exact hb hn
    · rintro ⟨hbound, rfl⟩
      exact hwritten n hbound
  padding := hpadding

theorem alphabetUrl : Alphabet (symbol? 0x2D 0x5F) (octetAt '-' '_') :=
  .of_each (by decide) (by decide +kernel) rfl

theorem alphabetStandard : Alphabet (symbol? 0x2B 0x2F) (octetAt '+' '/') :=
  .of_each (by decide) (by decide +kernel) rfl

theorem Canonical.bounds {ns : List Nat} (h : Canonical ns) : ∀ n ∈ ns, n < 64 := by
  fun_induction Canonical ns with
  | case1 a b c d rest ih =>
      obtain ⟨ha, hb, hc, hd, hrest⟩ := h
      simpa [ha, hb, hc, hd] using ih hrest
  | case2 a b c => simp [h.1, h.2.1, h.2.2.1]
  | case3 a b => simp [h.1, h.2.1]
  | case4 a => exact h.elim
  | case5 => nofun

/-- What holds of every symbol and of the padding holds of all characters of a text. -/
theorem forall_mem_encode {plus slash : Char} (holds : Char → Prop)
    (hsymbols : ∀ n < 64, holds (symbolAt plus slash n)) (hpadding : holds '=') (padded : Bool)
    (bytes : List UInt8) : ∀ c ∈ (encode plus slash padded bytes).toList, holds c := by
  intro c hc
  rw [encode, String.toList_ofList, List.mem_append] at hc
  obtain hsymbol | hfill := hc
  · obtain ⟨n, hn, rfl⟩ := List.mem_map.mp hsymbol
    exact hsymbols n ((canonical_sextetsOf bytes).bounds n hn)
  · rw [(List.mem_replicate.mp hfill).2]
    exact hpadding

theorem encode_encode {plus slash : Char}
    (hascii : ∀ n < 64, (symbolAt plus slash n).toNat < 0x80) (padded : Bool)
    (bytes : List UInt8) :
    Text.Utf8.encode (encode plus slash padded bytes) =
      written (octetAt plus slash) padded bytes := by
  have hall := forall_mem_encode (fun c => c.toNat < 0x80) hascii (by decide) padded bytes
  rw [encode, String.toList_ofList] at hall
  rw [encode, Text.Utf8.encode_of_ascii hall, written, List.map_append, List.map_map,
    List.map_replicate]
  rfl

theorem decodeUrl_eq_ok_iff {payload : String} {bytes : List UInt8} :
    decodeUrl (Text.Utf8.encode payload) = .ok bytes ↔ payload = encodeUrl bytes := by
  rw [decodeUrl, decode_eq_ok_iff alphabetUrl, ← encode_encode (by decide),
    Text.Utf8.encode_injective.eq_iff, encodeUrl]

theorem decodeStandard_eq_ok_iff {payload : String} {bytes : List UInt8} :
    decodeStandard (Text.Utf8.encode payload) = .ok bytes ↔ payload = encodeStandard bytes := by
  rw [decodeStandard, decode_eq_ok_iff alphabetStandard, ← encode_encode (by decide),
    Text.Utf8.encode_injective.eq_iff, encodeStandard]

/-! ### The two forms together -/

/-- A symbol that both alphabets have stands for the same sextet in both. -/
theorem symbolAt_inj : ∀ n < 64, ∀ m < 64,
    symbolAt '-' '_' n = symbolAt '+' '/' m → n = m := by
  decide +kernel

theorem map_symbolAt_inj {ns ms : List Nat} (hns : ∀ n ∈ ns, n < 64) (hms : ∀ m ∈ ms, m < 64)
    (h : ns.map (symbolAt '-' '_') = ms.map (symbolAt '+' '/')) : ns = ms := by
  induction ns generalizing ms with
  | nil => exact (List.map_eq_nil_iff.mp h.symm).symm
  | cons n rest ih =>
      obtain ⟨m, more, rfl, hsymbol, hrest⟩ := List.map_eq_cons_iff.mp h.symm
      obtain ⟨hn, hns⟩ := List.forall_mem_cons.mp hns
      obtain ⟨hm, hms⟩ := List.forall_mem_cons.mp hms
      rw [symbolAt_inj n hn m hm hsymbol.symm, ih hns hms hrest.symm]

/-- A text that has both forms stands for the same octets in both. -/
theorem eq_of_encodeUrl_eq {bytes others : List UInt8}
    (h : encodeUrl bytes = encodeStandard others) : bytes = others := by
  have hns := (canonical_sextetsOf bytes).bounds
  have hms := (canonical_sextetsOf others).bounds
  rw [encodeUrl, encodeStandard, encode, encode, String.ofList_inj] at h
  have hunfilled : fill false (sextetsOf bytes).length = 0 := rfl
  rw [hunfilled, List.replicate_zero, List.append_nil] at h
  cases hfill : fill true (sextetsOf others).length with
  | zero =>
      rw [hfill, List.replicate_zero, List.append_nil] at h
      have hsame := congrArg octets (map_symbolAt_inj hns hms h)
      rwa [octets_sextetsOf, octets_sextetsOf] at hsame
  | succ k =>
      have hpadding : '=' ∈ (sextetsOf bytes).map (symbolAt '-' '_') := by
        rw [h, hfill, List.replicate_succ]
        simp
      obtain ⟨n, hn, hsymbol⟩ := List.mem_map.mp hpadding
      have hnone : ∀ n < 64, symbolAt '-' '_' n ≠ '=' := by decide
      exact absurd hsymbol (hnone n (hns n hn))

theorem Encodes.dot_not_mem {bytes : List UInt8} {payload : String} (h : Encodes bytes payload) :
    '.' ∉ payload.toList := by
  intro hdot
  obtain rfl | rfl := h
  · exact forall_mem_encode (· ≠ '.') (by decide) (by decide) false bytes _ hdot rfl
  · exact forall_mem_encode (· ≠ '.') (by decide) (by decide) true bytes _ hdot rfl

end RequestDispatch.Base64
