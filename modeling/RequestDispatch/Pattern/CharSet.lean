import RequestDispatch.Text.Blank
import RequestDispatch.Text.Category

/-!
Sets of characters, as the classes of regular expressions describe them. `CharSet.contains`
decides membership; the classes of the Unicode standard are built from general categories.
-/

namespace RequestDispatch

inductive CharSet where
  | range (low high : Char)
  | categories (cs : List Text.Category)
  | blank
  | union (a b : CharSet)
  | inter (a b : CharSet)
  | complement (a : CharSet)
  /-- The characters that differ from a member in case only, and the members. -/
  | folded (a : CharSet)
deriving Inhabited

namespace CharSet

/-- The counterpart of a character in the other case, for the alphabets that keep upper and
lower case at a fixed distance or side by side. -/
def otherCase (c : Char) : Char :=
  let n := c.toNat
  let between (low high : Nat) : Bool := low ≤ n && n ≤ high
  if between 0x41 0x5A || (between 0xC0 0xDE && n != 0xD7) then Char.ofNat (n + 32)
  else if between 0x61 0x7A || (between 0xE0 0xFE && n != 0xF7) then Char.ofNat (n - 32)
  else if between 0x391 0x3A9 then Char.ofNat (n + 32)
  else if between 0x3B1 0x3C9 && n != 0x3C2 then Char.ofNat (n - 32)
  else if between 0x410 0x42F then Char.ofNat (n + 32)
  else if between 0x430 0x44F then Char.ofNat (n - 32)
  else if between 0x400 0x40F then Char.ofNat (n + 80)
  else if between 0x450 0x45F then Char.ofNat (n - 80)
  else if between 0x100 0x137 || between 0x14A 0x177 || between 0x460 0x481
      || between 0x48A 0x4BF || between 0x4D0 0x52F || between 0x1E00 0x1E95
      || between 0x1EA0 0x1EFF then
    Char.ofNat (if n % 2 = 0 then n + 1 else n - 1)
  else if between 0x139 0x148 || between 0x179 0x17E then
    Char.ofNat (if n % 2 = 1 then n + 1 else n - 1)
  else if between 0x531 0x556 then Char.ofNat (n + 48)
  else if between 0x561 0x586 then Char.ofNat (n - 48)
  else c

def caseVariants (c : Char) : List Char :=
  let special : List (List Char) :=
    [['k', 'K', '\u212A'], ['s', 'S', '\u017F'], ['σ', 'Σ', 'ς'], ['å', 'Å', '\u212B'],
     ['ω', 'Ω', '\u2126'], ['µ', 'μ', 'Μ'], ['ÿ', 'Ÿ'], ['ß', 'ẞ']]
  match special.find? (·.contains c) with
  | some variants => variants
  | none => [c, otherCase c]

def contains : CharSet → Char → Bool
  | .range low high, c => low ≤ c && c ≤ high
  | .categories cs, c => cs.contains (Text.category c)
  | .blank, c => Text.isBlank c
  | .union a b, c => a.contains c || b.contains c
  | .inter a b, c => a.contains c && b.contains c
  | .complement a, c => !a.contains c
  | .folded a, c => (caseVariants c).any a.contains

def single (c : Char) : CharSet := .range c c

def all : CharSet := .range '\x00' (Char.ofNat 0x10FFFF)

def nothing : CharSet := .complement all

def unions (sets : List CharSet) : CharSet :=
  match sets with
  | [] => nothing
  | a :: rest => rest.foldl .union a

def ofRanges (ranges : List (Nat × Nat)) : CharSet :=
  unions (ranges.map fun (low, high) => .range (Char.ofNat low) (Char.ofNat high))

def difference (a b : CharSet) : CharSet := .inter a (.complement b)

def symmetricDifference (a b : CharSet) : CharSet :=
  .union (difference a b) (difference b a)

def digit : CharSet := .categories [.decimalNumber]

/-- Letters, and what the standard counts as alphabetic beside them. -/
def alphabetic : CharSet :=
  .union
    (.categories [.uppercaseLetter, .lowercaseLetter, .titlecaseLetter, .modifierLetter,
      .otherLetter, .letterNumber])
    (ofRanges [(0x24B6, 0x24E9), (0x1F130, 0x1F149), (0x1F150, 0x1F169), (0x1F170, 0x1F189)])

/-- The characters of words: alphabetic characters, marks, digits, connectors and joiners. -/
def word : CharSet :=
  unions [alphabetic,
    .categories [.nonspacingMark, .spacingMark, .enclosingMark, .decimalNumber,
      .connectorPunctuation],
    .range '\u200C' '\u200D']

def asciiWord : CharSet :=
  ofRanges [(0x30, 0x39), (0x41, 0x5A), (0x5F, 0x5F), (0x61, 0x7A)]

end CharSet

end RequestDispatch
