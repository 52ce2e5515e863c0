import RequestDispatch.Decimal.Double
import RequestDispatch.Text.Integer

/-!
JSON values. Integers of 64 bits, signed or unsigned, are kept apart from doubles, and the
members of an object are kept sorted by name, each name once; `Members.insert` and
`Json.ofMembers` maintain that order. Zero as a double keeps its sign. Where values are
compared by what they denote, it is dropped first, in all their parts: `Json.unsignZeros`.
-/

namespace RequestDispatch

/-- A JSON number: an integer of 64 bits or a finite double. -/
inductive Number where
  | int (n : Int)
  | real (d : Double)
deriving DecidableEq, Inhabited

inductive Json where
  | null
  | bool (b : Bool)
  | number (n : Number)
  | string (s : String)
  | array (items : List Json)
  | object (members : List (String × Json))
deriving Inhabited

namespace Number

def value : Number → Rat
  | .int n => n
  | .real d => d.value

def toDouble : Number → Double
  | .int n => .ofInt n
  | .real d => d

/-- The signed integer of 64 bits that was written as an integer, if it was. -/
def toInt64? : Number → Option Int
  | .int n => if -(Text.maxInt64 : Int) - 1 ≤ n ∧ n ≤ Text.maxInt64 then some n else none
  | .real _ => none

/-- The unsigned integer of 64 bits that was written as an integer, if it was. -/
def toNat? : Number → Option Nat
  | .int n => if 0 ≤ n then some n.toNat else none
  | .real _ => none

def isIntegral : Number → Bool
  | .int _ => true
  | .real d => d.toInt?.isSome

def unsignZero : Number → Number
  | .int n => .int n
  | .real d => .real d.unsignZero

end Number

/-- Named values in the order of their names. -/
abbrev Members := List (String × Json)

namespace Members

def find? (members : Members) (name : String) : Option Json :=
  (List.find? (fun m => m.1 == name) members).map (·.2)

/-- Sets the value of a name, at its place in the order. -/
def insert (name : String) (value : Json) : Members → Members
  | [] => [(name, value)]
  | (other, v) :: rest =>
      if name = other then (name, value) :: rest
      else if name < other then (name, value) :: (other, v) :: rest
      else (other, v) :: insert name value rest

/-- Inserts pairs one after another; the last value of a name stays. -/
def ofList (pairs : List (String × Json)) : Members :=
  pairs.foldl (fun members (name, value) => insert name value members) []

end Members

namespace Json

def ofMembers (pairs : List (String × Json)) : Json :=
  .object (Members.ofList pairs)

def ofStrings (texts : List String) : Json :=
  .array (texts.map .string)

def ofInt (n : Int) : Json :=
  .number (.int n)

def ofNat (n : Nat) : Json :=
  .number (.int n)

def ofString? : Option String → Json
  | none => .null
  | some s => .string s

def member? (v : Json) (name : String) : Option Json :=
  match v with
  | .object members => Members.find? members name
  | _ => none

def toString? : Json → Option String
  | .string s => some s
  | _ => none

def toItems? : Json → Option (List Json)
  | .array items => some items
  | _ => none

mutual

/-- The same value with a positive zero for every negative one. -/
def unsignZeros : Json → Json
  | .number n => .number n.unsignZero
  | .array items => .array (unsignItems items)
  | .object members => .object (unsignMembers members)
  | v => v

def unsignItems : List Json → List Json
  | [] => []
  | v :: rest => unsignZeros v :: unsignItems rest

def unsignMembers : List (String × Json) → List (String × Json)
  | [] => []
  | (name, v) :: rest => (name, unsignZeros v) :: unsignMembers rest

end

mutual

def same : Json → Json → Bool
  | .null, .null => true
  | .bool a, .bool b => a == b
  | .number a, .number b => a = b
  | .string a, .string b => a == b
  | .array a, .array b => sameItems a b
  | .object a, .object b => sameMembers a b
  | _, _ => false

def sameItems : List Json → List Json → Bool
  | [], [] => true
  | a :: as, b :: bs => same a b && sameItems as bs
  | _, _ => false

def sameMembers : List (String × Json) → List (String × Json) → Bool
  | [], [] => true
  | (m, a) :: as, (n, b) :: bs => m == n && same a b && sameMembers as bs
  | _, _ => false

end

mutual

theorem eq_of_same : (a b : Json) → a.same b = true → a = b
  | .null, b, h => by cases b <;> simp_all [same]
  | .bool _, b, h => by cases b <;> simp_all [same]
  | .number _, b, h => by cases b <;> simp_all [same]
  | .string _, b, h => by cases b <;> simp_all [same]
  | .array a, b, h => by
      cases b with
      | array b => rw [eq_of_sameItems a b (by simpa [same] using h)]
      | _ => simp [same] at h
  | .object a, b, h => by
      cases b with
      | object b => rw [eq_of_sameMembers a b (by simpa [same] using h)]
      | _ => simp [same] at h

theorem eq_of_sameItems : (a b : List Json) → sameItems a b = true → a = b
  | [], b, h => by cases b <;> simp_all [sameItems]
  | x :: a, b, h => by
      cases b with
      | nil => simp [sameItems] at h
      | cons y b =>
        simp only [sameItems, Bool.and_eq_true] at h
        rw [eq_of_same x y h.1, eq_of_sameItems a b h.2]

theorem eq_of_sameMembers :
    (a b : List (String × Json)) → sameMembers a b = true → a = b
  | [], b, h => by cases b <;> simp_all [sameMembers]
  | (m, x) :: a, b, h => by
      cases b with
      | nil => simp [sameMembers] at h
      | cons y b =>
        obtain ⟨n, y⟩ := y
        simp only [sameMembers, Bool.and_eq_true, beq_iff_eq] at h
        rw [h.1.1, eq_of_same x y h.1.2, eq_of_sameMembers a b h.2]

end

mutual

theorem same_self : (a : Json) → a.same a = true
  | .null => by simp [same]
  | .bool _ => by simp [same]
  | .number _ => by simp [same]
  | .string _ => by simp [same]
  | .array a => by simpa [same] using sameItems_self a
  | .object a => by simpa [same] using sameMembers_self a

theorem sameItems_self : (a : List Json) → sameItems a a = true
  | [] => by simp [sameItems]
  | x :: a => by simp [sameItems, same_self x, sameItems_self a]

theorem sameMembers_self : (a : List (String × Json)) → sameMembers a a = true
  | [] => by simp [sameMembers]
  | (m, x) :: a => by simp [sameMembers, same_self x, sameMembers_self a]

end

theorem same_iff {a b : Json} : a.same b = true ↔ a = b :=
  ⟨eq_of_same a b, fun h => h ▸ same_self a⟩

instance : DecidableEq Json := fun a b =>
  decidable_of_iff (a.same b = true) same_iff

end Json

end RequestDispatch
