import RequestDispatch.Routing.Template

/-!
Trees of path segments. A node stands for the segments on the way to it; placeholders at one
place share a node whatever their names, so a tree holds shapes of templates. The search
prefers literal segments and falls back to the placeholder when the literal branch ends
without an entry for the method.
-/

namespace RequestDispatch

/-- A tree of entries, each below its segments and under a method. -/
inductive Tree (ε : Type) where
  | node (literals : List (String × Tree ε)) (placeholder : Option (Tree ε))
      (entries : List (Method × ε))

/-- What a search carries through all branches: the segments that stand at placeholders on the
way to where it is, the outermost first, and the methods of the entries whose shape fits the
path but that it could not take. -/
structure Trail where
  captures : List String
  allowed : List Method

namespace Trail

def start : Trail := ⟨[], []⟩

def push (trail : Trail) (segment : String) : Trail :=
  { trail with captures := trail.captures ++ [segment] }

def pop (trail : Trail) : Trail :=
  { trail with captures := trail.captures.dropLast }

/-- Passes by entries under other methods. -/
def pass (trail : Trail) (methods : List Method) : Trail :=
  { trail with allowed := trail.allowed ++ methods }

end Trail

namespace Tree

variable {ε : Type}

def empty : Tree ε :=
  .node [] none []

instance : Inhabited (Tree ε) := ⟨empty⟩

/-- Puts a subtree in the place of the one below a literal, or behind the others. -/
def putLiteral (text : String) (child : Tree ε) :
    List (String × Tree ε) → List (String × Tree ε)
  | [] => [(text, child)]
  | (other, tree) :: rest =>
      if other = text then (other, child) :: rest
      else (other, tree) :: putLiteral text child rest

/-- Adds an entry below the segments. The error is the entry that is already there for the
method. -/
def insert (method : Method) (entry : ε) : List Segment → Tree ε → Except ε (Tree ε)
  | [], .node literals placeholder entries =>
      match entries.lookup method with
      | some existing => .error existing
      | none => .ok (.node literals placeholder (entries ++ [(method, entry)]))
  | .placeholder _ _ :: rest, .node literals placeholder entries =>
      match insert method entry rest (placeholder.getD empty) with
      | .error existing => .error existing
      | .ok child => .ok (.node literals (some child) entries)
  | .literal text :: rest, .node literals placeholder entries =>
      match insert method entry rest ((literals.lookup text).getD empty) with
      | .error existing => .error existing
      | .ok child => .ok (.node (putLiteral text child literals) placeholder entries)

/-- Looks for the entry of a method at the segments of a path. Captures that a failed branch
put on the trail are taken off again; the methods of entries that are passed by stay. -/
def search (method : Method) : List String → Tree ε → Trail → Option ε × Trail
  | [], .node _ _ entries, trail =>
      match entries.lookup method with
      | some entry => (some entry, trail)
      | none => (none, trail.pass (entries.map (·.1)))
  | segment :: rest, .node literals placeholder _, trail =>
      let (found, trail) :=
        match literals.lookup segment with
        | some child => search method rest child trail
        | none => (none, trail)
      match found, placeholder with
      | some entry, _ => (some entry, trail)
      | none, none => (none, trail)
      | none, some child =>
          match search method rest child (trail.push segment) with
          | (some entry, trail) => (some entry, trail)
          | (none, trail) => (none, trail.pop)

end Tree

end RequestDispatch
