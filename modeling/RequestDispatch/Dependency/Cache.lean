import RequestDispatch.Dependency.Declaration

/-!
The values of cached dependencies during one request. Every dependency has a gate: whoever
passes it first evaluates the dependency, and all others wait there for the value.
-/

namespace RequestDispatch

inductive Gate where
  /-- Nobody has come here yet. -/
  | untouched
  /-- Nobody evaluates the dependency, because an evaluation came to nothing. -/
  | free
  /-- Somebody evaluates the dependency. -/
  | taken
  | filled (value : Provided)
deriving DecidableEq

structure Cache (n : Nat) where
  gate : Fin n → Gate

namespace Cache

variable {n : Nat}

def empty : Cache n := ⟨fun _ => .untouched⟩

def set (cache : Cache n) (identity : Fin n) (gate : Gate) : Cache n :=
  ⟨fun i => if i = identity then gate else cache.gate i⟩

def value? (cache : Cache n) (identity : Fin n) : Option Provided :=
  match cache.gate identity with
  | .filled value => some value
  | _ => none

/-- The number of gates that somebody came to. -/
def size (cache : Cache n) : Nat :=
  (List.finRange n).countP fun i => cache.gate i ≠ .untouched

/-- Gives up all evaluations that are going on. -/
def release (cache : Cache n) : Cache n :=
  ⟨fun i =>
    match cache.gate i with
    | .taken => .free
    | gate => gate⟩

end Cache

end RequestDispatch
