import RequestDispatch.Background

/-!
Application code as the dispatcher sees it. A routine runs from pause to pause, acting upon
the state of the application and the queue of tasks, until it ends with a value, an error or
a panic. It may pause a bounded number of times, so that other routines run in between.
-/

namespace RequestDispatch

inductive Outcome (α : Type) where
  | value (a : α)
  | failed (error : DispatchError)
  | panicked (panic : Panic)
deriving DecidableEq

/-- Application code with inputs of type `ι` and values of type `α`. -/
inductive Routine (σ ι α : Type) where
  | inline (run : ι → Effects σ → Outcome α × Effects σ)
  /-- Pauses at most `pauses` times. At the poll with number `k` below that bound, `attempt k`
  runs up to the next pause or to an end; after the last pause, `conclude` runs to the end. -/
  | suspending (pauses : Nat) (attempt : Nat → ι → Effects σ → Option (Outcome α) × Effects σ)
      (conclude : ι → Effects σ → Outcome α × Effects σ)

namespace Routine

variable {σ ι α : Type}

def isSuspending : Routine σ ι α → Bool
  | .inline _ => false
  | .suspending .. => true

def pauses : Routine σ ι α → Nat
  | .inline _ => 0
  | .suspending pauses _ _ => pauses

/-- Runs the code that follows `polls` pauses; `none` is another pause. -/
def poll (routine : Routine σ ι α) (polls : Nat) (input : ι) (effects : Effects σ) :
    Option (Outcome α) × Effects σ :=
  match routine with
  | .inline run => ((run input effects).map some id)
  | .suspending pauses attempt conclude =>
      if polls < pauses then attempt polls input effects
      else (conclude input effects).map some id

/-- Runs attempts until one of them ends or `left` pauses were made, and then concludes. -/
def runAttempts (attempt : Nat → Effects σ → Option (Outcome α) × Effects σ)
    (conclude : Effects σ → Outcome α × Effects σ) :
    (left : Nat) → (polls : Nat) → Effects σ → Outcome α × Effects σ
  | 0, _, effects => conclude effects
  | left + 1, polls, effects =>
      match attempt polls effects with
      | (some outcome, effects) => (outcome, effects)
      | (none, effects) => runAttempts attempt conclude left (polls + 1) effects

/-- Runs the code to its end when nothing else runs in its pauses. -/
def run (routine : Routine σ ι α) (input : ι) (effects : Effects σ) : Outcome α × Effects σ :=
  match routine with
  | .inline run => run input effects
  | .suspending pauses attempt conclude =>
      runAttempts (fun k => attempt k input) (conclude input) pauses 0 effects

end Routine

end RequestDispatch
