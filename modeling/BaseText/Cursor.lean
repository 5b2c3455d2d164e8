import BaseText.Action

/-!
# Cursors

A cursor stands between two units of a sequence. It can look at and step over the unit on either
side, and it knows its own index. Every question is an action: a cursor that is made from another
cursor may have to move that one, or may find its input malformed, before it can answer. What is
collected is kept in a list or a text that grows; that an allocation may be refused is left out.
-/

namespace BaseText

/-- A cursor of type `σ` over units of type `α`. -/
class Cursor (σ : Type) (α : outParam Type) where
  hasNext : Action σ Bool
  hasPrevious : Action σ Bool
  peekNext : Action σ α
  peekPrevious : Action σ α
  next : Action σ α
  previous : Action σ α
  /-- The offset in units from the place where the cursor was made. -/
  index : σ → Nat
  /-- A bound on the units there are on both sides together. It bounds every search along the
  cursor and never changes while the cursor moves. -/
  capacity : σ → Nat

namespace Cursor

/-- The cursor that steps over a unit where there is one and fails only at its ends. -/
abbrev ofSteps {σ α : Type} (forward? backward? : σ → Option (α × σ)) (index capacity : σ → Nat) :
    Cursor σ α where
  hasNext := Action.asks fun s => (forward? s).isSome
  hasPrevious := Action.asks fun s => (backward? s).isSome
  peekNext := fun s =>
    match forward? s with
    | some (u, _) => ⟨.ok u, s, []⟩
    | none => Action.exhausted index s
  peekPrevious := fun s =>
    match backward? s with
    | some (u, _) => ⟨.ok u, s, []⟩
    | none => Action.exhausted index s
  next := fun s =>
    match forward? s with
    | some (u, after) => ⟨.ok u, after, []⟩
    | none => Action.exhausted index s
  previous := fun s =>
    match backward? s with
    | some (u, before) => ⟨.ok u, before, []⟩
    | none => Action.exhausted index s
  index := index
  capacity := capacity

variable {σ τ α : Type} [Cursor σ α]

/-- Steps over all units ahead and collects them. -/
def collect : Action σ (List α) := fun s =>
  Action.gather hasNext next (capacity s + 1) s

/-- Steps over at most `fuel` characters ahead and writes them behind `text`. -/
def appendAhead [Cursor τ Char] (text : String) : Nat → Action τ String
  | 0 => pure text
  | fuel + 1 => do
    if ← (hasNext : Action τ Bool) then
      let c ← next
      appendAhead (text.push c) fuel
    else pure text

/-- Steps over all characters ahead and collects them in a text. -/
def collectString [Cursor τ Char] : Action τ String := fun s =>
  appendAhead "" (capacity s + 1) s

/-- Steps back to the start and counts the steps. -/
def rewind : Action σ Nat := fun s =>
  (List.length <$> Action.gather hasPrevious previous (index s + 1) : Action σ Nat) s

/-- Asks `n` times in a row for the unit ahead, as an iteration does: each answer is a unit, or
the first error, or nothing once the end or an error has been met. -/
def iterate : Nat → Action σ (List (Option (Except CodingError α)))
  | 0 => pure []
  | n + 1 => do
    let step ← Action.attempt do
      if ← (hasNext : Action σ Bool) then some <$> next else pure none
    match step with
    | .ok (some u) => (some (.ok u) :: ·) <$> iterate n
    | .ok none => (none :: ·) <$> iterate n
    | .error e => pure (some (.error e) :: List.replicate n none)

end Cursor

end BaseText
