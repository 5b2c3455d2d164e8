import BaseText.Cursor

/-!
# Filtered cursors

A filtered cursor hides the units of another one that meet a condition, in both directions. Hidden
units do not count towards its index.
-/

namespace BaseText

/-- A cursor without the units that are `hidden`. -/
structure Filtered (σ α : Type) where
  inner : σ
  hidden : α → Bool
  /-- Visible units moved forward since the cursor was wrapped. -/
  index : Nat := 0

namespace Filtered

variable {σ α β : Type}

def ofCursor (inner : σ) (hidden : α → Bool) : Filtered σ α := { inner, hidden }

def inside (act : Action σ β) : Action (Filtered σ α) β :=
  Action.within inner (fun s inner => { s with inner }) act

variable [Cursor σ α]

/-- Steps over hidden units ahead, at most `fuel` of them, and says whether a visible one
follows. -/
def skipAhead : Nat → Action (Filtered σ α) Bool
  | 0 => pure false
  | fuel + 1 => do
    if ← inside Cursor.hasNext then
      let u ← inside Cursor.peekNext
      let s ← Action.here
      if s.hidden u then
        let _ ← inside Cursor.next
        skipAhead fuel
      else pure true
    else pure false

/-- Steps back over hidden units, at most `fuel` of them, and says whether a visible one
precedes. -/
def skipBack : Nat → Action (Filtered σ α) Bool
  | 0 => pure false
  | fuel + 1 => do
    if ← inside Cursor.hasPrevious then
      let u ← inside Cursor.peekPrevious
      let s ← Action.here
      if s.hidden u then
        let _ ← inside Cursor.previous
        skipBack fuel
      else pure true
    else pure false

/-- Moves in front of the next visible unit, if there is one. -/
def settleAhead : Action (Filtered σ α) Bool := do
  let s ← Action.here
  skipAhead (Cursor.capacity s.inner + 1)

/-- Moves behind the previous visible unit, if there is one after the place where the cursor was
wrapped. -/
def settleBack : Action (Filtered σ α) Bool := do
  let s ← Action.here
  if s.index = 0 then pure false else skipBack (Cursor.index s.inner + 1)

/-- Runs an action on the inner cursor in front of the next visible unit. -/
def insideAhead (act : Action σ β) : Action (Filtered σ α) β := do
  if ← settleAhead then inside act else Action.exhausted index

/-- Runs an action on the inner cursor behind the previous visible unit. -/
def insideBack (act : Action σ β) : Action (Filtered σ α) β := do
  if ← settleBack then inside act else Action.exhausted index

instance : Cursor (Filtered σ α) α where
  hasNext := settleAhead
  hasPrevious := settleBack
  peekNext := insideAhead Cursor.peekNext
  peekPrevious := insideBack Cursor.peekPrevious
  next := do
    let u ← insideAhead Cursor.next
    Action.change fun s => { s with index := s.index + 1 }
    pure u
  previous := do
    let u ← insideBack Cursor.previous
    Action.change fun s => { s with index := s.index - 1 }
    pure u
  index := index
  capacity s := Cursor.capacity s.inner

end Filtered

end BaseText
