import BaseText.Cursor

/-!
# Anchored cursors

Most cursors that are made from another one number their units from the place where that one
stood, and never move it back beyond that place. An anchored cursor does just this.
-/

namespace BaseText

/-- A cursor seen from the place where it stood when it was wrapped. -/
structure Anchored (σ : Type) where
  inner : σ
  /-- Units moved forward since the cursor was wrapped. -/
  index : Nat := 0

namespace Anchored

variable {σ α β : Type}

def inside (act : Action σ β) : Action (Anchored σ) β :=
  Action.within inner (fun s inner => { s with inner }) act

/-- Runs an action on the inner cursor unless that would look behind the anchor. -/
def insideAfterStart (act : Action σ β) : Action (Anchored σ) β := do
  let s ← Action.here
  if s.index = 0 then Action.exhausted index else inside act

variable [Cursor σ α]

instance : Cursor (Anchored σ) α where
  hasNext := inside Cursor.hasNext
  hasPrevious := do
    let s ← Action.here
    if s.index = 0 then pure false else inside Cursor.hasPrevious
  peekNext := inside Cursor.peekNext
  peekPrevious := insideAfterStart Cursor.peekPrevious
  next := do
    let u ← inside Cursor.next
    Action.change fun s => { s with index := s.index + 1 }
    pure u
  previous := do
    let u ← insideAfterStart Cursor.previous
    Action.change fun s => { s with index := s.index - 1 }
    pure u
  index := index
  capacity s := Cursor.capacity s.inner

/-- The index of the inner cursor, by its own count. -/
def innerIndex (s : Anchored σ) : Nat := Cursor.index s.inner

def stepBack : Nat → Action (Anchored σ) Unit
  | 0 => pure ()
  | n + 1 => do
    let _ ← (Cursor.previous : Action (Anchored σ) α)
    stepBack n

def stepForth : Nat → Action (Anchored σ) Unit
  | 0 => pure ()
  | n + 1 => do
    let _ ← (Cursor.next : Action (Anchored σ) α)
    stepForth n

/-- Moves to the place `target` units after the anchor. -/
def seek (target : Nat) : Action (Anchored σ) Unit := do
  let before ← Action.here
  stepBack (before.index - target)
  let after ← Action.here
  stepForth (target - after.index)

end Anchored

end BaseText
