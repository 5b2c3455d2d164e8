import BaseText.Cursor.Anchored

/-!
# Chained cursors

A chain shows several cursors as one, in order. Each member is anchored where it stood when the
chain was made, so moving back ends there.
-/

namespace BaseText

/-- Cursors one after the other, and which of them is being read. -/
structure Chained (σ : Type) where
  members : Array (Anchored σ)
  current : Nat := 0
  index : Nat := 0

namespace Chained

variable {σ α β : Type}

/-- Chains cursors from where they stand. -/
def ofCursors (members : List σ) : Chained σ :=
  { members := (members.map fun inner => { inner }).toArray }

def inside (act : Action (Anchored σ) β) : Action (Chained σ) β := do
  let s ← Action.here
  match s.members[s.current]? with
  | none => Action.exhausted index
  | some member =>
    Action.within (fun _ => member)
      (fun s member => { s with members := s.members.setIfInBounds s.current member }) act

variable [Cursor σ α]

/-- Moves on to the first of the next `left` members that has a unit ahead. The last member stays
current when none has. -/
def settleAheadFrom : Nat → Action (Chained σ) Bool
  | 0 => pure false
  | left + 1 => do
    if ← inside Cursor.hasNext then pure true
    else if left = 0 then pure false
    else
      Action.change fun s => { s with current := s.current + 1 }
      settleAheadFrom left

/-- Moves on to the first member, from the current one on, that has a unit ahead. -/
def settleAhead : Action (Chained σ) Bool := do
  let s ← Action.here
  settleAheadFrom (s.members.size - s.current)

def taken (s : Chained σ) (member : Nat) : Nat :=
  match s.members[member]? with
  | some m => m.index
  | none => 0

/-- The nearest member, from `member` down, that a unit was taken from, or the first one. -/
def lastTaken (s : Chained σ) : Nat → Nat
  | 0 => 0
  | member + 1 => if 0 < s.taken (member + 1) then member + 1 else s.lastTaken member

/-- Moves back to the last member that a unit was taken from. -/
def settleBack : Action (Chained σ) Bool := do
  Action.change fun s => { s with current := s.lastTaken s.current }
  let s ← Action.here
  pure (decide (0 < s.taken s.current))

/-- Runs an action on the first member that has a unit ahead. -/
def insideAhead (act : Action (Anchored σ) β) : Action (Chained σ) β := do
  if ← settleAhead then inside act else Action.exhausted index

/-- Runs an action on the last member that a unit was taken from. -/
def insideBack (act : Action (Anchored σ) β) : Action (Chained σ) β := do
  if ← settleBack then inside act else Action.exhausted index

instance : Cursor (Chained σ) α where
  hasNext := settleAhead
  hasPrevious := settleBack
  peekNext := insideAhead Cursor.peekNext
  peekPrevious := insideBack Cursor.peekPrevious
  next := do
    let u ← insideAhead Cursor.next
    Action.change fun s => { s with index := s.index + 1 }
    pure u
  previous := do
    let u ← insideBack Cursor.previous
    Action.change fun s => { s with index := s.index - 1 }
    pure u
  index := index
  capacity s := s.members.toList.foldr (fun m room => Cursor.capacity m + room) 0

end Chained

end BaseText
