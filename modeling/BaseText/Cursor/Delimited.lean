import BaseText.Cursor.Anchored

/-!
# Delimited cursors

A delimited cursor ends before the first unit of a given set, which it leaves unread.
-/

namespace BaseText

/-- A cursor that ends in front of the first unit that is one of `stops`. -/
structure Delimited (σ α : Type) where
  inner : Anchored σ
  stops : List α

namespace Delimited

variable {σ α β : Type}

def ofCursor (inner : σ) (stops : List α) : Delimited σ α := ⟨{ inner }, stops⟩

def index (s : Delimited σ α) : Nat := s.inner.index

def inside (act : Action (Anchored σ) β) : Action (Delimited σ α) β :=
  Action.within inner (fun s inner => { s with inner }) act

variable [Cursor σ α] [DecidableEq α]

/-- There is a unit ahead and it is no stop. -/
def ready : Action (Delimited σ α) Bool := do
  if ← inside Cursor.hasNext then
    let u ← inside Cursor.peekNext
    let s ← Action.here
    pure (decide (u ∉ s.stops))
  else pure false

/-- Runs an action on the inner cursor if there is a unit ahead and it is no stop. -/
def insideReady (act : Action (Anchored σ) β) : Action (Delimited σ α) β := do
  if ← ready then inside act else Action.exhausted index

instance : Cursor (Delimited σ α) α where
  hasNext := ready
  hasPrevious := inside Cursor.hasPrevious
  peekNext := insideReady Cursor.peekNext
  peekPrevious := inside Cursor.peekPrevious
  next := insideReady Cursor.next
  previous := inside Cursor.previous
  index := index
  capacity s := Cursor.capacity s.inner

end Delimited

end BaseText
