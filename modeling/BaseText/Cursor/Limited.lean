import BaseText.Cursor.Anchored

/-!
# Limited cursors

A limited cursor shows at most a given number of the units ahead.
-/

namespace BaseText

/-- A cursor that ends after `bound` units at the latest. -/
structure Limited (σ : Type) where
  inner : Anchored σ
  bound : Nat

namespace Limited

variable {σ α β : Type}

/-- Limits a cursor to `bound` units from where it stands. -/
def ofCursor (inner : σ) (bound : Nat) : Limited σ := ⟨{ inner }, bound⟩

def index (s : Limited σ) : Nat := s.inner.index

/-- How many more units may follow. -/
def remaining (s : Limited σ) : Nat := s.bound - s.index

def inside (act : Action (Anchored σ) β) : Action (Limited σ) β :=
  Action.within inner (fun s inner => { s with inner }) act

/-- Runs an action on the inner cursor unless the bound is reached. -/
def insideBound (act : Action (Anchored σ) β) : Action (Limited σ) β := do
  let s ← Action.here
  if s.bound ≤ s.index then Action.exhausted index else inside act

variable [Cursor σ α]

instance : Cursor (Limited σ) α where
  hasNext := do
    let s ← Action.here
    if s.bound ≤ s.index then pure false else inside Cursor.hasNext
  hasPrevious := inside Cursor.hasPrevious
  peekNext := insideBound Cursor.peekNext
  peekPrevious := inside Cursor.peekPrevious
  next := insideBound Cursor.next
  previous := inside Cursor.previous
  index := index
  capacity s := Cursor.capacity s.inner

end Limited

/-- Collects at most `n` of the units ahead and leaves the cursor after the last of them. -/
def Cursor.take {σ α : Type} [Cursor σ α] (n : Nat) : Action σ (List α) := fun s =>
  let limited := (Cursor.collect : Action (Limited σ) (List α)) (Limited.ofCursor s n)
  ⟨limited.result, limited.cursor.inner.inner, limited.log⟩

end BaseText
