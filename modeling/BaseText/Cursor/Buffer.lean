import BaseText.Cursor

/-!
# Filling buffers

A buffer of fixed size takes the units of a cursor one after the other. Units written before an
error stay in it.
-/

namespace BaseText

/-- A cursor and the buffer its units go into. -/
structure Filling (σ α : Type) where
  cursor : σ
  buffer : Array α
  filled : Nat := 0

namespace Filling

variable {σ α β : Type}

def room (s : Filling σ α) : Nat := s.buffer.size - s.filled

def inside (act : Action σ β) : Action (Filling σ α) β :=
  Action.within cursor (fun s cursor => { s with cursor }) act

/-- Moves the next unit of the cursor, as `convert` writes it, into the next slot. A unit that has
no such form is an error. -/
def step [Cursor σ β] (convert : β → Option α) : Action (Filling σ α) Unit := do
  let u ← inside (Cursor.next : Action σ β)
  match convert u with
  | none => Action.fail ⟨.invalidCharacter, ← Action.asks filled⟩
  | some a =>
    Action.change fun s =>
      { s with buffer := s.buffer.setIfInBounds s.filled a, filled := s.filled + 1 }

/-- Moves units into the buffer until it is full or the cursor has no more, and counts them. -/
def fill [Cursor σ α] : Action (Filling σ α) Nat := do
  let slots ← Action.asks room
  let _ ← Action.gather (inside Cursor.hasNext) (step some) slots
  Action.asks filled

/-- Moves all units of the cursor into the buffer and counts them. It is an error if the buffer is
full before the cursor is drained. -/
def drain [Cursor σ β] (convert : β → Option α) : Action (Filling σ α) Nat := do
  let slots ← Action.asks room
  let _ ← Action.gather (inside (Cursor.hasNext : Action σ Bool))
    (do
      if 0 < (← Action.asks room) then step convert
      else Action.fail ⟨.bufferTooSmall, ← Action.asks filled⟩)
    (slots + 1)
  Action.asks filled

end Filling

/-- Moves the units ahead into a buffer until it is full, and counts them. The buffer comes back
with the outcome, whether it is a count or an error. -/
def Cursor.fill {σ α : Type} [Cursor σ α] (buffer : Array α) (s : σ) :
    Outcome σ Nat × Array α :=
  let outcome := (Filling.fill : Action (Filling σ α) Nat) { cursor := s, buffer }
  (⟨outcome.result, outcome.cursor.cursor, outcome.log⟩, outcome.cursor.buffer)

end BaseText
