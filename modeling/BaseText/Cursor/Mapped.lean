import BaseText.Cursor.Anchored

/-!
# Mapped cursors

A mapped cursor shows every byte of another one through a table.
-/

namespace BaseText

abbrev ByteTable : Type := Vector UInt8 256

namespace ByteTable

/-- The table that changes nothing. -/
def identity : ByteTable := Vector.ofFn fun i => UInt8.ofNat i

def apply (table : ByteTable) (b : UInt8) : UInt8 := table.get ⟨b.toNat, b.toNat_lt⟩

def put (table : ByteTable) (b image : UInt8) : ByteTable := table.set b.toNat image b.toNat_lt

end ByteTable

/-- A cursor that shows the bytes of another one through a table. -/
structure Mapped (σ : Type) where
  inner : Anchored σ
  table : ByteTable

namespace Mapped

variable {σ β : Type}

/-- Shows the bytes of a cursor, from where it stands, through a table. -/
def ofCursor (inner : σ) (table : ByteTable) : Mapped σ := ⟨{ inner }, table⟩

def index (s : Mapped σ) : Nat := s.inner.index

def inside (act : Action (Anchored σ) β) : Action (Mapped σ) β :=
  Action.within inner (fun s inner => { s with inner }) act

/-- Runs an action on the inner cursor and looks its answer up. -/
def insideMapped (act : Action (Anchored σ) UInt8) : Action (Mapped σ) UInt8 := do
  let b ← inside act
  let s ← Action.here
  pure (s.table.apply b)

variable [Cursor σ UInt8]

instance : Cursor (Mapped σ) UInt8 where
  hasNext := inside Cursor.hasNext
  hasPrevious := inside Cursor.hasPrevious
  peekNext := insideMapped Cursor.peekNext
  peekPrevious := insideMapped Cursor.peekPrevious
  next := insideMapped Cursor.next
  previous := insideMapped Cursor.previous
  index := index
  capacity s := Cursor.capacity s.inner

end Mapped

end BaseText
