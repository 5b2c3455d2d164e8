import BaseText.Cursor

/-!
# Cursors over sequences

The plainest cursor: an array of units and the index of the next one.
-/

namespace BaseText

/-- A position in an array of units. -/
structure Sequence (α : Type) where
  units : Array α
  index : Nat := 0

namespace Sequence

variable {α : Type}

/-- A cursor before the first of the given units. -/
def ofList (units : List α) : Sequence α := { units := units.toArray }

def rest (s : Sequence α) : List α := s.units.toList.drop s.index

def forward? (s : Sequence α) : Option (α × Sequence α) :=
  s.units[s.index]?.map fun u => (u, { s with index := s.index + 1 })

def backward? (s : Sequence α) : Option (α × Sequence α) :=
  if s.index = 0 then none
  else s.units[s.index - 1]?.map fun u => (u, { s with index := s.index - 1 })

instance : Cursor (Sequence α) α :=
  .ofSteps forward? backward? index fun s => s.units.size

end Sequence

end BaseText
