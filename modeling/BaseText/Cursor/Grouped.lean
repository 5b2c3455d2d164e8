import BaseText.Cursor.Anchored

/-!
# Cursors that work a group at a time

A group code turns each group of source units into a group of units of its own. A grouped cursor
shows the units of the groups of its source, which are counted from the place where the source
stood when it was wrapped. It holds one group at a time. Only the last group may be short, so the
group before any other one is complete and starts exactly one group size earlier: to move back
into it, the cursor seeks its start in the source and reads it again.
-/

namespace BaseText

/-- What may follow a group. -/
inductive Ending where
  /-- Another group. -/
  | more
  /-- Nothing: the group is short because the source has ended. -/
  | last
  /-- Nothing: the group says itself that it is the last, and a further unit is an error. -/
  | sealed
deriving DecidableEq, Repr

/-- The units that a group of source units becomes. -/
structure Group (β : Type) where
  /-- Where the group starts in the source. -/
  start : Nat := 0
  /-- How many units of the source it covers. -/
  span : Nat := 0
  units : List β := []
  ending : Ending := .more

/-- A way to turn groups of units of type `α` into groups of units of type `β`. -/
class GroupCode (ρ : Type) (α β : outParam Type) where
  /-- Source units in a complete group. -/
  size : ρ → Nat
  /-- A bound on the units that one source unit can become. -/
  growth : ρ → Nat
  /-- Why a unit cannot follow the units of its group read before it, if it cannot. -/
  refuse? : ρ → List α → α → Option Cause
  /-- What the units of a group become, when the source has no more of them or they are
  complete. -/
  close : ρ → List α → Except Cause (List β × Ending)
  rejected : ρ → CodingError → Event
  reread : ρ → Nat → Event

/-- A cursor over what the groups of a source become. -/
structure Grouped (ρ σ β : Type) where
  code : ρ
  source : Anchored σ
  group : Group β := {}
  /-- How many of its units lie behind the cursor. -/
  passed : Nat := 0
  index : Nat := 0

namespace Grouped

variable {ρ σ α β γ : Type}

def ofCursor (code : ρ) (source : σ) : Grouped ρ σ β := { code, source := { inner := source } }

def inside (act : Action (Anchored σ) γ) : Action (Grouped ρ σ β) γ :=
  Action.within source (fun s source => { s with source }) act

variable [GroupCode ρ α β] [Cursor σ α]

/-- Logs that the source was refused, and fails. -/
def reject (cause : Cause) (offset : Nat) : Action (Grouped ρ σ β) γ := do
  let s ← Action.here
  Action.emit (GroupCode.rejected s.code ⟨cause, offset⟩)
  Action.fail ⟨cause, offset⟩

/-- Reads at most `left` further units of a group of which `units` have been read. -/
def readUnits (units : List α) : Nat → Action (Grouped ρ σ β) (List α)
  | 0 => pure units
  | left + 1 => do
    let s ← Action.here
    if ← inside Cursor.hasNext then
      let u ← inside Cursor.next
      match GroupCode.refuse? s.code units u with
      | some cause => reject cause s.source.innerIndex
      | none => readUnits (units ++ [u]) left
    else pure units

/-- Reads the group that starts `start` units into the source, and says whether there is one. The
cursor comes to stand in front of the group's units, or behind them if `atEnd` is set. A group that
is refused leaves the one at hand in place. -/
def load (start : Nat) (atEnd : Bool) : Action (Grouped ρ σ β) Bool := do
  inside (Anchored.seek start)
  let s ← Action.here
  let units ← readUnits [] (GroupCode.size s.code)
  if units.isEmpty then pure false
  else
    let s ← Action.here
    match GroupCode.close s.code units with
    | .error cause => reject cause s.source.innerIndex
    | .ok (out, ending) =>
      Action.change fun s =>
        { s with
          group := { start, span := units.length, units := out, ending }
          passed := if atEnd then out.length else 0 }
      pure true

/-- Makes sure that the next unit belongs to the group at hand, if there is a next unit. -/
def readyAhead : Action (Grouped ρ σ β) Bool := do
  let s ← Action.here
  if s.passed < s.group.units.length then pure true
  else
    let stop := s.group.start + s.group.span
    match s.group.ending with
    | .more => load stop false
    | .last => pure false
    | .sealed =>
      inside (Anchored.seek stop)
      if ← inside Cursor.hasNext then
        let s ← Action.here
        reject .trailingSymbols s.source.innerIndex
      else pure false

/-- Makes sure that the previous unit belongs to the group at hand, if there is a previous
unit. -/
def readyBack : Action (Grouped ρ σ β) Bool := do
  let s ← Action.here
  if 0 < s.passed then pure true
  else if s.group.start = 0 then pure false
  else
    let start := s.group.start - GroupCode.size s.code
    Action.emit (GroupCode.reread s.code start)
    load start true

def peekAhead : Action (Grouped ρ σ β) β := do
  if ← readyAhead then
    let s ← Action.here
    match s.group.units[s.passed]? with
    | some u => pure u
    | none => Action.exhausted index
  else Action.exhausted index

def peekBack : Action (Grouped ρ σ β) β := do
  if ← readyBack then
    let s ← Action.here
    match if 0 < s.passed then s.group.units[s.passed - 1]? else none with
    | some u => pure u
    | none => Action.exhausted index
  else Action.exhausted index

instance : Cursor (Grouped ρ σ β) β where
  hasNext := readyAhead
  hasPrevious := readyBack
  peekNext := peekAhead
  peekPrevious := peekBack
  next := do
    let u ← peekAhead
    Action.change fun s => { s with passed := s.passed + 1, index := s.index + 1 }
    pure u
  previous := do
    let u ← peekBack
    Action.change fun s => { s with passed := s.passed - 1, index := s.index - 1 }
    pure u
  index := index
  capacity s := GroupCode.growth s.code * Cursor.capacity s.source

end Grouped

end BaseText
