import BaseText.Cursor.Buffer
import BaseText.Proofs.Courses

/-!
# Courses of groups and stacks

A cursor over groups loops in two ways: it seeks a place in its source, and reads a group from
there. With these every stack can be written in courses, and so can the longer actions that ask it
one question after the other: rewinding, collecting, iterating and filling a buffer.
-/

namespace BaseText.Proofs

open Course

variable {ρ σ τ α β γ : Type}

section Grouped

def courseSource (c : Course (Anchored σ) γ) : Course (Grouped ρ σ β) γ :=
  .within Grouped.source (fun s source => { s with source }) c

variable [GroupCode ρ α β] [Cursor σ α] [CourseCursor σ α]

/-- The places that are sought in the source lie behind it, and are always reached. -/
def courseSeekBack (start : Nat) : Course (Grouped ρ σ β) Unit :=
  courseSource ((courseSeek start).ensuring fun s o => start ≤ s.index ∧ o.result = .ok ())

/-- The turns of a reading, each of which adds a unit to those that have been read. -/
def readTurn (units : List α) : Course (Grouped ρ σ β) (List α ⊕ List α) := do
  let s ← Course.free Action.here
  if units.length < GroupCode.size s.code then
    if ← courseSource CourseCursor.hasNext then
      let u ← courseSource CourseCursor.next
      match GroupCode.refuse? s.code units u with
      | some cause => .free (Grouped.reject cause s.source.innerIndex)
      | none => pure (.inl (units ++ [u]))
    else pure (.inr units)
  else pure (.inr units)

/-- Reading a group takes no more units than make a complete one. -/
def courseLoad (start : Nat) (atEnd : Bool) : Course (Grouped ρ σ β) Bool := do
  courseSeekBack start
  let s ← Course.free Action.here
  let units ← loop (fun _ _ n => n ≤ GroupCode.size s.code) readTurn []
  .free do
    if units.isEmpty then pure false
    else
      let s ← Action.here
      match GroupCode.close s.code units with
      | .error cause => Grouped.reject cause s.source.innerIndex
      | .ok (out, ending) =>
        Action.change fun s =>
          { s with
            group := { start, span := units.length, units := out, ending }
            passed := if atEnd then out.length else 0 }
        pure true

def courseReadyAhead : Course (Grouped ρ σ β) Bool := do
  let s ← Course.free Action.here
  if s.passed < s.group.units.length then pure true
  else
    let stop := s.group.start + s.group.span
    match s.group.ending with
    | .more => courseLoad stop false
    | .last => pure false
    | .sealed =>
      courseSeekBack stop
      if ← courseSource CourseCursor.hasNext then
        .free do
          let s ← Action.here
          Grouped.reject .trailingSymbols s.source.innerIndex
      else pure false

def courseReadyBack : Course (Grouped ρ σ β) Bool := do
  let s ← Course.free Action.here
  if 0 < s.passed then pure true
  else if s.group.start = 0 then pure false
  else
    let start := s.group.start - GroupCode.size s.code
    Course.free (Action.emit (GroupCode.reread s.code start))
    courseLoad start true

def coursePeekAhead : Course (Grouped ρ σ β) β := do
  if ← courseReadyAhead then
    .free do
      let s ← Action.here
      match s.group.units[s.passed]? with
      | some u => pure u
      | none => Action.exhausted Grouped.index
  else .free (Action.exhausted Grouped.index)

def coursePeekBack : Course (Grouped ρ σ β) β := do
  if ← courseReadyBack then
    .free do
      let s ← Action.here
      match if 0 < s.passed then s.group.units[s.passed - 1]? else none with
      | some u => pure u
      | none => Action.exhausted Grouped.index
  else .free (Action.exhausted Grouped.index)

instance : CourseCursor (Grouped ρ σ β) β where
  hasNext := courseReadyAhead
  hasPrevious := courseReadyBack
  peekNext := coursePeekAhead
  peekPrevious := coursePeekBack
  next := do
    let u ← coursePeekAhead
    Course.free (Action.change fun s => { s with passed := s.passed + 1, index := s.index + 1 })
    pure u
  previous := do
    let u ← coursePeekBack
    Course.free (Action.change fun s => { s with passed := s.passed - 1, index := s.index - 1 })
    pure u

end Grouped

section Stacks

variable {k : Kind}

/-- A source is asked as the cursor that it consists of. -/
def coursePerform (c : (σ : Type) → [Cursor σ k.Carrier] → [CourseCursor σ k.Carrier] →
    Course σ β) : Course (Source k) β where
  Ends
    | .sequence s => Under .sequence (c _) s
    | .buffer s => Under .buffer (c _) s
    | .text s => Under .text (c TextCursor) s
  unique := by
    intro s
    cases s <;> exact Under.unique

instance : CourseCursor (Source k) k.Carrier where
  hasNext := coursePerform fun _ _ _ => CourseCursor.hasNext
  hasPrevious := coursePerform fun _ _ _ => CourseCursor.hasPrevious
  peekNext := coursePerform fun _ _ _ => CourseCursor.peekNext
  peekPrevious := coursePerform fun _ _ _ => CourseCursor.peekPrevious
  next := coursePerform fun _ _ _ => CourseCursor.next
  previous := coursePerform fun _ _ _ => CourseCursor.previous

section Layer

variable {S : Kind → Type} [(k : Kind) → Cursor (S k) k.Carrier]
  [(k : Kind) → CourseCursor (S k) k.Carrier]

/-- A layer is asked as the cursor that it consists of. -/
def courseLayer (c : (σ : Type) → [Cursor σ k.Carrier] → [CourseCursor σ k.Carrier] →
    Course σ β) : Course (Layer S k) β where
  Ends
    | .plain s => Under .plain (c _) s
    | .limited s => Under .limited (c _) s
    | .delimited s => Under .delimited (c _) s
    | .filtered s => Under .filtered (c _) s
    | .chained s => Under .chained (c _) s
    | .mapped s => Under .mapped (c (Mapped (S .byte))) s
    | .encoded s => Under .encoded (c (Encoded (S .byte))) s
    | .decoded s => Under .decoded (c (Decoded (S .char))) s
  unique := by
    intro s
    cases s <;> exact Under.unique

instance : CourseCursor (Layer S k) k.Carrier where
  hasNext := courseLayer fun _ _ _ => CourseCursor.hasNext
  hasPrevious := courseLayer fun _ _ _ => CourseCursor.hasPrevious
  peekNext := courseLayer fun _ _ _ => CourseCursor.peekNext
  peekPrevious := courseLayer fun _ _ _ => CourseCursor.peekPrevious
  next := courseLayer fun _ _ _ => CourseCursor.next
  previous := courseLayer fun _ _ _ => CourseCursor.previous

end Layer

instance instCourseStack : (n : Nat) → (k : Kind) → CourseCursor (Stack n k) k.Carrier
  | 0, k => inferInstanceAs (CourseCursor (Source k) k.Carrier)
  | n + 1, k =>
    have := instCourseStack n
    inferInstanceAs (CourseCursor (Layer (Stack n) k) k.Carrier)

/-- A stack is asked as one of its depth. -/
def courseLift (c : (n : Nat) → Course (Stack n k) β) : Course (AnyStack k) β :=
  ⟨fun s => Under (⟨s.depth, ·⟩) (c s.depth) s.stack, Under.unique⟩

instance : CourseCursor (AnyStack k) k.Carrier where
  hasNext := courseLift fun _ => CourseCursor.hasNext
  hasPrevious := courseLift fun _ => CourseCursor.hasPrevious
  peekNext := courseLift fun _ => CourseCursor.peekNext
  peekPrevious := courseLift fun _ => CourseCursor.peekPrevious
  next := courseLift fun _ => CourseCursor.next
  previous := courseLift fun _ => CourseCursor.previous

end Stacks

section Longer

variable [CourseCursor σ α]

/-- A call as the course of the question that it puts. -/
def Call.course [Cursor σ α] : Call → Course σ (Reply α)
  | hasNext => .truth <$> CourseCursor.hasNext
  | hasPrevious => .truth <$> CourseCursor.hasPrevious
  | peekNext => .unit <$> CourseCursor.peekNext
  | peekPrevious => .unit <$> CourseCursor.peekPrevious
  | next => .unit <$> CourseCursor.next
  | previous => .unit <$> CourseCursor.previous
  | index => .free (Action.asks fun s => .index (Cursor.index s))

variable [Cursor σ α]

/-- Rewinding makes as many moves as the index tells. -/
def courseRewind : Course σ Nat :=
  loop (fun s _ n => n = Cursor.index s)
    (steps CourseCursor.hasPrevious (CourseCursor.previous : Course σ α) fun n _ => n + 1) 0

/-- Collecting makes at most a move for each unit ahead. -/
def courseCollect : Course σ (List α) :=
  loop (fun s _ => AtMostAhead s)
    (steps CourseCursor.hasNext CourseCursor.next fun units u => units ++ [u]) []

def courseCollectString {σ : Type} [Cursor σ Char] [CourseCursor σ Char] : Course σ String :=
  loop (fun s _ => AtMostAhead s)
    (steps CourseCursor.hasNext CourseCursor.next String.push) ""

/-- The turns of an iteration, up to its end or an error. -/
def iterationTurn (given : List (Except CodingError α)) :
    Course σ (List (Except CodingError α) ⊕ List (Except CodingError α)) := do
  let step ← Course.attempt do
    if ← (CourseCursor.hasNext : Course σ Bool) then some <$> CourseCursor.next else pure none
  match step with
  | .ok (some u) => pure (.inl (given ++ [.ok u]))
  | .ok none => pure (.inr given)
  | .error e => pure (.inr (given ++ [.error e]))

/-- Iterating up to the end makes at most a move for each unit ahead. -/
def courseIterate : Course σ (List (Except CodingError α)) :=
  loop (fun s _ => AtMostAhead s) iterationTurn []

def courseFilling (c : Course σ β) : Course (Filling σ α) β :=
  .within Filling.cursor (fun s cursor => { s with cursor }) c

/-- The turns of a filling, each of which uses up a slot. -/
def fillTurn (slots : Nat) : Course (Filling σ α) (Nat ⊕ Unit) := do
  if slots = 0 then pure (.inr ())
  else if ← courseFilling CourseCursor.hasNext then
    let u ← courseFilling CourseCursor.next
    Course.free (Action.change fun s =>
      { s with buffer := s.buffer.setIfInBounds s.filled u, filled := s.filled + 1 })
    pure (.inl (slots - 1))
  else pure (.inr ())

/-- Filling a buffer makes at most a move for each unit ahead, and for each slot. -/
def courseFill : Course (Filling σ α) Nat := do
  let slots ← Course.free (Action.asks Filling.room)
  loop (fun s _ n => n ≤ slots ∧ AtMostAhead s.cursor n) fillTurn slots
  Course.free (Action.asks Filling.filled)

end Longer

end BaseText.Proofs
