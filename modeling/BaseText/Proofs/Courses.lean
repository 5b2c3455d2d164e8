import BaseText.Proofs.Ahead

/-!
# Courses

An action always has an outcome, because every search in it is given a number of turns in advance.
A course is the same program without such numbers: its loops go round for as long as they find
reason to, and it may never end. Where it does, it tells with what outcome, and how often each loop
in it may go round before that. Every cursor but those over groups is written once more in courses
here.
-/

namespace BaseText.Proofs

variable {σ τ α β γ : Type}

/-- What a program does from each cursor, if it ever ends. -/
structure Course (σ α : Type) where
  /-- From this cursor the program ends, and with this outcome. -/
  Ends : σ → Outcome σ α → Prop
  unique : ∀ {s o o'}, Ends s o → Ends s o' → o = o'

namespace Course

/-- The outcomes of a course and of what follows it if it succeeds. -/
inductive Then (c : Course σ α) (next : α → σ → Outcome σ β → Prop) (s : σ) : Outcome σ β → Prop
  | failed {e s' log} (h : c.Ends s ⟨.error e, s', log⟩) : Then c next s ⟨.error e, s', log⟩
  | onward {a s' log result s'' more} (h : c.Ends s ⟨.ok a, s', log⟩)
    (hnext : next a s' ⟨result, s'', more⟩) : Then c next s ⟨result, s'', log ++ more⟩

lemma Then.unique {c : Course σ α} {next : α → σ → Outcome σ β → Prop} {s : σ}
    {o o' : Outcome σ β} (h : Then c next s o) (h' : Then c next s o')
    (hnext : ∀ a s' o o', next a s' o → next a s' o' → o = o') : o = o' := by
  cases h with
  | failed h =>
    cases h' with
    | failed h' => cases c.unique h h'; rfl
    | onward h' => cases c.unique h h'
  | onward h hn =>
    cases h' with
    | failed h' => cases c.unique h h'
    | onward h' hn' =>
      cases c.unique h h'
      cases hnext _ _ _ _ hn hn'
      rfl

/-- A program without loops. -/
def free (act : Action σ α) : Course σ α := ⟨fun s o => o = act s, fun h h' => h.trans h'.symm⟩

instance : Monad (Course σ) where
  pure a := free (pure a)
  bind c next :=
    ⟨Then c fun a => (next a).Ends, fun h h' => h.unique h' fun a _ _ _ => (next a).unique⟩

/-- The outcome of a course whose cursor is a part of another one. -/
def Under (put : τ → σ) (c : Course τ α) (s : τ) (o : Outcome σ α) : Prop :=
  ∃ o', c.Ends s o' ∧ o = ⟨o'.result, put o'.cursor, o'.log⟩

lemma Under.unique {put : τ → σ} {c : Course τ α} {s : τ} {o o' : Outcome σ α}
    (h : Under put c s o) (h' : Under put c s o') : o = o' := by
  obtain ⟨p, hp, rfl⟩ := h
  obtain ⟨p', hp', rfl⟩ := h'
  rw [c.unique hp hp']

def within (part : σ → τ) (put : σ → τ → σ) (c : Course τ α) : Course σ α :=
  ⟨fun s => Under (put s) c (part s), Under.unique⟩

/-- A course whose failure is an answer. -/
def attempt (c : Course σ α) : Course σ (Except CodingError α) where
  Ends s o := ∃ o', c.Ends s o' ∧ o = ⟨.ok o'.result, o'.cursor, o'.log⟩
  unique := by
    rintro s o o' ⟨p, hp, rfl⟩ ⟨p', hp', rfl⟩
    rw [c.unique hp hp']

/-- A course that counts as endless if its outcome is not as `Q` says. -/
def ensuring (c : Course σ α) (Q : σ → Outcome σ α → Prop) : Course σ α :=
  ⟨fun s o => c.Ends s o ∧ Q s o, fun h h' => c.unique h.1 h'.1⟩

/-- A loop takes turns, each from what the last one left, until one of them leaves it. It comes
round again `n` times in all. -/
inductive Runs (turn : γ → Course σ (γ ⊕ β)) : Nat → γ → σ → Outcome σ β → Prop
  | failed {c s e s' log} (h : (turn c).Ends s ⟨.error e, s', log⟩) :
    Runs turn 0 c s ⟨.error e, s', log⟩
  | left {c s b s' log} (h : (turn c).Ends s ⟨.ok (.inr b), s', log⟩) :
    Runs turn 0 c s ⟨.ok b, s', log⟩
  | again {n c c' s s' log result s'' more} (h : (turn c).Ends s ⟨.ok (.inl c'), s', log⟩)
    (hruns : Runs turn n c' s' ⟨result, s'', more⟩) :
    Runs turn (n + 1) c s ⟨result, s'', log ++ more⟩

lemma Runs.unique {turn : γ → Course σ (γ ⊕ β)} {n n' : Nat} {c : γ} {s : σ} {o o' : Outcome σ β}
    (h : Runs turn n c s o) (h' : Runs turn n' c s o') : n = n' ∧ o = o' := by
  induction h generalizing n' o' with
  | failed h =>
    cases h' with
    | failed h' => cases (turn _).unique h h'; exact ⟨rfl, rfl⟩
    | left h' | again h' => cases (turn _).unique h h'
  | left h =>
    cases h' with
    | left h' => cases (turn _).unique h h'; exact ⟨rfl, rfl⟩
    | failed h' | again h' => cases (turn _).unique h h'
  | again h _ ih =>
    cases h' with
    | failed h' | left h' => cases (turn _).unique h h'
    | again h' hruns =>
      cases (turn _).unique h h'
      obtain ⟨rfl, ho⟩ := ih hruns
      cases ho
      exact ⟨rfl, rfl⟩

/-- A loop that comes round again only as often as `bound` allows. -/
def loop (bound : σ → Outcome σ β → Nat → Prop) (turn : γ → Course σ (γ ⊕ β)) (c : γ) :
    Course σ β where
  Ends s o := ∃ n, bound s o n ∧ Runs turn n c s o
  unique := fun ⟨_, _, h⟩ ⟨_, _, h'⟩ => (h.unique h').2

/-- The turns of a loop that takes steps for as long as there is more. -/
def steps (more : Course σ Bool) (step : Course σ α) (push : γ → α → γ) (c : γ) :
    Course σ (γ ⊕ γ) := do
  if ← more then
    let a ← step
    pure (.inl (push c a))
  else pure (.inr c)

end Course

open Course

/-- Not more than the units that the cursor still has ahead. -/
def AtMostAhead [Cursor σ α] (s : σ) (n : Nat) : Prop :=
  ∃ units stop, Gives s units stop ∧ n ≤ units.length

/-- The questions of a cursor in courses. -/
class CourseCursor (σ : Type) (α : outParam Type) where
  hasNext : Course σ Bool
  hasPrevious : Course σ Bool
  peekNext : Course σ α
  peekPrevious : Course σ α
  next : Course σ α
  previous : Course σ α

instance : CourseCursor (Sequence α) α where
  hasNext := .free Cursor.hasNext
  hasPrevious := .free Cursor.hasPrevious
  peekNext := .free Cursor.peekNext
  peekPrevious := .free Cursor.peekPrevious
  next := .free Cursor.next
  previous := .free Cursor.previous

instance : CourseCursor TextCursor Char where
  hasNext := .free Cursor.hasNext
  hasPrevious := .free Cursor.hasPrevious
  peekNext := .free Cursor.peekNext
  peekPrevious := .free Cursor.peekPrevious
  next := .free Cursor.next
  previous := .free Cursor.previous

section Anchored

def courseAnchored (c : Course σ β) : Course (Anchored σ) β :=
  .within Anchored.inner (fun s inner => { s with inner }) c

def courseAfterStart (c : Course σ β) : Course (Anchored σ) β := do
  let s ← Course.free Action.here
  if s.index = 0 then .free (Action.exhausted Anchored.index) else courseAnchored c

variable [CourseCursor σ α]

instance : CourseCursor (Anchored σ) α where
  hasNext := courseAnchored CourseCursor.hasNext
  hasPrevious := do
    let s ← Course.free Action.here
    if s.index = 0 then pure false else courseAnchored CourseCursor.hasPrevious
  peekNext := courseAnchored CourseCursor.peekNext
  peekPrevious := courseAfterStart CourseCursor.peekPrevious
  next := do
    let u ← courseAnchored CourseCursor.next
    Course.free (Action.change fun s => { s with index := s.index + 1 })
    pure u
  previous := do
    let u ← courseAfterStart CourseCursor.previous
    Course.free (Action.change fun s => { s with index := s.index - 1 })
    pure u

/-- Not more than `far` times, and just as often unless the loop fails. -/
def Exactly (far : Nat) (o : Outcome τ β) (n : Nat) : Prop :=
  n ≤ far ∧ ∀ b, o.result = .ok b → n = far

def backTurn (target : Nat) : Unit → Course (Anchored σ) (Unit ⊕ Unit) :=
  steps (.free (Action.asks fun s => decide (target < s.index)))
    (CourseCursor.previous : Course (Anchored σ) α) fun _ _ => ()

def forthTurn (target : Nat) : Unit → Course (Anchored σ) (Unit ⊕ Unit) :=
  steps (.free (Action.asks fun s => decide (s.index < target)))
    (CourseCursor.next : Course (Anchored σ) α) fun _ _ => ()

/-- Seeking a place makes a move for each unit between that place and the one at hand. -/
def courseSeek (target : Nat) : Course (Anchored σ) Unit := do
  loop (fun s => Exactly (s.index - target)) (backTurn target) ()
  loop (fun s => Exactly (target - s.index)) (forthTurn target) ()

end Anchored

section Limited

variable [CourseCursor σ α]

def courseLimited (c : Course (Anchored σ) β) : Course (Limited σ) β :=
  .within Limited.inner (fun s inner => { s with inner }) c

def courseBound (c : Course (Anchored σ) β) : Course (Limited σ) β := do
  let s ← Course.free Action.here
  if s.bound ≤ s.index then .free (Action.exhausted Limited.index) else courseLimited c

instance : CourseCursor (Limited σ) α where
  hasNext := do
    let s ← Course.free Action.here
    if s.bound ≤ s.index then pure false else courseLimited CourseCursor.hasNext
  hasPrevious := courseLimited CourseCursor.hasPrevious
  peekNext := courseBound CourseCursor.peekNext
  peekPrevious := courseLimited CourseCursor.peekPrevious
  next := courseBound CourseCursor.next
  previous := courseLimited CourseCursor.previous

end Limited

section Delimited

variable [CourseCursor σ α] [DecidableEq α]

def courseDelimited (c : Course (Anchored σ) β) : Course (Delimited σ α) β :=
  .within Delimited.inner (fun s inner => { s with inner }) c

def courseReady : Course (Delimited σ α) Bool := do
  if ← courseDelimited CourseCursor.hasNext then
    let u ← courseDelimited CourseCursor.peekNext
    let s ← Course.free Action.here
    pure (decide (u ∉ s.stops))
  else pure false

def courseInsideReady (c : Course (Anchored σ) β) : Course (Delimited σ α) β := do
  if ← courseReady then courseDelimited c else .free (Action.exhausted Delimited.index)

instance : CourseCursor (Delimited σ α) α where
  hasNext := courseReady
  hasPrevious := courseDelimited CourseCursor.hasPrevious
  peekNext := courseInsideReady CourseCursor.peekNext
  peekPrevious := courseDelimited CourseCursor.peekPrevious
  next := courseInsideReady CourseCursor.next
  previous := courseDelimited CourseCursor.previous

end Delimited

section Mapped

variable [CourseCursor σ UInt8]

def courseMapped (c : Course (Anchored σ) β) : Course (Mapped σ) β :=
  .within Mapped.inner (fun s inner => { s with inner }) c

def courseThrough (c : Course (Anchored σ) UInt8) : Course (Mapped σ) UInt8 := do
  let b ← courseMapped c
  let s ← Course.free Action.here
  pure (s.table.apply b)

instance : CourseCursor (Mapped σ) UInt8 where
  hasNext := courseMapped CourseCursor.hasNext
  hasPrevious := courseMapped CourseCursor.hasPrevious
  peekNext := courseThrough CourseCursor.peekNext
  peekPrevious := courseThrough CourseCursor.peekPrevious
  next := courseThrough CourseCursor.next
  previous := courseThrough CourseCursor.previous

end Mapped

section Filtered

def courseFiltered (c : Course σ β) : Course (Filtered σ α) β :=
  .within Filtered.inner (fun s inner => { s with inner }) c

/-- The turns of a search for a visible unit, each of which steps over a hidden one. -/
def searchTurn (more : Course σ Bool) (look step : Course σ α) (_ : Unit) :
    Course (Filtered σ α) (Unit ⊕ Bool) := do
  if ← courseFiltered more then
    let u ← courseFiltered look
    let s ← Course.free Action.here
    if s.hidden u then
      let _ ← courseFiltered step
      pure (.inl ())
    else pure (.inr true)
  else pure (.inr false)

variable [Cursor σ α] [CourseCursor σ α]

/-- Searching ahead steps over units that the inner cursor still has ahead. -/
def courseSkipAhead : Course (Filtered σ α) Bool :=
  loop (fun s _ => AtMostAhead s.inner)
    (searchTurn CourseCursor.hasNext CourseCursor.peekNext CourseCursor.next) ()

/-- Searching back steps over units that the inner cursor has behind it, and not over the visible
ones that are counted. -/
def courseSkipBack : Course (Filtered σ α) Bool :=
  loop (fun s _ n => n + s.index ≤ Cursor.index s.inner)
    (searchTurn CourseCursor.hasPrevious CourseCursor.peekPrevious CourseCursor.previous) ()

def courseSettleBack : Course (Filtered σ α) Bool := do
  let s ← Course.free Action.here
  if s.index = 0 then pure false else courseSkipBack

def courseVisibleAhead (c : Course σ β) : Course (Filtered σ α) β := do
  if ← courseSkipAhead then courseFiltered c else .free (Action.exhausted Filtered.index)

def courseVisibleBack (c : Course σ β) : Course (Filtered σ α) β := do
  if ← courseSettleBack then courseFiltered c else .free (Action.exhausted Filtered.index)

instance : CourseCursor (Filtered σ α) α where
  hasNext := courseSkipAhead
  hasPrevious := courseSettleBack
  peekNext := courseVisibleAhead CourseCursor.peekNext
  peekPrevious := courseVisibleBack CourseCursor.peekPrevious
  next := do
    let u ← courseVisibleAhead CourseCursor.next
    Course.free (Action.change fun s => { s with index := s.index + 1 })
    pure u
  previous := do
    let u ← courseVisibleBack CourseCursor.previous
    Course.free (Action.change fun s => { s with index := s.index - 1 })
    pure u

end Filtered

section Chained

def courseMember (c : Course (Anchored σ) β) : Course (Chained σ) β := do
  let s ← Course.free Action.here
  match s.members[s.current]? with
  | none => .free (Action.exhausted Chained.index)
  | some member =>
    .within (fun _ => member)
      (fun s member => { s with members := s.members.setIfInBounds s.current member }) c

variable [CourseCursor σ α]

/-- The turns of a search for a member with a unit ahead, each of which leaves a member for the
next. -/
def memberAheadTurn (_ : Unit) : Course (Chained σ) (Unit ⊕ Bool) := do
  let s ← Course.free Action.here
  if s.current < s.members.size then
    if ← courseMember CourseCursor.hasNext then pure (.inr true)
    else if s.members.size ≤ s.current + 1 then pure (.inr false)
    else
      Course.free (Action.change fun s => { s with current := s.current + 1 })
      pure (.inl ())
  else pure (.inr false)

/-- The turns of a search for a member that a unit was taken from, each of which leaves a member
for the one in front of it. -/
def memberBackTurn (_ : Unit) : Course (Chained σ) (Unit ⊕ Bool) := do
  let s ← Course.free Action.here
  match s.members[s.current]? with
  | none => pure (.inr false)
  | some member =>
    if 0 < member.index then pure (.inr true)
    else if s.current = 0 then pure (.inr false)
    else
      Course.free (Action.change fun s => { s with current := s.current - 1 })
      pure (.inl ())

/-- A search looks at each member at most once. One in a chain without members ends where it
starts. -/
def courseMemberAhead : Course (Chained σ) Bool :=
  loop (fun s _ n => n + 1 ≤ max 1 s.members.size) memberAheadTurn ()

def courseMemberBack : Course (Chained σ) Bool :=
  loop (fun s _ n => n + 1 ≤ max 1 s.members.size) memberBackTurn ()

def courseInsideAhead (c : Course (Anchored σ) β) : Course (Chained σ) β := do
  if ← courseMemberAhead then courseMember c else .free (Action.exhausted Chained.index)

def courseInsideBack (c : Course (Anchored σ) β) : Course (Chained σ) β := do
  if ← courseMemberBack then courseMember c else .free (Action.exhausted Chained.index)

instance : CourseCursor (Chained σ) α where
  hasNext := courseMemberAhead
  hasPrevious := courseMemberBack
  peekNext := courseInsideAhead CourseCursor.peekNext
  peekPrevious := courseInsideBack CourseCursor.peekPrevious
  next := do
    let u ← courseInsideAhead CourseCursor.next
    Course.free (Action.change fun s => { s with index := s.index + 1 })
    pure u
  previous := do
    let u ← courseInsideBack CourseCursor.previous
    Course.free (Action.change fun s => { s with index := s.index - 1 })
    pure u

end Chained

end BaseText.Proofs
