import BaseText.Stack
import Mathlib.Tactic.Common

/-!
# Guarded cursors

Counters that are counted down, differences of places, places in a list and distances of shifts are
in range only if the cursor is in order. A guarded action carries, beside the action that it runs,
what these need of the cursor at the moment when they are met. Every cursor is written once more in
guarded actions here, and without the guards each of its questions is the question itself.
-/

namespace BaseText.Proofs

variable {ρ σ τ α β γ : Type}

/-- An action, and what has to hold of a cursor for all to be in range when it runs from there. -/
structure Guarded (σ α : Type) where
  run : Action σ α
  safe : σ → Prop

namespace Guarded

/-- An action in which nothing can be out of range. -/
def free (act : Action σ α) : Guarded σ α := ⟨act, fun _ => True⟩

/-- An action that needs `P` where it starts. -/
def needs (P : σ → Prop) (act : Action σ α) : Guarded σ α := ⟨act, P⟩

/-- What follows an action is safe where the action leaves the cursor, if it succeeds. -/
instance : Monad (Guarded σ) where
  pure a := free (pure a)
  bind act next :=
    { run := act.run >>= fun a => (next a).run
      safe := fun s => act.safe s ∧
        ∀ a, (act.run s).result = .ok a → (next a).safe (act.run s).cursor }

def within (part : σ → τ) (put : σ → τ → σ) (act : Guarded τ α) : Guarded σ α :=
  ⟨Action.within part put act.run, fun s => act.safe (part s)⟩

@[simp] lemma run_pure (a : α) : (pure a : Guarded σ α).run = pure a := rfl

@[simp] lemma run_bind (act : Guarded σ α) (next : α → Guarded σ β) :
    (act >>= next).run = act.run >>= fun a => (next a).run := rfl

@[simp] lemma run_free (act : Action σ α) : (free act).run = act := rfl

@[simp] lemma run_needs (P : σ → Prop) (act : Action σ α) : (needs P act).run = act := rfl

@[simp] lemma run_ite (P : Prop) [Decidable P] (act act' : Guarded σ α) :
    (if P then act else act').run = if P then act.run else act'.run :=
  apply_ite run P act act'

end Guarded

/-- The questions of a cursor in guarded actions. -/
class GuardedCursor (σ : Type) (α : outParam Type) [Cursor σ α] where
  hasNext : Guarded σ Bool
  hasPrevious : Guarded σ Bool
  peekNext : Guarded σ α
  peekPrevious : Guarded σ α
  next : Guarded σ α
  previous : Guarded σ α
  hasNext_run : hasNext.run = Cursor.hasNext
  hasPrevious_run : hasPrevious.run = Cursor.hasPrevious
  peekNext_run : peekNext.run = Cursor.peekNext
  peekPrevious_run : peekPrevious.run = Cursor.peekPrevious
  next_run : next.run = Cursor.next
  previous_run : previous.run = Cursor.previous

attribute [simp] GuardedCursor.hasNext_run GuardedCursor.hasPrevious_run GuardedCursor.peekNext_run
  GuardedCursor.peekPrevious_run GuardedCursor.next_run GuardedCursor.previous_run

/-- What lies ahead of the index is a part of the array, and where there is a unit behind, the index
can be counted down. -/
instance : GuardedCursor (Sequence α) α where
  hasNext := .free Cursor.hasNext
  hasPrevious := .free Cursor.hasPrevious
  peekNext := .needs (fun s => s.index ≤ s.units.size) Cursor.peekNext
  peekPrevious := .needs (fun s => s.index ≤ s.units.size) Cursor.peekPrevious
  next := .needs (fun s => s.index ≤ s.units.size) Cursor.next
  previous := .needs (fun s => s.index ≤ s.units.size ∧
    ∀ u s', s.backward? = some (u, s') → 0 < s.index) Cursor.previous
  hasNext_run := rfl
  hasPrevious_run := rfl
  peekNext_run := rfl
  peekPrevious_run := rfl
  next_run := rfl
  previous_run := rfl

/-- The position lies between two characters, and the bytes of the character behind can be taken
from it, as one can be from the index. -/
instance : GuardedCursor TextCursor Char where
  hasNext := .free Cursor.hasNext
  hasPrevious := .free Cursor.hasPrevious
  peekNext := .needs (fun s => s.pos.offset.IsValid s.text) Cursor.peekNext
  peekPrevious := .needs (fun s => s.pos.offset.IsValid s.text) Cursor.peekPrevious
  next := .needs (fun s => s.pos.offset.IsValid s.text) Cursor.next
  previous := .needs (fun s => s.pos.offset.IsValid s.text ∧ ∀ c s', s.backward? = some (c, s') →
    0 < s.index ∧ s'.pos.offset.byteIdx + c.utf8Size = s.pos.offset.byteIdx) Cursor.previous
  hasNext_run := rfl
  hasPrevious_run := rfl
  peekNext_run := rfl
  peekPrevious_run := rfl
  next_run := rfl
  previous_run := rfl

section Anchored

def guardAnchored (act : Guarded σ β) : Guarded (Anchored σ) β :=
  .within Anchored.inner (fun s inner => { s with inner }) act

def guardAfterStart (act : Guarded σ β) : Guarded (Anchored σ) β := do
  let s ← Guarded.free Action.here
  if s.index = 0 then .free (Action.exhausted Anchored.index) else guardAnchored act

@[simp] lemma guardAnchored_run (act : Guarded σ β) :
    (guardAnchored act).run = Anchored.inside act.run := rfl

@[simp] lemma guardAfterStart_run (act : Guarded σ β) :
    (guardAfterStart act).run = Anchored.insideAfterStart act.run := by
  simp [guardAfterStart, Anchored.insideAfterStart, guardAnchored_run]

variable [Cursor σ α] [GuardedCursor σ α]

instance : GuardedCursor (Anchored σ) α where
  hasNext := guardAnchored GuardedCursor.hasNext
  hasPrevious := do
    let s ← Guarded.free Action.here
    if s.index = 0 then pure false else guardAnchored GuardedCursor.hasPrevious
  peekNext := guardAnchored GuardedCursor.peekNext
  peekPrevious := guardAfterStart GuardedCursor.peekPrevious
  next := do
    let u ← guardAnchored GuardedCursor.next
    Guarded.free (Action.change fun s => { s with index := s.index + 1 })
    pure u
  previous := do
    let u ← guardAfterStart GuardedCursor.previous
    Guarded.needs (fun s => 0 < s.index) (Action.change fun s => { s with index := s.index - 1 })
    pure u
  hasNext_run := by simp; rfl
  hasPrevious_run := by simp; rfl
  peekNext_run := by simp; rfl
  peekPrevious_run := by simp; rfl
  next_run := by simp; rfl
  previous_run := by simp; rfl

end Anchored

section Limited

variable [Cursor σ α] [GuardedCursor σ α]

def guardLimited (act : Guarded (Anchored σ) β) : Guarded (Limited σ) β :=
  .within Limited.inner (fun s inner => { s with inner }) act

def guardBound (act : Guarded (Anchored σ) β) : Guarded (Limited σ) β := do
  let s ← Guarded.free Action.here
  if s.bound ≤ s.index then .free (Action.exhausted Limited.index) else guardLimited act

@[simp] lemma guardLimited_run (act : Guarded (Anchored σ) β) :
    (guardLimited act).run = Limited.inside act.run := rfl

@[simp] lemma guardBound_run (act : Guarded (Anchored σ) β) :
    (guardBound act).run = Limited.insideBound act.run := by
  simp [guardBound, Limited.insideBound]

instance : GuardedCursor (Limited σ) α where
  hasNext := do
    let s ← Guarded.free Action.here
    if s.bound ≤ s.index then pure false else guardLimited GuardedCursor.hasNext
  hasPrevious := guardLimited GuardedCursor.hasPrevious
  peekNext := guardBound GuardedCursor.peekNext
  peekPrevious := guardLimited GuardedCursor.peekPrevious
  next := guardBound GuardedCursor.next
  previous := guardLimited GuardedCursor.previous
  hasNext_run := by simp; rfl
  hasPrevious_run := by simp; rfl
  peekNext_run := by simp; rfl
  peekPrevious_run := by simp; rfl
  next_run := by simp; rfl
  previous_run := by simp; rfl

end Limited

section Delimited

variable [Cursor σ α] [GuardedCursor σ α] [DecidableEq α]

def guardDelimited (act : Guarded (Anchored σ) β) : Guarded (Delimited σ α) β :=
  .within Delimited.inner (fun s inner => { s with inner }) act

def guardReady : Guarded (Delimited σ α) Bool := do
  if ← guardDelimited GuardedCursor.hasNext then
    let u ← guardDelimited GuardedCursor.peekNext
    let s ← Guarded.free Action.here
    pure (decide (u ∉ s.stops))
  else pure false

def guardInsideReady (act : Guarded (Anchored σ) β) : Guarded (Delimited σ α) β := do
  if ← guardReady then guardDelimited act else .free (Action.exhausted Delimited.index)

omit [Cursor σ α] [GuardedCursor σ α] [DecidableEq α] in
@[simp] lemma guardDelimited_run (act : Guarded (Anchored σ) β) :
    (guardDelimited act : Guarded (Delimited σ α) β).run = Delimited.inside act.run := rfl

@[simp] lemma guardReady_run :
    (guardReady : Guarded (Delimited σ α) Bool).run = Delimited.ready := by
  simp [guardReady, Delimited.ready]

@[simp] lemma guardInsideReady_run (act : Guarded (Anchored σ) β) :
    (guardInsideReady act : Guarded (Delimited σ α) β).run = Delimited.insideReady act.run := by
  simp [guardInsideReady, Delimited.insideReady]

instance : GuardedCursor (Delimited σ α) α where
  hasNext := guardReady
  hasPrevious := guardDelimited GuardedCursor.hasPrevious
  peekNext := guardInsideReady GuardedCursor.peekNext
  peekPrevious := guardDelimited GuardedCursor.peekPrevious
  next := guardInsideReady GuardedCursor.next
  previous := guardDelimited GuardedCursor.previous
  hasNext_run := by simp; rfl
  hasPrevious_run := by simp; rfl
  peekNext_run := by simp; rfl
  peekPrevious_run := by simp; rfl
  next_run := by simp; rfl
  previous_run := by simp; rfl

end Delimited

section Mapped

variable [Cursor σ UInt8] [GuardedCursor σ UInt8]

def guardMapped (act : Guarded (Anchored σ) β) : Guarded (Mapped σ) β :=
  .within Mapped.inner (fun s inner => { s with inner }) act

def guardThrough (act : Guarded (Anchored σ) UInt8) : Guarded (Mapped σ) UInt8 := do
  let b ← guardMapped act
  let s ← Guarded.free Action.here
  pure (s.table.apply b)

omit [Cursor σ UInt8] [GuardedCursor σ UInt8] in
@[simp] lemma guardMapped_run (act : Guarded (Anchored σ) β) :
    (guardMapped act).run = Mapped.inside act.run := rfl

omit [Cursor σ UInt8] [GuardedCursor σ UInt8] in
@[simp] lemma guardThrough_run (act : Guarded (Anchored σ) UInt8) :
    (guardThrough act).run = Mapped.insideMapped act.run := rfl

instance : GuardedCursor (Mapped σ) UInt8 where
  hasNext := guardMapped GuardedCursor.hasNext
  hasPrevious := guardMapped GuardedCursor.hasPrevious
  peekNext := guardThrough GuardedCursor.peekNext
  peekPrevious := guardThrough GuardedCursor.peekPrevious
  next := guardThrough GuardedCursor.next
  previous := guardThrough GuardedCursor.previous
  hasNext_run := by simp; rfl
  hasPrevious_run := by simp; rfl
  peekNext_run := by simp; rfl
  peekPrevious_run := by simp; rfl
  next_run := by simp; rfl
  previous_run := by simp; rfl

end Mapped

section Filtered

variable [Cursor σ α] [GuardedCursor σ α]

def guardFiltered (act : Guarded σ β) : Guarded (Filtered σ α) β :=
  .within Filtered.inner (fun s inner => { s with inner }) act

def guardSkipAhead : Nat → Guarded (Filtered σ α) Bool
  | 0 => pure false
  | fuel + 1 => do
    if ← guardFiltered GuardedCursor.hasNext then
      let u ← guardFiltered GuardedCursor.peekNext
      let s ← Guarded.free Action.here
      if s.hidden u then
        let _ ← guardFiltered GuardedCursor.next
        guardSkipAhead fuel
      else pure true
    else pure false

def guardSkipBack : Nat → Guarded (Filtered σ α) Bool
  | 0 => pure false
  | fuel + 1 => do
    if ← guardFiltered GuardedCursor.hasPrevious then
      let u ← guardFiltered GuardedCursor.peekPrevious
      let s ← Guarded.free Action.here
      if s.hidden u then
        let _ ← guardFiltered GuardedCursor.previous
        guardSkipBack fuel
      else pure true
    else pure false

def guardSettleAhead : Guarded (Filtered σ α) Bool := do
  let s ← Guarded.free Action.here
  guardSkipAhead (Cursor.capacity s.inner + 1)

def guardSettleBack : Guarded (Filtered σ α) Bool := do
  let s ← Guarded.free Action.here
  if s.index = 0 then pure false else guardSkipBack (Cursor.index s.inner + 1)

def guardVisibleAhead (act : Guarded σ β) : Guarded (Filtered σ α) β := do
  if ← guardSettleAhead then guardFiltered act else .free (Action.exhausted Filtered.index)

def guardVisibleBack (act : Guarded σ β) : Guarded (Filtered σ α) β := do
  if ← guardSettleBack then guardFiltered act else .free (Action.exhausted Filtered.index)

omit [Cursor σ α] [GuardedCursor σ α] in
@[simp] lemma guardFiltered_run (act : Guarded σ β) :
    (guardFiltered act : Guarded (Filtered σ α) β).run = Filtered.inside act.run := rfl

@[simp] lemma guardSkipAhead_run (fuel : Nat) :
    (guardSkipAhead fuel : Guarded (Filtered σ α) Bool).run = Filtered.skipAhead fuel := by
  induction fuel with
  | zero => rfl
  | succ fuel ih => simp [guardSkipAhead, Filtered.skipAhead, ih]

@[simp] lemma guardSkipBack_run (fuel : Nat) :
    (guardSkipBack fuel : Guarded (Filtered σ α) Bool).run = Filtered.skipBack fuel := by
  induction fuel with
  | zero => rfl
  | succ fuel ih => simp [guardSkipBack, Filtered.skipBack, ih]

@[simp] lemma guardSettleAhead_run :
    (guardSettleAhead : Guarded (Filtered σ α) Bool).run = Filtered.settleAhead := by
  simp [guardSettleAhead, Filtered.settleAhead]

@[simp] lemma guardSettleBack_run :
    (guardSettleBack : Guarded (Filtered σ α) Bool).run = Filtered.settleBack := by
  simp [guardSettleBack, Filtered.settleBack]

@[simp] lemma guardVisibleAhead_run (act : Guarded σ β) :
    (guardVisibleAhead act : Guarded (Filtered σ α) β).run = Filtered.insideAhead act.run := by
  simp [guardVisibleAhead, Filtered.insideAhead]

@[simp] lemma guardVisibleBack_run (act : Guarded σ β) :
    (guardVisibleBack act : Guarded (Filtered σ α) β).run = Filtered.insideBack act.run := by
  simp [guardVisibleBack, Filtered.insideBack]

instance : GuardedCursor (Filtered σ α) α where
  hasNext := guardSettleAhead
  hasPrevious := guardSettleBack
  peekNext := guardVisibleAhead GuardedCursor.peekNext
  peekPrevious := guardVisibleBack GuardedCursor.peekPrevious
  next := do
    let u ← guardVisibleAhead GuardedCursor.next
    Guarded.free (Action.change fun s => { s with index := s.index + 1 })
    pure u
  previous := do
    let u ← guardVisibleBack GuardedCursor.previous
    Guarded.needs (fun s => 0 < s.index) (Action.change fun s => { s with index := s.index - 1 })
    pure u
  hasNext_run := by simp; rfl
  hasPrevious_run := by simp; rfl
  peekNext_run := by simp; rfl
  peekPrevious_run := by simp; rfl
  next_run := by simp; rfl
  previous_run := by simp; rfl

end Filtered

section Chained

/-- The current member is one of the members. -/
def guardMember (act : Guarded (Anchored σ) β) : Guarded (Chained σ) β :=
  ⟨Chained.inside act.run,
    fun s => ∃ h : s.current < s.members.size, act.safe s.members[s.current]⟩

@[simp] lemma guardMember_run (act : Guarded (Anchored σ) β) :
    (guardMember act).run = Chained.inside act.run := rfl

variable [Cursor σ α] [GuardedCursor σ α]

def guardChainAheadFrom : Nat → Guarded (Chained σ) Bool
  | 0 => pure false
  | left + 1 => do
    if ← guardMember GuardedCursor.hasNext then pure true
    else if left = 0 then pure false
    else
      Guarded.free (Action.change fun s => { s with current := s.current + 1 })
      guardChainAheadFrom left

def guardChainAhead : Guarded (Chained σ) Bool := do
  let s ← Guarded.free Action.here
  guardChainAheadFrom (s.members.size - s.current)

def guardMemberAhead (act : Guarded (Anchored σ) β) : Guarded (Chained σ) β := do
  if ← guardChainAhead then guardMember act else .free (Action.exhausted Chained.index)

/-- The search back looks at places that it has counted down to, and is free. -/
def guardMemberBack (act : Guarded (Anchored σ) β) : Guarded (Chained σ) β := do
  if ← Guarded.free Chained.settleBack then guardMember act
  else .free (Action.exhausted Chained.index)

@[simp] lemma guardChainAheadFrom_run (left : Nat) :
    (guardChainAheadFrom left : Guarded (Chained σ) Bool).run = Chained.settleAheadFrom left := by
  induction left with
  | zero => rfl
  | succ left ih => simp [guardChainAheadFrom, Chained.settleAheadFrom, ih]

@[simp] lemma guardChainAhead_run :
    (guardChainAhead : Guarded (Chained σ) Bool).run = Chained.settleAhead := by
  simp [guardChainAhead, Chained.settleAhead]

@[simp] lemma guardMemberAhead_run (act : Guarded (Anchored σ) β) :
    (guardMemberAhead act).run = Chained.insideAhead act.run := by
  simp [guardMemberAhead, Chained.insideAhead]

omit [Cursor σ α] [GuardedCursor σ α] in
@[simp] lemma guardMemberBack_run (act : Guarded (Anchored σ) β) :
    (guardMemberBack act).run = Chained.insideBack act.run := by
  simp [guardMemberBack, Chained.insideBack]

instance : GuardedCursor (Chained σ) α where
  hasNext := guardChainAhead
  hasPrevious := .free Chained.settleBack
  peekNext := guardMemberAhead GuardedCursor.peekNext
  peekPrevious := guardMemberBack GuardedCursor.peekPrevious
  next := do
    let u ← guardMemberAhead GuardedCursor.next
    Guarded.free (Action.change fun s => { s with index := s.index + 1 })
    pure u
  previous := do
    let u ← guardMemberBack GuardedCursor.previous
    Guarded.needs (fun s => 0 < s.index) (Action.change fun s => { s with index := s.index - 1 })
    pure u
  hasNext_run := by simp; rfl
  hasPrevious_run := by simp; rfl
  peekNext_run := by simp; rfl
  peekPrevious_run := by simp; rfl
  next_run := by simp; rfl
  previous_run := by simp; rfl

end Chained

end BaseText.Proofs
