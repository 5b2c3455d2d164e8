import BaseText.Proofs.Groups
import BaseText.Proofs.Guards
import BaseText.Proofs.Runs

/-!
# Guarded groups and stacks

A cursor over groups steps its source back over whole groups, and looks units up by their place in
the group at hand. A group code shifts digits by distances that it works out from their places, and
keeps what it reads and what it makes of it in cells whose number is fixed. With this every stack
can be written in guarded actions.
-/

namespace BaseText.Proofs

variable {ρ σ α β γ : Type}

section Digits

variable (order : BitOrder) (width count : Nat)

/-- How far a digit is shifted, which one of the orders works out as a difference. A word can only
be shifted by less than its length. -/
def guardShift (i : Nat) : Guarded σ Nat :=
  .needs (fun _ => width * (i + 1) ≤ width * count ∧ order.shift width count i < 64)
    (pure (order.shift width count i))

/-- Puts digits, each with its place, into a number. -/
def guardSum : List (Nat × Nat) → Nat → Guarded σ Nat
  | [], n => pure n
  | (digit, i) :: rest, n => do
    let distance ← guardShift order width count i
    guardSum rest (n ||| digit <<< distance)

/-- Takes the digits at the given places out of a number. -/
def guardDigits (n : Nat) : List Nat → Guarded σ (List Nat)
  | [] => pure []
  | i :: places => do
    let distance ← guardShift order width count i
    let rest ← guardDigits n places
    pure ((n >>> distance) % Nat.pow 2 width :: rest)

/-- Turns at most `count` digits into the first `wanted` of `count'` digits of another width, which
are cut out by a mask of that width. -/
def guardRepack (width' count' wanted : Nat) (digits : List Nat) : Guarded σ (List Nat) := do
  Guarded.needs (fun _ => digits.length ≤ count ∧ wanted ≤ count' ∧ width' < 64) (pure ())
  let n ← guardSum order width count digits.zipIdx 0
  guardDigits order width' count' n (List.range wanted)

lemma guardSum_run (digits : List (Nat × Nat)) (n : Nat) :
    (guardSum order width count digits n : Guarded σ Nat).run =
      pure (digits.foldl (fun n (digit, i) => n ||| digit <<< order.shift width count i) n) := by
  induction digits generalizing n with
  | nil => rfl
  | cons digit rest ih => simp [guardSum, guardShift, ih]

lemma guardDigits_run (n : Nat) (places : List Nat) :
    (guardDigits order width count n places : Guarded σ (List Nat)).run =
      pure (places.map fun i => (n >>> order.shift width count i) % Nat.pow 2 width) := by
  induction places with
  | nil => rfl
  | cons i places ih => simp [guardDigits, guardShift, ih]

@[simp] lemma guardRepack_run (width' count' wanted : Nat) (digits : List Nat) :
    (guardRepack order width count width' count' wanted digits : Guarded σ (List Nat)).run =
      pure (Digits.ofNat order width' count' wanted (Digits.toNat order width count digits)) := by
  simp [guardRepack, guardSum_run, guardDigits_run, Digits.ofNat, Digits.toNat]

end Digits

/-- A group code in guarded actions, and the cells that it has for the groups on either side. -/
class GuardedCode (ρ : Type) {α β : outParam Type} [GroupCode ρ α β] where
  close : {σ : Type} → ρ → List α → Guarded σ (Except Cause (List β × Ending))
  /-- Cells for the units of a group. -/
  slots : ρ → Nat
  /-- Cells for what a group becomes. -/
  capacity : ρ → Nat
  close_run : ∀ {σ : Type} (code : ρ) (units : List α),
    (close code units : Guarded σ _).run = pure (GroupCode.close code units)

attribute [simp] GuardedCode.close_run

instance : GuardedCode Encoding where
  close e bytes := do
    let values ← guardRepack e.codec.order 8 e.codec.groupBytes e.codec.bits e.codec.groupSymbols
      (e.codec.symbolCount bytes.length) (bytes.map UInt8.toNat)
    let symbols := values.map fun v => e.codec.symbol v e.options.toUpperCase
    pure <|
      if bytes.length = e.codec.groupBytes then .ok (symbols, .more)
      else if e.options.addPadding && e.codec.isPadded then
        .ok (symbols.rightpad e.codec.groupSymbols pad, .last)
      else .ok (symbols, .last)
  slots _ := 5
  capacity _ := 8
  close_run e bytes := by
    simp only [Guarded.run_bind, guardRepack_run, Guarded.run_pure, pure_bind, GroupCode.close,
      Encoding.groupSymbols]
    congr 1
    split
    · rfl
    · split <;> rfl

instance : GuardedCode Decoding where
  close d symbols :=
    match if symbols.length < d.codec.groupSymbols then d.fault? symbols else none with
    | some cause => pure (.error cause)
    | none => do
      let values := symbols.filterMap d.codec.value?
      let bytes ← guardRepack d.codec.order d.codec.bits d.codec.groupSymbols 8 d.codec.groupBytes
        (d.codec.byteCount values.length) values
      pure (.ok (bytes.map UInt8.ofNat, d.ending symbols))
  slots _ := 8
  capacity _ := 5
  close_run d symbols := by
    simp only [GroupCode.close]
    cases if symbols.length < d.codec.groupSymbols then d.fault? symbols else none with
    | some cause => rfl
    | none => simp [Decoding.groupBytes, Codec.bytesOfValues]

section Seeking

variable [Cursor σ α] [GuardedCursor σ α]

def guardStepBack : Nat → Guarded (Anchored σ) Unit
  | 0 => pure ()
  | n + 1 => do
    let _ ← (GuardedCursor.previous : Guarded (Anchored σ) α)
    guardStepBack n

def guardStepForth : Nat → Guarded (Anchored σ) Unit
  | 0 => pure ()
  | n + 1 => do
    let _ ← (GuardedCursor.next : Guarded (Anchored σ) α)
    guardStepForth n

def guardSeek (target : Nat) : Guarded (Anchored σ) Unit := do
  let before ← Guarded.free Action.here
  guardStepBack (before.index - target)
  let after ← Guarded.free Action.here
  guardStepForth (target - after.index)

@[simp] lemma guardStepBack_run (n : Nat) :
    (guardStepBack n : Guarded (Anchored σ) Unit).run = Anchored.stepBack n := by
  induction n with
  | zero => rfl
  | succ n ih => simp [guardStepBack, Anchored.stepBack, ih]

@[simp] lemma guardStepForth_run (n : Nat) :
    (guardStepForth n : Guarded (Anchored σ) Unit).run = Anchored.stepForth n := by
  induction n with
  | zero => rfl
  | succ n ih => simp [guardStepForth, Anchored.stepForth, ih]

@[simp] lemma guardSeek_run (target : Nat) :
    (guardSeek target : Guarded (Anchored σ) Unit).run = Anchored.seek target := by
  simp [guardSeek, Anchored.seek]

end Seeking

section Grouped

def guardSource (act : Guarded (Anchored σ) γ) : Guarded (Grouped ρ σ β) γ :=
  .within Grouped.source (fun s source => { s with source }) act

@[simp] lemma guardSource_run (act : Guarded (Anchored σ) γ) :
    (guardSource act : Guarded (Grouped ρ σ β) γ).run = Grouped.inside act.run := rfl

variable [GroupCode ρ α β] [GuardedCode ρ] [Cursor σ α] [GuardedCursor σ α]

/-- Every unit that is read goes into a cell of its own. -/
def guardReadUnits (units : List α) : Nat → Guarded (Grouped ρ σ β) (List α)
  | 0 => pure units
  | left + 1 => do
    let s ← Guarded.free Action.here
    if ← guardSource GuardedCursor.hasNext then
      let u ← guardSource GuardedCursor.next
      match GroupCode.refuse? s.code units u with
      | some cause => .free (Grouped.reject cause s.source.innerIndex)
      | none =>
        Guarded.needs (fun s => units.length < GuardedCode.slots s.code) (pure ())
        guardReadUnits (units ++ [u]) left
    else pure units

def guardLoad (start : Nat) (atEnd : Bool) : Guarded (Grouped ρ σ β) Bool := do
  guardSource (guardSeek start)
  let s ← Guarded.free Action.here
  let units ← guardReadUnits [] (GroupCode.size s.code)
  if units.isEmpty then pure false
  else
    let s ← Guarded.free Action.here
    match ← GuardedCode.close s.code units with
    | .error cause => .free (Grouped.reject cause s.source.innerIndex)
    | .ok (out, ending) =>
      Guarded.needs (fun s => out.length ≤ GuardedCode.capacity s.code)
        (Action.change fun s =>
          { s with
            group := { start, span := units.length, units := out, ending }
            passed := if atEnd then out.length else 0 })
      pure true

def guardReadyAhead : Guarded (Grouped ρ σ β) Bool := do
  let s ← Guarded.free Action.here
  if s.passed < s.group.units.length then pure true
  else
    let stop := s.group.start + s.group.span
    match s.group.ending with
    | .more => guardLoad stop false
    | .last => pure false
    | .sealed =>
      guardSource (guardSeek stop)
      if ← guardSource GuardedCursor.hasNext then
        let s ← Guarded.free Action.here
        .free (Grouped.reject .trailingSymbols s.source.innerIndex)
      else pure false

/-- The group before the one at hand starts a complete group earlier. -/
def guardReadyBack : Guarded (Grouped ρ σ β) Bool := do
  let s ← Guarded.free Action.here
  if 0 < s.passed then pure true
  else if s.group.start = 0 then pure false
  else
    let start := s.group.start - GroupCode.size s.code
    Guarded.needs (fun s => GroupCode.size s.code ≤ s.group.start)
      (Action.emit (GroupCode.reread s.code start))
    guardLoad start true

/-- The unit ahead has a place in the group at hand. -/
def guardPeekAhead : Guarded (Grouped ρ σ β) β := do
  if ← guardReadyAhead then
    let s ← Guarded.needs (fun s => s.passed < s.group.units.length ∧
      s.group.units.length ≤ GuardedCode.capacity s.code) Action.here
    match s.group.units[s.passed]? with
    | some u => pure u
    | none => .free (Action.exhausted Grouped.index)
  else .free (Action.exhausted Grouped.index)

/-- The place of the unit behind can be counted down to, and lies in the group at hand. -/
def guardPeekBack : Guarded (Grouped ρ σ β) β := do
  if ← guardReadyBack then
    let s ← Guarded.needs (fun s => 0 < s.passed ∧ s.passed - 1 < s.group.units.length ∧
      s.group.units.length ≤ GuardedCode.capacity s.code) Action.here
    match if 0 < s.passed then s.group.units[s.passed - 1]? else none with
    | some u => pure u
    | none => .free (Action.exhausted Grouped.index)
  else .free (Action.exhausted Grouped.index)

@[simp] lemma guardReadUnits_run (units : List α) (left : Nat) :
    (guardReadUnits units left : Guarded (Grouped ρ σ β) (List α)).run =
      Grouped.readUnits units left := by
  induction left generalizing units with
  | zero => rfl
  | succ left ih =>
    unfold guardReadUnits Grouped.readUnits
    simp only [Guarded.run_bind, Guarded.run_free, Guarded.run_ite, guardSource_run,
      GuardedCursor.hasNext_run, GuardedCursor.next_run]
    congr! with s more hmore u
    cases GroupCode.refuse? s.code units u <;> simp [ih]

@[simp] lemma guardLoad_run (start : Nat) (atEnd : Bool) :
    (guardLoad start atEnd : Guarded (Grouped ρ σ β) Bool).run = Grouped.load start atEnd := by
  unfold guardLoad Grouped.load
  simp only [Guarded.run_bind, Guarded.run_free, Guarded.run_ite, guardSource_run, guardSeek_run,
    guardReadUnits_run, GuardedCode.close_run, pure_bind]
  congr! with _ s units _ hne s'
  rcases GroupCode.close s'.code units with cause | ⟨out, ending⟩ <;> simp

@[simp] lemma guardReadyAhead_run :
    (guardReadyAhead : Guarded (Grouped ρ σ β) Bool).run = Grouped.readyAhead := by
  unfold guardReadyAhead Grouped.readyAhead
  simp only [Guarded.run_bind, Guarded.run_free, Guarded.run_ite]
  congr! with s hs
  cases s.group.ending <;> simp

@[simp] lemma guardReadyBack_run :
    (guardReadyBack : Guarded (Grouped ρ σ β) Bool).run = Grouped.readyBack := by
  simp [guardReadyBack, Grouped.readyBack]

@[simp] lemma guardPeekAhead_run :
    (guardPeekAhead : Guarded (Grouped ρ σ β) β).run = Grouped.peekAhead := by
  unfold guardPeekAhead Grouped.peekAhead
  simp only [Guarded.run_bind, Guarded.run_free, Guarded.run_ite, Guarded.run_needs,
    guardReadyAhead_run]
  congr! with more hmore s
  cases s.group.units[s.passed]? <;> rfl

@[simp] lemma guardPeekBack_run :
    (guardPeekBack : Guarded (Grouped ρ σ β) β).run = Grouped.peekBack := by
  unfold guardPeekBack Grouped.peekBack
  simp only [Guarded.run_bind, Guarded.run_free, Guarded.run_ite, Guarded.run_needs,
    guardReadyBack_run]
  congr! with any hany s
  cases if 0 < s.passed then s.group.units[s.passed - 1]? else none <;> rfl

instance : GuardedCursor (Grouped ρ σ β) β where
  hasNext := guardReadyAhead
  hasPrevious := guardReadyBack
  peekNext := guardPeekAhead
  peekPrevious := guardPeekBack
  next := do
    let u ← guardPeekAhead
    Guarded.free (Action.change fun s => { s with passed := s.passed + 1, index := s.index + 1 })
    pure u
  previous := do
    let u ← guardPeekBack
    Guarded.needs (fun s => 0 < s.passed ∧ 0 < s.index)
      (Action.change fun s => { s with passed := s.passed - 1, index := s.index - 1 })
    pure u
  hasNext_run := by simp; rfl
  hasPrevious_run := by simp; rfl
  peekNext_run := by simp; rfl
  peekPrevious_run := by simp; rfl
  next_run := by simp; rfl
  previous_run := by simp; rfl

end Grouped

section Stacks

variable {k : Kind}

/-- A source is asked as the cursor that it consists of. -/
def guardPerform (act : (σ : Type) → [Cursor σ k.Carrier] → [GuardedCursor σ k.Carrier] →
    Guarded σ β) : Guarded (Source k) β where
  run
    | .sequence c => let o := (act _).run c; ⟨o.result, .sequence o.cursor, o.log⟩
    | .buffer c => let o := (act _).run c; ⟨o.result, .buffer o.cursor, o.log⟩
    | .text c => let o := (act TextCursor).run c; ⟨o.result, .text o.cursor, o.log⟩
  safe
    | .sequence c | .buffer c => (act _).safe c
    | .text c => (act TextCursor).safe c

lemma guardPerform_run {act : (σ : Type) → [Cursor σ k.Carrier] → [GuardedCursor σ k.Carrier] →
    Guarded σ β} {plain : (σ : Type) → [Cursor σ k.Carrier] → Action σ β}
    (h : ∀ (σ : Type) [Cursor σ k.Carrier] [GuardedCursor σ k.Carrier], (act σ).run = plain σ) :
    (guardPerform act).run = Source.perform plain := by
  funext s
  cases s <;> simp only [guardPerform, Source.perform, h]

instance : GuardedCursor (Source k) k.Carrier where
  hasNext := guardPerform fun _ _ _ => GuardedCursor.hasNext
  hasPrevious := guardPerform fun _ _ _ => GuardedCursor.hasPrevious
  peekNext := guardPerform fun _ _ _ => GuardedCursor.peekNext
  peekPrevious := guardPerform fun _ _ _ => GuardedCursor.peekPrevious
  next := guardPerform fun _ _ _ => GuardedCursor.next
  previous := guardPerform fun _ _ _ => GuardedCursor.previous
  hasNext_run := guardPerform_run fun _ _ _ => GuardedCursor.hasNext_run
  hasPrevious_run := guardPerform_run fun _ _ _ => GuardedCursor.hasPrevious_run
  peekNext_run := guardPerform_run fun _ _ _ => GuardedCursor.peekNext_run
  peekPrevious_run := guardPerform_run fun _ _ _ => GuardedCursor.peekPrevious_run
  next_run := guardPerform_run fun _ _ _ => GuardedCursor.next_run
  previous_run := guardPerform_run fun _ _ _ => GuardedCursor.previous_run

section Layer

variable {S : Kind → Type} [(k : Kind) → Cursor (S k) k.Carrier]
  [(k : Kind) → GuardedCursor (S k) k.Carrier]

/-- A layer is asked as the cursor that it consists of. -/
def guardLayer (act : (σ : Type) → [Cursor σ k.Carrier] → [GuardedCursor σ k.Carrier] →
    Guarded σ β) : Guarded (Layer S k) β where
  run
    | .plain c => let o := (act _).run c; ⟨o.result, .plain o.cursor, o.log⟩
    | .limited c => let o := (act _).run c; ⟨o.result, .limited o.cursor, o.log⟩
    | .delimited c => let o := (act _).run c; ⟨o.result, .delimited o.cursor, o.log⟩
    | .filtered c => let o := (act _).run c; ⟨o.result, .filtered o.cursor, o.log⟩
    | .chained c => let o := (act _).run c; ⟨o.result, .chained o.cursor, o.log⟩
    | .mapped c => let o := (act (Mapped (S .byte))).run c; ⟨o.result, .mapped o.cursor, o.log⟩
    | .encoded c => let o := (act (Encoded (S .byte))).run c; ⟨o.result, .encoded o.cursor, o.log⟩
    | .decoded c => let o := (act (Decoded (S .char))).run c; ⟨o.result, .decoded o.cursor, o.log⟩
  safe
    | .plain c => (act _).safe c
    | .limited c => (act _).safe c
    | .delimited c => (act _).safe c
    | .filtered c => (act _).safe c
    | .chained c => (act _).safe c
    | .mapped c => (act (Mapped (S .byte))).safe c
    | .encoded c => (act (Encoded (S .byte))).safe c
    | .decoded c => (act (Decoded (S .char))).safe c

lemma guardLayer_run {act : (σ : Type) → [Cursor σ k.Carrier] → [GuardedCursor σ k.Carrier] →
    Guarded σ β} {plain : (σ : Type) → [Cursor σ k.Carrier] → Action σ β}
    (h : ∀ (σ : Type) [Cursor σ k.Carrier] [GuardedCursor σ k.Carrier], (act σ).run = plain σ) :
    (guardLayer act : Guarded (Layer S k) β).run = Layer.perform plain := by
  funext s
  cases s <;> simp only [guardLayer, Layer.perform, h]

instance : GuardedCursor (Layer S k) k.Carrier where
  hasNext := guardLayer fun _ _ _ => GuardedCursor.hasNext
  hasPrevious := guardLayer fun _ _ _ => GuardedCursor.hasPrevious
  peekNext := guardLayer fun _ _ _ => GuardedCursor.peekNext
  peekPrevious := guardLayer fun _ _ _ => GuardedCursor.peekPrevious
  next := guardLayer fun _ _ _ => GuardedCursor.next
  previous := guardLayer fun _ _ _ => GuardedCursor.previous
  hasNext_run := guardLayer_run fun _ _ _ => GuardedCursor.hasNext_run
  hasPrevious_run := guardLayer_run fun _ _ _ => GuardedCursor.hasPrevious_run
  peekNext_run := guardLayer_run fun _ _ _ => GuardedCursor.peekNext_run
  peekPrevious_run := guardLayer_run fun _ _ _ => GuardedCursor.peekPrevious_run
  next_run := guardLayer_run fun _ _ _ => GuardedCursor.next_run
  previous_run := guardLayer_run fun _ _ _ => GuardedCursor.previous_run

end Layer

instance instGuardedStack : (n : Nat) → (k : Kind) → GuardedCursor (Stack n k) k.Carrier
  | 0, k => inferInstanceAs (GuardedCursor (Source k) k.Carrier)
  | n + 1, k =>
    have := instGuardedStack n
    inferInstanceAs (GuardedCursor (Layer (Stack n) k) k.Carrier)

/-- A stack is asked as one of its depth. -/
def guardLift (act : (n : Nat) → Guarded (Stack n k) β) : Guarded (AnyStack k) β where
  run := AnyStack.lift fun n => (act n).run
  safe s := (act s.depth).safe s.stack

instance : GuardedCursor (AnyStack k) k.Carrier where
  hasNext := guardLift fun _ => GuardedCursor.hasNext
  hasPrevious := guardLift fun _ => GuardedCursor.hasPrevious
  peekNext := guardLift fun _ => GuardedCursor.peekNext
  peekPrevious := guardLift fun _ => GuardedCursor.peekPrevious
  next := guardLift fun _ => GuardedCursor.next
  previous := guardLift fun _ => GuardedCursor.previous
  hasNext_run := by simp only [guardLift, GuardedCursor.hasNext_run]; rfl
  hasPrevious_run := by simp only [guardLift, GuardedCursor.hasPrevious_run]; rfl
  peekNext_run := by simp only [guardLift, GuardedCursor.peekNext_run]; rfl
  peekPrevious_run := by simp only [guardLift, GuardedCursor.peekPrevious_run]; rfl
  next_run := by simp only [guardLift, GuardedCursor.next_run]; rfl
  previous_run := by simp only [guardLift, GuardedCursor.previous_run]; rfl

end Stacks

/-- A call with the guards of the question that it puts. -/
def Call.guarded [Cursor σ α] [GuardedCursor σ α] : Call → Guarded σ (Reply α)
  | hasNext => .truth <$> GuardedCursor.hasNext
  | hasPrevious => .truth <$> GuardedCursor.hasPrevious
  | peekNext => .unit <$> GuardedCursor.peekNext
  | peekPrevious => .unit <$> GuardedCursor.peekPrevious
  | next => .unit <$> GuardedCursor.next
  | previous => .unit <$> GuardedCursor.previous
  | index => .free (Action.asks fun s => .index (Cursor.index s))

lemma Guarded.run_map (f : α → β) (act : Guarded σ α) : (f <$> act).run = f <$> act.run := rfl

/-- Without its guards a call is the call itself. -/
lemma Call.guarded_run [Cursor σ α] [GuardedCursor σ α] (call : Call) :
    (call.guarded : Guarded σ (Reply α)).run = call.ask := by
  cases call <;> simp [Call.guarded, Call.ask, Guarded.run_map]

end BaseText.Proofs
