import BaseText.Cursor.Limited
import BaseText.Cursor.Delimited
import BaseText.Cursor.Mapped
import BaseText.Cursor.Filtered
import BaseText.Cursor.Chained
import BaseText.Cursor.Sequence
import BaseText.Cursor.Text
import BaseText.Encoding
import BaseText.Decoding

/-!
# Stacks of cursors

A stack is a source with any number of layers over it, chosen while the program runs. Its type
records how many layers there are at most and whether it yields bytes or characters. The layers of
a stack of depth `n + 1` lie over stacks of depth `n`, so every operation is defined by recursion
on the depth.
-/

namespace BaseText

/-- What a stack yields. -/
inductive Kind where
  | byte
  | char
deriving DecidableEq, Repr

abbrev Kind.Carrier : Kind → Type
  | byte => UInt8
  | char => Char

instance : (k : Kind) → DecidableEq k.Carrier
  | .byte => inferInstanceAs (DecidableEq UInt8)
  | .char => inferInstanceAs (DecidableEq Char)

/-- A cursor that is made from units and not from another cursor. -/
inductive Source : Kind → Type where
  /-- A view of units that are kept elsewhere. -/
  | sequence {k : Kind} (cursor : Sequence k.Carrier) : Source k
  /-- A buffer that the cursor keeps itself. -/
  | buffer {k : Kind} (cursor : Sequence k.Carrier) : Source k
  | text (cursor : TextCursor) : Source .char

/-- A cursor over stacks of type `S`. -/
inductive Layer (S : Kind → Type) : Kind → Type where
  | plain {k : Kind} (cursor : S k) : Layer S k
  | limited {k : Kind} (cursor : Limited (S k)) : Layer S k
  | delimited {k : Kind} (cursor : Delimited (S k) k.Carrier) : Layer S k
  | filtered {k : Kind} (cursor : Filtered (S k) k.Carrier) : Layer S k
  | chained {k : Kind} (cursor : Chained (S k)) : Layer S k
  | mapped (cursor : Mapped (S .byte)) : Layer S .byte
  | encoded (cursor : Encoded (S .byte)) : Layer S .char
  | decoded (cursor : Decoded (S .char)) : Layer S .byte

/-- A source under at most `n` layers. -/
def Stack : Nat → Kind → Type
  | 0 => Source
  | n + 1 => Layer (Stack n)

def Source.perform {k : Kind} {β : Type} (act : (σ : Type) → [Cursor σ k.Carrier] → Action σ β) :
    Action (Source k) β
  | .sequence c => let o := act _ c; ⟨o.result, .sequence o.cursor, o.log⟩
  | .buffer c => let o := act _ c; ⟨o.result, .buffer o.cursor, o.log⟩
  | .text c => let o := act TextCursor c; ⟨o.result, .text o.cursor, o.log⟩

def Source.view {k : Kind} {β : Type} (read : (σ : Type) → [Cursor σ k.Carrier] → σ → β) :
    Source k → β
  | .sequence c | .buffer c => read _ c
  | .text c => read TextCursor c

instance (k : Kind) : Cursor (Source k) k.Carrier where
  hasNext := Source.perform fun _ _ => Cursor.hasNext
  hasPrevious := Source.perform fun _ _ => Cursor.hasPrevious
  peekNext := Source.perform fun _ _ => Cursor.peekNext
  peekPrevious := Source.perform fun _ _ => Cursor.peekPrevious
  next := Source.perform fun _ _ => Cursor.next
  previous := Source.perform fun _ _ => Cursor.previous
  index := Source.view fun _ _ => Cursor.index
  capacity := Source.view fun _ _ => Cursor.capacity

namespace Layer

variable {S : Kind → Type} [(k : Kind) → Cursor (S k) k.Carrier] {k : Kind} {β : Type}

def perform (act : (σ : Type) → [Cursor σ k.Carrier] → Action σ β) : Action (Layer S k) β
  | .plain c => let o := act _ c; ⟨o.result, .plain o.cursor, o.log⟩
  | .limited c => let o := act _ c; ⟨o.result, .limited o.cursor, o.log⟩
  | .delimited c => let o := act _ c; ⟨o.result, .delimited o.cursor, o.log⟩
  | .filtered c => let o := act _ c; ⟨o.result, .filtered o.cursor, o.log⟩
  | .chained c => let o := act _ c; ⟨o.result, .chained o.cursor, o.log⟩
  | .mapped c => let o := act (Mapped (S .byte)) c; ⟨o.result, .mapped o.cursor, o.log⟩
  | .encoded c => let o := act (Encoded (S .byte)) c; ⟨o.result, .encoded o.cursor, o.log⟩
  | .decoded c => let o := act (Decoded (S .char)) c; ⟨o.result, .decoded o.cursor, o.log⟩

def view (read : (σ : Type) → [Cursor σ k.Carrier] → σ → β) : Layer S k → β
  | .plain c => read _ c
  | .limited c => read _ c
  | .delimited c => read _ c
  | .filtered c => read _ c
  | .chained c => read _ c
  | .mapped c => read (Mapped (S .byte)) c
  | .encoded c => read (Encoded (S .byte)) c
  | .decoded c => read (Decoded (S .char)) c

instance (k : Kind) : Cursor (Layer S k) k.Carrier where
  hasNext := perform fun _ _ => Cursor.hasNext
  hasPrevious := perform fun _ _ => Cursor.hasPrevious
  peekNext := perform fun _ _ => Cursor.peekNext
  peekPrevious := perform fun _ _ => Cursor.peekPrevious
  next := perform fun _ _ => Cursor.next
  previous := perform fun _ _ => Cursor.previous
  index := view fun _ _ => Cursor.index
  capacity := view fun _ _ => Cursor.capacity

end Layer

instance Stack.instCursor : (n : Nat) → (k : Kind) → Cursor (Stack n k) k.Carrier
  | 0, k => inferInstanceAs (Cursor (Source k) k.Carrier)
  | n + 1, k =>
    have := Stack.instCursor n
    inferInstanceAs (Cursor (Layer (Stack n) k) k.Carrier)

structure AnyStack (k : Kind) where
  depth : Nat
  stack : Stack depth k

namespace AnyStack

variable {k : Kind} {β : Type}

def lift (act : (n : Nat) → Action (Stack n k) β) : Action (AnyStack k) β := fun s =>
  let o := act s.depth s.stack
  ⟨o.result, ⟨s.depth, o.cursor⟩, o.log⟩

instance : Cursor (AnyStack k) k.Carrier where
  hasNext := lift fun _ => Cursor.hasNext
  hasPrevious := lift fun _ => Cursor.hasPrevious
  peekNext := lift fun _ => Cursor.peekNext
  peekPrevious := lift fun _ => Cursor.peekPrevious
  next := lift fun _ => Cursor.next
  previous := lift fun _ => Cursor.previous
  index s := Cursor.index s.stack
  capacity s := Cursor.capacity s.stack

end AnyStack

/-- The same stack with `m` layers over it that change nothing. -/
def Stack.raise {n : Nat} {k : Kind} (s : Stack n k) : (m : Nat) → Stack (n + m) k
  | 0 => s
  | m + 1 => Layer.plain (s.raise m)

namespace AnyStack

variable {k : Kind}

def ofSource (source : Source k) : AnyStack k := ⟨0, source⟩

def cover {k' : Kind} (s : AnyStack k) (layer : {S : Kind → Type} → S k → Layer S k') :
    AnyStack k' :=
  ⟨s.depth + 1, layer s.stack⟩

/-- Shows at most `bound` units from here. -/
def limit (s : AnyStack k) (bound : Nat) : AnyStack k :=
  s.cover fun c => .limited (.ofCursor c bound)

/-- Ends in front of the next of `stops`. -/
def delimit (s : AnyStack k) (stops : List k.Carrier) : AnyStack k :=
  s.cover fun c => .delimited (.ofCursor c stops)

def filter (s : AnyStack k) (hidden : k.Carrier → Bool) : AnyStack k :=
  s.cover fun c => .filtered (.ofCursor c hidden)

def map (s : AnyStack .byte) (table : ByteTable) : AnyStack .byte :=
  s.cover fun c => .mapped (.ofCursor c table)

def encode (s : AnyStack .byte) (encoding : Encoding) : AnyStack .char :=
  s.cover fun c => .encoded (.ofCursor encoding c)

def decode (s : AnyStack .char) (decoding : Decoding) : AnyStack .byte :=
  s.cover fun c => .decoded (.ofCursor decoding c)

def atDepth (s : AnyStack k) (depth : Nat) (h : s.depth ≤ depth) : Stack depth k :=
  Nat.add_sub_cancel' h ▸ s.stack.raise (depth - s.depth)

def maxDepth : List (AnyStack k) → Nat
  | [] => 0
  | s :: rest => max s.depth (maxDepth rest)

theorem depth_le_maxDepth {members : List (AnyStack k)} {s : AnyStack k} (h : s ∈ members) :
    s.depth ≤ maxDepth members := by
  induction h with
  | head => exact Nat.le_max_left _ _
  | tail _ _ ih => exact Nat.le_trans ih (Nat.le_max_right _ _)

/-- Shows stacks one after the other, each from where it stands. -/
def chain (members : List (AnyStack k)) : AnyStack k :=
  ⟨maxDepth members + 1, .chained <| .ofCursors <| members.attach.map fun m =>
    m.1.atDepth (maxDepth members) (depth_le_maxDepth m.2)⟩

/-- Makes at most `n` steps forward and stops at the first error, which is of no further
interest. -/
def advance (n : Nat) : Action (AnyStack k) Unit := do
  let _ ← Action.attempt (Action.gather (pure true) Cursor.next n)
  pure ()

end AnyStack

/-- What lies under the outermost layer that changes anything, as it stands now. Of a chain this
is the member asked for. -/
def Stack.inner? : (n : Nat) → {k : Kind} → Stack n k → (member : Nat) →
    Option ((k : Kind) × AnyStack k)
  | 0, _, _, _ => none
  | n + 1, _, .plain c, member => Stack.inner? n c member
  | n + 1, k, .limited c, _ => some ⟨k, n, c.inner.inner⟩
  | n + 1, k, .delimited c, _ => some ⟨k, n, c.inner.inner⟩
  | n + 1, k, .filtered c, _ => some ⟨k, n, c.inner⟩
  | n + 1, k, .chained c, member => c.members[member]?.map fun m => ⟨k, n, m.inner⟩
  | n + 1, _, .mapped c, _ => some ⟨.byte, n, c.inner.inner⟩
  | n + 1, _, .encoded c, _ => some ⟨.byte, n, c.source.inner⟩
  | n + 1, _, .decoded c, _ => some ⟨.char, n, c.source.inner⟩

def AnyStack.inner? {k : Kind} (s : AnyStack k) (member : Nat) : Option ((k : Kind) × AnyStack k) :=
  s.stack.inner? s.depth member

/-- How many more units the outermost layer that changes anything lets through, if it limits
them. -/
def Stack.remaining? : (n : Nat) → {k : Kind} → Stack n k → Option Nat
  | 0, _, _ => none
  | n + 1, _, .plain c => Stack.remaining? n c
  | _ + 1, _, .limited c => some c.remaining
  | _ + 1, _, _ => none

def AnyStack.remaining? {k : Kind} (s : AnyStack k) : Option Nat := s.stack.remaining? s.depth

/-- Which member the outermost layer that changes anything is reading, if it is a chain. -/
def Stack.current? : (n : Nat) → {k : Kind} → Stack n k → Option Nat
  | 0, _, _ => none
  | n + 1, _, .plain c => Stack.current? n c
  | _ + 1, _, .chained c => some c.current
  | _ + 1, _, _ => none

def AnyStack.current? {k : Kind} (s : AnyStack k) : Option Nat := s.stack.current? s.depth

end BaseText
