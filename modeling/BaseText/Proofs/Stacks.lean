import BaseText.Stack
import BaseText.Proofs.Chaining
import BaseText.Proofs.Filtering
import BaseText.Proofs.Grouping
import BaseText.Proofs.Groups
import BaseText.Proofs.Sources

/-!
# Stacks seen as tapes

Every layer turns a tape into a tape, so every stack shows one, whatever its depth. So does what is
left when a layer is taken off again.
-/

namespace BaseText.Proofs

variable {k : Kind} {β : Type} {result : Except CodingError β} {refused : List Event}

/-- The tape of the cursor that a source consists of. -/
def SourceShows {k : Kind} : Source k → Tape k.Carrier → Prop
  | .sequence c, t | .buffer c, t => Shows c t
  | .text c, t => Shows c t

lemma Meets.source {act : (σ : Type) → [Cursor σ k.Carrier] → Action σ β} {t t' : Tape k.Carrier}
    (h : ∀ (σ : Type) [Cursor σ k.Carrier] [Viewed σ k.Carrier] (c : σ), Shows c t →
      Meets (act σ) c result refused (Shows · t'))
    {s : Source k} (hs : SourceShows s t) :
    Meets (Source.perform act) s result refused (SourceShows · t') := by
  cases s with
  | sequence c | buffer c | text c =>
    have hact := h _ c hs
    exact ⟨hact.result, hact.log, hact.cursor⟩

lemma source_index {s : Source k} {t : Tape k.Carrier} (h : SourceShows s t) :
    Cursor.index s = t.behind.length := by
  cases s with
  | sequence c | buffer c | text c =>
    have hc : Shows c t := h
    have hi := simulation.index hc
    exact hi

lemma source_room {s : Source k} {t : Tape k.Carrier} (h : SourceShows s t) :
    t.units.length ≤ Cursor.capacity s := by
  cases s with
  | sequence c | buffer c | text c =>
    have hc : Shows c t := h
    have hroom := simulation.room hc
    exact hroom

instance : Viewed (Source k) k.Carrier where
  Shows := SourceShows
  simulation :=
    { index := source_index
      room := source_room
      hasNext := .source fun _ _ _ _ => simulation.hasNext
      hasPrevious := .source fun _ _ _ _ => simulation.hasPrevious
      peekNext := .source fun _ _ _ _ => simulation.peekNext
      peekPrevious := .source fun _ _ _ _ => simulation.peekPrevious
      next := .source fun _ _ _ _ => simulation.next
      previous := .source fun _ _ _ _ => simulation.previous }

section Layer

variable {S : Kind → Type} [(k : Kind) → Cursor (S k) k.Carrier]
  [(k : Kind) → Viewed (S k) k.Carrier]

/-- The tape of the cursor that a layer consists of. -/
def LayerShows {k : Kind} : Layer S k → Tape k.Carrier → Prop
  | .plain c, t => Shows c t
  | .limited c, t => Shows c t
  | .delimited c, t => Shows c t
  | .filtered c, t => Shows c t
  | .chained c, t => Shows c t
  | .mapped c, t => Shows c t
  | .encoded c, t => Shows c t
  | .decoded c, t => Shows c t

lemma Meets.layer {act : (σ : Type) → [Cursor σ k.Carrier] → Action σ β} {t t' : Tape k.Carrier}
    (h : ∀ (σ : Type) [Cursor σ k.Carrier] [Viewed σ k.Carrier] (c : σ), Shows c t →
      Meets (act σ) c result refused (Shows · t'))
    {s : Layer S k} (hs : LayerShows s t) :
    Meets (Layer.perform act) s result refused (LayerShows · t') := by
  cases s with
  | plain c | limited c | delimited c | filtered c | chained c | mapped c | encoded c | decoded c =>
    have hact := h _ c hs
    exact ⟨hact.result, hact.log, hact.cursor⟩

lemma layer_index {s : Layer S k} {t : Tape k.Carrier} (h : LayerShows s t) :
    Cursor.index s = t.behind.length := by
  cases s with
  | plain c | limited c | delimited c | filtered c | chained c | mapped c | encoded c | decoded c =>
    have hc : Shows c t := h
    have hi := simulation.index hc
    exact hi

lemma layer_room {s : Layer S k} {t : Tape k.Carrier} (h : LayerShows s t) :
    t.units.length ≤ Cursor.capacity s := by
  cases s with
  | plain c | limited c | delimited c | filtered c | chained c | mapped c | encoded c | decoded c =>
    have hc : Shows c t := h
    have hroom := simulation.room hc
    exact hroom

instance : Viewed (Layer S k) k.Carrier where
  Shows := LayerShows
  simulation :=
    { index := layer_index
      room := layer_room
      hasNext := .layer fun _ _ _ _ => simulation.hasNext
      hasPrevious := .layer fun _ _ _ _ => simulation.hasPrevious
      peekNext := .layer fun _ _ _ _ => simulation.peekNext
      peekPrevious := .layer fun _ _ _ _ => simulation.peekPrevious
      next := .layer fun _ _ _ _ => simulation.next
      previous := .layer fun _ _ _ _ => simulation.previous }

end Layer

instance instViewedStack : (n : Nat) → (k : Kind) → Viewed (Stack n k) k.Carrier
  | 0, k => inferInstanceAs (Viewed (Source k) k.Carrier)
  | n + 1, k =>
    have := instViewedStack n
    inferInstanceAs (Viewed (Layer (Stack n) k) k.Carrier)

instance : Viewed (AnyStack k) k.Carrier where
  Shows s t := Shows s.stack t
  simulation :=
    { index := fun h => have hi := simulation.index h; hi
      room := fun h => have hroom := simulation.room h; hroom
      hasNext := fun h => have h := simulation.hasNext h; ⟨h.result, h.log, h.cursor⟩
      hasPrevious := fun h => have h := simulation.hasPrevious h; ⟨h.result, h.log, h.cursor⟩
      peekNext := fun h => have h := simulation.peekNext h; ⟨h.result, h.log, h.cursor⟩
      peekPrevious := fun h => have h := simulation.peekPrevious h; ⟨h.result, h.log, h.cursor⟩
      next := fun h => have h := simulation.next h; ⟨h.result, h.log, h.cursor⟩
      previous := fun h => have h := simulation.previous h; ⟨h.result, h.log, h.cursor⟩ }

section Building

variable {s : AnyStack k} {t : Tape k.Carrier}

theorem shows_limit (h : Shows s t) (bound : Nat) : Shows (s.limit bound) (t.fresh.limit bound) :=
  limit_shows (σ := Stack s.depth k) h bound

theorem shows_delimit (h : Shows s t) (stops : List k.Carrier) :
    Shows (s.delimit stops) (t.fresh.delimit stops) :=
  delimit_shows (σ := Stack s.depth k) h stops

theorem shows_filter (h : Shows s t) (hidden : k.Carrier → Bool) :
    Shows (s.filter hidden) (visibleTape hidden [] t.ahead t.stop) :=
  filter_shows (σ := Stack s.depth k) h hidden

theorem shows_map {s : AnyStack .byte} {t : Tape UInt8} (h : Shows s t) (table : ByteTable) :
    Shows (s.map table) (t.fresh.map table.apply) :=
  map_shows (σ := Stack s.depth .byte) h table

theorem shows_encode {s : AnyStack .byte} {t : Tape UInt8} (h : Shows s t) (e : Encoding) :
    Shows (s.encode e) (unroll e t.behind.length t.ahead t.stop : Tape Char).counted :=
  group_shows (σ := Stack s.depth .byte) h e

theorem shows_decode {s : AnyStack .char} {t : Tape Char} (h : Shows s t) (d : Decoding) :
    Shows (s.decode d) (unroll d t.behind.length t.ahead t.stop : Tape UInt8).counted :=
  group_shows (σ := Stack s.depth .char) h d

lemma shows_raise {n : Nat} {c : Stack n k} (h : Shows c t) (m : Nat) : Shows (c.raise m) t := by
  induction m with
  | zero => exact h
  | succ m ih => exact ih

lemma shows_cast {n m : Nat} {c : Stack n k} (h : Shows c t) (hnm : n = m) :
    Shows (hnm ▸ c : Stack m k) t := by
  subst hnm
  exact h

lemma shows_atDepth (h : Shows s t) {depth : Nat} (hdepth : s.depth ≤ depth) :
    Shows (s.atDepth depth hdepth) t :=
  shows_cast (shows_raise h _) _

/-- The stacks of a chain, as its members. -/
def chainMembers (members : List (Member (σ := AnyStack k) (α := k.Carrier) Shows)) :
    List (Member (σ := Stack (AnyStack.maxDepth (members.map Member.cursor)) k)
      (α := k.Carrier) Shows) :=
  members.attach.map fun m =>
    ⟨m.1.cursor.atDepth _ (AnyStack.depth_le_maxDepth (List.mem_map_of_mem m.2)), m.1.tape,
      shows_atDepth m.1.shows _⟩

section Chain

variable (members : List (Member (σ := AnyStack k) (α := k.Carrier) Shows))

lemma chainMembers_cursor : (chainMembers members).map Member.cursor =
    (members.map Member.cursor).attach.map fun m =>
      m.1.atDepth _ (AnyStack.depth_le_maxDepth m.2) := by
  rw [chainMembers, List.attach_map, List.map_map, List.map_map]
  rfl

lemma chainMembers_tape : (chainMembers members).map Member.tape = members.map Member.tape := by
  rw [chainMembers, List.map_map]
  exact List.attach_map_val (f := Member.tape) (l := members)

theorem shows_chain :
    Shows (AnyStack.chain (members.map Member.cursor)) (rowOf (members.map Member.tape)) := by
  have hrow := chain_shows (chainMembers members)
  rw [chainMembers_cursor, chainMembers_tape] at hrow
  exact hrow

end Chain

end Building

/-- What lies under a layer shows a tape of its own. -/
theorem shows_inner {n : Nat} {c : Stack n k} {t : Tape k.Carrier} (h : Shows c t) {member : Nat}
    {inner : (k : Kind) × AnyStack k} (hinner : c.inner? n member = some inner) :
    ∃ t', Shows inner.2 t' := by
  induction n generalizing t with
  | zero => cases hinner
  | succ n ih =>
    have hlayer : LayerShows (S := Stack n) c t := h
    cases c with
    | plain c => exact ih hlayer hinner
    | limited c =>
      obtain ⟨whole, ⟨base, before, hs, -⟩, -⟩ := hlayer
      cases hinner
      exact ⟨_, hs⟩
    | delimited c =>
      obtain ⟨whole, ⟨base, before, hs, -⟩, -⟩ := hlayer
      cases hinner
      exact ⟨_, hs⟩
    | filtered c =>
      obtain ⟨before, seen, ahead, stop, hs, -⟩ := hlayer
      cases hinner
      exact ⟨_, hs⟩
    | chained c =>
      obtain ⟨a, ha, rfl⟩ := Option.map_eq_some_iff.1 hinner
      obtain ⟨-, ⟨⟨hnone, -⟩, -⟩ | ⟨drained, m, rest, hat, -⟩⟩ := hlayer
      · rw [hnone] at ha
        cases ha
      · have hmem : a ∈ c.members.toList :=
          List.mem_of_getElem? ((Array.getElem?_toList ..).trans ha)
        rw [hat.members] at hmem
        obtain ⟨shown, -, rfl⟩ := List.mem_map.1 hmem
        obtain ⟨base, before, hs, -⟩ := shown.shows
        exact ⟨_, hs⟩
    | mapped c =>
      obtain ⟨whole, ⟨base, before, hs, -⟩, -⟩ := hlayer
      cases hinner
      exact ⟨_, hs⟩
    | encoded c =>
      obtain ⟨place, i, hat, -⟩ := hlayer
      obtain ⟨_, ⟨-, before, hs, -⟩, -⟩ := hat.stands
      cases hinner
      exact ⟨_, hs⟩
    | decoded c =>
      obtain ⟨place, i, hat, -⟩ := hlayer
      obtain ⟨_, ⟨-, before, hs, -⟩, -⟩ := hat.stands
      cases hinner
      exact ⟨_, hs⟩

end BaseText.Proofs
