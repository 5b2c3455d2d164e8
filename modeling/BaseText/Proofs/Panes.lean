import BaseText.Proofs.Calls
import BaseText.Proofs.Places
import BaseText.Proofs.Views
import Mathlib.Data.List.TakeWhile

/-!
# Panes

A pane shows the units of a stack in their places: at most so many of them, those in front of a
stop, or each through a table. It moves the stack under it as it moves itself and does nothing else
to it, so that whoever takes the pane off goes on behind the last unit that was shown.
-/

namespace BaseText.Proofs

variable {k : Kind}

/-- The layers that show units in their places. -/
inductive Pane : Kind → Type where
  | limit {k : Kind} (bound : Nat) : Pane k
  | delimit {k : Kind} (stops : List k.Carrier) : Pane k
  | map (table : ByteTable) : Pane .byte

def Pane.over : Pane k → AnyStack k → AnyStack k
  | limit bound, s => s.limit bound
  | delimit stops, s => s.delimit stops
  | map table, s => s.map table

/-- What is shown of the units ahead. -/
def Pane.shown : Pane k → List k.Carrier → List k.Carrier
  | limit bound, units => units.take bound
  | delimit stops, units => units.takeWhile (· ∉ stops)
  | map table, units => units.map fun b : UInt8 =>
    have hb : b.toNat < 256 := b.toNat_lt
    table[b.toNat]

/-- How the units that are shown end. -/
def Pane.stop : Pane k → List k.Carrier → Stop → Stop
  | limit bound, units, stop => if bound ≤ units.length then .ended bound else stop
  | delimit stops, units, stop =>
    if ∃ u ∈ units, u ∈ stops then .ended (units.takeWhile (· ∉ stops)).length else stop
  | map _, _, stop => stop

/-- The pane over `s` answers as the list of the units that it shows would, up to the offset that
their plain end is told with, and `s` is where it would be if it had been moved alone. -/
structure Pane.View (pane : Pane k) (s : AnyStack k) (units : List k.Carrier) (stop : Stop) :
    Prop where
  answers : ∃ shownStop : Stop, shownStop.more = (pane.stop units stop).more ∧
    ∀ calls, answers calls (pane.over s) =
      answers calls ({ ahead := pane.shown units, stop := shownStop } : Tape k.Carrier)
  inner : ∀ calls, ∃ inner, (after calls (pane.over s)).inner? 0 = some ⟨k, inner⟩ ∧
    StepsAhead s (Cursor.index (after calls (pane.over s))) inner
  /-- Taken off after draining, the pane leaves in front what it has not shown. -/
  drained : ∀ calls, ∃ inner,
    (Cursor.collect (after calls (pane.over s))).cursor.inner? 0 = some ⟨k, inner⟩ ∧
      StepsAhead s (pane.shown units).length inner ∧
      Gives inner (units.drop (pane.shown units).length) stop

section Shown

variable (pane : Pane k) {s : AnyStack k} {t : Tape k.Carrier}

lemma Pane.stop_congr {stop stop' : Stop} (h : stop.more = stop'.more) (units : List k.Carrier) :
    (pane.stop units stop).more = (pane.stop units stop').more := by
  cases pane with
  | map table => exact h
  | limit bound | delimit stops =>
    simp only [Pane.stop]
    split
    · rfl
    · exact h

lemma Pane.delimit_stop_more (stops : List k.Carrier) (t : Tape k.Carrier) :
    (t.fresh.delimit stops).stop.more = ((delimit stops).stop t.ahead t.stop).more := by
  have hall : (t.ahead.takeWhile (· ∉ stops)).length = t.ahead.length ↔
      ¬ ∃ u ∈ t.ahead, u ∈ stops := by
    have hself : t.ahead.takeWhile (· ∉ stops) = t.ahead ↔ ¬ ∃ u ∈ t.ahead, u ∈ stops := by
      rw [List.takeWhile_eq_self_iff]
      simp
    exact ⟨fun hlength => hself.1 ((List.takeWhile_prefix _).eq_of_length hlength),
      fun hnone => congrArg List.length (hself.2 hnone)⟩
  simp only [Tape.delimit, Tape.fresh, Pane.stop, hall]
  by_cases hstop : ∃ u ∈ t.ahead, u ∈ stops
  · rw [if_pos hstop, if_neg (not_not_intro hstop)]
    rfl
  · rw [if_neg hstop, if_pos hstop, Stop.more_atOffset]

lemma Pane.over_shows (h : Shows s t) :
    ∃ shownStop : Stop, shownStop.more = (pane.stop t.ahead t.stop).more ∧
      Shows (pane.over s) { ahead := pane.shown t.ahead, stop := shownStop } := by
  cases pane with
  | limit bound => exact ⟨_, rfl, shows_limit h bound⟩
  | delimit stops => exact ⟨_, delimit_stop_more stops t, shows_delimit h stops⟩
  | map table => exact ⟨_, rfl, shows_map h table⟩

end Shown

section Inner

variable {s : AnyStack k} {t : Tape k.Carrier}

lemma limitOf_start (h : Shows s t) (bound : Nat) :
    LimitOf (StandsOn (Along t) t.behind.length) (Limited.ofCursor s.stack bound)
      (t.fresh.limit bound) :=
  ⟨t.fresh, standsOn_start h, Nat.zero_le _, rfl⟩

/-- A layer that keeps the stack under an anchor. -/
lemma exists_inner {τ β : Type} [Cursor τ β] (h : Shows s t) {f : τ → AnyStack k}
    (hwraps : Wraps f) {part : τ → Anchored (Stack s.depth k)}
    (hinner : ∀ c, (f c).inner? 0 = some ⟨k, s.depth, (part c).inner⟩)
    (hindex : ∀ c, Cursor.index (f c) = (part c).index) {R : τ → Tape β → Prop}
    (hR : Simulation R)
    (hstands : ∀ c u, R c u → ∃ whole, StandsOn (Along t) t.behind.length (part c) whole)
    {c : τ} {u : Tape β} (hc : R c u) (calls : List Call) :
    ∃ inner, (after calls (f c)).inner? 0 = some ⟨k, inner⟩ ∧
      StepsAhead s (Cursor.index (after calls (f c))) inner := by
  obtain ⟨whole, hwhole⟩ := hstands _ _ (after_shows hR hc calls)
  rw [hwraps.after, hindex]
  exact ⟨_, hinner _, hwhole.stepsAhead h⟩

/-- The stack under a pane is where it would be if the calls that moved the pane had moved it. -/
lemma Pane.over_inner (pane : Pane k) (h : Shows s t) (calls : List Call) :
    ∃ inner, (after calls (pane.over s)).inner? 0 = some ⟨k, inner⟩ ∧
      StepsAhead s (Cursor.index (after calls (pane.over s))) inner := by
  have hstart := standsOn_start (s := s.stack) h
  cases pane with
  | limit bound =>
    exact exists_inner h (wraps_limited s.depth) (fun _ => rfl) (fun _ => rfl)
      (limit_simulation (anchored_simulation t))
      (fun _ _ ⟨whole, hwhole, _⟩ => ⟨whole, hwhole⟩) (limitOf_start h bound) calls
  | delimit stops =>
    exact exists_inner h (wraps_delimited s.depth) (fun _ => rfl) (fun _ => rfl)
      (delimit_simulation (anchored_simulation t))
      (fun _ _ ⟨whole, hwhole, _⟩ => ⟨whole, hwhole⟩)
      ⟨t.fresh, hstart, fun _ hu => absurd hu List.not_mem_nil, rfl⟩ calls
  | map table =>
    let : Cursor (Stack s.depth .byte) UInt8 := Stack.instCursor s.depth .byte
    exact exists_inner (β := UInt8) h (f := fun c => ⟨s.depth + 1, .mapped c⟩)
      ⟨fun _ => rfl, fun _ => rfl, fun _ => rfl, fun _ => rfl, fun _ => rfl, fun _ => rfl⟩
      (fun _ => rfl) (fun _ => rfl) (map_simulation (anchored_simulation t))
      (fun _ _ ⟨whole, hwhole, _⟩ => ⟨whole, hwhole⟩)
      ⟨t.fresh, hstart, rfl⟩ calls

end Inner

section Bound

variable {σ α β : Type} {n : Nat}

lemma Keeps.insideLimited (act : Action (Anchored σ) β) :
    Keeps (fun s : Limited σ => s.bound = n) (Limited.inside act) :=
  fun _ h => h

lemma Keeps.insideBound (act : Action (Anchored σ) β) :
    Keeps (fun s : Limited σ => s.bound = n) (Limited.insideBound act) := by
  refine Keeps.bind (fun _ h => h) fun s => ?_
  split
  · exact fun _ h => h
  · exact .insideLimited act

lemma callsKeep_bound [Cursor σ α] : CallsKeep fun s : Limited σ => s.bound = n where
  hasNext := by
    refine Keeps.bind (fun _ h => h) fun s => ?_
    split
    · exact fun _ h => h
    · exact .insideLimited _
  hasPrevious := .insideLimited _
  peekNext := .insideBound _
  peekPrevious := .insideLimited _
  next := .insideBound _
  previous := .insideLimited _

end Bound

section Views

variable {s : AnyStack k}

/-- What a limit still lets through and what it has let through make up its bound. -/
lemma limit_remaining {t : Tape k.Carrier} (h : Shows s t) (bound : Nat) (calls : List Call) :
    ∃ left, (after calls (s.limit bound)).remaining? = some left ∧
      left + Cursor.index (after calls (s.limit bound)) = bound := by
  have hbound : (after calls (Limited.ofCursor s.stack bound)).bound = bound :=
    callsKeep_bound.after rfl calls
  obtain ⟨whole, hwhole, hle, -⟩ := after_shows (limit_simulation (anchored_simulation t))
    (limitOf_start h bound) calls
  have hindex : (after calls (Limited.ofCursor s.stack bound)).index = whole.behind.length :=
    (anchored_simulation t).index hwhole
  rw [AnyStack.limit, AnyStack.cover, (wraps_limited s.depth).after]
  refine ⟨_, rfl, ?_⟩
  change (after calls (Limited.ofCursor s.stack bound)).bound -
    (after calls (Limited.ofCursor s.stack bound)).index +
      (after calls (Limited.ofCursor s.stack bound)).index = bound
  omega

/-- A limit, a delimiter and a map show the units of any stack up to a number of them, up to a stop
and through a table. What is left is in front of whoever takes them off again. -/
theorem pane_view (h : Reachable s) :
    (∃ units stop, Gives s units stop) ∧
      (∀ units stop, Gives s units stop → ∀ pane : Pane k, pane.View s units stop) ∧
      ∀ bound calls, ∃ left, (after calls (s.limit bound)).remaining? = some left ∧
        left + Cursor.index (after calls (s.limit bound)) = bound := by
  obtain ⟨t, ht⟩ := reachable_shows h
  refine ⟨exists_gives h, fun units stop hgives pane => ?_, limit_remaining ht⟩
  obtain ⟨rfl, hmore⟩ := hgives.tape_eq ht
  obtain ⟨shownStop, hstop, hshows⟩ := pane.over_shows ht
  refine ⟨⟨shownStop, hstop.trans (pane.stop_congr hmore _), fun calls => ?_⟩,
    pane.over_inner ht, fun calls => ?_⟩
  · exact answers_eq simulation hshows calls
  · obtain ⟨more, hmore, hindex⟩ := exists_drained hshows calls
    obtain ⟨inner, hinner, hsteps⟩ := pane.over_inner ht more
    rw [hindex] at hsteps
    exact ⟨inner, hmore ▸ hinner, hsteps, hsteps.gives ht hgives⟩

/-- The second of four bytes in hexadecimal digits is next, and a character that is no digit
follows. -/
def fieldBytes : AnyStack .byte :=
  (Call.next.ask brokenBytes).cursor

/-- The table that makes one small letter a capital one. -/
def capitalTable : ByteTable := ByteTable.identity.put 0x6c 0x4c

/-- Of a field that ends in front of a byte, of a limit that the field falls short of, and of a
table that changes two of the bytes. -/
theorem pane_view_fieldBytes :
    Gives fieldBytes [0x65, 0x6c, 0x6c] (.rejected .base16 ⟨.invalidCharacter, 8⟩) ∧
      (Pane.delimit (k := .byte) [0x6c]).View fieldBytes [0x65, 0x6c, 0x6c]
        (.rejected .base16 ⟨.invalidCharacter, 8⟩) ∧
      (Pane.limit (k := .byte) 4).View fieldBytes [0x65, 0x6c, 0x6c]
        (.rejected .base16 ⟨.invalidCharacter, 8⟩) ∧
      (Pane.map capitalTable).View fieldBytes [0x65, 0x6c, 0x6c]
        (.rejected .base16 ⟨.invalidCharacter, 8⟩) ∧
      (Pane.map capitalTable).shown [0x65, 0x6c, 0x6c] = [0x65, 0x4c, 0x4c] := by
  have hgives : Gives fieldBytes [0x65, 0x6c, 0x6c] (.rejected .base16 ⟨.invalidCharacter, 8⟩) :=
    rfl
  have hviews := (pane_view (.call (.decode (.slice (k := .char) _) _) .next)).2.1 _ _ hgives
  exact ⟨hgives, hviews _, hviews _, hviews _, by decide +kernel⟩

end Views

end BaseText.Proofs
