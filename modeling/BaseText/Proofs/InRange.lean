import BaseText.Proofs.Calls
import BaseText.Proofs.GroupGuards

/-!
# Cursors that stay in range

A cursor that shows a tape is in order: none of its questions counts below zero, looks at a place
where there is nothing or shifts by too far. A cursor that is made from another one asks that one
questions, so that the guards of all layers hold together.
-/

namespace BaseText.Proofs

variable {ρ σ τ α β γ : Type}

/-- From every cursor such that `P`, the action stays in range, and where it succeeds, its answer
and the cursor that it leaves are as `Q` says. -/
def Triple (P : σ → Prop) (act : Guarded σ α) (Q : α → σ → Prop) : Prop :=
  ∀ s, P s → act.safe s ∧ ∀ a, (act.run s).result = .ok a → Q a (act.run s).cursor

section Triples

variable {P P' : σ → Prop} {act : Guarded σ α} {Q Q' : α → σ → Prop} {s : σ}

lemma Triple.mono (h : Triple P act Q) (hP : ∀ s, P' s → P s) (hQ : ∀ a s, Q a s → Q' a s) :
    Triple P' act Q' := by
  intro s hs
  obtain ⟨hsafe, hafter⟩ := h s (hP s hs)
  exact ⟨hsafe, fun a ha => hQ a _ (hafter a ha)⟩

lemma Triple.bind {next : α → Guarded σ β} {R : β → σ → Prop} (h : Triple P act Q)
    (hnext : ∀ a, Triple (Q a) (next a) R) : Triple P (act >>= next) R := by
  intro s hs
  obtain ⟨hsafe, hafter⟩ := h s hs
  refine ⟨⟨hsafe, fun a ha => (hnext a _ (hafter a ha)).1⟩, ?_⟩
  rw [Guarded.run_bind, Action.bind_run]
  intro b hb
  cases ha : (act.run s).result with
  | error e => rw [ha] at hb; cases hb
  | ok a =>
    rw [ha] at hb
    exact (hnext a _ (hafter a ha)).2 b hb

lemma Triple.answer {a : α} (h : ∀ s, P s → Q a s) : Triple P (pure a) Q := by
  intro s hs
  refine ⟨trivial, ?_⟩
  rintro _ ⟨⟩
  exact h s hs

lemma Triple.of_run_pure {a : α} (hrun : act.run = pure a) (hsafe : ∀ s, P s → act.safe s) :
    Triple P act fun b s => b = a ∧ P s := by
  intro s hs
  refine ⟨hsafe s hs, ?_⟩
  rw [hrun]
  rintro _ ⟨⟩
  exact ⟨rfl, hs⟩

/-- What follows may use what is known of the cursor at hand. -/
lemma Triple.hereWith {next : σ → Guarded σ α} {N : σ → Prop} (hN : ∀ s, P s → N s)
    (h : ∀ s, P s → Triple (· = s) (next s) Q) : Triple P (.needs N Action.here >>= next) Q := by
  have hstart : Triple P (.needs N Action.here) fun a s => P a ∧ s = a := by
    intro s hs
    refine ⟨hN s hs, ?_⟩
    rintro _ ⟨⟩
    exact ⟨hs, rfl⟩
  apply hstart.bind
  intro a s hs
  exact h a hs.1 s hs.2

lemma Triple.here {next : σ → Guarded σ α}
    (h : ∀ s, P s → Triple (· = s) (next s) Q) : Triple P (.free Action.here >>= next) Q :=
  .hereWith (fun _ _ => trivial) h

lemma Triple.within {part : σ → τ} {put : σ → τ → σ} {act : Guarded τ α} {P' : τ → Prop}
    {Q' : α → τ → Prop} (h : Triple P' act Q') (hpart : ∀ s, P s → P' (part s))
    (hput : ∀ s a inner, P s → Q' a inner → Q a (put s inner)) :
    Triple P (.within part put act) Q := by
  intro s hs
  obtain ⟨hsafe, hafter⟩ := h (part s) (hpart s hs)
  exact ⟨hsafe, fun a ha => hput s a _ hs (hafter a ha)⟩

end Triples

/-- The cursor shows some tape. -/
def Shown [Cursor σ α] [Viewed σ α] (s : σ) : Prop := ∃ t : Tape α, Shows s t

/-- No question that is put to the cursor leads out of range. -/
structure Safe [Cursor σ α] [GuardedCursor σ α] (s : σ) : Prop where
  hasNext : (GuardedCursor.hasNext : Guarded σ Bool).safe s
  hasPrevious : (GuardedCursor.hasPrevious : Guarded σ Bool).safe s
  peekNext : (GuardedCursor.peekNext : Guarded σ α).safe s
  peekPrevious : (GuardedCursor.peekPrevious : Guarded σ α).safe s
  next : (GuardedCursor.next : Guarded σ α).safe s
  previous : (GuardedCursor.previous : Guarded σ α).safe s

/-- Cursors that are in range whenever they show a tape. -/
class InRange (σ : Type) {α : outParam Type} [Cursor σ α] [Viewed σ α] [GuardedCursor σ α] :
    Prop where
  safe : ∀ s : σ, Shown s → Safe s

section Questions

variable [Cursor σ α] [Viewed σ α] [GuardedCursor σ α]

omit [GuardedCursor σ α] in
lemma Triple.of_question {act : Guarded σ β} {plain : Action σ β} (hrun : act.run = plain)
    (hkeeps : Keeps Shown plain) (hsafe : ∀ s, Shown s → act.safe s) :
    Triple Shown act fun _ => Shown := by
  intro s hs
  rw [hrun]
  exact ⟨hsafe s hs, fun _ _ => hkeeps s hs⟩

variable [InRange σ]

lemma hasNext_triple : Triple (σ := σ) Shown GuardedCursor.hasNext fun _ => Shown :=
  .of_question GuardedCursor.hasNext_run simulation.callsKeep.hasNext
    fun s hs => (InRange.safe s hs).hasNext

lemma hasPrevious_triple : Triple (σ := σ) Shown GuardedCursor.hasPrevious fun _ => Shown :=
  .of_question GuardedCursor.hasPrevious_run simulation.callsKeep.hasPrevious
    fun s hs => (InRange.safe s hs).hasPrevious

lemma peekNext_triple : Triple (σ := σ) Shown GuardedCursor.peekNext fun _ => Shown :=
  .of_question GuardedCursor.peekNext_run simulation.callsKeep.peekNext
    fun s hs => (InRange.safe s hs).peekNext

lemma peekPrevious_triple : Triple (σ := σ) Shown GuardedCursor.peekPrevious fun _ => Shown :=
  .of_question GuardedCursor.peekPrevious_run simulation.callsKeep.peekPrevious
    fun s hs => (InRange.safe s hs).peekPrevious

lemma next_triple : Triple (σ := σ) Shown GuardedCursor.next fun _ => Shown :=
  .of_question GuardedCursor.next_run simulation.callsKeep.next
    fun s hs => (InRange.safe s hs).next

lemma previous_triple : Triple (σ := σ) Shown GuardedCursor.previous fun _ => Shown :=
  .of_question GuardedCursor.previous_run simulation.callsKeep.previous
    fun s hs => (InRange.safe s hs).previous

end Questions

section Steps

variable {act : Guarded σ α} {s : σ}

lemma safe_hereWith {next : σ → Guarded σ β} {N : σ → Prop} (hN : N s) (h : (next s).safe s) :
    (Guarded.needs N Action.here >>= next).safe s := by
  refine ⟨hN, ?_⟩
  rintro _ ⟨⟩
  exact h

lemma safe_here {next : σ → Guarded σ β} (h : (next s).safe s) :
    (Guarded.free Action.here >>= next).safe s :=
  safe_hereWith trivial h

lemma safe_countForth {f : σ → σ} (h : act.safe s) :
    (do let u ← act; Guarded.free (Action.change f); pure u : Guarded σ α).safe s :=
  ⟨h, fun _ _ => ⟨trivial, fun _ _ => trivial⟩⟩

/-- What is counted down has to be above zero where there was a unit behind. -/
lemma safe_countBack {f : σ → σ} {P : σ → Prop} (h : act.safe s)
    (hP : ∀ u, (act.run s).result = .ok u → P (act.run s).cursor) :
    (do let u ← act; Guarded.needs P (Action.change f); pure u : Guarded σ α).safe s :=
  ⟨h, fun u hu => ⟨hP u hu, fun _ _ => trivial⟩⟩

/-- What follows a question starts from a cursor that the question leaves. -/
lemma safe_bind {next : α → Guarded σ β} {result : Except CodingError α} {refused : List Event}
    {P : σ → Prop} (h : act.safe s) (hmeets : Meets act.run s result refused P)
    (hnext : ∀ a s', result = .ok a → P s' → (next a).safe s') : (act >>= next).safe s :=
  ⟨h, fun a ha => hnext a _ (hmeets.result.symm.trans ha) hmeets.cursor⟩

end Steps

lemma SequenceShows.index_le {s : Sequence α} {t : Tape α} (h : SequenceShows s t) :
    s.index ≤ s.units.size := by
  rw [← Array.length_toList, h.units, h.index, Tape.units, List.length_append, List.length_reverse]
  exact Nat.le_add_right _ _

instance : InRange (Sequence α) where
  safe := by
    rintro s ⟨t, hs⟩
    have hle := SequenceShows.index_le hs
    refine ⟨trivial, trivial, hle, hle, hle, hle, ?_⟩
    intro u s' hback
    apply Nat.pos_of_ne_zero
    intro hzero
    rw [Sequence.backward?, if_pos hzero] at hback
    cases hback

lemma backward_size {s s' : TextCursor} {c : Char} (h : s.backward? = some (c, s')) :
    s'.pos.offset.byteIdx + c.utf8Size = s.pos.offset.byteIdx := by
  unfold TextCursor.backward? at h
  split at h
  · cases h
  · rename_i hne
    obtain ⟨rfl, rfl⟩ := Prod.mk.inj (Option.some.inj h)
    have hnext := String.Pos.byteIdx_offset_next (s.pos.prev hne) String.Pos.prev_ne_endPos
    rw [String.Pos.next_prev] at hnext
    exact hnext.symm

instance : InRange TextCursor where
  safe := by
    rintro s ⟨t, ht⟩
    have hvalid := s.pos.isValid
    refine ⟨trivial, trivial, hvalid, hvalid, hvalid, hvalid, ?_⟩
    intro c s' hback
    exact ⟨TextShows.index_pos ht hback, backward_size hback⟩

section Anchored

variable [Cursor σ α] [Viewed σ α]

lemma Shown.anchored {a : Anchored σ} (h : Shown a) : Shown a.inner := by
  obtain ⟨t, base, before, hs, -⟩ := h
  exact ⟨_, hs⟩

omit [Cursor σ α] [Viewed σ α] in
lemma guardAfterStart_safe {act : Guarded σ β} {a : Anchored σ} (h : act.safe a.inner) :
    (guardAfterStart act).safe a := by
  apply safe_here
  split
  · trivial
  · exact h

omit [Cursor σ α] [Viewed σ α] in
lemma insideAfterStart_index {act : Action σ β} {a : Anchored σ} {u : β}
    (h : (Anchored.insideAfterStart act a).result = .ok u) :
    0 < (Anchored.insideAfterStart act a).cursor.index := by
  unfold Anchored.insideAfterStart at h ⊢
  rw [Action.bind_run] at h ⊢
  by_cases hzero : a.index = 0
  · simp [hzero] at h
  · simp only [Action.here_run, if_neg hzero]
    exact Nat.pos_of_ne_zero hzero

variable [GuardedCursor σ α] [InRange σ]

instance : InRange (Anchored σ) where
  safe := by
    intro a h
    have hinner := InRange.safe a.inner h.anchored
    constructor
    · exact hinner.hasNext
    · apply safe_here
      split
      · trivial
      · exact hinner.hasPrevious
    · exact hinner.peekNext
    · exact guardAfterStart_safe hinner.peekPrevious
    · exact safe_countForth hinner.next
    · apply safe_countBack (guardAfterStart_safe hinner.previous)
      intro u hu
      rw [guardAfterStart_run] at hu ⊢
      exact insideAfterStart_index hu

lemma guardBound_safe {act : Guarded (Anchored σ) β} {s : Limited σ} (h : act.safe s.inner) :
    (guardBound act).safe s := by
  apply safe_here
  split
  · trivial
  · exact h

instance : InRange (Limited σ) where
  safe := by
    rintro s ⟨t, whole, hs, -⟩
    have hinner := InRange.safe s.inner ⟨whole, hs⟩
    constructor
    · apply safe_here
      split
      · trivial
      · exact hinner.hasNext
    · exact hinner.hasPrevious
    · exact guardBound_safe hinner.peekNext
    · exact hinner.peekPrevious
    · exact guardBound_safe hinner.next
    · exact hinner.previous

end Anchored

section Delimited

variable [DecidableEq α] [Cursor σ α] [Viewed σ α]

omit [DecidableEq α] in
lemma Triple.insideDelimited {act : Guarded (Anchored σ) β} (h : Triple Shown act fun _ => Shown) :
    Triple (fun s : Delimited σ α => Shown s.inner) (guardDelimited act) fun _ s => Shown s.inner :=
  h.within (fun _ hs => hs) fun _ _ _ _ hinner => hinner

variable [GuardedCursor σ α] [InRange σ]

lemma ready_triple : Triple (fun s : Delimited σ α => Shown s.inner) guardReady
    fun _ s => Shown s.inner := by
  apply hasNext_triple.insideDelimited.bind
  intro more
  split
  · apply peekNext_triple.insideDelimited.bind
    intro u
    apply Triple.here
    intro s hs
    exact .answer fun _ hs' => hs' ▸ hs
  · exact .answer fun _ hs => hs

lemma insideReady_triple {act : Guarded (Anchored σ) α} (h : Triple Shown act fun _ => Shown) :
    Triple (fun s : Delimited σ α => Shown s.inner) (guardInsideReady act) fun _ _ => True := by
  apply ready_triple.bind
  intro more
  split
  · exact h.insideDelimited.mono (fun _ hs => hs) fun _ _ _ => trivial
  · exact fun s _ => ⟨trivial, fun _ _ => trivial⟩

instance : InRange (Delimited σ α) where
  safe := by
    rintro s ⟨t, whole, hs, -⟩
    have hshown : Shown s.inner := ⟨whole, hs⟩
    have hinner := InRange.safe s.inner hshown
    constructor
    · exact (ready_triple s hshown).1
    · exact hinner.hasPrevious
    · exact (insideReady_triple peekNext_triple s hshown).1
    · exact hinner.peekPrevious
    · exact (insideReady_triple next_triple s hshown).1
    · exact hinner.previous

end Delimited

section Mapped

variable [Cursor σ UInt8] [Viewed σ UInt8] [GuardedCursor σ UInt8]

omit [Cursor σ UInt8] [Viewed σ UInt8] [GuardedCursor σ UInt8] in
lemma guardThrough_safe {act : Guarded (Anchored σ) UInt8} {s : Mapped σ} (h : act.safe s.inner) :
    (guardThrough act).safe s :=
  ⟨h, fun _ _ => ⟨trivial, fun _ _ => trivial⟩⟩

instance [InRange σ] : InRange (Mapped σ) where
  safe := by
    rintro s ⟨t, whole, hs, -⟩
    have hinner := InRange.safe s.inner ⟨whole, hs⟩
    exact ⟨hinner.hasNext, hinner.hasPrevious, guardThrough_safe hinner.peekNext,
      guardThrough_safe hinner.peekPrevious, guardThrough_safe hinner.next,
      guardThrough_safe hinner.previous⟩

end Mapped

section Filtered

variable [Cursor σ α] [Viewed σ α] {i : Nat}

/-- The cursor under the filter shows a tape, and the filter has counted `i` visible units. -/
def FilterShown (i : Nat) (s : Filtered σ α) : Prop := Shown s.inner ∧ s.index = i

lemma Triple.insideFiltered {act : Guarded σ β} (h : Triple Shown act fun _ => Shown) :
    Triple (FilterShown i) (guardFiltered act : Guarded (Filtered σ α) β) fun _ => FilterShown i :=
  h.within (fun _ hs => hs.1) fun _ _ _ hs hinner => ⟨hinner, hs.2⟩

/-- One round of a search on either side. -/
lemma Triple.skip {rest : Guarded (Filtered σ α) Bool}
    (hrest : Triple (FilterShown i) rest fun _ => FilterShown i) {more : Guarded σ Bool}
    {look step : Guarded σ α} (hmore : Triple Shown more fun _ => Shown)
    (hlook : Triple Shown look fun _ => Shown) (hstep : Triple Shown step fun _ => Shown) :
    Triple (FilterShown i) (do
      if ← guardFiltered more then
        let u ← guardFiltered look
        let s ← Guarded.free Action.here
        if s.hidden u then
          let _ ← guardFiltered step
          rest
        else pure true
      else pure false) fun _ => FilterShown i := by
  apply hmore.insideFiltered.bind
  intro more
  split
  · apply hlook.insideFiltered.bind
    intro u
    apply Triple.here
    intro s hs
    split
    · apply (hstep.insideFiltered.bind fun _ => hrest).mono
      · exact fun _ hs' => hs' ▸ hs
      · exact fun _ _ hs' => hs'
    · exact .answer fun _ hs' => hs' ▸ hs
  · exact .answer fun _ hs => hs

variable [GuardedCursor σ α] [InRange σ]

lemma skipAhead_triple (fuel : Nat) : Triple (FilterShown i)
    (guardSkipAhead fuel : Guarded (Filtered σ α) Bool) fun _ => FilterShown i := by
  induction fuel with
  | zero => exact .answer fun _ hs => hs
  | succ fuel ih => exact ih.skip hasNext_triple peekNext_triple next_triple

lemma skipBack_triple (fuel : Nat) : Triple (FilterShown i)
    (guardSkipBack fuel : Guarded (Filtered σ α) Bool) fun _ => FilterShown i := by
  induction fuel with
  | zero => exact .answer fun _ hs => hs
  | succ fuel ih => exact ih.skip hasPrevious_triple peekPrevious_triple previous_triple

lemma settleAhead_triple : Triple (FilterShown i) (guardSettleAhead : Guarded (Filtered σ α) Bool)
    fun _ => FilterShown i := by
  apply Triple.here
  intro s hs
  exact (skipAhead_triple _).mono (fun _ hs' => hs' ▸ hs) fun _ _ hs' => hs'

/-- A unit is found behind only where some have been counted. -/
lemma settleBack_triple : Triple (FilterShown i) (guardSettleBack : Guarded (Filtered σ α) Bool)
    fun any s => FilterShown i s ∧ (any = true → 0 < i) := by
  apply Triple.here
  intro s hs
  obtain ⟨-, hi⟩ := id hs
  split
  · exact .answer fun _ hs' => ⟨hs' ▸ hs, fun hany => by cases hany⟩
  · rename_i hne
    apply (skipBack_triple _).mono
    · exact fun _ hs' => hs' ▸ hs
    · exact fun _ _ hs' => ⟨hs', fun _ => by omega⟩

lemma visibleAhead_triple {act : Guarded σ α} (h : Triple Shown act fun _ => Shown) :
    Triple (FilterShown i) (guardVisibleAhead act : Guarded (Filtered σ α) α)
      fun _ => FilterShown i := by
  apply settleAhead_triple.bind
  intro more
  split
  · exact h.insideFiltered
  · exact fun s _ => ⟨trivial, fun _ hu => by cases hu⟩

lemma visibleBack_triple {act : Guarded σ α} (h : Triple Shown act fun _ => Shown) :
    Triple (FilterShown i) (guardVisibleBack act : Guarded (Filtered σ α) α)
      fun _ s => 0 < s.index := by
  apply settleBack_triple.bind
  intro any
  split
  · rename_i hany
    intro s hs
    obtain ⟨hsafe, hafter⟩ := h.insideFiltered s hs.1
    exact ⟨hsafe, fun u hu => (hs.2 hany).trans_eq (hafter u hu).2.symm⟩
  · exact fun s _ => ⟨trivial, fun _ hu => by cases hu⟩

instance : InRange (Filtered σ α) where
  safe := by
    rintro s ⟨t, before, seen, ahead, stop, hat⟩
    have hshown : FilterShown s.index s := ⟨⟨_, hat.inner⟩, rfl⟩
    constructor
    · exact (settleAhead_triple s hshown).1
    · exact (settleBack_triple s hshown).1
    · exact (visibleAhead_triple peekNext_triple s hshown).1
    · exact (visibleBack_triple peekPrevious_triple s hshown).1
    · exact safe_countForth (visibleAhead_triple next_triple s hshown).1
    · obtain ⟨hsafe, hafter⟩ := visibleBack_triple previous_triple s hshown
      exact safe_countBack hsafe hafter

end Filtered

section Chained

variable [Cursor σ α] [Viewed σ α] {s : Chained σ} {t : Tape α} {left : Nat}

/-- Every member shows a tape, and there are at least `left` of them from the current one on. -/
def MembersShown (left : Nat) (s : Chained σ) : Prop :=
  (∀ m ∈ s.members, Shown m) ∧ left ≤ s.members.size - s.current

lemma MembersShown.lt_size (h : MembersShown (left + 1) s) : s.current < s.members.size := by
  have hle := h.2
  omega

omit [Cursor σ α] [Viewed σ α] in
lemma insideChained_run (act : Action (Anchored σ) β) (h : s.current < s.members.size) :
    Chained.inside act s =
      ⟨(act s.members[s.current]).result,
        { s with members := s.members.setIfInBounds s.current (act s.members[s.current]).cursor },
        (act s.members[s.current]).log⟩ := by
  unfold Chained.inside
  rw [Action.bind_run]
  simp [Array.getElem?_eq_getElem h]

lemma Triple.insideChained {act : Guarded (Anchored σ) β} (h : Triple Shown act fun _ => Shown) :
    Triple (MembersShown (left + 1)) (guardMember act) fun _ => MembersShown (left + 1) := by
  intro s hs
  have hlt := hs.lt_size
  obtain ⟨hsafe, hafter⟩ := h s.members[s.current] (hs.1 _ (Array.getElem_mem hlt))
  refine ⟨⟨hlt, hsafe⟩, ?_⟩
  rw [guardMember_run, insideChained_run _ hlt]
  intro u hu
  refine ⟨fun m hm => ?_, by simpa using hs.2⟩
  obtain hm | rfl := Array.mem_or_eq_of_mem_setIfInBounds hm
  · exact hs.1 m hm
  · exact hafter u hu

omit [Cursor σ α] [Viewed σ α] in
lemma ChainAt.shown {R : Anchored σ → Tape α → Prop} {drained rest : List (Member R)} {m : Member R}
    (h : ChainAt R s drained m rest) : ∀ a ∈ s.members, ∃ t, R a t := by
  intro a ha
  have hmem : a ∈ (drained.reverse ++ m :: rest).map Member.cursor :=
    h.members ▸ Array.mem_toList_iff.2 ha
  obtain ⟨shown, -, rfl⟩ := List.mem_map.1 hmem
  exact ⟨_, shown.shows⟩

omit [Cursor σ α] [Viewed σ α] in
lemma ChainWith.shown {R : Anchored σ → Tape α → Prop}
    {settled : List (Member R) → Member R → Prop} {i : Nat} (h : ChainWith R settled i s t) :
    ∀ a ∈ s.members, ∃ t, R a t := by
  obtain ⟨-, ⟨⟨hnone, -⟩, -⟩ | ⟨drained, m, rest, hat, -⟩⟩ := h
  · intro a ha
    rw [hnone] at ha
    exact absurd ha (Array.not_mem_empty a)
  · exact hat.shown

/-- A chain shows a tape only if its members do. -/
lemma Shown.members (h : Shown s) : MembersShown (s.members.size - s.current) s :=
  let ⟨_, ht⟩ := h
  ⟨ChainWith.shown ht, Nat.le_refl _⟩

/-- Where a search has found a unit, the current member is one of the members. -/
lemma guardMember_safe {settled : List (Member (σ := Anchored σ) (α := α) Shows) →
      Member (σ := Anchored σ) (α := α) Shows → Prop} {i : Nat} {act : Guarded (Anchored σ) β}
    (h : ChainWith Shows settled i s t) (hne : t.behind ≠ [] ∨ t.more ≠ .ok false)
    (hact : ∀ a, Shown a → act.safe a) : (guardMember act).safe s := by
  obtain ⟨-, ⟨-, rfl⟩ | ⟨drained, m, rest, hat, -⟩⟩ := h
  · simp [Tape.more, Stop.more] at hne
  · obtain ⟨hlt, hmember⟩ := Array.getElem?_eq_some_iff.1 hat.current_eq
    refine ⟨hlt, hact _ ?_⟩
    rw [hmember]
    exact ⟨_, m.shows⟩

variable [GuardedCursor σ α] [InRange σ]

lemma chainAheadFrom_triple (left : Nat) : Triple (MembersShown left)
    (guardChainAheadFrom left : Guarded (Chained σ) Bool) fun _ _ => True := by
  induction left with
  | zero => exact .answer fun _ _ => trivial
  | succ left ih =>
    apply hasNext_triple.insideChained.bind
    intro more
    split
    · exact .answer fun _ _ => trivial
    · split
      · exact .answer fun _ _ => trivial
      · have honward : Triple (MembersShown (left + 1)) (Guarded.free (Action.change fun s =>
            ({ s with current := s.current + 1 } : Chained σ))) fun _ => MembersShown left := by
          intro s hs
          have hle : left ≤ s.members.size - (s.current + 1) := by
            have hsucc := hs.2
            omega
          exact ⟨trivial, fun _ _ => ⟨hs.1, hle⟩⟩
        exact honward.bind fun _ => ih

lemma chainAhead_safe (h : Shown s) : (guardChainAhead : Guarded (Chained σ) Bool).safe s :=
  safe_here (chainAheadFrom_triple _ s h.members).1

lemma memberAhead_safe {act : Guarded (Anchored σ) β} (h : Shown s)
    (hact : ∀ a, Shown a → act.safe a) : (guardMemberAhead act).safe s := by
  obtain ⟨t, hs⟩ := h
  have hsettle : Meets (guardChainAhead : Guarded (Chained σ) Bool).run s t.more t.refusals
      (ReadyAhead Shows · t) := guardChainAhead_run (σ := σ) ▸ chained_settleAhead simulation hs
  apply safe_bind (chainAhead_safe ⟨t, hs⟩) hsettle
  intro more s' hmore hs'
  split
  · rename_i htrue
    exact guardMember_safe hs' (.inr (by simp [hmore, htrue])) hact
  · trivial

omit [GuardedCursor σ α] [InRange σ] in
lemma memberBack_safe {act : Guarded (Anchored σ) β} (h : Shown s)
    (hact : ∀ a, Shown a → act.safe a) : (guardMemberBack act).safe s := by
  obtain ⟨t, hs⟩ := h
  have hsettle : Meets (Guarded.free Chained.settleBack).run s (.ok !t.behind.isEmpty) []
      (ReadyBack Shows · t) := chained_settleBack simulation hs
  apply safe_bind trivial hsettle
  intro any s' hany hs'
  split
  · rename_i htrue
    refine guardMember_safe hs' (.inl fun hnil => ?_) hact
    rw [hnil, htrue] at hany
    cases hany
  · trivial

instance : InRange (Chained σ) where
  safe := by
    intro s h
    have hmember := fun a (ha : Shown a) => InRange.safe (σ := Anchored σ) a ha
    constructor
    · exact chainAhead_safe h
    · trivial
    · exact memberAhead_safe h fun a ha => (hmember a ha).peekNext
    · exact memberBack_safe h fun a ha => (hmember a ha).peekPrevious
    · exact safe_countForth (memberAhead_safe h fun a ha => (hmember a ha).next)
    · apply safe_countBack (memberBack_safe h fun a ha => (hmember a ha).previous)
      intro u hu
      obtain ⟨t, hs⟩ := h
      have hback := Meets.insideBack simulation hs Tape.back simulation.previous
        (fun _ _ _ _ _ _ => (chainTape_back ..).symm) Tape.back_of_nil
      rw [guardMemberBack_run, GuardedCursor.previous_run] at hu ⊢
      rw [hback.result] at hu
      rw [hback.cursor.1]
      obtain ⟨_ | ⟨v, behind⟩, ahead, stop⟩ := t
      · cases hu
      · exact Nat.succ_pos _

end Chained

end BaseText.Proofs
