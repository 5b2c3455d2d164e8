import BaseText.Proofs.Courses
import BaseText.Proofs.InRange

/-!
# Cursors that halt

A cursor that shows a tape halts: the courses of its questions end, and with the outcomes of the
questions themselves. A search along a cursor comes round again once for each unit that it steps
over, and of those the tape has only so many. A cursor that is made from another one asks that one
questions, so that the loops of all layers end together.
-/

namespace BaseText.Proofs

open Course

variable {σ τ α β γ : Type}

section Rules

variable {c : Course σ α} {act : Action σ α} {s : σ} {o : Outcome σ β}

/-- What follows a course starts where the action leaves the cursor, if it succeeds. -/
lemma Course.Then.of_ends {next : α → σ → Outcome σ β → Prop} {next' : α → Action σ β}
    (h : c.Ends s (act s))
    (hnext : ∀ a, (act s).result = .ok a → next a (act s).cursor (next' a (act s).cursor)) :
    Then c next s ((act >>= next') s) := by
  rw [Action.bind_run]
  cases hact : act s with
  | mk result s' log =>
    rw [hact] at h hnext
    cases result with
    | error e => exact .failed h
    | ok a => exact .onward h (hnext a rfl)

lemma Course.Then.bind {first : Course σ γ} {second : γ → Course σ α}
    {next : α → σ → Outcome σ β → Prop} (h : Then first (fun a s => Then (second a) next s) s o) :
    Then (first >>= second) next s o := by
  cases h with
  | failed h => exact .failed (.failed h)
  | onward h hsecond =>
    cases hsecond with
    | failed hsecond => exact .failed (.onward h hsecond)
    | onward hsecond hnext =>
      rw [← List.append_assoc]
      exact .onward (.onward h hsecond) hnext

lemma Course.Then.quiet {a : α} {s' : σ} {next : α → σ → Outcome σ β → Prop}
    (h : c.Ends s ⟨.ok a, s', []⟩) (hnext : next a s' o) : Then c next s o := by
  obtain ⟨result, s'', log⟩ := o
  rw [← List.nil_append log]
  exact .onward h hnext

lemma Course.Then.answer {a : α} {next : α → σ → Outcome σ β → Prop} (h : next a s o) :
    Then (pure a) next s o :=
  .quiet rfl h

lemma Course.Then.look {next : σ → σ → Outcome σ β → Prop} (h : next s s o) :
    Then (.free Action.here) next s o :=
  .quiet rfl h

lemma Course.Then.here {next : σ → σ → Outcome σ β → Prop} {next' : σ → Action σ β}
    (h : next s s (next' s s)) : Then (.free Action.here) next s ((Action.here >>= next') s) :=
  .look h

lemma Course.Then.changed {f : σ → σ} {next : Unit → σ → Outcome σ β → Prop}
    (h : next () (f s) o) : Then (.free (Action.change f)) next s o :=
  .quiet rfl h

lemma Course.Then.asks {f : σ → α} {next : α → σ → Outcome σ β → Prop} (h : next (f s) s o) :
    Then (.free (Action.asks f)) next s o :=
  .quiet rfl h

lemma ends_bind {next : α → Course σ β} {next' : α → Action σ β} (h : c.Ends s (act s))
    (hnext : ∀ a, (act s).result = .ok a →
      (next a).Ends (act s).cursor (next' a (act s).cursor)) :
    (c >>= next).Ends s ((act >>= next') s) :=
  Then.of_ends h hnext

lemma ends_here {next : σ → Course σ β} {next' : σ → Action σ β}
    (h : (next s).Ends s (next' s s)) :
    (Course.free Action.here >>= next).Ends s ((Action.here >>= next') s) := by
  refine ends_bind rfl ?_
  rintro _ ⟨⟩
  exact h

lemma ends_map (f : α → β) (h : c.Ends s (act s)) : (f <$> c).Ends s ((f <$> act) s) :=
  ends_bind h fun _ _ => rfl

/-- What a step is followed by has no loops. -/
lemma ends_count {f : σ → σ} (h : c.Ends s (act s)) :
    (do let a ← c; Course.free (Action.change f); pure a : Course σ α).Ends s
      ((do let a ← act; Action.change f; pure a : Action σ α) s) :=
  ends_bind h fun _ _ => ends_bind rfl fun _ _ => rfl

/-- What follows a question starts from a cursor that the question leaves. -/
lemma ends_ask {next : α → Course σ β} {next' : α → Action σ β} {result : Except CodingError α}
    {refused : List Event} {P : σ → Prop} (h : c.Ends s (act s))
    (hmeets : Meets act s result refused P)
    (hnext : ∀ a s', result = .ok a → P s' → (next a).Ends s' (next' a s')) :
    (c >>= next).Ends s ((act >>= next') s) :=
  ends_bind h fun a ha => hnext a _ (hmeets.result.symm.trans ha) hmeets.cursor

end Rules

/-- From every cursor such that `P`, the course ends with the outcome of the action, and where that
succeeds, its answer and the cursor that it leaves are as `Q` says. -/
def Traces (P : σ → Prop) (c : Course σ α) (act : Action σ α) (Q : α → σ → Prop) : Prop :=
  ∀ s, P s → c.Ends s (act s) ∧ ∀ a, (act s).result = .ok a → Q a (act s).cursor

section Triples

variable {P P' : σ → Prop} {c : Course σ α} {act : Action σ α} {Q Q' : α → σ → Prop} {s : σ}

lemma Traces.mono (h : Traces P c act Q) (hP : ∀ s, P' s → P s) (hQ : ∀ a s, Q a s → Q' a s) :
    Traces P' c act Q' := by
  intro s hs
  obtain ⟨hends, hafter⟩ := h s (hP s hs)
  exact ⟨hends, fun a ha => hQ a _ (hafter a ha)⟩

lemma Traces.bind {next : α → Course σ β} {next' : α → Action σ β} {R : β → σ → Prop}
    (h : Traces P c act Q) (hnext : ∀ a, Traces (Q a) (next a) (next' a) R) :
    Traces P (c >>= next) (act >>= next') R := by
  intro s hs
  obtain ⟨hends, hafter⟩ := h s hs
  refine ⟨ends_bind hends fun a ha => (hnext a _ (hafter a ha)).1, ?_⟩
  rw [Action.bind_run]
  intro b hb
  cases ha : (act s).result with
  | error e => rw [ha] at hb; cases hb
  | ok a =>
    rw [ha] at hb
    exact (hnext a _ (hafter a ha)).2 b hb

lemma Traces.free (h : ∀ s, P s → ∀ a, (act s).result = .ok a → Q a (act s).cursor) :
    Traces P (.free act) act Q :=
  fun s hs => ⟨rfl, h s hs⟩

lemma Traces.answer {a : α} (h : ∀ s, P s → Q a s) : Traces P (pure a) (pure a) Q := by
  intro s hs
  refine ⟨rfl, ?_⟩
  rintro _ ⟨⟩
  exact h s hs

/-- What follows may use what is known of the cursor at hand. -/
lemma Traces.here {next : σ → Course σ α} {next' : σ → Action σ α}
    (h : ∀ s, P s → Traces (· = s) (next s) (next' s) Q) :
    Traces P (Course.free Action.here >>= next) (Action.here >>= next') Q := by
  have hstart : Traces P (Course.free Action.here) Action.here fun a s => P a ∧ s = a := by
    refine .free fun s hs => ?_
    rintro _ ⟨⟩
    exact ⟨hs, rfl⟩
  apply hstart.bind
  intro a s hs
  exact h a hs.1 s hs.2

lemma Traces.within {part : σ → τ} {put : σ → τ → σ} {c : Course τ α} {act : Action τ α}
    {P' : τ → Prop} {Q' : α → τ → Prop} (h : Traces P' c act Q') (hpart : ∀ s, P s → P' (part s))
    (hput : ∀ s a inner, P s → Q' a inner → Q a (put s inner)) :
    Traces P (.within part put c) (Action.within part put act) Q := by
  intro s hs
  obtain ⟨hends, hafter⟩ := h (part s) (hpart s hs)
  exact ⟨⟨_, hends, rfl⟩, fun a ha => hput s a _ hs (hafter a ha)⟩

/-- What follows a course starts from a cursor that the course leaves. -/
lemma Traces.then {next : α → σ → Outcome σ β → Prop} {next' : α → Action σ β}
    (h : Traces P c act Q) (hs : P s) (hnext : ∀ a s', Q a s' → next a s' (next' a s')) :
    Then c next s ((act >>= next') s) := by
  obtain ⟨hends, hafter⟩ := h s hs
  exact Then.of_ends hends fun a ha => hnext a _ (hafter a ha)

end Triples

section Loops

variable {turn : γ → Course σ (γ ⊕ β)} {P : Nat → γ → σ → Outcome σ β → Prop}
  {Q : Nat → β → σ → Prop}

/-- A turn leaves the loop as the outcome says, or one turn less is left for the next. -/
def Turn (P : Nat → γ → σ → Outcome σ β → Prop) (Q : Nat → β → σ → Prop) (m : Nat) :
    γ ⊕ β → σ → Outcome σ β → Prop
  | .inl c, s, o => ∃ m', m = m' + 1 ∧ P m' c s o
  | .inr b, s, o => o = ⟨.ok b, s, []⟩ ∧ Q m b s

/-- If each turn uses up one of `m`, the loop comes round again at most `m` times, and as much as
`Q` says is left of them at the end. -/
lemma exists_runs (hturn : ∀ m c s o, P m c s o → Then (turn c) (Turn P Q m) s o)
    {m : Nat} {c : γ} {s : σ} {o : Outcome σ β} (hstart : P m c s o) :
    ∃ n ≤ m, Runs turn n c s o ∧ ∀ b, o.result = .ok b → Q (m - n) b o.cursor := by
  -- A loop has no length of its own before it has ended, but every turn that goes on lowers `m`.
  induction m using Nat.strongRecOn generalizing c s o with
  | ind m ih =>
    cases hturn m c s o hstart with
    | failed h => exact ⟨0, Nat.zero_le m, .failed h, by rintro b ⟨⟩⟩
    | @onward a s' log result s'' more h hnext =>
      cases a with
      | inr b =>
        obtain ⟨ho, hb⟩ := hnext
        obtain ⟨rfl, rfl, rfl⟩ := Outcome.mk.inj ho
        rw [List.append_nil]
        refine ⟨0, Nat.zero_le m, .left h, ?_⟩
        rintro _ ⟨⟩
        exact hb
      | inl c' =>
        obtain ⟨m', rfl, hP⟩ := hnext
        obtain ⟨n, hn, hruns, hQ⟩ := ih m' (Nat.lt_succ_self m') hP
        refine ⟨n + 1, Nat.succ_le_succ hn, .again h hruns, ?_⟩
        rwa [Nat.succ_sub_succ]

end Loops

/-- The courses of all questions that are put to the cursor end with the outcomes of these. -/
structure Halts [Cursor σ α] [CourseCursor σ α] (s : σ) : Prop where
  hasNext : (CourseCursor.hasNext : Course σ Bool).Ends s (Cursor.hasNext s)
  hasPrevious : (CourseCursor.hasPrevious : Course σ Bool).Ends s (Cursor.hasPrevious s)
  peekNext : (CourseCursor.peekNext : Course σ α).Ends s (Cursor.peekNext s)
  peekPrevious : (CourseCursor.peekPrevious : Course σ α).Ends s (Cursor.peekPrevious s)
  next : (CourseCursor.next : Course σ α).Ends s (Cursor.next s)
  previous : (CourseCursor.previous : Course σ α).Ends s (Cursor.previous s)

/-- Cursors that halt whenever they show a tape. -/
class Halting (σ : Type) {α : outParam Type} [Cursor σ α] [Viewed σ α] [CourseCursor σ α] :
    Prop where
  halts : ∀ s : σ, Shown s → Halts s

section Questions

variable [Cursor σ α] [Viewed σ α]

/-- The tape has `m` units ahead. -/
def Ahead (m : Nat) (s : σ) : Prop := ∃ t : Tape α, Shows s t ∧ t.ahead.length = m

/-- The tape has `m` units behind. -/
def Behind (m : Nat) (s : σ) : Prop := ∃ t : Tape α, Shows s t ∧ t.behind.length = m

variable {m n : Nat} {s : σ}

lemma Ahead.shown (h : Ahead m s) : Shown s :=
  let ⟨t, ht, _⟩ := h
  ⟨t, ht⟩

lemma Behind.shown (h : Behind m s) : Shown s :=
  let ⟨t, ht, _⟩ := h
  ⟨t, ht⟩

lemma Ahead.atMost (h : Ahead m s) (hn : n ≤ m) : AtMostAhead s n := by
  obtain ⟨t, ht, rfl⟩ := h
  exact ⟨t.ahead, t.stop, .of_shows ht, hn⟩

lemma Ahead.le_capacity (h : Ahead m s) : m ≤ Cursor.capacity s := by
  obtain ⟨t, ht, rfl⟩ := h
  exact simulation.ahead_le ht

lemma Behind.index_eq (h : Behind m s) : Cursor.index s = m := by
  obtain ⟨t, ht, rfl⟩ := h
  exact simulation.index ht

lemma Shown.behind (h : Shown s) : Behind (Cursor.index s) s :=
  let ⟨t, ht⟩ := h
  ⟨t, ht, (simulation.index ht).symm⟩

lemma more_iff {t : Tape α} {more : Bool} (h : t.more = .ok more) :
    more = true ↔ t.ahead.length ≠ 0 := by
  obtain ⟨behind, _ | ⟨u, rest⟩, ended | ⟨codec, e⟩⟩ := t <;> cases h <;> simp

variable [CourseCursor σ α] [Halting σ]

lemma hasNext_ahead : Traces (σ := σ) (Ahead m) CourseCursor.hasNext Cursor.hasNext
    fun more s => Ahead m s ∧ (more = true ↔ m ≠ 0) := by
  rintro s ⟨t, ht, rfl⟩
  have hask := simulation.hasNext ht
  refine ⟨(Halting.halts s ⟨t, ht⟩).hasNext, fun more h => ⟨⟨t, hask.cursor, rfl⟩, ?_⟩⟩
  exact more_iff (hask.result.symm.trans h)

lemma peekNext_ahead : Traces (σ := σ) (Ahead m) CourseCursor.peekNext Cursor.peekNext
    fun _ => Ahead m := by
  rintro s ⟨t, ht, rfl⟩
  exact ⟨(Halting.halts s ⟨t, ht⟩).peekNext, fun u _ => ⟨t, (simulation.peekNext ht).cursor, rfl⟩⟩

lemma next_ahead : Traces (σ := σ) (Ahead (m + 1)) CourseCursor.next Cursor.next
    fun _ => Ahead m := by
  rintro s ⟨t, ht, hm⟩
  refine ⟨(Halting.halts s ⟨t, ht⟩).next, fun u _ => ⟨_, (simulation.next ht).cursor, ?_⟩⟩
  obtain ⟨behind, _ | ⟨v, rest⟩, stop⟩ := t
  · cases hm
  · exact Nat.succ.inj hm

lemma next_behind : Traces (σ := σ) (Behind m) CourseCursor.next Cursor.next
    fun _ => Behind (m + 1) := by
  rintro s ⟨t, ht, rfl⟩
  have hask := simulation.next ht
  refine ⟨(Halting.halts s ⟨t, ht⟩).next, fun u h => ⟨_, hask.cursor, ?_⟩⟩
  rw [hask.result] at h
  obtain ⟨behind, _ | ⟨v, rest⟩, stop⟩ := t
  · cases h
  · rfl

lemma hasPrevious_behind : Traces (σ := σ) (Behind m) CourseCursor.hasPrevious Cursor.hasPrevious
    fun any s => Behind m s ∧ (any = true ↔ m ≠ 0) := by
  rintro s ⟨t, ht, rfl⟩
  have hask := simulation.hasPrevious ht
  refine ⟨(Halting.halts s ⟨t, ht⟩).hasPrevious, fun any h => ⟨⟨t, hask.cursor, rfl⟩, ?_⟩⟩
  rw [hask.result] at h
  cases h
  simp

lemma peekPrevious_behind :
    Traces (σ := σ) (Behind m) CourseCursor.peekPrevious Cursor.peekPrevious fun _ => Behind m := by
  rintro s ⟨t, ht, rfl⟩
  exact ⟨(Halting.halts s ⟨t, ht⟩).peekPrevious,
    fun u _ => ⟨t, (simulation.peekPrevious ht).cursor, rfl⟩⟩

lemma previous_behind : Traces (σ := σ) (Behind (m + 1)) CourseCursor.previous Cursor.previous
    fun _ => Behind m := by
  rintro s ⟨t, ht, hm⟩
  refine ⟨(Halting.halts s ⟨t, ht⟩).previous, fun u _ => ⟨_, (simulation.previous ht).cursor, ?_⟩⟩
  obtain ⟨_ | ⟨v, behind⟩, ahead, stop⟩ := t
  · cases hm
  · exact Nat.succ.inj hm

lemma hasNext_traces : Traces (σ := σ) Shown CourseCursor.hasNext Cursor.hasNext fun _ => Shown :=
  fun s hs => ⟨(Halting.halts s hs).hasNext, fun _ _ => simulation.callsKeep.hasNext s hs⟩

lemma peekNext_traces :
    Traces (σ := σ) Shown CourseCursor.peekNext Cursor.peekNext fun _ => Shown :=
  fun s hs => ⟨(Halting.halts s hs).peekNext, fun _ _ => simulation.callsKeep.peekNext s hs⟩

lemma next_traces : Traces (σ := σ) Shown CourseCursor.next Cursor.next fun _ => Shown :=
  fun s hs => ⟨(Halting.halts s hs).next, fun _ _ => simulation.callsKeep.next s hs⟩

end Questions

instance : Halting (Sequence α) where
  halts _ _ := ⟨rfl, rfl, rfl, rfl, rfl, rfl⟩

instance : Halting TextCursor where
  halts _ _ := ⟨rfl, rfl, rfl, rfl, rfl, rfl⟩

section Anchored

variable {c : Course σ β} {act : Action σ β} {a : Anchored σ}

lemma ends_anchored (h : c.Ends a.inner (act a.inner)) :
    (courseAnchored c).Ends a (Anchored.inside act a) :=
  ⟨_, h, rfl⟩

lemma ends_afterStart (h : c.Ends a.inner (act a.inner)) :
    (courseAfterStart c).Ends a (Anchored.insideAfterStart act a) := by
  apply ends_here
  split
  · rfl
  · exact ends_anchored h

variable [Cursor σ α] [Viewed σ α] [CourseCursor σ α] [Halting σ]

instance : Halting (Anchored σ) where
  halts := by
    intro a h
    have hinner := Halting.halts a.inner h.anchored
    constructor
    · exact ends_anchored hinner.hasNext
    · apply ends_here
      split
      · rfl
      · exact ends_anchored hinner.hasPrevious
    · exact ends_anchored hinner.peekNext
    · exact ends_afterStart hinner.peekPrevious
    · exact ends_count (ends_anchored hinner.next)
    · exact ends_count (ends_afterStart hinner.previous)

end Anchored

section Limited

variable {c : Course (Anchored σ) β} {act : Action (Anchored σ) β} {s : Limited σ}

lemma ends_limited (h : c.Ends s.inner (act s.inner)) :
    (courseLimited c).Ends s (Limited.inside act s) :=
  ⟨_, h, rfl⟩

lemma ends_bound (h : c.Ends s.inner (act s.inner)) :
    (courseBound c).Ends s (Limited.insideBound act s) := by
  apply ends_here
  split
  · rfl
  · exact ends_limited h

variable [Cursor σ α] [Viewed σ α] [CourseCursor σ α] [Halting σ]

instance : Halting (Limited σ) where
  halts := by
    rintro s ⟨t, whole, hs, -⟩
    have hinner := Halting.halts s.inner ⟨whole, hs⟩
    constructor
    · apply ends_here
      split
      · rfl
      · exact ends_limited hinner.hasNext
    · exact ends_limited hinner.hasPrevious
    · exact ends_bound hinner.peekNext
    · exact ends_limited hinner.peekPrevious
    · exact ends_bound hinner.next
    · exact ends_limited hinner.previous

end Limited

section Delimited

variable [DecidableEq α] [Cursor σ α] [Viewed σ α]

omit [DecidableEq α] in
lemma Traces.insideDelimited {c : Course (Anchored σ) β} {act : Action (Anchored σ) β}
    (h : Traces Shown c act fun _ => Shown) :
    Traces (fun s : Delimited σ α => Shown s.inner) (courseDelimited c) (Delimited.inside act)
      fun _ s => Shown s.inner :=
  h.within (fun _ hs => hs) fun _ _ _ _ hinner => hinner

variable [CourseCursor σ α] [Halting σ]

lemma ready_traces : Traces (fun s : Delimited σ α => Shown s.inner) courseReady Delimited.ready
    fun _ s => Shown s.inner := by
  apply hasNext_traces.insideDelimited.bind
  intro more
  split
  · apply peekNext_traces.insideDelimited.bind
    intro u
    apply Traces.here
    intro s hs
    exact .answer fun _ hs' => hs' ▸ hs
  · exact .answer fun _ hs => hs

lemma insideReady_traces {c : Course (Anchored σ) α} {act : Action (Anchored σ) α}
    (h : Traces Shown c act fun _ => Shown) :
    Traces (fun s : Delimited σ α => Shown s.inner) (courseInsideReady c)
      (Delimited.insideReady act) fun _ _ => True := by
  apply ready_traces.bind
  intro more
  split
  · exact h.insideDelimited.mono (fun _ hs => hs) fun _ _ _ => trivial
  · exact .free fun _ _ _ _ => trivial

instance : Halting (Delimited σ α) where
  halts := by
    rintro s ⟨t, whole, hs, -⟩
    have hshown : Shown s.inner := ⟨whole, hs⟩
    have hinner := Halting.halts s.inner hshown
    constructor
    · exact (ready_traces s hshown).1
    · exact ⟨_, hinner.hasPrevious, rfl⟩
    · exact (insideReady_traces peekNext_traces s hshown).1
    · exact ⟨_, hinner.peekPrevious, rfl⟩
    · exact (insideReady_traces next_traces s hshown).1
    · exact ⟨_, hinner.previous, rfl⟩

end Delimited

section Mapped

variable {c : Course (Anchored σ) UInt8} {act : Action (Anchored σ) UInt8} {s : Mapped σ}

lemma ends_through (h : c.Ends s.inner (act s.inner)) :
    (courseThrough c).Ends s (Mapped.insideMapped act s) :=
  ends_bind ⟨_, h, rfl⟩ fun _ _ => ends_here rfl

variable [Cursor σ UInt8] [Viewed σ UInt8] [CourseCursor σ UInt8]

instance [Halting σ] : Halting (Mapped σ) where
  halts := by
    rintro s ⟨t, whole, hs, -⟩
    have hinner := Halting.halts s.inner ⟨whole, hs⟩
    exact ⟨⟨_, hinner.hasNext, rfl⟩, ⟨_, hinner.hasPrevious, rfl⟩, ends_through hinner.peekNext,
      ends_through hinner.peekPrevious, ends_through hinner.next, ends_through hinner.previous⟩

end Mapped

section Filtered

variable [Cursor σ α] [Viewed σ α] {s : Filtered σ α}

omit [Cursor σ α] [Viewed σ α] in
lemma Traces.insideFiltered {c : Course σ β} {act : Action σ β} {P : σ → Prop} {Q : β → σ → Prop}
    (h : Traces P c act Q) : Traces (fun s : Filtered σ α => P s.inner) (courseFiltered c)
      (Filtered.inside act) fun b s => Q b s.inner :=
  h.within (fun _ hs => hs) fun _ _ _ _ hinner => hinner

section Search

variable {R : Nat → σ → Prop} {more : Course σ Bool} {look step : Course σ α}
  {more' : Action σ Bool} {look' step' : Action σ α} {act : Nat → Action (Filtered σ α) Bool}

/-- A search with fuel enough for the `m` units that the inner cursor has on the side searched. -/
def Search (R : Nat → σ → Prop) (act : Nat → Action (Filtered σ α) Bool) (m : Nat) (_ : Unit)
    (s : Filtered σ α) (o : Outcome (Filtered σ α) Bool) : Prop :=
  R m s.inner ∧ ∃ fuel, m < fuel ∧ o = act fuel s

omit [Cursor σ α] [Viewed σ α]

variable (hmore : ∀ m, Traces (R m) more more' fun any s => R m s ∧ (any = true ↔ m ≠ 0))
  (hlook : ∀ m, Traces (R m) look look' fun _ => R m)
  (hstep : ∀ m, Traces (R (m + 1)) step step' fun _ => R m)
  (hact : ∀ fuel, act (fuel + 1) = do
    if ← Filtered.inside more' then
      let u ← Filtered.inside look'
      let s ← Action.here
      if s.hidden u then
        let _ ← Filtered.inside step'
        act fuel
      else pure true
    else pure false)

include hmore hlook hstep hact

lemma search_turn {m : Nat} {c : Unit} {o : Outcome (Filtered σ α) Bool}
    (h : Search R act m c s o) :
    Then (searchTurn more look step c) (Turn (Search R act) (fun m _ s => R m s.inner) m) s o := by
  obtain ⟨hs, fuel, hfuel, rfl⟩ := h
  obtain ⟨fuel, rfl⟩ := Nat.exists_eq_succ_of_ne_zero (Nat.ne_of_gt (Nat.zero_lt_of_lt hfuel))
  rw [hact]
  apply Then.bind
  apply (hmore m).insideFiltered.then hs
  rintro (_ | _) s ⟨hs, hany⟩
  · exact Then.answer ⟨rfl, hs⟩
  · obtain ⟨m, rfl⟩ := Nat.exists_eq_succ_of_ne_zero (hany.1 rfl)
    apply Then.bind
    apply (hlook _).insideFiltered.then hs
    intro u s hs
    apply Then.bind
    apply Then.here
    cases s.hidden u with
    | false => exact Then.answer ⟨rfl, hs⟩
    | true =>
      apply Then.bind
      apply (hstep _).insideFiltered.then hs
      intro _ s hs
      exact Then.answer ⟨m, rfl, hs, fuel, Nat.lt_of_succ_lt_succ hfuel, rfl⟩

/-- A search on either side steps over a unit in each turn but the last. -/
lemma exists_search {m fuel : Nat} (hfuel : m < fuel) (h : R m s.inner) :
    ∃ n ≤ m, Runs (searchTurn more look step) n () s (act fuel s) ∧
      ∀ b, (act fuel s).result = .ok b → R (m - n) (act fuel s).cursor.inner := by
  have hsearch : Search R act m () s (act fuel s) := ⟨h, fuel, hfuel, rfl⟩
  exact exists_runs (fun _ _ _ _ => search_turn hmore hlook hstep hact) hsearch

end Search

variable [CourseCursor σ α] [Halting σ]

lemma skipAhead_ends (h : Shown s.inner) : courseSkipAhead.Ends s (Filtered.settleAhead s) := by
  obtain ⟨t, ht⟩ := h
  have hahead : Ahead t.ahead.length s.inner := ⟨t, ht, rfl⟩
  obtain ⟨n, hn, hruns, -⟩ := exists_search (R := Ahead) (fun _ => hasNext_ahead)
    (fun _ => peekNext_ahead) (fun _ => next_ahead)
    (fun fuel => (rfl : Filtered.skipAhead (fuel + 1) = _)) (Nat.lt_succ_of_le hahead.le_capacity)
    hahead
  exact ⟨n, hahead.atMost hn, hruns⟩

variable {t : Tape α} {before : List α}

omit [Viewed σ α] [CourseCursor σ α] [Halting σ] in
lemma settleBack_of_index (hindex : s.index ≠ 0) :
    Filtered.settleBack s = Filtered.skipBack (Cursor.index s.inner + 1) s := by
  simp [Filtered.settleBack, Action.bind_run, hindex]

/-- Searching back ends behind the place where the inner cursor was wrapped, and as many visible
units behind it as the index tells. -/
lemma exists_searchBack (h : FilterOf Shows before s t) (hindex : s.index ≠ 0) :
    ∃ n, n + s.index + before.length ≤ Cursor.index s.inner ∧
      Runs (searchTurn CourseCursor.hasPrevious CourseCursor.peekPrevious CourseCursor.previous) n
        () s (Filtered.settleBack s) := by
  have hback := filtered_settleBack simulation h
  obtain ⟨seen, ahead, stop, hat⟩ := h
  have hbehind : Behind (Cursor.index s.inner) s.inner := Shown.behind ⟨_, hat.inner⟩
  -- The units that are counted are still behind the inner cursor when the search has ended.
  obtain ⟨n, hn, hruns, hleft⟩ := exists_search (R := Behind) (fun _ => hasPrevious_behind)
    (fun _ => peekPrevious_behind) (fun _ => previous_behind)
    (fun fuel => (rfl : Filtered.skipBack (fuel + 1) = _)) (Nat.lt_succ_self _) hbehind
  rw [← settleBack_of_index hindex] at hruns hleft
  refine ⟨n, ?_, hruns⟩
  obtain ⟨⟨seen', ahead', stop', hat'⟩, -⟩ := hback.cursor
  have hleft' := (hleft _ hback.result).index_eq
  have hplace := simulation.index hat'.inner
  have hvisible : t.behind.length ≤ seen'.length := by
    rw [hat'.visible]
    exact List.length_filter_le _ _
  rw [hat.index]
  rw [hleft', List.length_append] at hplace
  omega

lemma settleBack_ends (h : FilterOf Shows before s t) :
    courseSettleBack.Ends s (Filtered.settleBack s) := by
  apply ends_here
  split
  case isTrue => rfl
  case isFalse hindex =>
    obtain ⟨n, hn, hruns⟩ := exists_searchBack h hindex
    rw [settleBack_of_index hindex] at hruns
    exact ⟨n, by omega, hruns⟩

lemma visibleAhead_ends {c : Course σ β} {act : Action σ β} (h : FilterOf Shows before s t)
    (hact : ∀ s, Shown s → c.Ends s (act s)) :
    (courseVisibleAhead c).Ends s (Filtered.insideAhead act s) := by
  obtain ⟨seen, ahead, stop, hat⟩ := id h
  apply ends_ask (skipAhead_ends ⟨_, hat.inner⟩) (filtered_settleAhead simulation h)
  rintro more s' - ⟨seen', ahead', stop', hat', -⟩
  split
  · exact ⟨_, hact _ ⟨_, hat'.inner⟩, rfl⟩
  · rfl

lemma visibleBack_ends {c : Course σ β} {act : Action σ β} (h : FilterOf Shows before s t)
    (hact : ∀ s, Shown s → c.Ends s (act s)) :
    (courseVisibleBack c).Ends s (Filtered.insideBack act s) := by
  obtain ⟨seen, ahead, stop, hat⟩ := id h
  apply ends_ask (settleBack_ends h) (filtered_settleBack simulation h)
  rintro any s' - ⟨⟨seen', ahead', stop', hat'⟩, -⟩
  split
  · exact ⟨_, hact _ ⟨_, hat'.inner⟩, rfl⟩
  · rfl

instance : Halting (Filtered σ α) where
  halts := by
    rintro s ⟨t, before, h⟩
    obtain ⟨seen, ahead, stop, hat⟩ := id h
    constructor
    · exact skipAhead_ends ⟨_, hat.inner⟩
    · exact settleBack_ends h
    · exact visibleAhead_ends h fun s hs => (Halting.halts s hs).peekNext
    · exact visibleBack_ends h fun s hs => (Halting.halts s hs).peekPrevious
    · exact ends_count (visibleAhead_ends h fun s hs => (Halting.halts s hs).next)
    · exact ends_count (visibleBack_ends h fun s hs => (Halting.halts s hs).previous)

end Filtered

section Chained

variable {s : Chained σ}

lemma ends_member {c : Course (Anchored σ) β} {act : Action (Anchored σ) β}
    (h : ∀ a ∈ s.members, c.Ends a (act a)) : (courseMember c).Ends s (Chained.inside act s) := by
  apply ends_here
  cases hmember : s.members[s.current]? with
  | none => rfl
  | some a => exact ⟨_, h a (Array.mem_of_getElem? hmember), rfl⟩

lemma settleBack_run (s : Chained σ) :
    Chained.settleBack s = ⟨.ok (decide (0 < s.taken (s.lastTaken s.current))),
      { s with current := s.lastTaken s.current }, []⟩ :=
  rfl

lemma lastTaken_current (s : Chained σ) (i member : Nat) :
    ({ s with current := i } : Chained σ).lastTaken member = s.lastTaken member := by
  induction member with
  | zero => rfl
  | succ member ih =>
    rw [Chained.lastTaken, Chained.lastTaken, ih]
    rfl

lemma settleBack_of_taken (h : 0 < s.taken s.current) :
    Chained.settleBack s = ⟨.ok true, s, []⟩ := by
  have hlast : s.lastTaken s.current = s.current := by
    cases hcurrent : s.current with
    | zero => rfl
    | succ i => rw [Chained.lastTaken, if_pos (hcurrent ▸ h)]
  rw [settleBack_run, hlast, decide_eq_true h]

lemma settleBack_of_first (h : ¬ 0 < s.taken s.current) (hfirst : s.current = 0) :
    Chained.settleBack s = ⟨.ok false, s, []⟩ := by
  have hlast : s.lastTaken s.current = s.current := by
    rw [hfirst]
    rfl
  rw [settleBack_run, hlast, decide_eq_false h]

lemma settleBack_backward (h : ¬ 0 < s.taken s.current) (hne : s.current ≠ 0) :
    Chained.settleBack s = Chained.settleBack { s with current := s.current - 1 } := by
  have hlast : ({ s with current := s.current - 1 } : Chained σ).lastTaken (s.current - 1) =
      s.lastTaken s.current := by
    obtain ⟨i, hi⟩ := Nat.exists_eq_succ_of_ne_zero hne
    rw [lastTaken_current]
    rw [hi] at h ⊢
    rw [Chained.lastTaken, if_neg h]
    rfl
  rw [settleBack_run, settleBack_run]
  simp only
  rw [hlast]
  rfl

/-- The search back from a chain with `m` members in front of the current one. -/
def SearchBack (m : Nat) (_ : Unit) (s : Chained σ) (o : Outcome (Chained σ) Bool) : Prop :=
  (s.current < s.members.size ∨ s.current = 0) ∧ s.current = m ∧ o = Chained.settleBack s

lemma memberBack_turn {m : Nat} {c : Unit} {o : Outcome (Chained σ) Bool}
    (h : SearchBack m c s o) :
    Then (memberBackTurn c) (Turn SearchBack (fun _ _ _ => True) m) s o := by
  obtain ⟨hrange, rfl, rfl⟩ := h
  apply Then.bind
  apply Then.look
  cases hmember : s.members[s.current]? with
  | none =>
    -- Only a chain without members has none at its current place.
    have hfirst : s.current = 0 :=
      hrange.resolve_left (Nat.not_lt.2 (Array.getElem?_eq_none_iff.1 hmember))
    have htaken : s.taken s.current = 0 := by rw [Chained.taken, hmember]
    exact Then.answer ⟨settleBack_of_first (by omega) hfirst, trivial⟩
  | some a =>
    have htaken : s.taken s.current = a.index := by rw [Chained.taken, hmember]
    dsimp only
    rw [← htaken]
    by_cases hpos : 0 < s.taken s.current
    · rw [if_pos hpos]
      exact Then.answer ⟨settleBack_of_taken hpos, trivial⟩
    · rw [if_neg hpos]
      by_cases hfirst : s.current = 0
      · rw [if_pos hfirst]
        exact Then.answer ⟨settleBack_of_first hpos hfirst, trivial⟩
      · rw [if_neg hfirst]
        have hlt := hrange.resolve_right hfirst
        apply Then.bind
        apply Then.changed
        refine Then.answer ⟨s.current - 1, by omega, .inl ?_, rfl, settleBack_backward hpos hfirst⟩
        simp only
        omega

/-- The search back leaves a member in each turn but the last. -/
lemma memberBack_ends (h : s.current < s.members.size ∨ s.current = 0) :
    courseMemberBack.Ends s (Chained.settleBack s) := by
  have hsearch : SearchBack s.current () s (Chained.settleBack s) := ⟨h, rfl, rfl⟩
  obtain ⟨n, hn, hruns, -⟩ := exists_runs (fun _ _ _ _ => memberBack_turn) hsearch
  exact ⟨n, by omega, hruns⟩

variable [Cursor σ α] [Viewed σ α] {t : Tape α}

lemma ChainWith.current_range {settled : List (Member (σ := Anchored σ) (α := α) Shows) →
    Member (σ := Anchored σ) (α := α) Shows → Prop} {i : Nat} (h : ChainWith Shows settled i s t) :
    s.current < s.members.size ∨ s.current = 0 := by
  obtain ⟨-, ⟨⟨-, hfirst⟩, -⟩ | ⟨drained, m, rest, hat, -⟩⟩ := h
  · exact .inr hfirst
  · exact .inl (Array.getElem?_eq_some_iff.1 hat.current_eq).1

lemma insideBack_ends {c : Course (Anchored σ) β} {act : Action (Anchored σ) β}
    (h : Shows s t) (hact : ∀ a, Shown a → c.Ends a (act a)) :
    (courseInsideBack c).Ends s (Chained.insideBack act s) := by
  apply ends_ask (memberBack_ends (ChainWith.current_range h)) (chained_settleBack simulation h)
  intro any s' _ hs'
  split
  · exact ends_member fun a ha => hact a (ChainWith.shown hs' a ha)
  · rfl

/-- Every member shows a tape, and there are `left` of them from the current one on. -/
def MembersLeft (left : Nat) (s : Chained σ) : Prop :=
  (∀ a ∈ s.members, Shown a) ∧ s.members.size - s.current = left

variable [CourseCursor σ α] [Halting σ]

lemma memberNext_traces {left : Nat} : Traces (σ := Chained σ) (MembersLeft left)
    (courseMember CourseCursor.hasNext) (Chained.inside Cursor.hasNext)
    fun _ => MembersLeft left := by
  intro s hs
  refine ⟨ends_member fun a ha => (Halting.halts a (hs.1 a ha)).hasNext, fun more hmore => ?_⟩
  by_cases hlt : s.current < s.members.size
  · rw [insideChained_run _ hlt]
    refine ⟨fun a ha => ?_, by simpa using hs.2⟩
    obtain ha | rfl := Array.mem_or_eq_of_mem_setIfInBounds ha
    · exact hs.1 a ha
    · exact simulation.callsKeep.hasNext _ (hs.1 _ (Array.getElem_mem hlt))
  · rw [Chained.inside, Action.bind_run] at hmore
    simp [Array.getElem?_eq_none (Nat.not_lt.1 hlt)] at hmore

/-- The search ahead from a chain with `m` members after the current one. -/
def SearchAhead (m : Nat) (_ : Unit) (s : Chained σ) (o : Outcome (Chained σ) Bool) : Prop :=
  ∃ left, MembersLeft left s ∧ m = left - 1 ∧ o = Chained.settleAheadFrom left s

lemma memberAhead_turn {m : Nat} {c : Unit} {o : Outcome (Chained σ) Bool}
    (h : SearchAhead m c s o) :
    Then (memberAheadTurn c) (Turn SearchAhead (fun _ _ _ => True) m) s o := by
  obtain ⟨left, hs, rfl, rfl⟩ := h
  have hleft := hs.2
  apply Then.bind
  apply Then.look
  cases left with
  | zero =>
    rw [if_neg (by omega)]
    exact Then.answer ⟨rfl, trivial⟩
  | succ left =>
    rw [if_pos (by omega)]
    apply Then.bind
    apply memberNext_traces.then hs
    rintro (_ | _) s' hs'
    · simp only [Bool.false_eq_true, if_false]
      by_cases hlast : left = 0
      · rw [if_pos (by omega), if_pos hlast]
        exact Then.answer ⟨rfl, trivial⟩
      · rw [if_neg (by omega), if_neg hlast]
        have hnext := hs'.2
        apply Then.bind
        apply Then.changed
        refine Then.answer ⟨left - 1, by omega, left, ⟨hs'.1, ?_⟩, rfl, rfl⟩
        simp only
        omega
    · exact Then.answer ⟨rfl, trivial⟩

/-- The search ahead leaves a member in each turn but the last. -/
lemma memberAhead_ends (h : ∀ a ∈ s.members, Shown a) :
    courseMemberAhead.Ends s (Chained.settleAhead s) := by
  have hsearch : SearchAhead (s.members.size - s.current - 1) () s (Chained.settleAhead s) :=
    ⟨_, ⟨h, rfl⟩, rfl, rfl⟩
  obtain ⟨n, hn, hruns, -⟩ := exists_runs (fun _ _ _ _ => memberAhead_turn) hsearch
  exact ⟨n, by omega, hruns⟩

lemma insideAhead_ends {c : Course (Anchored σ) β} {act : Action (Anchored σ) β}
    (h : Shows s t) (hact : ∀ a, Shown a → c.Ends a (act a)) :
    (courseInsideAhead c).Ends s (Chained.insideAhead act s) := by
  apply ends_ask (memberAhead_ends (ChainWith.shown h)) (chained_settleAhead simulation h)
  intro more s' _ hs'
  split
  · exact ends_member fun a ha => hact a (ChainWith.shown hs' a ha)
  · rfl

instance : Halting (Chained σ) where
  halts := by
    rintro s ⟨t, h⟩
    constructor
    · exact memberAhead_ends (ChainWith.shown h)
    · exact memberBack_ends (ChainWith.current_range h)
    · exact insideAhead_ends h fun a ha => (Halting.halts a ha).peekNext
    · exact insideBack_ends h fun a ha => (Halting.halts a ha).peekPrevious
    · exact ends_count (insideAhead_ends h fun a ha => (Halting.halts a ha).next)
    · exact ends_count (insideBack_ends h fun a ha => (Halting.halts a ha).previous)

end Chained

end BaseText.Proofs
