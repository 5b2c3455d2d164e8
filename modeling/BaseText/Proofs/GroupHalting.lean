import BaseText.Proofs.GroupCourses
import BaseText.Proofs.Halting
import BaseText.Proofs.Safety

/-!
# Groups and stacks that halt

Seeking a place in a source makes one move for each unit between that place and the one at hand.
A cursor over groups only seeks places that lie behind its source, where there is a unit to move
over as long as the place is not reached, and it reads no more units than make a group. With this
every stack halts, however its layers lie over each other.
-/

namespace BaseText.Proofs

open Course

variable {ρ σ τ α β γ : Type}

section Moves

variable {R : Nat → σ → Prop} {test : σ → Bool} {step : Course σ α} {step' : Action σ α}
  {act : Nat → Action σ Unit}

/-- A loop that has `m` moves to make. -/
def Moves (R : Nat → σ → Prop) (act : Nat → Action σ Unit) (m : Nat) (_ : Unit) (s : σ)
    (o : Outcome σ Unit) : Prop :=
  R m s ∧ o = act m s

variable (htest : ∀ m s, R m s → (test s = true ↔ m ≠ 0))
  (hstep : ∀ m, Traces (R (m + 1)) step step' fun _ => R m) (hstay : act 0 = pure ())
  (hmove : ∀ m, act (m + 1) = do
    let _ ← step'
    act m)

include htest hstep hstay hmove

lemma moves_turn {m : Nat} {c : Unit} {s : σ} {o : Outcome σ Unit} (h : Moves R act m c s o) :
    Then (steps (.free (Action.asks test)) step (fun _ _ => ()) c)
      (Turn (Moves R act) (fun m _ s => m = 0 ∧ R 0 s) m) s o := by
  obtain ⟨hs, rfl⟩ := h
  have hleft := htest m s hs
  apply Then.bind
  apply Then.asks
  cases m with
  | zero =>
    rw [if_neg (by simp [hleft]), hstay]
    exact Then.answer ⟨rfl, rfl, hs⟩
  | succ m =>
    rw [if_pos (hleft.2 (Nat.succ_ne_zero m)), hmove]
    apply Then.bind
    apply (hstep m).then hs
    intro _ s hs
    exact Then.answer ⟨m, rfl, hs, rfl⟩

/-- The loop makes all of its moves unless one of them fails. -/
lemma exists_moves {m : Nat} {s : σ} (h : R m s) :
    ∃ n, Exactly m (act m s) n ∧
      Runs (steps (.free (Action.asks test)) step fun _ _ => ()) n () s (act m s) ∧
      ∀ b, (act m s).result = .ok b → R 0 (act m s).cursor := by
  have hmoves : Moves R act m () s (act m s) := ⟨h, rfl⟩
  obtain ⟨n, hn, hruns, hend⟩ :=
    exists_runs (fun _ _ _ _ => moves_turn htest hstep hstay hmove) hmoves
  refine ⟨n, ⟨hn, fun b hb => ?_⟩, hruns, fun b hb => (hend b hb).2⟩
  have hleft := (hend b hb).1
  omega

end Moves

section Seeking

variable [Cursor σ α] [Viewed σ α] {a : Anchored σ} {target : Nat}

/-- The place sought lies `m` units behind. -/
def SoughtBack (target m : Nat) (a : Anchored σ) : Prop := Shown a ∧ a.index - target = m

/-- The place sought lies `m` units ahead. -/
def SoughtAhead (target m : Nat) (a : Anchored σ) : Prop := Shown a ∧ target - a.index = m

/-- Somewhere on its own tape stands every anchored cursor. -/
lemma Shown.sourceAt (h : Shown a) : ∃ base source, SourceAt Shows base source a.index a := by
  obtain ⟨t, base, h⟩ := h
  have hindex : a.index = t.behind.length := (standsOn_simulation simulation base).index h
  have hplace : t = Tape.place ⟨[], t.units, t.stop⟩ a.index := by
    rw [hindex]
    simp [Tape.place, Tape.units]
  refine ⟨base, ⟨[], t.units, t.stop⟩, ?_, ?_⟩
  · rw [hindex]
    simp [Tape.units]
  · rwa [← hplace]

variable [CourseCursor σ α] [Halting σ]

lemma previous_sought (m : Nat) : Traces (SoughtBack target (m + 1))
    (CourseCursor.previous : Course (Anchored σ) α) Cursor.previous
    fun _ => SoughtBack target m := by
  rintro a ⟨h, hm⟩
  obtain ⟨i, hi⟩ : ∃ i, a.index = i + 1 := Nat.exists_eq_succ_of_ne_zero (by omega)
  have hbehind : Behind (i + 1) a := hi ▸ h.behind
  obtain ⟨hends, hafter⟩ := previous_behind a hbehind
  refine ⟨hends, fun u hu => ⟨(hafter u hu).shown, ?_⟩⟩
  have hindex : Anchored.index _ = i := (hafter u hu).index_eq
  omega

lemma next_sought (m : Nat) : Traces (SoughtAhead target (m + 1))
    (CourseCursor.next : Course (Anchored σ) α) Cursor.next fun _ => SoughtAhead target m := by
  rintro a ⟨h, hm⟩
  obtain ⟨hends, hafter⟩ := next_behind a h.behind
  refine ⟨hends, fun u hu => ⟨(hafter u hu).shown, ?_⟩⟩
  have hindex : Anchored.index _ = a.index + 1 := (hafter u hu).index_eq
  omega

lemma Shown.exists_stepBack (h : Shown a) (target : Nat) :
    ∃ n, Exactly (a.index - target) (Anchored.stepBack (a.index - target) a) n ∧
      Runs (backTurn target) n () a (Anchored.stepBack (a.index - target) a) ∧
      ∀ b, (Anchored.stepBack (a.index - target) a).result = .ok b →
        SoughtBack target 0 (Anchored.stepBack (a.index - target) a).cursor :=
  exists_moves (by rintro m a ⟨-, rfl⟩; simp; omega) previous_sought rfl (fun _ => rfl) ⟨h, rfl⟩

lemma Shown.exists_stepForth (h : Shown a) (target : Nat) :
    ∃ n, Exactly (target - a.index) (Anchored.stepForth (target - a.index) a) n ∧
      Runs (forthTurn target) n () a (Anchored.stepForth (target - a.index) a) ∧
      ∀ b, (Anchored.stepForth (target - a.index) a).result = .ok b →
        SoughtAhead target 0 (Anchored.stepForth (target - a.index) a).cursor :=
  exists_moves (by rintro m a ⟨-, rfl⟩; simp; omega) next_sought rfl (fun _ => rfl) ⟨h, rfl⟩

/-- Seeking makes its moves in one direction and then in the other. -/
lemma seek_ends (h : Shown a) : (courseSeek target).Ends a (Anchored.seek target a) := by
  obtain ⟨n, hn, hruns, hback⟩ := h.exists_stepBack target
  have hfirst : (loop (fun s => Exactly (s.index - target)) (backTurn target) ()).Ends a
      (Anchored.stepBack (a.index - target) a) := ⟨n, hn, hruns⟩
  apply ends_bind hfirst
  intro _ hok
  obtain ⟨n', hn', hruns', -⟩ := (hback _ hok).1.exists_stepForth target
  exact ⟨n', hn', hruns'⟩

end Seeking

section Grouped

variable {s : Grouped ρ σ β}

lemma ends_source {c : Course (Anchored σ) γ} {act : Action (Anchored σ) γ}
    (h : c.Ends s.source (act s.source)) : (courseSource c).Ends s (Grouped.inside act s) :=
  ⟨_, h, rfl⟩

variable [Cursor σ α] [Viewed σ α] {code : ρ} {start : Nat}

lemma Traces.insideGrouped {c : Course (Anchored σ) γ} {act : Action (Anchored σ) γ}
    (h : Traces Shown c act fun _ => Shown) :
    Traces (SourceShown code) (courseSource c : Course (Grouped ρ σ β) γ) (Grouped.inside act)
      fun _ => SourceShown code :=
  h.within (fun _ hs => hs.1) fun _ _ _ hs hinner => ⟨hinner, hs.2⟩

/-- The source shows a tape and stands behind the place. -/
def SourceBehind (start : Nat) (s : Grouped ρ σ β) : Prop :=
  Shown s.source ∧ start ≤ s.source.index

variable [CourseCursor σ α] [Halting σ]

/-- Seeking a place behind the source never fails. -/
lemma seekBack_traces : Traces (SourceBehind start)
    (courseSeekBack start : Course (Grouped ρ σ β) Unit) (Grouped.inside (Anchored.seek start))
    fun _ s => Shown s.source := by
  rintro s ⟨h, hstart⟩
  obtain ⟨base, source, hsource⟩ := h.sourceAt
  have hseek := hsource.seek simulation hstart
  exact ⟨⟨_, ⟨seek_ends h, hstart, hseek.result⟩, rfl⟩, fun _ _ => ⟨_, base, hseek.cursor.2⟩⟩

variable [GroupCode ρ α β]

/-- A reading for which `m` units are missing to a complete group. -/
def Reading (code : ρ) (m : Nat) (units : List α) (s : Grouped ρ σ β)
    (o : Outcome (Grouped ρ σ β) (List α)) : Prop :=
  SourceShown code s ∧ units.length + m = GroupCode.size code ∧ o = Grouped.readUnits units m s

lemma read_turn {m : Nat} {units : List α} {o : Outcome (Grouped ρ σ β) (List α)}
    (h : Reading code m units s o) :
    Then (readTurn units) (Turn (Reading code) (fun _ _ _ => True) m) s o := by
  obtain ⟨hs, hsize, rfl⟩ := h
  obtain ⟨-, rfl⟩ := id hs
  apply Then.bind
  cases m with
  | zero =>
    apply Then.look
    rw [if_neg (by omega)]
    exact Then.answer ⟨rfl, trivial⟩
  | succ m =>
    unfold Grouped.readUnits
    apply Then.here
    rw [if_pos (by omega)]
    apply Then.bind
    apply hasNext_traces.insideGrouped.then hs
    rintro (_ | _) s' hs'
    · exact Then.answer ⟨rfl, trivial⟩
    · apply Then.bind
      apply next_traces.insideGrouped.then hs'
      intro u s'' hs''
      cases GroupCode.refuse? s.code units u with
      | some cause => exact .failed rfl
      | none =>
        refine Then.answer ⟨m, rfl, hs'', ?_, rfl⟩
        rw [List.length_append, List.length_singleton]
        omega

lemma readUnits_ends (h : Shown s.source) :
    (loop (fun _ _ n => n ≤ GroupCode.size s.code) readTurn []).Ends s
      (Grouped.readUnits [] (GroupCode.size s.code) s) := by
  have hreading : Reading s.code (GroupCode.size s.code) [] s
      (Grouped.readUnits [] (GroupCode.size s.code) s) := ⟨⟨h, rfl⟩, by simp, rfl⟩
  obtain ⟨n, hn, hruns, -⟩ := exists_runs (fun _ _ _ _ => read_turn) hreading
  exact ⟨n, hn, hruns⟩

lemma load_ends (h : SourceBehind start s) (atEnd : Bool) :
    (courseLoad start atEnd).Ends s (Grouped.load start atEnd s) := by
  obtain ⟨hends, hafter⟩ := seekBack_traces s h
  apply ends_bind hends
  intro _ hok
  apply ends_here
  exact ends_bind (readUnits_ends (hafter _ hok)) fun _ _ => rfl

lemma readyAhead_ends (h : SourceBehind (s.group.start + s.group.span) s) :
    courseReadyAhead.Ends s (Grouped.readyAhead s) := by
  apply ends_here
  split
  · rfl
  · cases s.group.ending with
    | more => exact load_ends h false
    | last => rfl
    | «sealed» =>
      obtain ⟨hends, hafter⟩ := seekBack_traces s h
      apply ends_bind hends
      intro _ hok
      apply ends_bind (ends_source (Halting.halts _ (hafter _ hok)).hasNext)
      intro more _
      split <;> rfl

lemma readyBack_ends (h : SourceBehind (s.group.start - GroupCode.size s.code) s) :
    courseReadyBack.Ends s (Grouped.readyBack s) := by
  apply ends_here
  split
  · rfl
  · split
    · rfl
    · exact ends_bind rfl fun _ _ => load_ends h true

omit [Viewed σ α] [Halting σ] in
lemma peekAhead_ends (h : courseReadyAhead.Ends s (Grouped.readyAhead s)) :
    coursePeekAhead.Ends s (Grouped.peekAhead s) := by
  apply ends_bind h
  intro more _
  split <;> rfl

omit [Viewed σ α] [Halting σ] in
lemma peekBack_ends (h : courseReadyBack.Ends s (Grouped.readyBack s)) :
    coursePeekBack.Ends s (Grouped.peekBack s) := by
  apply ends_bind h
  intro any _
  split <;> rfl

variable [LawfulCode ρ]

omit [CourseCursor σ α] [Halting σ] in
lemma GroupsAt.source_behind {base i : Nat} {source : Tape α}
    (h : GroupsAt Shows base code source i s) :
    SourceBehind (s.group.start + s.group.span) s := by
  obtain ⟨n, hsource, hn⟩ := h.stands
  refine ⟨⟨_, base, hsource.2⟩, ?_⟩
  rwa [hsource.index simulation]

/-- The source stands behind the group at hand, and with it behind every place that is sought. -/
instance : Halting (Grouped ρ σ β) where
  halts := by
    rintro s ⟨t, place, i, h, -, -⟩
    have hstop := h.source_behind
    have hahead := readyAhead_ends hstop
    have hback : courseReadyBack.Ends s (Grouped.readyBack s) :=
      readyBack_ends ⟨hstop.1, by have := hstop.2; omega⟩
    exact ⟨hahead, hback, peekAhead_ends hahead, peekBack_ends hback,
      ends_count (peekAhead_ends hahead), ends_count (peekBack_ends hback)⟩

end Grouped

section Stacks

variable {k : Kind}

instance : Halting (Source k) where
  halts := by
    rintro s ⟨t, hs⟩
    cases s with
    | sequence c | buffer c | text c =>
      have hc := Halting.halts c ⟨t, hs⟩
      exact ⟨⟨_, hc.hasNext, rfl⟩, ⟨_, hc.hasPrevious, rfl⟩, ⟨_, hc.peekNext, rfl⟩,
        ⟨_, hc.peekPrevious, rfl⟩, ⟨_, hc.next, rfl⟩, ⟨_, hc.previous, rfl⟩⟩

instance {S : Kind → Type} [(k : Kind) → Cursor (S k) k.Carrier]
    [(k : Kind) → Viewed (S k) k.Carrier] [(k : Kind) → CourseCursor (S k) k.Carrier]
    [(k : Kind) → Halting (S k)] : Halting (Layer S k) where
  halts := by
    rintro s ⟨t, hs⟩
    cases s with
    | plain c | limited c | delimited c | filtered c | chained c | mapped c | encoded c
      | decoded c =>
      have hc := Halting.halts c ⟨t, hs⟩
      exact ⟨⟨_, hc.hasNext, rfl⟩, ⟨_, hc.hasPrevious, rfl⟩, ⟨_, hc.peekNext, rfl⟩,
        ⟨_, hc.peekPrevious, rfl⟩, ⟨_, hc.next, rfl⟩, ⟨_, hc.previous, rfl⟩⟩

instance instHaltingStack : (n : Nat) → (k : Kind) → Halting (Stack n k)
  | 0, k => inferInstanceAs (Halting (Source k))
  | n + 1, k =>
    have := instHaltingStack n
    inferInstanceAs (Halting (Layer (Stack n) k))

instance : Halting (AnyStack k) where
  halts := by
    rintro s ⟨t, hs⟩
    have hc := Halting.halts s.stack ⟨t, hs⟩
    exact ⟨⟨_, hc.hasNext, rfl⟩, ⟨_, hc.hasPrevious, rfl⟩, ⟨_, hc.peekNext, rfl⟩,
      ⟨_, hc.peekPrevious, rfl⟩, ⟨_, hc.next, rfl⟩, ⟨_, hc.previous, rfl⟩⟩

end Stacks

end BaseText.Proofs
