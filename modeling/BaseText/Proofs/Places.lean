import BaseText.Proofs.Ahead

/-!
# Places along a cursor

Calls move a cursor along one list of units. Where it stands is then told by its index, however it
came there, and a layer that has moved a stack has done to it what steps forward would have done.
-/

namespace BaseText.Proofs

section Places

variable {α : Type} {t t' start : Tape α}

lemma after_next (t : Tape α) (steps : Nat) :
    after (List.replicate steps .next) t =
      ⟨(t.ahead.take steps).reverse ++ t.behind, t.ahead.drop steps, t.stop⟩ := by
  induction steps generalizing t with
  | zero => rfl
  | succ steps ih =>
    rw [List.replicate_succ, after, (ask_next t).2, ih]
    obtain ⟨behind, _ | ⟨u, rest⟩, stop⟩ := t <;> simp

/-- A place with `steps` more units behind it is reached by as many steps. -/
lemma eq_after_next {steps : Nat} (hstart : t'.toStart = t.toStart)
    (hsteps : t'.behind.length = t.behind.length + steps) :
    t' = after (List.replicate steps .next) t := by
  have hreached := Tape.toStart_after t (List.replicate steps .next)
  refine Tape.eq_of_toStart (hstart.trans hreached.symm) ?_
  have hunits : t'.units.length = t.units.length := congrArg (·.ahead.length) hstart
  simp only [Tape.units, List.length_append, List.length_reverse] at hunits
  rw [after_next, List.length_append, List.length_reverse, List.length_take]
  omega

end Places

section Along

variable {σ α : Type} [Cursor σ α] [Viewed σ α] {start t t' : Tape α} {s s' : σ}

/-- The cursor shows a place on the tape `start`. -/
structure Along (start : Tape α) (s : σ) (t : Tape α) : Prop where
  shows : Shows s t
  toStart : t.toStart = start.toStart

lemma Meets.along {β : Type} {act : Action σ β} {result : Except CodingError β}
    {refused : List Event} (h : Meets act s result refused (Shows · t'))
    (hstart : t'.toStart = start.toStart) : Meets act s result refused (Along start · t') :=
  h.mono fun _ hs => ⟨hs, hstart⟩

theorem along_simulation (start : Tape α) : Simulation (σ := σ) (Along start) where
  index h := simulation.index h.shows
  room h := simulation.room h.shows
  hasNext h := (simulation.hasNext h.shows).along h.toStart
  hasPrevious h := (simulation.hasPrevious h.shows).along h.toStart
  peekNext h := (simulation.peekNext h.shows).along h.toStart
  peekPrevious h := (simulation.peekPrevious h.shows).along h.toStart
  next {_ t} h := (simulation.next h.shows).along (t.toStart_forth.trans h.toStart)
  previous {_ t} h := (simulation.previous h.shows).along (t.toStart_back.trans h.toStart)

/-- The cursor `s'` stands `steps` units ahead of `s`, and answers as `s` does when it has made so
many steps. -/
structure StepsAhead (s : σ) (steps : Nat) (s' : σ) : Prop where
  index : Cursor.index s' = Cursor.index s + steps
  answers : ∀ calls, answers calls s' = answers calls (after (List.replicate steps .next) s)

lemma StepsAhead.of_along {steps : Nat} (h : Shows s t) (h' : Along t s' t')
    (hsteps : t'.behind.length = t.behind.length + steps) : StepsAhead s steps s' := by
  refine ⟨?_, fun calls => ?_⟩
  · rw [simulation.index h'.shows, simulation.index h, hsteps]
  · have hreached := after_shows simulation h (List.replicate steps .next)
    rw [answers_eq simulation h'.shows, answers_eq simulation hreached,
      eq_after_next h'.toStart hsteps]

/-- So many steps ahead, the units are given that are left after so many. -/
lemma StepsAhead.gives {steps : Nat} {units : List α} {stop : Stop} (h : StepsAhead s steps s')
    (hs : Shows s t) (hgives : Gives s units stop) : Gives s' (units.drop steps) stop := by
  obtain ⟨rfl, hmore⟩ := hgives.tape_eq hs
  have hreached := after_shows simulation hs (List.replicate steps .next)
  have hrest := Gives.of_shows hreached
  rw [after_next, Gives, ← h.answers] at hrest
  exact Gives.of_more hrest hmore

end Along

/-- Draining a cursor after any calls is a matter of calls, and leaves all units behind. -/
lemma exists_drained {σ α : Type} [Cursor σ α] [Viewed σ α] {s : σ} {t : Tape α} (h : Shows s t)
    (calls : List Call) : ∃ more, (Cursor.collect (after calls s)).cursor = after more s ∧
      Cursor.index (after more s) = t.units.length := by
  obtain ⟨last, hlast⟩ := follows_collect (after calls s)
  have hall : (Cursor.collect (after calls s)).cursor = after (calls ++ last) s := by
    rw [after_append]
    exact hlast
  have hdrained := (collect_shows simulation (after_shows simulation h calls)).cursor
  have hunits : (after calls t).units = t.units := congrArg Tape.ahead (Tape.toStart_after t calls)
  refine ⟨calls ++ last, hall, ?_⟩
  rw [← hall, simulation.index hdrained, ← hunits]
  simp [Tape.toEnd, Tape.units, Nat.add_comm]

section Anchored

variable {σ α : Type} [Cursor σ α] [Viewed σ α] {t : Tape α} {s : σ}

/-- What is under an anchor moves along the tape on which it was put there. -/
theorem anchored_simulation (t : Tape α) :
    Simulation (StandsOn (σ := σ) (Along t) t.behind.length) :=
  standsOn_simulation (along_simulation t) _

lemma standsOn_start (h : Shows s t) :
    StandsOn (Along t) t.behind.length ({ inner := s } : Anchored σ) t.fresh :=
  ⟨t.behind, ⟨h, rfl⟩, rfl, rfl⟩

end Anchored

/-- A stack on the tape of `s`, anchored where `s` stands, is as many steps ahead as its anchored
index counts. -/
lemma StandsOn.stepsAhead {k : Kind} {s : AnyStack k} {t : Tape k.Carrier} (h : Shows s t)
    {n : Nat} {a : Anchored (Stack n k)} {whole : Tape k.Carrier}
    (ha : StandsOn (Along t) t.behind.length a whole) : StepsAhead s a.index ⟨n, a.inner⟩ := by
  obtain ⟨before, hinner, hbefore, hindex⟩ := ha
  refine StepsAhead.of_along h ⟨hinner.shows, hinner.toStart⟩ ?_
  rw [List.length_append, hbefore, hindex, Nat.add_comm]

end BaseText.Proofs
