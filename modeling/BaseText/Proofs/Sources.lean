import BaseText.Cursor.Sequence
import BaseText.Cursor.Text
import BaseText.Proofs.Tape

/-!
# Sources seen as tapes

The cursors that are not made from other cursors: a place in an array, and a place in a text, where
the index counts characters and the position counts bytes.
-/

namespace BaseText.Proofs

/-- A list of units, with nothing behind and a plain end. -/
def Tape.ofList {α : Type} (units : List α) : Tape α :=
  { ahead := units, stop := .ended units.length }

section Steps

variable {σ α : Type}

section Step

variable {act : Action σ α} {step : σ → Option (α × σ)} {index : σ → Nat} {s : σ} {P : σ → Prop}
  (place : σ → σ → σ)
  (hact : ∀ s, act s = match step s with
    | some (u, s') => ⟨.ok u, place s s', []⟩
    | none => Action.exhausted index s)

include hact

lemma meets_of_step {u : α} {s' : σ} (hs : step s = some (u, s')) (h : P (place s s')) :
    Meets act s (.ok u) [] P := by
  have hrun := hact s
  rw [hs] at hrun
  exact ⟨by rw [hrun], by rw [hrun]; rfl, by rw [hrun]; exact h⟩

lemma meets_of_no_step {i : Nat} (hs : step s = none) (hi : index s = i) (h : P s) :
    Meets act s (.error (.exhausted i)) [] P := by
  have hrun := hact s
  rw [hs] at hrun
  exact ⟨by rw [hrun, ← hi]; rfl, by rw [hrun]; rfl, by rw [hrun]; exact h⟩

end Step

/-- A cursor made of steps moves along a tape if its steps do, and has to fail at the ends only. -/
lemma ofSteps_simulation {forward? backward? : σ → Option (α × σ)} {index capacity : σ → Nat}
    {R : σ → Tape α → Prop} (hstop : ∀ s t, R s t → t.stop = .ended t.units.length)
    (hindex : ∀ s t, R s t → index s = t.behind.length)
    (hroom : ∀ s t, R s t → t.units.length ≤ capacity s)
    (hforth : ∀ s behind u rest stop, R s ⟨behind, u :: rest, stop⟩ →
      ∃ s', forward? s = some (u, s') ∧ R s' ⟨u :: behind, rest, stop⟩)
    (hend : ∀ s behind stop, R s ⟨behind, [], stop⟩ → forward? s = none)
    (hback : ∀ s u behind ahead stop, R s ⟨u :: behind, ahead, stop⟩ →
      ∃ s', backward? s = some (u, s') ∧ R s' ⟨behind, u :: ahead, stop⟩)
    (hstart : ∀ s ahead stop, R s ⟨[], ahead, stop⟩ → backward? s = none) :
    @Simulation σ α (.ofSteps forward? backward? index capacity) R := by
  -- At the end the index is the one that an exhausted tape names.
  have hends : ∀ s behind stop, R s ⟨behind, [], stop⟩ → stop = .ended (index s) := by
    intro s behind stop h
    have hs := hstop _ _ h
    simpa [Tape.units, hindex _ _ h] using hs
  refine @Simulation.mk σ α (.ofSteps forward? backward? index capacity) R (hindex _ _) (hroom _ _)
    ?_ ?_ ?_ ?_ ?_ ?_
  · rintro s ⟨behind, _ | ⟨u, rest⟩, stop⟩ h
    all_goals change Meets (Action.asks fun s => (forward? s).isSome) s _ _ _
    · have hs := hends _ _ _ h
      subst hs
      exact ⟨by rw [Action.asks_run, hend _ _ _ h]; rfl, rfl, h⟩
    · obtain ⟨s', hs', -⟩ := hforth _ _ _ _ _ h
      exact ⟨by rw [Action.asks_run, hs']; rfl, rfl, h⟩
  · rintro s ⟨_ | ⟨u, behind⟩, ahead, stop⟩ h
    all_goals change Meets (Action.asks fun s => (backward? s).isSome) s _ _ _
    · exact ⟨by rw [Action.asks_run, hstart _ _ _ h]; rfl, rfl, h⟩
    · obtain ⟨s', hs', -⟩ := hback _ _ _ _ _ h
      exact ⟨by rw [Action.asks_run, hs']; rfl, rfl, h⟩
  · rintro s ⟨behind, _ | ⟨u, rest⟩, stop⟩ h
    · have hs := hends _ _ _ h
      subst hs
      exact meets_of_no_step (fun s _ => s) (fun _ => rfl) (hend _ _ _ h) rfl h
    · obtain ⟨s', hs', -⟩ := hforth _ _ _ _ _ h
      exact meets_of_step (fun s _ => s) (fun _ => rfl) hs' h
  · rintro s ⟨_ | ⟨u, behind⟩, ahead, stop⟩ h
    · exact meets_of_no_step (fun s _ => s) (fun _ => rfl) (hstart _ _ _ h)
        (hindex _ _ h) h
    · obtain ⟨s', hs', -⟩ := hback _ _ _ _ _ h
      exact meets_of_step (fun s _ => s) (fun _ => rfl) hs' h
  · rintro s ⟨behind, _ | ⟨u, rest⟩, stop⟩ h
    · have hs := hends _ _ _ h
      subst hs
      exact meets_of_no_step (fun _ s' => s') (fun _ => rfl) (hend _ _ _ h) rfl h
    · obtain ⟨s', hs', hr⟩ := hforth _ _ _ _ _ h
      exact meets_of_step (fun _ s' => s') (fun _ => rfl) hs' hr
  · rintro s ⟨_ | ⟨u, behind⟩, ahead, stop⟩ h
    · exact meets_of_no_step (fun _ s' => s') (fun _ => rfl) (hstart _ _ _ h)
        (hindex _ _ h) h
    · obtain ⟨s', hs', hr⟩ := hback _ _ _ _ _ h
      exact meets_of_step (fun _ s' => s') (fun _ => rfl) hs' hr

end Steps

/-- The array holds the units of the tape, and the index is the number of those behind. -/
structure SequenceShows {α : Type} (s : Sequence α) (t : Tape α) : Prop where
  units : s.units.toList = t.units
  index : s.index = t.behind.length
  stop : t.stop = .ended t.units.length

instance {α : Type} : Viewed (Sequence α) α where
  Shows := SequenceShows
  simulation := by
    refine ofSteps_simulation (fun _ _ h => h.stop) (fun _ _ h => h.index) ?_ ?_ ?_ ?_ ?_
    · intro s t h
      have hsize : t.units.length = s.units.size := by rw [← h.units, Array.length_toList]
      exact Nat.le_of_eq hsize
    · intro s behind u rest stop h
      refine ⟨{ s with index := s.index + 1 }, ?_, ?_, ?_, ?_⟩
      · simp [Sequence.forward?, ← Array.getElem?_toList, h.units, h.index, Tape.units]
      · simp [h.units, Tape.units]
      · simp [h.index]
      · simpa [Tape.units] using h.stop
    · intro s behind stop h
      simp [Sequence.forward?, ← Array.getElem?_toList, h.units, h.index, Tape.units]
    · intro s u behind ahead stop h
      have hi : s.index = behind.length + 1 := by simp [h.index]
      refine ⟨{ s with index := s.index - 1 }, ?_, ?_, ?_, ?_⟩
      · simp [Sequence.backward?, ← Array.getElem?_toList, h.units, hi, Tape.units]
      · simp [h.units, Tape.units]
      · simp [hi]
      · simpa [Tape.units] using h.stop
    · intro s ahead stop h
      have hi : s.index = 0 := h.index
      simp [Sequence.backward?, hi]

theorem sequence_shows {α : Type} (units : List α) :
    Shows (Sequence.ofList units) (Tape.ofList units) :=
  ⟨by simp [Sequence.ofList, Tape.ofList, Tape.units], rfl, rfl⟩

/-- The position splits the text between the characters behind and those ahead. -/
structure TextShows (s : TextCursor) (t : Tape Char) : Prop where
  splits : s.pos.Splits (String.ofList t.behind.reverse) (String.ofList t.ahead)
  index : s.index = t.behind.length
  stop : t.stop = .ended t.units.length

lemma singleton_append_ofList (c : Char) (l : List Char) :
    String.ofList (c :: l) = String.singleton c ++ String.ofList l := by
  rw [String.ext_iff]
  simp

lemma ofList_append_singleton (c : Char) (l : List Char) :
    String.ofList (l ++ [c]) = String.ofList l ++ String.singleton c := by
  rw [String.ext_iff]
  simp

lemma length_le_utf8ByteSize (l : List Char) : l.length ≤ (String.ofList l).utf8ByteSize := by
  induction l with
  | nil => simp
  | cons c l ih =>
    have hc : 0 < c.utf8Size := Char.utf8Size_pos c
    rw [singleton_append_ofList]
    simp
    omega

instance : Viewed TextCursor Char where
  Shows := TextShows
  simulation := by
    refine ofSteps_simulation (fun _ _ h => h.stop) (fun _ _ h => h.index) ?_ ?_ ?_ ?_ ?_
    · intro s t h
      have hs : s.text = String.ofList t.units := by
        rw [h.splits.eq_append, Tape.units, String.ofList_append]
      rw [hs]
      exact length_le_utf8ByteSize _
    · rintro s behind c rest stop ⟨hsplits, hindex, hstop⟩
      rw [singleton_append_ofList] at hsplits
      have hne := hsplits.ne_endPos_of_singleton
      refine ⟨⟨s.text, s.pos.next hne, s.index + 1⟩, ?_, ?_, ?_, ?_⟩
      · rw [TextCursor.forward?, dif_neg hne, hsplits.next.get_eq_of_singleton]
      · simpa [ofList_append_singleton] using hsplits.next
      · simp [hindex]
      · simpa [Tape.units] using hstop
    · rintro s behind stop ⟨hsplits, -, -⟩
      rw [TextCursor.forward?, dif_pos (hsplits.eq_endPos_iff.2 rfl)]
    · rintro s c behind ahead stop ⟨hsplits, hindex, hstop⟩
      rw [List.reverse_cons, ofList_append_singleton] at hsplits
      have hne := hsplits.ne_startPos_of_singleton
      have hprev := hsplits.prev
      refine ⟨⟨s.text, s.pos.prev hne, s.index - 1⟩, ?_, ?_, ?_, ?_⟩
      · rw [TextCursor.backward?, dif_neg hne, hprev.next.get_eq_of_singleton]
      · simpa [singleton_append_ofList] using hprev
      · simp [hindex]
      · simpa [Tape.units] using hstop
    · rintro s ahead stop ⟨hsplits, -, -⟩
      rw [TextCursor.backward?, dif_pos (hsplits.eq_startPos_iff.2 rfl)]

/-- Where a character is behind, one has been counted. -/
lemma TextShows.index_pos {s s' : TextCursor} {t : Tape Char} {c : Char} (h : TextShows s t)
    (hback : s.backward? = some (c, s')) : 0 < s.index := by
  refine Nat.pos_of_ne_zero fun hzero => ?_
  have hnil : t.behind = [] := List.eq_nil_of_length_eq_zero (h.index.symm.trans hzero)
  have hsplits := h.splits
  rw [hnil] at hsplits
  rw [TextCursor.backward?, dif_pos (hsplits.eq_startPos_iff.2 rfl)] at hback
  cases hback

theorem text_shows (text : String) :
    Shows (TextCursor.ofString text) (Tape.ofList text.toList) :=
  ⟨by simp [TextCursor.ofString, Tape.ofList], rfl, rfl⟩

end BaseText.Proofs
