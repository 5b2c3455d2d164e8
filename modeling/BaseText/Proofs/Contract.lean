import BaseText.Proofs.Runs

/-!
# The contract of a cursor

What a caller may rely on whatever cursor it holds: a look ahead or back tells what the step there
gives, a step can be taken back without a trace, and rewinding leads back to the place where the
cursor was made, from where the same units follow again.
-/

namespace BaseText.Proofs

section Contract

variable {σ α : Type} [Cursor σ α]

/-- The step back gives the unit that was stepped over, and nobody can tell that it was made. -/
structure TakesBack (step back : Action σ α) (s : σ) (u : α) : Prop where
  unit : (back (step s).cursor).result = .ok u
  index : Cursor.index (back (step s).cursor).cursor = Cursor.index s
  answers : ∀ calls, answers calls (back (step s).cursor).cursor = answers calls s

/-- What a caller of a cursor may rely on. -/
structure Contract (s : σ) : Prop where
  peekNext : ∀ u, (Cursor.peekNext s).result = .ok u ↔
    (Cursor.hasNext s).result = .ok true ∧ (Cursor.next s).result = .ok u
  next : ∀ u, (Cursor.next s).result = .ok u →
    Cursor.index (Cursor.next s).cursor = Cursor.index s + 1 ∧
      TakesBack Cursor.next Cursor.previous s u
  peekPrevious : ∀ u, (Cursor.peekPrevious s).result = .ok u ↔
    (Cursor.hasPrevious s).result = .ok true ∧ (Cursor.previous s).result = .ok u
  previous : ∀ u, (Cursor.previous s).result = .ok u →
    Cursor.index (Cursor.previous s).cursor + 1 = Cursor.index s ∧
      TakesBack Cursor.previous Cursor.next s u
  /-- Whether there is a unit behind is told by the index. -/
  hasPrevious : (Cursor.hasPrevious s).result = .ok (decide (0 < Cursor.index s))
  previous_ok : (∃ u, (Cursor.previous s).result = .ok u) ↔ 0 < Cursor.index s
  peekPrevious_ok : (∃ u, (Cursor.peekPrevious s).result = .ok u) ↔ 0 < Cursor.index s
  peekPrevious_eq : (Cursor.peekPrevious s).result = (Cursor.previous s).result
  rewind : (Cursor.rewind s).result = .ok (Cursor.index s) ∧
    Cursor.index (Cursor.rewind s).cursor = 0
  /-- After rewinding, the units that were behind come in front of those that were ahead. -/
  collect : ∃ passed,
    (Action.gather Cursor.hasPrevious Cursor.previous (Cursor.index s + 1) s).result =
        .ok passed.reverse ∧
      (Cursor.collect (Cursor.rewind s).cursor).result =
        (passed ++ ·) <$> (Cursor.collect s).result
  /-- Collecting from the start gives the same again, whatever is done in between. -/
  again : ∀ calls, (Cursor.collect (Cursor.rewind (after calls s)).cursor).result =
    (Cursor.collect (Cursor.rewind s).cursor).result
  /-- In particular it may have been collected before. -/
  collect_again : (Cursor.collect (Cursor.rewind
      (Cursor.collect (Cursor.rewind s).cursor).cursor).cursor).result =
    (Cursor.collect (Cursor.rewind s).cursor).result

variable {R : σ → Tape α → Prop} {s : σ} {t : Tape α}

lemma TakesBack.of_shows {step back : Action σ α} {u : α} (hR : Simulation R) (h : R s t)
    (hunit : (back (step s).cursor).result = .ok u) (hback : R (back (step s).cursor).cursor t) :
    TakesBack step back s u :=
  ⟨hunit, by rw [hR.index hback, hR.index h],
    fun calls => by rw [answers_eq hR hback, answers_eq hR h]⟩

lemma contract_next (hR : Simulation R) (h : R s t) {u : α}
    (hu : (Cursor.next s).result = .ok u) :
    Cursor.index (Cursor.next s).cursor = Cursor.index s + 1 ∧
      TakesBack Cursor.next Cursor.previous s u := by
  have hnext := hR.next h
  rw [hnext.result] at hu
  obtain ⟨behind, _ | ⟨v, rest⟩, stop⟩ := t
  · cases hu
  · have hprevious := hR.previous hnext.cursor
    refine ⟨?_, .of_shows hR h (hprevious.result.trans hu) hprevious.cursor⟩
    rw [hR.index hnext.cursor, hR.index h]
    rfl

lemma contract_previous (hR : Simulation R) (h : R s t) {u : α}
    (hu : (Cursor.previous s).result = .ok u) :
    Cursor.index (Cursor.previous s).cursor + 1 = Cursor.index s ∧
      TakesBack Cursor.previous Cursor.next s u := by
  have hprevious := hR.previous h
  rw [hprevious.result] at hu
  obtain ⟨_ | ⟨v, behind⟩, ahead, stop⟩ := t
  · cases hu
  · have hnext := hR.next hprevious.cursor
    refine ⟨?_, .of_shows hR h (hnext.result.trans hu) hnext.cursor⟩
    rw [hR.index hprevious.cursor, hR.index h]
    rfl

/-- After rewinding, what was behind is collected in front of what was ahead. -/
lemma contract_collect (hR : Simulation R) (h : R s t) : ∃ passed,
    (Action.gather Cursor.hasPrevious Cursor.previous (Cursor.index s + 1) s).result =
        .ok passed.reverse ∧
      (Cursor.collect (Cursor.rewind s).cursor).result =
        (passed ++ ·) <$> (Cursor.collect s).result := by
  have hback := gatherBack_shows hR h (Nat.lt_succ_self t.behind.length)
  have hstart := collect_shows hR (rewind_shows hR h).cursor
  refine ⟨t.behind.reverse, ?_, ?_⟩
  · rw [hR.index h, hback.result, List.reverse_reverse]
  · rw [hstart.result, (collect_shows hR h).result]
    obtain ⟨behind, ahead, ⟨offset⟩ | ⟨codec, e⟩⟩ := t <;> rfl

lemma contract_again (hR : Simulation R) (h : R s t) (calls : List Call) :
    (Cursor.collect (Cursor.rewind (after calls s)).cursor).result =
      (Cursor.collect (Cursor.rewind s).cursor).result := by
  have hafter := collect_shows hR (rewind_shows hR (after_shows hR h calls)).cursor
  have hstart := collect_shows hR (rewind_shows hR h).cursor
  rw [hafter.result, hstart.result, Tape.toStart_after]

lemma contract_collect_again (hR : Simulation R) (h : R s t) :
    (Cursor.collect (Cursor.rewind
        (Cursor.collect (Cursor.rewind s).cursor).cursor).cursor).result =
      (Cursor.collect (Cursor.rewind s).cursor).result := by
  have hstart := collect_shows hR (rewind_shows hR h).cursor
  have hagain := collect_shows hR (rewind_shows hR hstart.cursor).cursor
  rw [hagain.result, hstart.result]
  simp [Tape.toStart, Tape.toEnd, Tape.units]

/-- Whatever shows a tape keeps the contract. -/
theorem contract_of_shows (hR : Simulation R) (h : R s t) : Contract s := by
  have hhas := (hR.hasPrevious h).result
  have hpeek := (hR.peekPrevious h).result
  have hprevious := (hR.previous h).result
  have hi := hR.index h
  have hrewind := rewind_shows hR h
  refine ⟨?_, fun u => contract_next hR h, ?_, fun u => contract_previous hR h, ?_, ?_, ?_, ?_,
    ⟨by rw [hrewind.result, hi], hR.index hrewind.cursor⟩, contract_collect hR h,
    contract_again hR h, contract_collect_again hR h⟩
  · intro u
    rw [(hR.peekNext h).result, (hR.hasNext h).result, (hR.next h).result]
    obtain ⟨behind, _ | ⟨v, rest⟩, stop⟩ := t <;> simp [Tape.first, Tape.more]
  · intro u
    rw [hpeek, hhas, hprevious]
    obtain ⟨_ | ⟨v, behind⟩, ahead, stop⟩ := t <;> simp [Tape.last]
  · rw [hhas, hi]
    obtain ⟨_ | ⟨v, behind⟩, ahead, stop⟩ := t <;> simp
  · rw [hprevious, hi]
    obtain ⟨_ | ⟨v, behind⟩, ahead, stop⟩ := t <;> simp [Tape.last]
  · rw [hpeek, hi]
    obtain ⟨_ | ⟨v, behind⟩, ahead, stop⟩ := t <;> simp [Tape.last]
  · rw [hpeek, hprevious]

end Contract

/-- Every stack keeps the contract in every state that can be reached: from whatever source, under
layers put on and taken off at any moment, wherever a codec rejects its input. -/
theorem reachable_contract {k : Kind} {s : AnyStack k} (h : Reachable s) : Contract s := by
  obtain ⟨t, ht⟩ := reachable_shows h
  exact contract_of_shows simulation ht

/-- Hexadecimal digits between blanks, read as bytes after a digit has been skipped. -/
def spacedDigits : AnyStack .byte :=
  (AnyStack.filter (Call.next.ask
      (AnyStack.ofSource (k := .char) (.sequence (.ofList ['0', '6', ' ', '8', '6'])))).cursor
    (· == ' ')).decode { codec := .base16 }

/-- A decoder over a filter put on in the middle of a run, in front of an unfinished group. -/
theorem contract_of_spacedDigits :
    (Cursor.next spacedDigits).result = .ok 0x68 ∧ Contract (Call.next.ask spacedDigits).cursor :=
  ⟨rfl, reachable_contract (.call (.decode (.filter (.call (.slice _) .next) _) _) .next)⟩

end BaseText.Proofs
