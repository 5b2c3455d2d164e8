import BaseText.Proofs.Draining
import BaseText.Proofs.Indistinct

/-!
# Texts as lists of characters

A cursor over a text cannot be told from a cursor over the list of its characters, by no call and
through no layer. Its two counters go together: the place is always the size of as many characters
as the index says, and a step in one direction takes back a step in the other.
-/

namespace BaseText.Proofs

/-- A cursor over a text and one over the list of its characters, after the same calls. -/
inductive Alongside (text : String) : TextCursor → Sequence Char → Prop
  | start : Alongside text (.ofString text) (.ofList text.toList)
  | call {s : TextCursor} {q : Sequence Char} (h : Alongside text s q) (call : Call) :
    Alongside text (call.ask s).cursor (call.ask q).cursor
  | rewind {s : TextCursor} {q : Sequence Char} (h : Alongside text s q) :
    Alongside text (Cursor.rewind s).cursor (Cursor.rewind q).cursor
  | collect {s : TextCursor} {q : Sequence Char} (h : Alongside text s q) :
    Alongside text (Cursor.collect s).cursor (Cursor.collect q).cursor
  | iterate {s : TextCursor} {q : Sequence Char} (h : Alongside text s q) (n : Nat) :
    Alongside text (Cursor.iterate n s).cursor (Cursor.iterate n q).cursor
  | fill {s : TextCursor} {q : Sequence Char} (h : Alongside text s q) (buffer : Array Char) :
    Alongside text (Cursor.fill buffer s).1.cursor (Cursor.fill buffer q).1.cursor

/-- Nothing that is asked of the one is answered otherwise by the other. -/
structure AnswersAlike (s : TextCursor) (q : Sequence Char) : Prop where
  index : Cursor.index s = Cursor.index q
  calls (calls : List Call) : answers calls s = answers calls q
  rewind : (Cursor.rewind s).result = (Cursor.rewind q).result
  collect : (Cursor.collect s).result = (Cursor.collect q).result
  iterate (n : Nat) : (Cursor.iterate n s).result = (Cursor.iterate n q).result
  fill (buffer : Array Char) : (Cursor.fill buffer s).1.result = (Cursor.fill buffer q).1.result ∧
    (Cursor.fill buffer s).2 = (Cursor.fill buffer q).2
  covered {k : Kind} (session : Session .char k) :
    session.answers (.ofSource (.text s)) = session.answers (.ofSource (.sequence q))

/-- The place in a text, told by the number of characters in front of it. -/
structure PlacedBetween (text : String) (s : TextCursor) : Prop where
  whole : s.text = text
  index_le : Cursor.index s ≤ text.toList.length
  place : s.pos.offset.byteIdx =
    ((text.toList.take (Cursor.index s)).map Char.utf8Size).sum
  rest : s.rest = String.ofList (text.toList.drop (Cursor.index s))

/-- A step in one direction is taken back by a step in the other, which gives the same character. -/
structure StepsBothWays (s : TextCursor) : Prop where
  forth_back {c : Char} {s' : TextCursor} (h : Cursor.next s = ⟨.ok c, s', []⟩) :
    Cursor.previous s' = ⟨.ok c, s, []⟩
  back_forth {c : Char} {s' : TextCursor} (h : Cursor.previous s = ⟨.ok c, s', []⟩) :
    Cursor.next s' = ⟨.ok c, s, []⟩

lemma utf8ByteSize_ofList (l : List Char) :
    (String.ofList l).utf8ByteSize = (l.map Char.utf8Size).sum := by
  induction l with
  | nil => rfl
  | cons c l ih =>
    rw [singleton_append_ofList]
    simp [ih]

section Steps

variable {σ α : Type} {forward? backward? : σ → Option (α × σ)} {index capacity : σ → Nat}
  {s s' : σ} {u : α}

lemma ofSteps_next_iff :
    (Cursor.ofSteps forward? backward? index capacity).next s = ⟨.ok u, s', []⟩ ↔
      forward? s = some (u, s') := by
  unfold Cursor.ofSteps
  dsimp only
  cases forward? s with
  | none => simp
  | some step => simp [Prod.ext_iff]

lemma ofSteps_previous_iff :
    (Cursor.ofSteps forward? backward? index capacity).previous s = ⟨.ok u, s', []⟩ ↔
      backward? s = some (u, s') := by
  unfold Cursor.ofSteps
  dsimp only
  cases backward? s with
  | none => simp
  | some step => simp [Prod.ext_iff]

end Steps

section Standing

variable {text : String} {s : TextCursor} {q : Sequence Char} {t : Tape Char}

/-- What both cursors show is one tape of the characters of the text. -/
lemma Alongside.shows (h : Alongside text s q) :
    ∃ t : Tape Char, Shows s t ∧ Shows q t ∧ t.units = text.toList := by
  induction h with
  | start => exact ⟨_, text_shows text, sequence_shows text.toList, rfl⟩
  | call h call ih =>
    obtain ⟨t, hs, hq, hunits⟩ := ih
    refine ⟨_, (call.ask_meets simulation hs).cursor, (call.ask_meets simulation hq).cursor, ?_⟩
    have hstart := congrArg Tape.ahead (Tape.toStart_after t [call])
    exact Eq.trans hstart hunits
  | rewind h ih =>
    obtain ⟨t, hs, hq, hunits⟩ := ih
    exact ⟨_, (rewind_shows simulation hs).cursor, (rewind_shows simulation hq).cursor, hunits⟩
  | collect h ih =>
    obtain ⟨t, hs, hq, hunits⟩ := ih
    refine ⟨_, (collect_shows simulation hs).cursor, (collect_shows simulation hq).cursor, ?_⟩
    rw [← hunits]
    simp [Tape.units, Tape.toEnd]
  | iterate h n ih =>
    obtain ⟨t, hs, hq, hunits⟩ := ih
    refine ⟨_, (iterate_shows simulation hs n).cursor, (iterate_shows simulation hq n).cursor, ?_⟩
    rw [← hunits]
    simp [Tape.units, Tape.past]
  | fill h buffer ih =>
    obtain ⟨t, hs, hq, hunits⟩ := ih
    refine ⟨_, (fill_past ⟨hs, rfl⟩ buffer).shows, (fill_past ⟨hq, rfl⟩ buffer).shows, ?_⟩
    rw [← hunits]
    simp [Tape.units, Tape.past]

lemma answersAlike_of_shows (hs : Shows s t) (hq : Shows q t) : AnswersAlike s q where
  index := (simulation.index hs).trans (simulation.index hq).symm
  calls := fun calls => (answers_eq simulation hs calls).trans (answers_eq simulation hq calls).symm
  rewind := (rewind_shows simulation hs).result.trans (rewind_shows simulation hq).result.symm
  collect := (collect_shows simulation hs).result.trans (collect_shows simulation hq).result.symm
  iterate := fun n =>
    (iterate_shows simulation hs n).result.trans (iterate_shows simulation hq n).result.symm
  fill := fun buffer =>
    have hfill := fillsFrom_of_shows hs buffer
    have hfill' := fillsFrom_of_shows hq buffer
    ⟨hfill.result.trans hfill'.result.symm, hfill.contents.trans hfill'.contents.symm⟩
  covered := fun session => by
    have htext : Shows (AnyStack.ofSource (.text s)) t := hs
    have hsequence : Shows (AnyStack.ofSource (.sequence q) : AnyStack .char) t := hq
    exact session_alike session htext hsequence (.refl t)

lemma placedBetween_of_shows (hs : TextShows s t) (hunits : t.units = text.toList) :
    PlacedBetween text s := by
  have hindex : Cursor.index s = t.behind.reverse.length := by
    rw [List.length_reverse]
    exact hs.index
  have htake : text.toList.take (Cursor.index s) = t.behind.reverse := by
    rw [← hunits, hindex]
    exact List.take_left
  have hdrop : text.toList.drop (Cursor.index s) = t.ahead := by
    rw [← hunits, hindex]
    exact List.drop_left
  refine ⟨?_, ?_, ?_, ?_⟩
  · rw [hs.splits.eq_append, ← String.ofList_append]
    exact (congrArg String.ofList hunits).trans String.ofList_toList
  · rw [hindex, ← hunits, Tape.units, List.length_append]
    exact Nat.le_add_right _ _
  · rw [htake, ← utf8ByteSize_ofList, hs.splits.offset_eq_rawEndPos]
    rfl
  · rw [hdrop, TextCursor.rest, hs.splits.copy_sliceFrom_eq]

/-- A character that has been decoded forward is the one that is decoded backward from behind it. -/
lemma forward_backward {c : Char} {s' : TextCursor} (h : s.forward? = some (c, s')) :
    s'.backward? = some (c, s) := by
  unfold TextCursor.forward? at h
  split at h
  · cases h
  · next hne =>
    obtain ⟨rfl, rfl⟩ := Prod.mk.inj (Option.some.inj h)
    have hstart : s.pos.next hne ≠ s.text.startPos := String.Pos.next_ne_startPos
    rw [TextCursor.backward?, dif_neg hstart]
    simp only [String.Pos.prev_next, Nat.add_sub_cancel]

lemma backward_forward {c : Char} {s' : TextCursor} (hpos : 0 < s.index)
    (h : s.backward? = some (c, s')) : s'.forward? = some (c, s) := by
  unfold TextCursor.backward? at h
  split at h
  · cases h
  · next hne =>
    obtain ⟨rfl, rfl⟩ := Prod.mk.inj (Option.some.inj h)
    have hend : s.pos.prev hne ≠ s.text.endPos := String.Pos.prev_ne_endPos
    rw [TextCursor.forward?, dif_neg hend]
    simp only [String.Pos.next_prev, Nat.sub_add_cancel hpos]

lemma stepsBothWays_of_shows (hs : TextShows s t) : StepsBothWays s where
  forth_back := fun h => ofSteps_previous_iff.2 (forward_backward (ofSteps_next_iff.1 h))
  back_forth := fun h =>
    have hback := ofSteps_previous_iff.1 h
    ofSteps_next_iff.2 (backward_forward (hs.index_pos hback) hback)

/-- After the same calls, a cursor over a text and one over the list of its characters answer alike
for good, also through codecs, whose errors therefore count characters. -/
theorem text_characters (h : Alongside text s q) :
    AnswersAlike s q ∧ PlacedBetween text s ∧ StepsBothWays s := by
  obtain ⟨t, hs, hq, hunits⟩ := h.shows
  exact ⟨answersAlike_of_shows hs hq, placedBetween_of_shows hs hunits, stepsBothWays_of_shows hs⟩

end Standing

/-- Two characters into a text whose characters have forms of one, two, three and four bytes. -/
theorem text_characters_mixed :
    ∃ s q, Alongside "aé€😀" s q ∧ Cursor.index s = 2 ∧ s.pos.offset.byteIdx = 3 ∧
      s.rest = "€😀" := by
  have hstart : Alongside "aé€😀" _ _ := .start
  have hstep := ((hstart.call .next).call .hasPrevious).call .next
  obtain ⟨halike, hplaced, -⟩ := text_characters hstep
  have hindex := halike.index.trans (by decide : _ = 2)
  have hplace := hplaced.place
  have hrest := hplaced.rest
  rw [hindex] at hplace hrest
  exact ⟨_, _, hstep, hindex, hplace.trans (by decide), hrest.trans (by decide)⟩

end BaseText.Proofs
