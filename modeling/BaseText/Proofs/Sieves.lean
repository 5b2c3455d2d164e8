import BaseText.Proofs.Calls
import BaseText.Proofs.Indistinct
import BaseText.Proofs.Places

/-!
# Sieves

A filter over a stack answers as the list of the visible units would. One of its places belongs to
a run of places of the stack under it, none of them in front of the place where the filter was put
on: whenever it has counted a visible unit, there is one between that place and the stack's own.
-/

namespace BaseText.Proofs

section Hidden

variable {σ α β : Type} {hidden : α → Bool}

lemma Keeps.insideFiltered (act : Action σ β) :
    Keeps (fun s : Filtered σ α => s.hidden = hidden) (Filtered.inside act) :=
  fun _ h => h

lemma Keeps.skip {rest : Action (Filtered σ α) Bool}
    (h : Keeps (fun s : Filtered σ α => s.hidden = hidden) rest) (more : Action σ Bool)
    (look step : Action σ α) :
    Keeps (fun s : Filtered σ α => s.hidden = hidden) (do
      if ← Filtered.inside more then
        let u ← Filtered.inside look
        let s ← Action.here
        if s.hidden u then
          let _ ← Filtered.inside step
          rest
        else pure true
      else pure false) := by
  refine (Keeps.insideFiltered _).bind fun more => ?_
  split
  · refine (Keeps.insideFiltered _).bind fun u => Keeps.bind (fun _ hs => hs) fun s => ?_
    split
    · exact (Keeps.insideFiltered _).bind fun _ => h
    · exact fun _ hs => hs
  · exact fun _ hs => hs

variable [Cursor σ α]

lemma keeps_skipAhead (fuel : Nat) :
    Keeps (fun s : Filtered σ α => s.hidden = hidden) (Filtered.skipAhead fuel) := by
  induction fuel with
  | zero => exact fun _ h => h
  | succ fuel ih => exact ih.skip _ _ _

lemma keeps_skipBack (fuel : Nat) :
    Keeps (fun s : Filtered σ α => s.hidden = hidden) (Filtered.skipBack fuel) := by
  induction fuel with
  | zero => exact fun _ h => h
  | succ fuel ih => exact ih.skip _ _ _

lemma keeps_settleAhead :
    Keeps (fun s : Filtered σ α => s.hidden = hidden) Filtered.settleAhead :=
  Keeps.bind (fun _ h => h) fun _ => keeps_skipAhead _

lemma keeps_settleBack :
    Keeps (fun s : Filtered σ α => s.hidden = hidden) Filtered.settleBack := by
  refine Keeps.bind (fun _ h => h) fun s => ?_
  split
  · exact fun _ h => h
  · exact keeps_skipBack _

lemma keeps_insideAhead (act : Action σ β) :
    Keeps (fun s : Filtered σ α => s.hidden = hidden) (Filtered.insideAhead act) := by
  refine keeps_settleAhead.bind fun more => ?_
  split
  · exact .insideFiltered act
  · exact fun _ h => h

lemma keeps_insideBack (act : Action σ β) :
    Keeps (fun s : Filtered σ α => s.hidden = hidden) (Filtered.insideBack act) := by
  refine keeps_settleBack.bind fun any => ?_
  split
  · exact .insideFiltered act
  · exact fun _ h => h

lemma callsKeep_hidden : CallsKeep fun s : Filtered σ α => s.hidden = hidden where
  hasNext := keeps_settleAhead
  hasPrevious := keeps_settleBack
  peekNext := keeps_insideAhead _
  peekPrevious := keeps_insideBack _
  next := (keeps_insideAhead _).bind fun _ => Keeps.bind (fun _ h => h) fun _ _ h => h
  previous := (keeps_insideBack _).bind fun _ => Keeps.bind (fun _ h => h) fun _ _ h => h

end Hidden

variable {k : Kind}

/-- The filter over `s` answers as the list of the visible units would, and moves `s` along its
units ahead only. -/
structure FilterView (s : AnyStack k) (hidden : k.Carrier → Bool) (units : List k.Carrier)
    (stop : Stop) : Prop where
  answers : ∀ calls, answers calls (s.filter hidden) =
    answers calls (Tape.counted { ahead := units.filter (!hidden ·), stop := stop })
  /-- The stack has passed some units since the filter was put on, and the index counts the visible
  ones among them. -/
  inner : ∀ calls, ∃ inner passed,
    (after calls (s.filter hidden)).inner? 0 = some ⟨k, inner⟩ ∧ StepsAhead s passed inner ∧
      Cursor.index (after calls (s.filter hidden)) = (units.take passed).countP (!hidden ·)
  /-- No codec over the filter tells that anything is hidden. -/
  codec : ∀ {plain : AnyStack k}, Reachable plain → Cursor.index plain = 0 →
    Gives plain (units.filter (!hidden ·)) stop →
      ∀ {k' k'' : Kind} (codec : Cover k k'), codec.isCodec → ∀ session : Session k' k'',
        session.answers (codec.over (s.filter hidden)) = session.answers (codec.over plain)

section Views

variable {s : AnyStack k} {t : Tape k.Carrier} {hidden : k.Carrier → Bool}

lemma filter_inner (h : Shows s t) (calls : List Call) : ∃ inner passed,
    (after calls (s.filter hidden)).inner? 0 = some ⟨k, inner⟩ ∧ StepsAhead s passed inner ∧
      Cursor.index (after calls (s.filter hidden)) = (t.ahead.take passed).countP (!hidden ·) := by
  have hstart : FilterOf (Along t) t.behind (Filtered.ofCursor s.stack hidden)
      (visibleTape hidden [] t.ahead t.stop) :=
    ⟨[], t.ahead, t.stop, ⟨h, rfl⟩, rfl, rfl⟩
  have hhidden : (after calls (Filtered.ofCursor s.stack hidden)).hidden = hidden :=
    callsKeep_hidden.after rfl calls
  obtain ⟨seen, ahead, stop, hat⟩ :=
    after_shows (filter_simulation (along_simulation t)) hstart calls
  -- What the stack has passed is the front of what it had ahead.
  have hunits : (seen ++ t.behind).reverse ++ ahead = t.behind.reverse ++ t.ahead :=
    congrArg Tape.ahead hat.inner.toStart
  rw [List.reverse_append, List.append_assoc, List.append_cancel_left_eq] at hunits
  have hseen : t.ahead.take seen.length = seen.reverse := by
    rw [← hunits, ← List.length_reverse, List.take_left]
  rw [AnyStack.filter, AnyStack.cover, (wraps_filtered s.depth).after]
  refine ⟨_, seen.length, rfl, StepsAhead.of_along h ⟨hat.inner.shows, hat.inner.toStart⟩ ?_, ?_⟩
  · rw [List.length_append, Nat.add_comm]
  · have hindex := hat.index
    rw [hat.visible, hhidden] at hindex
    rw [hseen, List.countP_reverse, List.countP_eq_length_filter]
    exact hindex

/-- A filter hides units of any stack in both directions, and is back where it was put on before the
stack under it can be moved any further back. Through a codec it cannot be told from a stack that
never had these units. -/
theorem filter_view (h : Reachable s) (hidden : k.Carrier → Bool) :
    (∃ units stop, Gives s units stop) ∧
      ∀ units stop, Gives s units stop → FilterView s hidden units stop := by
  obtain ⟨t, ht⟩ := reachable_shows h
  refine ⟨exists_gives h, fun units stop hgives => ?_⟩
  obtain ⟨rfl, hmore⟩ := hgives.tape_eq ht
  have hshows := shows_filter ht hidden
  have hvisible : Gives (s.filter hidden) (t.ahead.filter (!hidden ·)) stop :=
    (Gives.of_shows hshows).of_more ((Stop.more_atOffset _ _).trans hmore)
  refine ⟨fun calls => ?_, filter_inner ht,
    fun hplain hindex hplainGives _ _ _ hcodec session => ?_⟩
  · rw [answers_eq simulation hshows]
    have htape : visibleTape hidden [] t.ahead t.stop =
        Tape.counted { ahead := t.ahead.filter (!hidden ·), stop := t.stop } := by
      simp [visibleTape, Tape.counted]
    rw [htape]
    exact answers_stop hmore _ calls
  · exact codec_session (h.filter hidden) hplain hindex.symm hvisible hplainGives hcodec session

/-- A text in short lines, past its first character. -/
def wrappedText : AnyStack .char :=
  (Call.next.ask (AnyStack.ofSource (k := .char)
    (.sequence (.ofList ['>', '\n', 'Z', 'm', '\n', '\n', '8', '=', '\n'])))).cursor

/-- Decoders do not tell the lines. -/
theorem filter_view_wrappedText :
    Gives wrappedText ['\n', 'Z', 'm', '\n', '\n', '8', '=', '\n'] (.ended 4) ∧
      FilterView wrappedText (· == '\n') ['\n', 'Z', 'm', '\n', '\n', '8', '=', '\n']
        (.ended 4) ∧
      ∀ (d : Decoding) {k : Kind} (session : Session .byte k),
        session.answers ((wrappedText.filter (· == '\n')).decode d) =
          session.answers ((AnyStack.ofSource (.text (.ofString "Zm8="))).decode d) := by
  have hgives : Gives wrappedText ['\n', 'Z', 'm', '\n', '\n', '8', '=', '\n'] (.ended 4) := rfl
  have hview := (filter_view (.call (.slice (k := .char) _) .next) (· == '\n')).2 _ _ hgives
  exact ⟨hgives, hview, fun d _ session =>
    hview.codec (.text "Zm8=") rfl (text_gives "Zm8=") (.decode d) rfl session⟩

end Views

end BaseText.Proofs
