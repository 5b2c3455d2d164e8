import BaseText.Proofs.Runs

/-!
# Buffers that are filled

Filling a buffer moves units from the front of a tape to the front of the buffer, one by one, until
there is no slot or no unit left. Filling stops at the last slot without looking further; draining
looks for one more unit, and it is an error if there is one.
-/

namespace BaseText.Proofs

variable {σ α β γ : Type}

/-- The answer where units plainly end, or the rejection that they end with. -/
def Stop.yields (stop : Stop) (a : γ) : Except CodingError γ :=
  stop.more.map fun _ => a

/-- The place after the next `n` units. -/
def Tape.past (t : Tape β) (n : Nat) : Tape β :=
  ⟨(t.ahead.take n).reverse ++ t.behind, t.ahead.drop n, t.stop⟩

section Past

variable {t : Tape β} {i : Nat} {u : β}

lemma past_ahead (h : t.ahead[i]? = some u) : (t.past i).ahead = u :: (t.past (i + 1)).ahead := by
  obtain ⟨hi, rfl⟩ := List.getElem?_eq_some_iff.1 h
  exact List.drop_eq_getElem_cons hi

lemma past_forth (h : t.ahead[i]? = some u) : (t.past i).forth = t.past (i + 1) := by
  rw [Tape.forth, past_ahead h]
  simp [Tape.past, List.take_add_one, h]

lemma past_of_length_le (h : t.ahead.length ≤ i) : t.past i = t.toEnd := by
  rw [Tape.past, List.take_of_length_le h, List.drop_of_length_le h, Tape.toEnd]

end Past

lemma Stop.yields_atOffset (stop : Stop) (offset : Nat) (a : γ) :
    (stop.atOffset offset).yields a = stop.yields a := by
  rw [yields, more_atOffset, yields]

lemma Stop.map_yields {δ : Type} (stop : Stop) (f : γ → δ) (a : γ) :
    (stop.yields a).map f = stop.yields (f a) := by
  cases stop <;> rfl

lemma Tape.drained_eq (t : Tape β) : t.drained = t.stop.yields t.ahead := by
  obtain ⟨behind, ahead, stop⟩ := t
  cases stop <;> rfl

/-- What follows a loop follows the last failure of its test. -/
lemma gather_then (test : Action σ Bool) (step : Action σ β) (fuel : Nat) (last : Action σ γ) :
    (do let _ ← Action.gather test step (fuel + 1); last) =
      (do if ← test then
            let _ ← step
            let _ ← Action.gather test step fuel
            last
          else last) := by
  rw [Action.gather, bind_assoc]
  congr 1
  funext more
  cases more <;> simp

section Filling

variable [Cursor σ β] {R : σ → Tape β → Prop} {f : β → α} {convert : β → Option α}
  {t : Tape β} {buffer : Array α} {i : Nat} {s : Filling σ α}

/-- The next `i` units of the tape have gone to the front of the buffer. -/
structure FilledTo (R : σ → Tape β → Prop) (f : β → α) (t : Tape β) (buffer : Array α) (i : Nat)
    (s : Filling σ α) : Prop where
  cursor : R s.cursor (t.past i)
  contents : s.buffer.toList = (t.ahead.take i).map f ++ buffer.toList.drop i
  filled : s.filled = i
  le : i ≤ t.ahead.length
  room : i ≤ buffer.size

omit [Cursor σ β] in
lemma FilledTo.start {c : σ} (h : R c t) (f : β → α) (buffer : Array α) :
    FilledTo R f t buffer 0 { cursor := c, buffer } :=
  ⟨h, rfl, rfl, Nat.zero_le _, Nat.zero_le _⟩

omit [Cursor σ β] in
lemma FilledTo.room_eq (h : FilledTo R f t buffer i s) : s.room = buffer.size - i := by
  have hle := h.le
  have hroom := h.room
  have hsize : s.buffer.size = buffer.size := by
    rw [← Array.length_toList, h.contents]
    simp
    omega
  rw [Filling.room, hsize, h.filled]

lemma FilledTo.test (hR : Simulation R) (h : FilledTo R f t buffer i s) :
    Meets (Filling.inside Cursor.hasNext) s (t.past i).more (t.past i).refusals
      (FilledTo R f t buffer i) :=
  (hR.hasNext h.cursor).within fun _ hc => ⟨hc, h.contents, h.filled, h.le, h.room⟩

lemma FilledTo.step (hR : Simulation R) (h : FilledTo R f t buffer i s) {u : β}
    (hu : t.ahead[i]? = some u) (hconvert : convert u = some (f u)) (hi : i < buffer.size) :
    Meets (Filling.step convert) s (.ok ()) [] (FilledTo R f t buffer (i + 1)) := by
  obtain ⟨-, hrefusals, hfirst⟩ := Tape.look_of_cons (past_ahead hu)
  have hnext := hR.next h.cursor
  rw [hfirst, hrefusals, past_forth hu] at hnext
  have hinside : Meets (Filling.inside Cursor.next) s (.ok u) []
      fun s' => R s'.cursor (t.past (i + 1)) ∧ s'.buffer = s.buffer ∧ s'.filled = s.filled :=
    hnext.within fun _ hc => ⟨hc, rfl, rfl⟩
  unfold Filling.step
  apply hinside.bind
  rintro s' ⟨hcursor, hbuffer, hfilled⟩
  simp only [hconvert]
  have hlength : ((t.ahead.take i).map f).length = i := by simp [h.le]
  have hdrop : buffer.toList.drop i = buffer[i] :: buffer.toList.drop (i + 1) :=
    List.drop_eq_getElem_cons hi
  refine ⟨rfl, rfl, hcursor, ?_, ?_, (List.getElem?_eq_some_iff.1 hu).1, hi⟩
  · simp only [Action.change_run, Array.toList_setIfInBounds]
    rw [hbuffer, hfilled, h.filled, h.contents, List.set_append_right _ _ (by rw [hlength]),
      hlength, Nat.sub_self, hdrop, List.set_cons_zero, List.take_add_one, hu]
    simp
  · simp [hfilled, h.filled]

/-- Where the units are used up, the loop ends as they do. -/
lemma FilledTo.spent (hR : Simulation R) (h : FilledTo R f t buffer i s) (hi : t.ahead.length ≤ i)
    (go : Action (Filling σ α) Nat) :
    Meets (do if ← Filling.inside Cursor.hasNext then go else Action.asks Filling.filled) s
      (t.stop.yields t.ahead.length) t.stop.refusals (FilledTo R f t buffer i) := by
  have htest := h.test hR
  have hle := h.le
  rw [past_of_length_le hi, Tape.toEnd, Tape.more, Tape.refusals] at htest
  cases hstop : t.stop with
  | ended offset =>
    rw [hstop] at htest
    have hcount (s' : Filling σ α) (h' : FilledTo R f t buffer i s') : s'.filled = t.ahead.length :=
      h'.filled.trans (Nat.le_antisymm hle hi)
    refine htest.bind fun s' h' => ⟨?_, rfl, h'⟩
    exact congrArg Except.ok (hcount s' h')
  | rejected codec e =>
    rw [hstop] at htest
    exact htest.bind_error

/-- Where a unit is left, the loop takes its next step. -/
lemma FilledTo.onward (hR : Simulation R) (h : FilledTo R f t buffer i s) {u : β}
    (hu : t.ahead[i]? = some u) {go last : Action (Filling σ α) Nat}
    {result : Except CodingError Nat} {refused : List Event} {Q : Filling σ α → Prop}
    (hgo : ∀ s', FilledTo R f t buffer i s' → Meets go s' result refused Q) :
    Meets (do if ← Filling.inside Cursor.hasNext then go else last) s result refused Q := by
  have htest := h.test hR
  obtain ⟨hmore, hrefusals, -⟩ := Tape.look_of_cons (past_ahead hu)
  rw [hmore, hrefusals] at htest
  exact htest.bind hgo

lemma FilledTo.fill (hR : Simulation R) (hconvert : ∀ u ∈ t.ahead, convert u = some (f u))
    {left : Nat} (h : FilledTo R f t buffer i s) (hleft : i + left = buffer.size) :
    Meets (do
        let _ ← Action.gather (Filling.inside Cursor.hasNext) (Filling.step convert) left
        Action.asks Filling.filled) s
      (if buffer.size ≤ t.ahead.length then .ok buffer.size else t.stop.yields t.ahead.length)
      (if buffer.size ≤ t.ahead.length then [] else t.stop.refusals)
      (FilledTo R f t buffer (min buffer.size t.ahead.length)) := by
  induction left generalizing i s with
  | zero =>
    obtain rfl : i = buffer.size := hleft
    rw [if_pos h.le, if_pos h.le, Nat.min_eq_left h.le]
    exact ⟨congrArg Except.ok h.filled, rfl, h⟩
  | succ left ih =>
    rw [gather_then]
    cases hu : t.ahead[i]? with
    | none =>
      have hi : t.ahead.length ≤ i := List.getElem?_eq_none_iff.1 hu
      obtain rfl : i = t.ahead.length := Nat.le_antisymm h.le hi
      rw [if_neg (by omega), if_neg (by omega), Nat.min_eq_right h.room]
      exact h.spent hR hi _
    | some u =>
      have hmem : u ∈ t.ahead := List.mem_of_getElem? hu
      refine h.onward hR hu fun s' h' => ?_
      exact (h'.step hR hu (hconvert u hmem) (by omega)).bind fun s'' h'' => ih h'' (by omega)

/-- A step of a drain, which needs a slot. -/
def drainStep (convert : β → Option α) : Action (Filling σ α) Unit := do
  if 0 < (← Action.asks Filling.room) then Filling.step convert
  else Action.fail ⟨.bufferTooSmall, ← Action.asks Filling.filled⟩

lemma FilledTo.drainStep_of_lt (h : FilledTo R f t buffer i s) (hi : i < buffer.size)
    {result : Except CodingError Unit} {refused : List Event} {Q : Filling σ α → Prop}
    (hstep : Meets (Filling.step convert) s result refused Q) :
    Meets (drainStep convert) s result refused Q := by
  have hroom : 0 < s.room := by
    rw [h.room_eq]
    omega
  unfold drainStep
  have hasks : Meets (Action.asks Filling.room) s (.ok s.room) [] (· = s) := ⟨rfl, rfl, rfl⟩
  apply hasks.bind
  rintro _ rfl
  rwa [if_pos hroom]

lemma FilledTo.drainStep_of_full (h : FilledTo R f t buffer buffer.size s) :
    Meets (drainStep convert) s (.error ⟨.bufferTooSmall, buffer.size⟩) []
      (FilledTo R f t buffer buffer.size) := by
  have hroom : ¬ 0 < s.room := by
    rw [h.room_eq]
    omega
  unfold drainStep
  have hasks : Meets (Action.asks Filling.room) s (.ok s.room) [] (· = s) := ⟨rfl, rfl, rfl⟩
  apply hasks.bind
  rintro _ rfl
  rw [if_neg hroom]
  refine ⟨?_, rfl, h⟩
  rw [← h.filled]
  rfl

lemma FilledTo.drain (hR : Simulation R) (hconvert : ∀ u ∈ t.ahead, convert u = some (f u))
    {left : Nat} (h : FilledTo R f t buffer i s) (hleft : i + left = buffer.size + 1) :
    Meets (do
        let _ ← Action.gather (Filling.inside Cursor.hasNext) (drainStep convert) left
        Action.asks Filling.filled) s
      (if t.ahead.length ≤ buffer.size then t.stop.yields t.ahead.length
        else .error ⟨.bufferTooSmall, buffer.size⟩)
      (if t.ahead.length ≤ buffer.size then t.stop.refusals else [])
      (FilledTo R f t buffer (min buffer.size t.ahead.length)) := by
  induction left generalizing i s with
  | zero =>
    have hroom := h.room
    omega
  | succ left ih =>
    rw [gather_then]
    cases hu : t.ahead[i]? with
    | none =>
      have hi : t.ahead.length ≤ i := List.getElem?_eq_none_iff.1 hu
      obtain rfl : i = t.ahead.length := Nat.le_antisymm h.le hi
      rw [if_pos h.room, if_pos h.room, Nat.min_eq_right h.room]
      exact h.spent hR hi _
    | some u =>
      have hmem : u ∈ t.ahead := List.mem_of_getElem? hu
      have hlt : i < t.ahead.length := (List.getElem?_eq_some_iff.1 hu).1
      refine h.onward hR hu fun s' h' => ?_
      by_cases hfull : i = buffer.size
      · subst hfull
        rw [if_neg (by omega), if_neg (by omega), Nat.min_eq_left h.le]
        exact h'.drainStep_of_full.bind_error
      · have hroom : i < buffer.size := Nat.lt_of_le_of_ne h.room hfull
        have hstep := h'.drainStep_of_lt hroom (h'.step hR hu (hconvert u hmem) hroom)
        exact hstep.bind fun s'' h'' => ih h'' (by omega)

end Filling

section Whole

variable [Cursor σ β] {R : σ → Tape β → Prop} {f : β → α} {convert : β → Option α} {t : Tape β}

/-- The buffer with these units at its front, as far as it has slots for them. -/
def filledWith (buffer : Array α) (units : List α) : Array α :=
  (units.take buffer.size ++ buffer.toList.drop units.length).toArray

omit [Cursor σ β] in
lemma filledWith_of_le {buffer : Array α} {units : List α} (h : units.length ≤ buffer.size) :
    filledWith buffer units = (units ++ buffer.toList.drop units.length).toArray := by
  rw [filledWith, List.take_of_length_le h]

omit [Cursor σ β] in
lemma filledWith_of_lt {buffer : Array α} {units : List α} (h : buffer.size < units.length) :
    filledWith buffer units = (units.take buffer.size).toArray := by
  have hfull : buffer.toList.length ≤ units.length := Nat.le_of_lt h
  rw [filledWith, List.drop_of_length_le hfull, List.append_nil]

omit [Cursor σ β] in
lemma FilledTo.buffer_eq {buffer : Array α} {s : Filling σ α}
    (h : FilledTo R f t buffer (min buffer.size t.ahead.length) s) :
    s.buffer = filledWith buffer (t.ahead.map f) := by
  apply Array.toList_inj.1
  rw [h.contents, filledWith, List.map_take, List.length_map]
  obtain hfull | hshort := Nat.le_total buffer.size t.ahead.length
  · rw [Nat.min_eq_left hfull, List.drop_of_length_le (Nat.le_of_eq buffer.length_toList),
      List.drop_of_length_le (Nat.le_trans (Nat.le_of_eq buffer.length_toList) hfull)]
  · rw [Nat.min_eq_right hshort, List.take_of_length_le (by simp),
      List.take_of_length_le (by simpa using hshort)]

variable {c : σ}

/-- Filling takes as many units as there are slots, and looks no further. -/
theorem fill_meets [Cursor σ α] {R : σ → Tape α → Prop} {t : Tape α} (hR : Simulation R)
    (h : R c t) (buffer : Array α) :
    Meets Filling.fill ({ cursor := c, buffer } : Filling σ α)
      (if buffer.size ≤ t.ahead.length then .ok buffer.size else t.stop.yields t.ahead.length)
      (if buffer.size ≤ t.ahead.length then [] else t.stop.refusals)
      (FilledTo R id t buffer (min buffer.size t.ahead.length)) := by
  have hstart := FilledTo.start h id buffer
  have hroom : Meets (Action.asks Filling.room) ({ cursor := c, buffer } : Filling σ α)
      (.ok buffer.size) [] (FilledTo R id t buffer 0) := ⟨rfl, rfl, hstart⟩
  unfold Filling.fill
  exact hroom.bind fun s hs => hs.fill hR (fun _ _ => rfl) (Nat.zero_add _)

/-- Draining looks for one more unit behind the last slot. -/
theorem drain_meets (hR : Simulation R) (h : R c t)
    (hconvert : ∀ u ∈ t.ahead, convert u = some (f u)) (buffer : Array α) :
    Meets (Filling.drain convert) ({ cursor := c, buffer } : Filling σ α)
      (if t.ahead.length ≤ buffer.size then t.stop.yields t.ahead.length
        else .error ⟨.bufferTooSmall, buffer.size⟩)
      (if t.ahead.length ≤ buffer.size then t.stop.refusals else [])
      (FilledTo R f t buffer (min buffer.size t.ahead.length)) := by
  have hstart := FilledTo.start h f buffer
  have hroom : Meets (Action.asks Filling.room) ({ cursor := c, buffer } : Filling σ α)
      (.ok buffer.size) [] (FilledTo R f t buffer 0) := ⟨rfl, rfl, hstart⟩
  unfold Filling.drain
  exact hroom.bind fun s hs => hs.drain hR hconvert (Nat.zero_add _)

/-- The count and the buffer that draining comes to. -/
lemma drain_eq (hR : Simulation R) (h : R c t) (hconvert : ∀ u ∈ t.ahead, convert u = some (f u))
    (buffer : Array α) {outcome : Outcome (Filling σ α) Nat}
    (houtcome : outcome = Filling.drain convert { cursor := c, buffer }) :
    (outcome.result, outcome.cursor.buffer) =
      if buffer.size < t.ahead.length then
        (.error ⟨.bufferTooSmall, buffer.size⟩, ((t.ahead.map f).take buffer.size).toArray)
      else
        (t.stop.yields t.ahead.length,
          (t.ahead.map f ++ buffer.toList.drop t.ahead.length).toArray) := by
  subst houtcome
  have hdrain := drain_meets hR h hconvert buffer
  have hresult := hdrain.result
  have hbuffer := hdrain.cursor.buffer_eq
  have hlength : (t.ahead.map f).length = t.ahead.length := List.length_map _
  split_ifs with hroom
  · rw [if_neg (Nat.not_le.2 hroom)] at hresult
    rw [filledWith_of_lt (hlength ▸ hroom)] at hbuffer
    exact Prod.ext hresult hbuffer
  · have hle : t.ahead.length ≤ buffer.size := Nat.not_lt.1 hroom
    rw [if_pos hle] at hresult
    rw [filledWith_of_le (hlength ▸ hle), hlength] at hbuffer
    exact Prod.ext hresult hbuffer

end Whole

end BaseText.Proofs
