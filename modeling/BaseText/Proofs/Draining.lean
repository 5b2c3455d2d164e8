import BaseText.Proofs.Buffers
import BaseText.Proofs.Places
import BaseText.Proofs.Views

/-!
# Ways to drain a cursor

Collecting, filling buffers, iterating and taking from a limit are loops that look ahead at
different moments. Each of them gives the units ahead in their order, leaves the cursor behind those
that it gave, and meets the rejection in which they end only if it asks for more than there are.
-/

namespace BaseText.Proofs

variable {σ α β γ : Type}

section Texts

variable [Cursor σ Char]

lemma appendAhead_eq (text : String) (fuel : Nat) :
    (Cursor.appendAhead text fuel : Action σ String) =
      (fun units => text ++ String.ofList units) <$>
        Action.gather Cursor.hasNext Cursor.next fuel := by
  induction fuel generalizing text with
  | zero => simp [Cursor.appendAhead, Action.gather]
  | succ fuel ih =>
    have hpush (c : Char) (rest : List Char) :
        text.push c ++ String.ofList rest = text ++ String.ofList (c :: rest) := by
      rw [singleton_append_ofList, ← String.append_assoc, String.append_singleton]
    rw [Cursor.appendAhead, Action.gather, map_bind]
    congr 1
    funext more
    cases more with
    | false => simp
    | true => simp [ih, hpush]

lemma collectString_eq (s : σ) : Cursor.collectString s = (String.ofList <$> Cursor.collect) s := by
  rw [Cursor.collectString, appendAhead_eq, map_run, map_run, Cursor.collect]
  simp

end Texts

/-- What an iteration meets behind the last unit, before it ends for good. -/
def Stop.failure (stop : Stop) : List (Option (Except CodingError α)) :=
  match stop.more with
  | .ok _ => []
  | .error e => [some (.error e)]

/-- The answers to `n` steps of an iteration over these units. -/
def iterated (units : List α) (stop : Stop) (n : Nat) : List (Option (Except CodingError α)) :=
  ((units.map fun u => some (Except.ok u)) ++ stop.failure |>.rightpad n none).take n

lemma iterated_cons (u : α) (units : List α) (stop : Stop) (n : Nat) :
    iterated (u :: units) stop (n + 1) = some (.ok u) :: iterated units stop n := by
  simp [iterated, List.rightpad]

lemma iterated_ended (offset n : Nat) :
    iterated ([] : List α) (.ended offset) n = List.replicate n none := by
  simp [iterated, List.rightpad, Stop.failure, Stop.more]

lemma iterated_rejected (codec : Codec) (e : CodingError) (n : Nat) :
    iterated ([] : List α) (.rejected codec e) (n + 1) =
      some (.error e) :: List.replicate n none := by
  simp [iterated, List.rightpad, Stop.failure, Stop.more]

lemma Meets.attempt {act : Action σ β} {s : σ} {result : Except CodingError β}
    {refused : List Event} {P : σ → Prop} (h : Meets act s result refused P) :
    Meets act.attempt s (.ok result) refused P :=
  ⟨congrArg Except.ok h.result, h.log, h.cursor⟩

/-- What follows a success without rejections of its own. -/
lemma Meets.bind_quiet {act : Action σ β} {s : σ} {a : β} {refused : List Event} {P Q : σ → Prop}
    (h : Meets act s (.ok a) refused P) {next : β → Action σ γ} {result : Except CodingError γ}
    (hnext : ∀ s', P s' → Meets (next a) s' result [] Q) :
    Meets (act >>= next) s result refused Q := by
  have hn := hnext _ h.cursor
  have hrun := Action.bind_run act next s
  rw [h.result] at hrun
  refine ⟨by rw [hrun]; exact hn.result, ?_, by rw [hrun]; exact hn.cursor⟩
  rw [hrun, rejections_append, h.log, hn.log, List.append_nil]

section Loops

variable [Cursor σ α] {R : σ → Tape α → Prop} {s : σ} {t : Tape α}

/-- The step of an iteration. -/
lemma step_shows (hR : Simulation R) (h : R s t) :
    Meets (Action.attempt do
        if ← (Cursor.hasNext : Action σ Bool) then some <$> Cursor.next else pure none) s
      (.ok (match t.ahead with
        | u :: _ => .ok (some u)
        | [] => t.stop.yields none)) t.refusals (R · t.forth) := by
  apply Meets.attempt
  have hmore := hR.hasNext h
  obtain ⟨behind, _ | ⟨u, rest⟩, ended | ⟨codec, e⟩⟩ := t
  · exact hmore.bind fun s' hs' => .answer hs'
  · exact hmore.bind_error
  all_goals
    refine hmore.bind fun s' hs' => ?_
    have hnext := hR.next hs'
    exact ⟨by rw [if_pos rfl, map_run, hnext.result]; rfl,
      by rw [if_pos rfl, map_run]; exact hnext.log,
      by rw [if_pos rfl, map_run]; exact hnext.cursor⟩

omit [Cursor σ α] in
lemma Meets.mapped {act : Action σ β} {a : β} {refused : List Event} {P : σ → Prop}
    (h : Meets act s (.ok a) refused P) (f : β → γ) :
    Meets (f <$> act) s (.ok (f a)) refused P :=
  ⟨by rw [map_run, h.result]; rfl, by rw [map_run]; exact h.log, by rw [map_run]; exact h.cursor⟩

/-- An iteration gives the units, then the rejection once, then nothing. -/
theorem iterate_shows (hR : Simulation R) (h : R s t) (n : Nat) :
    Meets (Cursor.iterate n) s (.ok (iterated t.ahead t.stop n))
      (if n ≤ t.ahead.length then [] else t.stop.refusals) (R · (t.past n)) := by
  induction n generalizing s t with
  | zero => exact ⟨rfl, rfl, h⟩
  | succ n ih =>
    have hstep := step_shows hR h
    unfold Cursor.iterate
    obtain ⟨behind, _ | ⟨u, rest⟩, stop⟩ := t
    · have hpast (m : Nat) : Tape.past ⟨behind, [], stop⟩ m = ⟨behind, [], stop⟩ := by
        simp [Tape.past]
      rw [hpast]
      cases stop with
      | ended offset =>
        have hquiet (m : Nat) : (if m ≤ ([] : List α).length then []
            else (Stop.ended offset).refusals) = [] := ite_self []
        refine hstep.bind fun s' hs' => ?_
        rw [Tape.forth_nil] at hs'
        have hrest := (ih hs').mapped (none :: ·)
        simp only [hpast, iterated_ended, hquiet] at hrest ⊢
        exact hrest
      | rejected codec e =>
        rw [iterated_rejected, if_neg (by simp)]
        exact hstep.bind_quiet fun s' hs' => .answer hs'
    · have hpast : Tape.past ⟨behind, u :: rest, stop⟩ (n + 1) =
          Tape.past ⟨u :: behind, rest, stop⟩ n := by simp [Tape.past]
      refine hstep.bind fun s' hs' => ?_
      rw [Tape.forth_cons] at hs'
      have hrest := (ih hs').mapped (some (.ok u) :: ·)
      simp only [hpast, iterated_cons, List.length_cons, Nat.add_le_add_iff_right]
      exact hrest

end Loops

/-- The cursor after these buffers have been filled from it, one after the other. -/
def fillEach [Cursor σ α] : List (Array α) → σ → σ
  | [], s => s
  | buffer :: more, s => fillEach more (Cursor.fill buffer s).1.cursor

section Left

variable [Cursor σ α] [Viewed σ α] {s s' : σ} {t : Tape α}

omit [Cursor σ α] [Viewed σ α] in
lemma past_min (t : Tape α) (n : Nat) : t.past (min n t.ahead.length) = t.past n := by
  obtain hle | hle := Nat.le_total n t.ahead.length
  · rw [Nat.min_eq_left hle]
  · rw [Nat.min_eq_right hle, past_of_length_le (Nat.le_refl _), past_of_length_le hle]

omit [Cursor σ α] [Viewed σ α] in
lemma past_past (t : Tape α) (n m : Nat) : (t.past n).past m = t.past (n + m) := by
  simp [Tape.past, List.take_add, List.drop_drop]

lemma StepsAhead.of_past (h : Shows s t) {n : Nat} (h' : Along t s' (t.past n)) :
    StepsAhead s (min n t.ahead.length) s' := by
  refine .of_along h h' ?_
  simp [Tape.past, Nat.add_comm]

/-- Filling a buffer takes the next units as far as there are slots. It fails only where a slot is
left for the rejection behind the last of them. -/
structure FillsFrom (s : σ) (units : List α) (stop : Stop) (buffer : Array α) : Prop where
  result : (Cursor.fill buffer s).1.result =
    if buffer.size ≤ units.length then .ok buffer.size else stop.yields units.length
  contents : (Cursor.fill buffer s).2 = filledWith buffer units
  cursor : StepsAhead s (min buffer.size units.length) (Cursor.fill buffer s).1.cursor

lemma fill_past {start : Tape α} (h : Along start s t) (buffer : Array α) :
    Along start (Cursor.fill buffer s).1.cursor (t.past buffer.size) := by
  have hfill := (fill_meets (along_simulation start) h buffer).cursor.cursor
  rwa [past_min] at hfill

lemma fillsFrom_of_shows (h : Shows s t) (buffer : Array α) :
    FillsFrom s t.ahead t.stop buffer := by
  have hfill := fill_meets simulation h buffer
  refine ⟨hfill.result, ?_, .of_past h (fill_past ⟨h, rfl⟩ buffer)⟩
  have hbuffer := hfill.cursor.buffer_eq
  rwa [List.map_id] at hbuffer

lemma fillEach_past (h : Shows s t) (buffers : List (Array α)) :
    Shows (fillEach buffers s) (t.past (buffers.map Array.size).sum) := by
  induction buffers generalizing s t with
  | nil => exact h
  | cons buffer more ih =>
    have hmore := ih (fill_past ⟨h, rfl⟩ buffer).shows
    rwa [past_past] at hmore

/-- Taking at most `n` units stops in front of a rejection that comes right behind them. -/
lemma take_shows (h : Shows s t) (n : Nat) :
    (Cursor.take n s).result =
        (if n ≤ t.ahead.length then .ok (t.ahead.take n) else t.stop.yields t.ahead) ∧
      StepsAhead s (min n t.ahead.length) (Cursor.take n s).cursor := by
  have hstart : LimitOf (StandsOn (Along t) t.behind.length) (Limited.ofCursor s n)
      (t.fresh.limit n) := ⟨t.fresh, standsOn_start h, Nat.zero_le _, rfl⟩
  have htake := collect_shows (limit_simulation (anchored_simulation t)) hstart
  have hlimit : t.fresh.limit n =
      ⟨[], t.ahead.take n, if n ≤ t.ahead.length then .ended n else t.stop⟩ := by
    have hunits : t.fresh.units = t.ahead := List.nil_append t.ahead
    rw [Tape.limit, hunits]
    rfl
  rw [hlimit] at htake
  refine ⟨?_, ?_⟩
  · have hresult := htake.result
    rw [Tape.drained_eq] at hresult
    by_cases hle : n ≤ t.ahead.length
    · rw [if_pos hle] at hresult ⊢
      exact hresult
    · rw [if_neg hle] at hresult ⊢
      rw [List.take_of_length_le (by omega)] at hresult
      exact hresult
  · obtain ⟨whole, ⟨before, hinner, hbefore, -⟩, -, hwhole⟩ := htake.cursor
    have hbehind := congrArg Tape.behind hwhole
    change (t.ahead.take n).reverse ++ [] = whole.behind at hbehind
    refine .of_along h hinner ?_
    rw [List.length_append, hbefore, ← hbehind]
    simp [Nat.add_comm]

end Left

section Agreement

variable {k : Kind}

/-- Characters are collected in a text as well. -/
def CollectsText : (k : Kind) → AnyStack k → List k.Carrier → Stop → Prop
  | .byte, _, _, _ => True
  | .char, s, units, stop =>
    (Cursor.collectString s).result = stop.yields (String.ofList units) ∧
      StepsAhead s units.length (Cursor.collectString s).cursor

/-- What the loops over a stack come to that has these units ahead. -/
structure Drains (s : AnyStack k) (units : List k.Carrier) (stop : Stop) : Prop where
  collect : (Cursor.collect s).result = stop.yields units ∧
    StepsAhead s units.length (Cursor.collect s).cursor
  text : CollectsText k s units stop
  /-- Whatever buffers have been filled before, the next one takes what they have left. -/
  fill : ∀ (buffers : List (Array k.Carrier)) (buffer : Array k.Carrier),
    FillsFrom (fillEach buffers s) (units.drop (buffers.map Array.size).sum) stop buffer
  iterate : ∀ n, (Cursor.iterate n s).result = .ok (iterated units stop n) ∧
    StepsAhead s (min n units.length) (Cursor.iterate n s).cursor
  take : ∀ n, (Cursor.take n s).result =
      (if n ≤ units.length then .ok (units.take n) else stop.yields units) ∧
    StepsAhead s (min n units.length) (Cursor.take n s).cursor

variable {s : AnyStack k} {t : Tape k.Carrier} {units : List k.Carrier} {stop stop' : Stop}

lemma collectsText_of_shows (h : Shows s t) : CollectsText k s t.ahead t.stop := by
  cases k with
  | byte => trivial
  | char =>
    have hcollect := collect_shows (along_simulation t) ⟨h, rfl⟩
    refine ⟨?_, ?_⟩
    · rw [collectString_eq, map_run, hcollect.result, Tape.drained_eq]
      obtain ⟨behind, ahead, ended | ⟨codec, e⟩⟩ := t <;> rfl
    · rw [collectString_eq, map_run]
      refine .of_along h hcollect.cursor ?_
      simp [Tape.toEnd, Nat.add_comm]

lemma drains_of_shows (h : Shows s t) : Drains s t.ahead t.stop where
  collect := by
    have hcollect := collect_shows (along_simulation t) ⟨h, rfl⟩
    refine ⟨hcollect.result.trans t.drained_eq, .of_along h hcollect.cursor ?_⟩
    simp [Tape.toEnd, Nat.add_comm]
  text := collectsText_of_shows h
  fill buffers buffer := fillsFrom_of_shows (fillEach_past h buffers) buffer
  iterate n :=
    have hiterate := iterate_shows (along_simulation t) ⟨h, rfl⟩ n
    ⟨hiterate.result, .of_past h hiterate.cursor⟩
  take := take_shows h

/-- Of the end of the units, only the rejection matters. -/
lemma Drains.of_more (h : Drains s units stop) (hmore : stop.more = stop'.more) :
    Drains s units stop' := by
  have hyields {γ : Type} (a : γ) : stop.yields a = stop'.yields a := congrArg (Except.map _) hmore
  have hfailure :
      (stop.failure : List (Option (Except CodingError k.Carrier))) = stop'.failure := by
    rw [Stop.failure, Stop.failure, hmore]
  refine ⟨hyields units ▸ h.collect, ?_, fun buffers buffer => ?_, fun n => ?_, fun n => ?_⟩
  · cases k with
    | byte => trivial
    | char => exact ⟨h.text.1.trans (hyields _), h.text.2⟩
  · obtain ⟨hresult, hcontents, hcursor⟩ := h.fill buffers buffer
    exact ⟨hyields _ ▸ hresult, hcontents, hcursor⟩
  · have hiterate := h.iterate n
    rwa [iterated, hfailure] at hiterate
  · have htake := h.take n
    rwa [hyields] at htake

/-- All ways to drain a stack agree. They give the units ahead, and those that ask for more meet
the rejection behind these. -/
theorem drains_agree (h : Reachable s) :
    (∃ units stop, Gives s units stop) ∧
      ∀ units stop, Gives s units stop → Drains s units stop := by
  obtain ⟨t, ht⟩ := reachable_shows h
  refine ⟨exists_gives h, fun units stop hgives => ?_⟩
  obtain ⟨rfl, hmore⟩ := hgives.tape_eq ht
  exact (drains_of_shows ht).of_more hmore

/-- Four bytes in front of a rejection: a buffer or a limit of four does not meet it. -/
theorem drains_brokenBytes :
    Gives brokenBytes [0x68, 0x65, 0x6c, 0x6c] (.rejected .base16 ⟨.invalidCharacter, 8⟩) ∧
      Drains brokenBytes [0x68, 0x65, 0x6c, 0x6c] (.rejected .base16 ⟨.invalidCharacter, 8⟩) ∧
      (Cursor.fill #[0, 0, 0, 0] brokenBytes).1.result = .ok 4 ∧
      (Cursor.fill #[0, 0, 0, 0, 0] brokenBytes).1.result =
        .error ⟨.invalidCharacter, 8⟩ := by
  have hgives : Gives brokenBytes [0x68, 0x65, 0x6c, 0x6c]
      (.rejected .base16 ⟨.invalidCharacter, 8⟩) := rfl
  have hdrains := (drains_agree (.decode (.slice (k := .char) _) _)).2 _ _ hgives
  exact ⟨hgives, hdrains, (hdrains.fill [] _).result, (hdrains.fill [] _).result⟩

end Agreement

end BaseText.Proofs
