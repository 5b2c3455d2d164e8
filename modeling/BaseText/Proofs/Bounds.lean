import BaseText.Proofs.Draining
import BaseText.Proofs.GroupHalting
import Mathlib.Data.List.ReduceOption

/-!
# Bounds of all loops

Every loop over a stack that can be reached ends. How often it comes round again is bounded by what
the stack holds: by the units ahead or behind, by the members of a chain, by the distance to the
place that is sought. A loop enters its body once more than it comes round again.
-/

namespace BaseText.Proofs

open Course

variable {σ τ α β γ : Type}

section Gathering

variable {R : Nat → σ → Prop} {more : Course σ Bool} {step : Course σ α} {more' : Action σ Bool}
  {step' : Action σ α} {push : γ → α → γ}

lemma foldl_gather (c : γ) (fuel : Nat) :
    List.foldl push c <$> Action.gather more' step' (fuel + 1) = (do
      if ← more' then
        let a ← step'
        List.foldl push (push c a) <$> Action.gather more' step' fuel
      else pure c) := by
  rw [Action.gather, map_bind]
  congr 1
  funext any
  cases any <;> simp

/-- A loop that has `m` steps to make, and fuel enough for them. -/
def Gathering (R : Nat → σ → Prop) (more' : Action σ Bool) (step' : Action σ α) (push : γ → α → γ)
    (m : Nat) (c : γ) (s : σ) (o : Outcome σ γ) : Prop :=
  R m s ∧ ∃ fuel, m < fuel ∧ o = (List.foldl push c <$> Action.gather more' step' fuel) s

variable (hmore : ∀ m, Traces (R m) more more' fun any s => R m s ∧ (any = true ↔ m ≠ 0))
  (hstep : ∀ m, Traces (R (m + 1)) step step' fun _ => R m)

include hmore hstep

lemma gathering_turn {m : Nat} {c : γ} {s : σ} {o : Outcome σ γ}
    (h : Gathering R more' step' push m c s o) :
    Then (steps more step push c) (Turn (Gathering R more' step' push) (fun m _ _ => m = 0) m)
      s o := by
  obtain ⟨hs, fuel, hfuel, rfl⟩ := h
  obtain ⟨fuel, rfl⟩ := Nat.exists_eq_succ_of_ne_zero (Nat.ne_of_gt (Nat.zero_lt_of_lt hfuel))
  rw [foldl_gather]
  apply Then.bind
  apply (hmore m).then hs
  rintro (_ | _) s ⟨hs, hany⟩
  · have hnone : m = 0 := by simpa using hany
    exact Then.answer ⟨rfl, hnone⟩
  · obtain ⟨m, rfl⟩ := Nat.exists_eq_succ_of_ne_zero (hany.1 rfl)
    apply Then.bind
    apply (hstep m).then hs
    intro a s hs
    exact Then.answer ⟨m, rfl, hs, fuel, Nat.lt_of_succ_lt_succ hfuel, rfl⟩

/-- A loop that takes steps for as long as there is more takes each of them, unless one fails. -/
lemma exists_gathering {m fuel : Nat} {s : σ} (push : γ → α → γ) (c : γ) (h : R m s)
    (hfuel : m < fuel) :
    ∃ n, Exactly m ((List.foldl push c <$> Action.gather more' step' fuel) s) n ∧
      Runs (steps more step push) n c s
        ((List.foldl push c <$> Action.gather more' step' fuel) s) := by
  have hgathering : Gathering R more' step' push m c s _ := ⟨h, fuel, hfuel, rfl⟩
  obtain ⟨n, hn, hruns, hend⟩ := exists_runs (fun _ _ _ _ => gathering_turn hmore hstep) hgathering
  refine ⟨n, ⟨hn, fun b hb => ?_⟩, hruns⟩
  have hleft := hend b hb
  omega

end Gathering

section Longer

variable [Cursor σ α] [Viewed σ α] [CourseCursor σ α] [Halting σ] {s : σ} {t : Tape α}

lemma call_ends (h : Shown s) (call : Call) : call.course.Ends s (call.ask s) := by
  have hs := Halting.halts s h
  cases call with
  | hasNext => exact ends_map _ hs.hasNext
  | hasPrevious => exact ends_map _ hs.hasPrevious
  | peekNext => exact ends_map _ hs.peekNext
  | peekPrevious => exact ends_map _ hs.peekPrevious
  | next => exact ends_map _ hs.next
  | previous => exact ends_map _ hs.previous
  | index => rfl

/-- Rewinding never fails, and so makes all of its moves. -/
lemma rewind_ends (h : Shows s t) : courseRewind.Ends s (Cursor.rewind s) := by
  have hbehind : Behind (Cursor.index s) s := Shown.behind ⟨t, h⟩
  obtain ⟨n, ⟨-, hall⟩, hruns⟩ := exists_gathering (fun _ => hasPrevious_behind)
    (fun _ => previous_behind) (fun n _ => n + 1) 0 hbehind (Nat.lt_succ_self _)
  have hlength : List.foldl (fun n (_ : α) => n + 1) 0 = List.length := by
    funext units
    simp
  rw [hlength] at hall hruns
  exact ⟨n, hall _ (rewind_shows simulation h).result, hruns⟩

lemma collect_ends (h : Shows s t) : courseCollect.Ends s (Cursor.collect s) := by
  have hahead : Ahead t.ahead.length s := ⟨t, h, rfl⟩
  obtain ⟨n, ⟨hn, -⟩, hruns⟩ := exists_gathering (fun _ => hasNext_ahead) (fun _ => next_ahead)
    (fun units u => units ++ [u]) [] hahead (Nat.lt_succ_of_le hahead.le_capacity)
  have hcollect : List.foldl (fun units (u : α) => units ++ [u]) [] = id := by
    funext units
    rw [List.foldl_append_eq_append, List.nil_append, ← List.flatMap_def, List.flatMap_singleton']
    rfl
  rw [hcollect, id_map] at hruns
  exact ⟨n, hahead.atMost hn, hruns⟩

lemma appendAhead_eq_gather [Cursor τ Char] (text : String) (fuel : Nat) :
    (Cursor.appendAhead text fuel : Action τ String) =
      List.foldl String.push text <$> Action.gather Cursor.hasNext Cursor.next fuel := by
  induction fuel generalizing text with
  | zero => simp [Cursor.appendAhead, Action.gather]
  | succ fuel ih =>
    rw [foldl_gather, Cursor.appendAhead]
    simp only [ih]

lemma collectString_ends [Cursor τ Char] [Viewed τ Char] [CourseCursor τ Char] [Halting τ] {s : τ}
    {t : Tape Char} (h : Shows s t) : courseCollectString.Ends s (Cursor.collectString s) := by
  have hahead : Ahead t.ahead.length s := ⟨t, h, rfl⟩
  obtain ⟨n, ⟨hn, -⟩, hruns⟩ := exists_gathering (fun _ => hasNext_ahead) (fun _ => next_ahead)
    String.push "" hahead (Nat.lt_succ_of_le hahead.le_capacity)
  rw [← appendAhead_eq_gather] at hruns
  exact ⟨n, hahead.atMost hn, hruns⟩

lemma Traces.attempt {P : σ → Prop} {c : Course σ β} {act : Action σ β} {Q : β → σ → Prop}
    (h : Traces P c act Q) :
    Traces P c.attempt act.attempt fun answer s => ∀ b, answer = .ok b → Q b s := by
  intro s hs
  obtain ⟨hends, hafter⟩ := h s hs
  refine ⟨⟨_, hends, rfl⟩, ?_⟩
  rintro _ ⟨⟩
  exact hafter

/-- What a step of an iteration leaves of the `m` units that there were. -/
def Stepped (m : Nat) : Option α → σ → Prop
  | none, _ => m = 0
  | some _, s => ∃ m', m = m' + 1 ∧ Ahead m' s

lemma iterationStep_traces (m : Nat) : Traces (σ := σ) (Ahead m)
    (do if ← (CourseCursor.hasNext : Course σ Bool) then some <$> CourseCursor.next else pure none)
    (do if ← (Cursor.hasNext : Action σ Bool) then some <$> Cursor.next else pure none)
    (Stepped m) := by
  apply hasNext_ahead.bind
  rintro (_ | _) s ⟨hs, hmore⟩
  · have hnone : m = 0 := by simpa using hmore
    refine ⟨rfl, ?_⟩
    rintro _ ⟨⟩
    exact hnone
  · obtain ⟨m, rfl⟩ := Nat.exists_eq_succ_of_ne_zero (hmore.1 rfl)
    have hnext : Traces (Ahead (m + 1)) (some <$> CourseCursor.next : Course σ _)
        (some <$> Cursor.next) (Stepped (m + 1)) :=
      next_ahead.bind fun u => .answer fun s hs => ⟨m, rfl, hs⟩
    exact hnext s hs

/-- An iteration that has given `given`, and for which `m` units are left. -/
def Iterating (m : Nat) (given : List (Except CodingError α)) (s : σ)
    (o : Outcome σ (List (Except CodingError α))) : Prop :=
  Ahead m s ∧ o = ((fun steps => given ++ steps.reduceOption) <$> Cursor.iterate (m + 1)) s

lemma iteration_turn {m : Nat} {given : List (Except CodingError α)} {s : σ}
    {o : Outcome σ (List (Except CodingError α))} (h : Iterating m given s o) :
    Then (iterationTurn given) (Turn Iterating (fun _ _ _ => True) m) s o := by
  obtain ⟨hs, rfl⟩ := h
  rw [Cursor.iterate, map_bind]
  apply Then.bind
  apply (iterationStep_traces m).attempt.then hs
  rintro (e | _ | u) s hstep
  -- An error ends the iteration, however many units are left.
  · have hlast : (fun steps => given ++ steps.reduceOption) <$>
        (pure (some (.error e) :: List.replicate m none) : Action σ _) =
          pure (given ++ [.error e]) := by
      simp [List.reduceOption_cons_of_some, List.reduceOption_replicate_none]
    rw [hlast]
    exact Then.answer ⟨rfl, trivial⟩
  · obtain rfl : m = 0 := hstep _ rfl
    have hnone : (fun steps => given ++ steps.reduceOption) <$>
        ((none :: ·) <$> Cursor.iterate 0 : Action σ _) = pure given := by
      simp [Cursor.iterate, List.reduceOption_cons_of_none]
    rw [hnone]
    exact Then.answer ⟨rfl, trivial⟩
  · obtain ⟨m, rfl, hs'⟩ := hstep _ rfl
    have hunit : (fun steps => given ++ steps.reduceOption) <$>
        ((some (.ok u) :: ·) <$> Cursor.iterate (m + 1) : Action σ _) =
          (fun steps => (given ++ [.ok u]) ++ steps.reduceOption) <$> Cursor.iterate (m + 1) := by
      simp [List.reduceOption_cons_of_some]
    rw [hunit]
    exact Then.answer ⟨m, rfl, hs', rfl⟩

/-- An iteration up to its end takes at most as many steps as there are units, and one more. -/
lemma iterate_ends (h : Shows s t) :
    courseIterate.Ends s ((List.reduceOption <$> Cursor.iterate (t.ahead.length + 1)) s) := by
  have hahead : Ahead t.ahead.length s := ⟨t, h, rfl⟩
  have hiterating : Iterating t.ahead.length [] s
      ((List.reduceOption <$> Cursor.iterate (t.ahead.length + 1)) s) := ⟨hahead, rfl⟩
  obtain ⟨n, hn, hruns, -⟩ := exists_runs (fun _ _ _ _ => iteration_turn) hiterating
  exact ⟨n, hahead.atMost hn, hruns⟩

omit [Cursor σ α] [Viewed σ α] [CourseCursor σ α] [Halting σ] in
lemma Traces.insideFilling {P : σ → Prop} {c : Course σ β} {act : Action σ β} {Q : β → σ → Prop}
    (h : Traces P c act Q) : Traces (fun s : Filling σ α => P s.cursor) (courseFilling c)
      (Filling.inside act) fun b s => Q b s.cursor :=
  h.within (fun _ hs => hs) fun _ _ _ _ hinner => hinner

/-- A filling with `slots` slots left, of which `m` will be used up. -/
def FillingUp (m slots : Nat) (s : Filling σ α) (o : Outcome (Filling σ α) Unit) : Prop :=
  ∃ ahead, Ahead ahead s.cursor ∧ m = min slots ahead ∧
    o = (List.foldl (fun _ _ => ()) () <$>
      Action.gather (Filling.inside Cursor.hasNext) (Filling.step some) slots) s

lemma fill_turn {m slots : Nat} {s : Filling σ α} {o : Outcome (Filling σ α) Unit}
    (h : FillingUp m slots s o) :
    Then (fillTurn slots) (Turn FillingUp (fun _ _ _ => True) m) s o := by
  obtain ⟨ahead, hs, hm, rfl⟩ := h
  cases slots with
  | zero => exact Then.answer ⟨rfl, trivial⟩
  | succ slots =>
    rw [foldl_gather, fillTurn, if_neg (Nat.succ_ne_zero slots)]
    apply Then.bind
    apply hasNext_ahead.insideFilling.then hs
    rintro (_ | _) s ⟨hs, hmore⟩
    · exact Then.answer ⟨rfl, trivial⟩
    · obtain ⟨ahead, rfl⟩ := Nat.exists_eq_succ_of_ne_zero (hmore.1 rfl)
      apply Then.bind
      rw [if_pos rfl, Filling.step, bind_assoc]
      apply next_ahead.insideFilling.then hs
      intro u s hs
      apply Then.bind
      apply Then.changed
      exact Then.answer ⟨min slots ahead, by omega, ahead, hs, rfl, rfl⟩

omit [Viewed σ α] [CourseCursor σ α] [Halting σ] in
lemma fill_eq_foldl : (Filling.fill : Action (Filling σ α) Nat) = (do
    let slots ← Action.asks Filling.room
    List.foldl (fun _ _ => ()) () <$>
      Action.gather (Filling.inside Cursor.hasNext) (Filling.step some) slots
    Action.asks Filling.filled) := by
  simp [Filling.fill]

lemma fill_ends (h : Shows s t) (buffer : Array α) :
    courseFill.Ends { cursor := s, buffer } (Filling.fill { cursor := s, buffer }) := by
  have hahead : Ahead t.ahead.length s := ⟨t, h, rfl⟩
  rw [fill_eq_foldl]
  apply ends_bind rfl
  rintro slots -
  have hfilling : FillingUp (min slots t.ahead.length) slots { cursor := s, buffer } _ :=
    ⟨_, hahead, rfl, rfl⟩
  obtain ⟨n, hn, hruns, -⟩ := exists_runs (fun _ _ _ _ => fill_turn) hfilling
  have hloop : (loop (fun s _ n => n ≤ slots ∧ AtMostAhead s.cursor n) fillTurn slots).Ends
      { cursor := s, buffer } _ := ⟨n, ⟨by omega, hahead.atMost (by omega)⟩, hruns⟩
  exact ends_bind hloop fun _ _ => rfl

/-- A search back in a filter that was made of a cursor stays behind the place where that cursor
stood, and comes round again at most once for each unit in between. -/
def SearchesSince (s : σ) (c : Filtered σ α) : Prop :=
  Cursor.index s ≤ Cursor.index c.inner ∧ (c.index ≠ 0 →
    ∃ n ≤ Cursor.index c.inner - Cursor.index s,
      Runs (searchTurn CourseCursor.hasPrevious CourseCursor.peekPrevious CourseCursor.previous) n
        () c (Filtered.settleBack c))

lemma searchesSince_after (h : Shows s t) (hidden : α → Bool) (calls : List Call) :
    SearchesSince s (after calls (Filtered.ofCursor s hidden)) := by
  have hstart : FilterOf Shows t.behind (Filtered.ofCursor s hidden)
      (visibleTape hidden [] t.ahead t.stop) := ⟨[], t.ahead, t.stop, h, rfl, rfl⟩
  have hafter := after_shows (filter_simulation simulation) hstart calls
  have hindex := simulation.index h
  obtain ⟨seen, ahead, stop, hat⟩ := id hafter
  have hinner := simulation.index hat.inner
  rw [List.length_append] at hinner
  refine ⟨by omega, fun hne => ?_⟩
  obtain ⟨n, hn, hruns⟩ := exists_searchBack hafter hne
  exact ⟨n, by omega, hruns⟩

lemma seek_ends_after (h : Shows s t) (calls : List Call) (target : Nat) :
    (courseSeek target).Ends (after calls ({ inner := s } : Anchored σ))
      (Anchored.seek target (after calls { inner := s })) :=
  seek_ends ⟨_, after_shows simulation (anchored_shows h) calls⟩

end Longer

section Stacks

variable {k : Kind}

/-- Characters are collected in a text as well. -/
def TextEnds : (k : Kind) → AnyStack k → Prop
  | .byte, _ => True
  | .char, s => courseCollectString.Ends s (Cursor.collectString s)

/-- Whatever is asked of a stack or done with it ends as its action does, and no loop on the way
comes round again more often than its course allows. -/
structure Bounded (s : AnyStack k) : Prop where
  call : ∀ call : Call, call.course.Ends s (call.ask s)
  rewind : courseRewind.Ends s (Cursor.rewind s)
  collect : courseCollect.Ends s (Cursor.collect s)
  text : TextEnds k s
  /-- An iteration is at its end one step behind the units. -/
  iterate : ∀ units stop, Gives s units stop →
    courseIterate.Ends s ((List.reduceOption <$> Cursor.iterate (units.length + 1)) s)
  fill : ∀ buffer : Array k.Carrier,
    courseFill.Ends { cursor := s, buffer } (Filling.fill { cursor := s, buffer })
  /-- Any place is sought from any place, as far as the stack can be read. -/
  seek : ∀ calls target,
    (courseSeek target).Ends (after calls ({ inner := s.stack } : Anchored (Stack s.depth k)))
      (Anchored.seek target (after calls { inner := s.stack }))
  /-- Whatever has been asked of a filter over the stack, it does not go back behind its start. -/
  filter : ∀ hidden calls, ∃ c : Filtered (Stack s.depth k) k.Carrier,
    after calls (s.filter hidden) = ⟨s.depth + 1, .filtered c⟩ ∧ SearchesSince s.stack c

/-- Every loop over every stack that can be reached ends, within a bound given by what the stack
holds. -/
theorem reachable_bounded {s : AnyStack k} (h : Reachable s) : Bounded s := by
  obtain ⟨t, ht⟩ := reachable_shows h
  refine ⟨call_ends ⟨t, ht⟩, rewind_ends ht, collect_ends ht, ?_, ?_, fill_ends ht,
    seek_ends_after (s := s.stack) ht, fun hidden calls => ?_⟩
  · cases k with
    | byte => trivial
    | char => exact collectString_ends ht
  · intro units stop hgives
    obtain ⟨rfl, -⟩ := hgives.tape_eq ht
    exact iterate_ends ht
  · exact ⟨_, (wraps_filtered s.depth).after calls _,
      searchesSince_after (s := s.stack) ht hidden calls⟩

/-- Collecting four bytes in front of a rejection comes round again at most four times, and then
fails with the rejection. -/
theorem bounded_brokenBytes :
    Bounded brokenBytes ∧
      (Cursor.collect brokenBytes).result = .error ⟨.invalidCharacter, 8⟩ ∧
      ∃ n ≤ 4, Runs (steps CourseCursor.hasNext CourseCursor.next fun units u => units ++ [u]) n []
        brokenBytes (Cursor.collect brokenBytes) := by
  have hreach : Reachable brokenBytes := .decode (.slice (k := .char) _) _
  have hbounded := reachable_bounded hreach
  obtain ⟨n, ⟨units, stop, hgives, hn⟩, hruns⟩ := hbounded.collect
  obtain ⟨t, ht⟩ := reachable_shows hreach
  have hfour : Gives brokenBytes [0x68, 0x65, 0x6c, 0x6c]
      (.rejected .base16 ⟨.invalidCharacter, 8⟩) := rfl
  have hunits : units = [0x68, 0x65, 0x6c, 0x6c] :=
    (hgives.tape_eq ht).1.symm.trans (hfour.tape_eq ht).1
  exact ⟨hbounded, rfl, n, by rwa [hunits] at hn, hruns⟩

end Stacks

end BaseText.Proofs
