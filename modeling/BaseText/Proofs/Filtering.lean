import BaseText.Cursor.Filtered
import BaseText.Proofs.Tape

/-!
# Filtered cursors seen as tapes

Hiding units filters both sides of a tape. One place on the filtered tape belongs to many places of
the inner cursor, which moves over hidden units whenever it is asked for the next visible one.
Between the place where the inner cursor was wrapped and a place with a visible unit behind it,
a search backward ends at that unit.
-/

namespace BaseText.Proofs

variable {σ α β : Type}

/-- What is left of a tape when units are hidden, and nothing behind `seen` is looked at. -/
def visibleTape (hidden : α → Bool) (seen ahead : List α) (stop : Stop) : Tape α :=
  let before := seen.filter (!hidden ·)
  let after := ahead.filter (!hidden ·)
  ⟨before, after, stop.atOffset (before.length + after.length)⟩

section VisibleTape

variable {hidden : α → Bool} {u : α} (seen rest : List α) (stop : Stop)

lemma visibleTape_hidden (hu : hidden u = true) :
    visibleTape hidden (u :: seen) rest stop = visibleTape hidden seen (u :: rest) stop := by
  simp [visibleTape, hu]

lemma visibleTape_forth (hu : hidden u = false) :
    (visibleTape hidden seen (u :: rest) stop).forth =
      visibleTape hidden (u :: seen) rest stop := by
  simp [visibleTape, hu, Nat.add_assoc, Nat.add_comm 1]

lemma visibleTape_back (hu : hidden u = false) :
    (visibleTape hidden (u :: seen) rest stop).back = visibleTape hidden seen (u :: rest) stop := by
  simp [visibleTape, hu, Nat.add_assoc, Nat.add_comm 1]

end VisibleTape

/-- The inner cursor was wrapped behind `before` and has passed `seen` since, and `t` is the visible
part of what lies on both sides from there on. -/
structure FilterAt (R : σ → Tape α → Prop) (before seen ahead : List α) (stop : Stop)
    (s : Filtered σ α) (t : Tape α) : Prop where
  inner : R s.inner ⟨seen ++ before, ahead, stop⟩
  visible : t = visibleTape s.hidden seen ahead stop
  index : s.index = t.behind.length

/-- The visible part of a tape that the inner cursor stands on. -/
def FilterOf (R : σ → Tape α → Prop) (before : List α) (s : Filtered σ α) (t : Tape α) : Prop :=
  ∃ seen ahead stop, FilterAt R before seen ahead stop s t

/-- The visible part, with the inner cursor in front of the visible unit ahead. -/
def SettledAhead (R : σ → Tape α → Prop) (before : List α) (s : Filtered σ α) (t : Tape α) : Prop :=
  ∃ seen ahead stop, FilterAt R before seen ahead stop s t ∧ ∀ u ∈ ahead.head?, s.hidden u = false

/-- The visible part, with the inner cursor after the visible unit behind. -/
def SettledBack (R : σ → Tape α → Prop) (before : List α) (s : Filtered σ α) (t : Tape α) : Prop :=
  ∃ seen ahead stop, FilterAt R before seen ahead stop s t ∧ ∀ u ∈ seen.head?, s.hidden u = false

variable {R : σ → Tape α → Prop} {s : Filtered σ α} {t : Tape α} {before seen ahead : List α}
  {stop : Stop}

lemma Meets.insideFiltered {act : Action σ β} {result : Except CodingError β}
    {refused : List Event} {P : σ → Prop} (h : Meets act s.inner result refused P) :
    Meets (Filtered.inside act) s result refused
      fun s' => P s'.inner ∧ s'.hidden = s.hidden ∧ s'.index = s.index :=
  h.within fun _ hinner => ⟨hinner, rfl, rfl⟩

lemma FilterAt.of_inside {s' : Filtered σ α} (h : FilterAt R before seen ahead stop s t)
    (hinner : R s'.inner ⟨seen ++ before, ahead, stop⟩)
    (hs : s'.hidden = s.hidden ∧ s'.index = s.index) : FilterAt R before seen ahead stop s' t :=
  ⟨hinner, by rw [hs.1, h.visible], by rw [hs.2, h.index]⟩

variable [Cursor σ α]

/-- The search ahead meets the first visible unit, or the stop, and stays in front of it. -/
lemma filtered_skipAhead (hR : Simulation R) (fuel : Nat)
    (h : FilterAt R before seen ahead stop s t) (hfuel : ahead.length < fuel) :
    Meets (Filtered.skipAhead fuel) s t.more t.refusals (SettledAhead R before · t) := by
  induction fuel generalizing s seen ahead with
  | zero => omega
  | succ fuel ih =>
    have hinner := h.inner
    have hmore := (hR.hasNext hinner).insideFiltered
    unfold Filtered.skipAhead
    cases ahead with
    | nil =>
      have ht : t.more = stop.more ∧ t.refusals = stop.refusals := by
        rw [h.visible]
        cases stop <;> exact ⟨rfl, rfl⟩
      have hdone := fun s' (hs' : R s'.inner ⟨seen ++ before, [], stop⟩ ∧
          s'.hidden = s.hidden ∧ s'.index = s.index) =>
        (⟨seen, [], stop, h.of_inside hs'.1 hs'.2, by simp⟩ : SettledAhead R before s' t)
      rw [ht.1, ht.2]
      cases stop with
      | ended offset => exact hmore.bind fun s' hs' => .answer (hdone s' hs')
      | rejected codec e => exact hmore.bind_error.mono hdone
    | cons u rest =>
      apply hmore.bind
      intro s' hs'
      have h' := h.of_inside hs'.1 hs'.2
      have hpeek := (hR.peekNext hs'.1).insideFiltered
      apply hpeek.bind
      intro s'' hs''
      apply Meets.here
      have h'' := h'.of_inside hs''.1 hs''.2
      cases hu : s''.hidden u with
      | true =>
        rw [if_pos rfl]
        have hnext := (hR.next hs''.1).insideFiltered
        apply hnext.bind
        intro s₃ hs₃
        have hpast : FilterAt R before (u :: seen) rest stop s₃ t := by
          refine ⟨hs₃.1, ?_, ?_⟩
          · rw [hs₃.2.1, visibleTape_hidden _ _ _ hu, h''.visible]
          · rw [hs₃.2.2, h''.index]
        exact ih hpast (by simpa using hfuel)
      | false =>
        rw [if_neg (by simp)]
        have hahead : t.ahead = u :: rest.filter (!s''.hidden ·) := by
          rw [h''.visible]
          simp [visibleTape, hu]
        obtain ⟨hm, hr, -⟩ := Tape.look_of_cons hahead
        rw [hm, hr]
        exact .answer ⟨seen, u :: rest, stop, h'', by simpa using hu⟩

/-- The search back meets the last visible unit, which there is, and stays behind it. -/
lemma filtered_skipBack (hR : Simulation R) (fuel : Nat) (h : FilterAt R before seen ahead stop s t)
    (hfuel : seen.length < fuel) (hne : t.behind ≠ []) :
    Meets (Filtered.skipBack fuel) s (.ok true) [] (SettledBack R before · t) := by
  induction fuel generalizing s seen ahead with
  | zero => omega
  | succ fuel ih =>
    have hinner := h.inner
    cases seen with
    | nil => exact absurd (by rw [h.visible]; rfl) hne
    | cons u seen =>
      unfold Filtered.skipBack
      apply (hR.hasPrevious hinner).insideFiltered.bind
      intro s' hs'
      have h' := h.of_inside hs'.1 hs'.2
      have hpeek := (hR.peekPrevious hs'.1).insideFiltered
      apply hpeek.bind
      intro s'' hs''
      apply Meets.here
      have h'' := h'.of_inside hs''.1 hs''.2
      cases hu : s''.hidden u with
      | true =>
        rw [if_pos rfl]
        have hprevious := (hR.previous hs''.1).insideFiltered
        apply hprevious.bind
        intro s₃ hs₃
        have hpast : FilterAt R before seen (u :: ahead) stop s₃ t := by
          refine ⟨hs₃.1, ?_, ?_⟩
          · rw [hs₃.2.1, ← visibleTape_hidden _ _ _ hu, h''.visible]
          · rw [hs₃.2.2, h''.index]
        exact ih hpast (by simpa using hfuel)
      | false =>
        rw [if_neg (by simp)]
        exact .answer ⟨u :: seen, ahead, stop, h'', by simpa using hu⟩

lemma filtered_settleAhead (hR : Simulation R) (h : FilterOf R before s t) :
    Meets Filtered.settleAhead s t.more t.refusals (SettledAhead R before · t) := by
  obtain ⟨seen, ahead, stop, h⟩ := h
  have hinner := h.inner
  have hroom := hR.ahead_le hinner
  exact Meets.here (filtered_skipAhead hR _ h (Nat.lt_succ_of_le hroom))

lemma filtered_settleBack (hR : Simulation R) (h : FilterOf R before s t) :
    Meets Filtered.settleBack s (.ok !t.behind.isEmpty) []
      fun s' => FilterOf R before s' t ∧ (t.behind ≠ [] → SettledBack R before s' t) := by
  obtain ⟨seen, ahead, stop, hat⟩ := h
  have hi := hR.index hat.inner
  rw [List.length_append] at hi
  unfold Filtered.settleBack
  apply Meets.here
  by_cases hempty : t.behind = []
  · have hzero : s.index = 0 := by rw [hat.index, hempty]; rfl
    rw [if_pos hzero, hempty]
    exact .answer ⟨⟨seen, ahead, stop, hat⟩, fun hne => absurd rfl hne⟩
  · have hpos : s.index ≠ 0 := by rw [hat.index]; simpa using hempty
    have hsome : t.behind.isEmpty = false := by simpa using hempty
    rw [if_neg hpos, hsome]
    apply (filtered_skipBack hR _ hat (by omega) hempty).mono
    intro s' hs'
    obtain ⟨seen', ahead', stop', h', -⟩ := id hs'
    exact ⟨⟨seen', ahead', stop', h'⟩, fun _ => hs'⟩

omit [Cursor σ α] in
lemma SettledAhead.exists_cons {u : α} {rest : List α} (h : SettledAhead R before s t)
    (ht : t.ahead = u :: rest) : ∃ seen rest stop,
      R s.inner ⟨seen ++ before, u :: rest, stop⟩ ∧ s.hidden u = false ∧
      FilterAt R before seen (u :: rest) stop s t := by
  obtain ⟨seen, _ | ⟨v, ahead⟩, stop, hat, hv⟩ := h
  · rw [hat.visible] at ht
    simp [visibleTape] at ht
  · have hvisible : s.hidden v = false := hv v rfl
    have hu : v = u := by
      rw [hat.visible] at ht
      simpa [visibleTape, hvisible] using congrArg List.head? ht
    subst hu
    exact ⟨seen, ahead, stop, hat.inner, hvisible, hat⟩

omit [Cursor σ α] in
lemma SettledBack.exists_cons {u : α} {rest : List α} (h : SettledBack R before s t)
    (ht : t.behind = u :: rest) : ∃ seen ahead stop,
      R s.inner ⟨u :: seen ++ before, ahead, stop⟩ ∧ s.hidden u = false ∧
      FilterAt R before (u :: seen) ahead stop s t := by
  obtain ⟨_ | ⟨v, seen⟩, ahead, stop, hat, hv⟩ := h
  · rw [hat.visible] at ht
    simp [visibleTape] at ht
  · have hvisible : s.hidden v = false := hv v rfl
    have hu : v = u := by
      rw [hat.visible] at ht
      simpa [visibleTape, hvisible] using congrArg List.head? ht
    subst hu
    exact ⟨seen, ahead, stop, hat.inner, hvisible, hat⟩

omit [Cursor σ α] in
lemma FilterAt.index_of_end (h : FilterAt R before seen ahead stop s t) (hnil : t.ahead = [])
    {offset : Nat} (hstop : t.stop = .ended offset) : s.index = offset := by
  have hafter : ahead.filter (!s.hidden ·) = [] := by rw [← hnil, h.visible]; rfl
  rw [h.index]
  rw [h.visible] at hstop ⊢
  cases stop with
  | ended _ => simpa [visibleTape, Stop.atOffset, hafter] using hstop
  | rejected codec e => simp [visibleTape, Stop.atOffset] at hstop

lemma filtered_insideAhead (hR : Simulation R) (h : FilterOf R before s t) {act : Action σ α}
    {Q : Filtered σ α → Prop}
    (hact : ∀ u rest s', t.ahead = u :: rest → SettledAhead R before s' t →
      Meets (Filtered.inside act) s' (.ok u) [] Q)
    (hend : t.ahead = [] → ∀ s', FilterOf R before s' t → Q s') :
    Meets (Filtered.insideAhead act) s t.first t.refusals Q := by
  refine Meets.whenMore (filtered_settleAhead hR h) (fun u rest ht s' => hact u rest s' ht) ?_ ?_
  · rintro hnil s' ⟨seen, ahead, stop, hat, -⟩
    exact hend hnil s' ⟨seen, ahead, stop, hat⟩
  · rintro s' offset ⟨seen, ahead, stop, hat, -⟩ hnil hstop
    exact hat.index_of_end hnil hstop

lemma filtered_insideBack (hR : Simulation R) (h : FilterOf R before s t) {act : Action σ α}
    {Q : Filtered σ α → Prop}
    (hact : ∀ u rest s', t.behind = u :: rest → SettledBack R before s' t →
      Meets (Filtered.inside act) s' (.ok u) [] Q)
    (hstart : t.behind = [] → ∀ s', FilterOf R before s' t → Q s') :
    Meets (Filtered.insideBack act) s t.last [] Q := by
  refine Meets.whenAny (filtered_settleBack hR h) ?_ ?_
  · exact fun u rest ht s' hs' => hact u rest s' ht (hs'.2 (by rw [ht]; simp))
  · rintro hnil s' ⟨⟨seen, ahead, stop, hat⟩, -⟩
    exact ⟨hstart hnil s' ⟨seen, ahead, stop, hat⟩, hat.index.trans (by rw [hnil]; rfl)⟩

theorem filter_simulation (hR : Simulation R) : Simulation (FilterOf R before) := by
  constructor
  · rintro s t ⟨seen, ahead, stop, hat⟩
    exact hat.index
  · rintro s t ⟨seen, ahead, stop, hat⟩
    have hroom := hR.room hat.inner
    have hseen := List.length_filter_le (!s.hidden ·) seen
    have hahead := List.length_filter_le (!s.hidden ·) ahead
    rw [hat.visible]
    simp only [Tape.units, visibleTape, List.length_append, List.length_reverse] at hroom ⊢
    exact Nat.le_trans (by omega) hroom
  · intro s t h
    apply (filtered_settleAhead hR h).mono
    rintro s' ⟨seen, ahead, stop, hat, -⟩
    exact ⟨seen, ahead, stop, hat⟩
  · intro s t h
    exact (filtered_settleBack hR h).mono fun s' hs' => hs'.1
  · intro s t h
    refine filtered_insideAhead hR h ?_ (fun _ s' hs' => hs')
    intro u rest s' ht hs'
    obtain ⟨seen, rest, stop, hinner, -, hat⟩ := hs'.exists_cons ht
    exact (hR.peekNext hinner).insideFiltered.mono
      fun s'' hs'' => ⟨seen, u :: rest, stop, hat.of_inside hs''.1 hs''.2⟩
  · intro s t h
    refine filtered_insideBack hR h ?_ (fun _ s' hs' => hs')
    intro u rest s' ht hs'
    obtain ⟨seen, ahead, stop, hinner, -, hat⟩ := hs'.exists_cons ht
    exact (hR.peekPrevious hinner).insideFiltered.mono
      fun s'' hs'' => ⟨u :: seen, ahead, stop, hat.of_inside hs''.1 hs''.2⟩
  · intro s t h
    have hnext : Meets (Filtered.insideAhead Cursor.next) s t.first t.refusals fun s' =>
        if t.ahead = [] then FilterOf R before s' t
        else FilterOf R before { s' with index := s'.index + 1 } t.forth := by
      refine filtered_insideAhead hR h ?_ (fun hnil s' hs' => by rwa [if_pos hnil])
      intro u rest s' ht hs'
      obtain ⟨seen, rest, stop, hinner, hu, hat⟩ := hs'.exists_cons ht
      apply (hR.next hinner).insideFiltered.mono
      intro s'' hs''
      rw [if_neg (by rw [ht]; simp)]
      refine ⟨u :: seen, rest, stop, hs''.1, ?_, ?_⟩
      · rw [hat.visible, ← hs''.2.1, visibleTape_forth _ _ _ (hs''.2.1 ▸ hu)]
      · rw [hs''.2.2, hat.index, Tape.forth, ht]
        rfl
    refine hnext.countForth (fun u rest ht s' hs' => ?_) (fun hnil s' hs' => ?_)
    · rwa [if_neg (by rw [ht]; simp)] at hs'
    · rwa [if_pos hnil, ← Tape.forth_of_nil hnil] at hs'
  · intro s t h
    have hprevious : Meets (Filtered.insideBack Cursor.previous) s t.last [] fun s' =>
        if t.behind = [] then FilterOf R before s' t
        else FilterOf R before { s' with index := s'.index - 1 } t.back := by
      refine filtered_insideBack hR h ?_ (fun hnil s' hs' => by rwa [if_pos hnil])
      intro u rest s' ht hs'
      obtain ⟨seen, ahead, stop, hinner, hu, hat⟩ := hs'.exists_cons ht
      apply (hR.previous hinner).insideFiltered.mono
      intro s'' hs''
      rw [if_neg (by rw [ht]; simp)]
      refine ⟨seen, u :: ahead, stop, hs''.1, ?_, ?_⟩
      · rw [hat.visible, ← hs''.2.1, visibleTape_back _ _ _ (hs''.2.1 ▸ hu)]
      · rw [hs''.2.2, hat.index, Tape.back, ht]
        rfl
    refine hprevious.countBack (fun u rest ht s' hs' => ?_) (fun hnil s' hs' => ?_)
    · rwa [if_neg (by rw [ht]; simp)] at hs'
    · rwa [if_pos hnil, ← Tape.back_of_nil hnil] at hs'

instance [Viewed σ α] : Viewed (Filtered σ α) α where
  Shows s t := ∃ before, FilterOf Shows before s t
  simulation := .exists fun _ => filter_simulation simulation

theorem filter_shows [Viewed σ α] {s : σ} {t : Tape α} (h : Shows s t) (hidden : α → Bool) :
    Shows (Filtered.ofCursor s hidden) (visibleTape hidden [] t.ahead t.stop) :=
  ⟨t.behind, [], t.ahead, t.stop, h, rfl, rfl⟩

end BaseText.Proofs
