import BaseText.Cursor.Limited
import BaseText.Cursor.Delimited
import BaseText.Cursor.Mapped
import BaseText.Proofs.Tape

/-!
# Windows seen as tapes

An anchored cursor shows what lies ahead of the place where it was made. Limiting, delimiting and
mapping it takes the first units, takes the units up to a stop, and maps them. Each relation below
is made from one for the inner cursor, and is a simulation if that one is.
-/

namespace BaseText.Proofs

variable {σ α β : Type} {result : Except CodingError β} {refused : List Event}

section Inside

variable {act : Action σ β} {a : Anchored σ} {P : σ → Prop} {Q : Anchored σ → Prop}

lemma Meets.insideAnchored (h : Meets act a.inner result refused P)
    (hput : ∀ inner, P inner → Q { a with inner }) :
    Meets (Anchored.inside act) a result refused Q :=
  h.within hput

lemma Meets.insideAfterStart (hi : a.index ≠ 0) (h : Meets act a.inner result refused P)
    (hput : ∀ inner, P inner → Q { a with inner }) :
    Meets (Anchored.insideAfterStart act) a result refused Q := by
  unfold Anchored.insideAfterStart
  apply Meets.here
  rw [if_neg hi]
  exact h.insideAnchored hput

lemma Meets.insideAtStart (hi : a.index = 0) (h : Q a) :
    Meets (Anchored.insideAfterStart act) a (.error (.exhausted 0)) [] Q := by
  unfold Anchored.insideAfterStart
  apply Meets.here
  rw [if_pos hi]
  exact .exhausted hi h

end Inside

variable [Cursor σ α]

/-- The inner cursor stands on the tape `t` that begins `base` units after its own start, and the
index counts the units of `t` behind it. -/
def StandsOn (R : σ → Tape α → Prop) (base : Nat) (a : Anchored σ) (t : Tape α) : Prop :=
  ∃ before, R a.inner { t with behind := t.behind ++ before } ∧ before.length = base ∧
    a.index = t.behind.length

lemma StandsOn.innerIndex {R : σ → Tape α → Prop} (hR : Simulation R) {base : Nat}
    {a : Anchored σ} {t : Tape α} (h : StandsOn R base a t) :
    a.innerIndex = base + t.behind.length := by
  obtain ⟨before, hs, rfl, -⟩ := h
  rw [Anchored.innerIndex, hR.index hs]
  simp [Nat.add_comm]

theorem standsOn_simulation {R : σ → Tape α → Prop} (hR : Simulation R) (base : Nat) :
    Simulation (StandsOn R base) := by
  constructor
  · rintro a t ⟨before, -, -, hi⟩
    exact hi
  · rintro a t ⟨before, hs, -, -⟩
    have hroom := hR.room hs
    simp only [Tape.units, List.length_append, List.length_reverse] at hroom ⊢
    exact Nat.le_trans (by omega) hroom
  · rintro a t ⟨before, hs, hb, hi⟩
    exact (hR.hasNext hs).insideAnchored fun inner h => ⟨before, h, hb, hi⟩
  · rintro a ⟨_ | ⟨u, behind⟩, ahead, stop⟩ ⟨before, hs, hb, hi⟩
    · apply Meets.here
      rw [if_pos (show a.index = 0 from hi)]
      exact .answer ⟨before, hs, hb, hi⟩
    · apply Meets.here
      rw [if_neg (by simp [hi])]
      exact (hR.hasPrevious hs).insideAnchored fun inner h => ⟨before, h, hb, hi⟩
  · rintro a t ⟨before, hs, hb, hi⟩
    exact (hR.peekNext hs).insideAnchored fun inner h => ⟨before, h, hb, hi⟩
  · rintro a ⟨_ | ⟨u, behind⟩, ahead, stop⟩ ⟨before, hs, hb, hi⟩
    · exact .insideAtStart hi ⟨before, hs, hb, hi⟩
    · exact (hR.peekPrevious hs).insideAfterStart (by simp [hi])
        fun inner h => ⟨before, h, hb, hi⟩
  · rintro a ⟨behind, _ | ⟨u, rest⟩, stop⟩ ⟨before, hs, hb, hi⟩
    · apply Meets.bind_error
      exact (hR.next hs).insideAnchored fun inner h => ⟨before, h, hb, hi⟩
    · have hnext := (hR.next hs).insideAnchored (a := a)
        (Q := fun a' => R a'.inner ⟨u :: behind ++ before, rest, stop⟩ ∧ a'.index = a.index)
        fun inner h => ⟨h, rfl⟩
      exact hnext.change fun a' h => ⟨before, h.1, hb, by simp [h.2, hi]⟩
  · rintro a ⟨_ | ⟨u, behind⟩, ahead, stop⟩ ⟨before, hs, hb, hi⟩
    · apply Meets.bind_error
      exact .insideAtStart hi ⟨before, hs, hb, hi⟩
    · have hprevious := (hR.previous hs).insideAfterStart (by simp [hi])
        (Q := fun a' => R a'.inner ⟨behind ++ before, u :: ahead, stop⟩ ∧ a'.index = a.index)
        fun inner h => ⟨h, rfl⟩
      exact hprevious.change fun a' h => ⟨before, h.1, hb, by simp [h.2, hi]⟩

instance [Viewed σ α] : Viewed (Anchored σ) α where
  Shows a t := ∃ base, StandsOn Shows base a t
  simulation := .exists (standsOn_simulation simulation)

/-- A cursor that is wrapped where it stands shows what it has ahead. -/
theorem anchored_shows [Viewed σ α] {s : σ} {t : Tape α} (h : Shows s t) :
    Shows ({ inner := s } : Anchored σ) t.fresh :=
  ⟨t.behind.length, t.behind, h, rfl, rfl⟩

/-- The first `n` units. -/
def Tape.limit (n : Nat) (t : Tape α) : Tape α where
  behind := t.behind
  ahead := t.ahead.take (n - t.behind.length)
  stop := if n ≤ t.units.length then .ended n else t.stop

/-- The limit of a tape that the inner cursor stands on, not beyond the bound. -/
def LimitOf (R : Anchored σ → Tape α → Prop) (s : Limited σ) (t : Tape α) : Prop :=
  ∃ whole, R s.inner whole ∧ whole.behind.length ≤ s.bound ∧ t = whole.limit s.bound

section Limited

variable {n : Nat} {t : Tape α}

lemma limit_of_length_eq (h : t.behind.length = n) : t.limit n = ⟨t.behind, [], .ended n⟩ := by
  simp [Tape.limit, Tape.units, ← h]

lemma limit_forth (h : t.behind.length < n) : (t.limit n).forth = t.forth.limit n := by
  obtain ⟨behind, _ | ⟨u, rest⟩, stop⟩ := t
  · simp [Tape.limit, Tape.units]
  · have hn : n - behind.length = n - (behind.length + 1) + 1 := by simp at h; omega
    simp [Tape.limit, Tape.units, hn]

lemma limit_back (h : t.behind.length ≤ n) : (t.limit n).back = t.back.limit n := by
  obtain ⟨_ | ⟨u, behind⟩, ahead, stop⟩ := t
  · rfl
  · have hn : n - behind.length = n - (behind.length + 1) + 1 := by simp at h; omega
    simp [Tape.limit, Tape.units, hn]

lemma limit_look (h : t.behind.length < n) :
    (t.limit n).more = t.more ∧ (t.limit n).refusals = t.refusals ∧
      (t.limit n).first = t.first := by
  obtain ⟨behind, _ | ⟨u, rest⟩, stop⟩ := t
  · have hn : ¬ n ≤ behind.length := by simp at h; omega
    simp [Tape.limit, Tape.units, Tape.more, Tape.refusals, Tape.first, hn]
  · have hn : n - behind.length = n - (behind.length + 1) + 1 := by simp at h; omega
    simp [Tape.limit, Tape.more, Tape.refusals, Tape.first, hn]

end Limited

section Inside

variable {act : Action (Anchored σ) β} {s : Limited σ} {P : Anchored σ → Prop}
  {Q : Limited σ → Prop}

lemma Meets.insideLimited (h : Meets act s.inner result refused P)
    (hput : ∀ inner, P inner → Q { s with inner }) :
    Meets (Limited.inside act) s result refused Q :=
  h.within hput

lemma Meets.insideBound (hi : s.index < s.bound) (h : Meets act s.inner result refused P)
    (hput : ∀ inner, P inner → Q { s with inner }) :
    Meets (Limited.insideBound act) s result refused Q := by
  unfold Limited.insideBound
  apply Meets.here
  rw [if_neg (by omega)]
  exact h.insideLimited hput

lemma Meets.insideAtBound (hi : s.index = s.bound) (h : Q s) :
    Meets (Limited.insideBound act) s (.error (.exhausted s.bound)) [] Q := by
  unfold Limited.insideBound
  apply Meets.here
  rw [if_pos (by omega)]
  exact .exhausted hi h

end Inside

theorem limit_simulation {R : Anchored σ → Tape α → Prop} (hR : Simulation R) :
    Simulation (LimitOf R) := by
  constructor
  · rintro s t ⟨whole, hs, -, rfl⟩
    have hi := hR.index hs
    exact hi
  · rintro s t ⟨whole, hs, -, rfl⟩
    have hroom := hR.room hs
    simp only [Tape.units, Tape.limit, List.length_append, List.length_reverse,
      List.length_take] at hroom ⊢
    exact Nat.le_trans (by omega) hroom
  · rintro s t ⟨whole, hs, hle, rfl⟩
    have hi : s.index = whole.behind.length := hR.index hs
    apply Meets.here
    by_cases hfull : whole.behind.length = s.bound
    · rw [if_pos (by omega), limit_of_length_eq hfull]
      exact .answer ⟨whole, hs, hle, (limit_of_length_eq hfull).symm⟩
    · have hlook := limit_look (t := whole) (n := s.bound) (by omega)
      rw [if_neg (by omega), hlook.1, hlook.2.1]
      exact (hR.hasNext hs).insideLimited fun inner h => ⟨whole, h, hle, rfl⟩
  · rintro s t ⟨whole, hs, hle, rfl⟩
    exact (hR.hasPrevious hs).insideLimited fun inner h => ⟨whole, h, hle, rfl⟩
  · rintro s t ⟨whole, hs, hle, rfl⟩
    have hi : s.index = whole.behind.length := hR.index hs
    by_cases hfull : whole.behind.length = s.bound
    · rw [limit_of_length_eq hfull]
      exact .insideAtBound (by omega) ⟨whole, hs, hle, (limit_of_length_eq hfull).symm⟩
    · have hlook := limit_look (t := whole) (n := s.bound) (by omega)
      rw [hlook.2.1, hlook.2.2]
      exact (hR.peekNext hs).insideBound (by omega) fun inner h => ⟨whole, h, hle, rfl⟩
  · rintro s t ⟨whole, hs, hle, rfl⟩
    exact (hR.peekPrevious hs).insideLimited fun inner h => ⟨whole, h, hle, rfl⟩
  · rintro s t ⟨whole, hs, hle, rfl⟩
    have hi : s.index = whole.behind.length := hR.index hs
    by_cases hfull : whole.behind.length = s.bound
    · rw [limit_of_length_eq hfull]
      exact .insideAtBound (by omega) ⟨whole, hs, hle, (limit_of_length_eq hfull).symm⟩
    · have hlook := limit_look (t := whole) (n := s.bound) (by omega)
      have hlength : whole.forth.behind.length ≤ s.bound := by
        obtain ⟨behind, _ | ⟨u, rest⟩, stop⟩ := whole
        · exact hle
        · simp at hfull hle ⊢
          omega
      rw [hlook.2.1, hlook.2.2]
      exact (hR.next hs).insideBound (by omega)
        fun inner h => ⟨whole.forth, h, hlength, limit_forth (by omega)⟩
  · rintro s t ⟨whole, hs, hle, rfl⟩
    have hlength : whole.back.behind.length ≤ s.bound := by
      obtain ⟨_ | ⟨u, behind⟩, ahead, stop⟩ := whole
      · exact hle
      · simp at hle ⊢
        omega
    exact (hR.previous hs).insideLimited
      fun inner h => ⟨whole.back, h, hlength, limit_back hle⟩

instance [Viewed σ α] : Viewed (Limited σ) α where
  Shows := LimitOf Shows
  simulation := limit_simulation simulation

theorem limit_shows [Viewed σ α] {s : σ} {t : Tape α} (h : Shows s t) (bound : Nat) :
    Shows (Limited.ofCursor s bound) (t.fresh.limit bound) :=
  ⟨t.fresh, anchored_shows h, Nat.zero_le _, rfl⟩

section Delimited

variable [DecidableEq α]

/-- The units in front of the first stop. -/
def Tape.delimit (stops : List α) (t : Tape α) : Tape α :=
  let shown := t.ahead.takeWhile (· ∉ stops)
  let offset := t.behind.length + shown.length
  { behind := t.behind
    ahead := shown
    stop := if shown.length = t.ahead.length then t.stop.atOffset offset else .ended offset }

variable (behind rest stops : List α) (u : α) (stop : Stop)

lemma delimit_nil :
    Tape.delimit stops ⟨behind, [], stop⟩ = ⟨behind, [], stop.atOffset behind.length⟩ := by
  simp [Tape.delimit]

lemma delimit_of_mem (h : u ∈ stops) :
    Tape.delimit stops ⟨behind, u :: rest, stop⟩ = ⟨behind, [], .ended behind.length⟩ := by
  simp [Tape.delimit, h]

lemma delimit_of_not_mem (h : u ∉ stops) :
    Tape.delimit stops ⟨behind, u :: rest, stop⟩ =
      (Tape.delimit stops ⟨u :: behind, rest, stop⟩).back := by
  simp [Tape.delimit, h, Nat.add_assoc, Nat.add_comm 1]

lemma delimit_forth (h : u ∉ stops) :
    (Tape.delimit stops ⟨behind, u :: rest, stop⟩).forth =
      Tape.delimit stops ⟨u :: behind, rest, stop⟩ := by
  rw [delimit_of_not_mem _ _ _ _ _ h]
  rfl

lemma exists_of_delimit {t : Tape α} (h : (t.delimit stops).ahead = u :: rest) :
    ∃ more, t = ⟨t.behind, u :: more, t.stop⟩ ∧ u ∉ stops := by
  obtain ⟨behind, _ | ⟨v, more⟩, stop⟩ := t
  · simp [Tape.delimit] at h
  · by_cases hv : v ∈ stops
    · simp [Tape.delimit, hv] at h
    · have hu : v = u := by simpa [Tape.delimit, hv] using congrArg List.head? h
      exact ⟨more, by rw [hu], hu ▸ hv⟩

lemma delimit_stop {t : Tape α} {offset : Nat} (hnil : (t.delimit stops).ahead = [])
    (h : (t.delimit stops).stop = .ended offset) : offset = t.behind.length := by
  obtain ⟨behind, ahead, stop⟩ := t
  simp only [Tape.delimit] at hnil h ⊢
  rw [hnil] at h
  simp only [List.length_nil, Nat.add_zero] at h
  split at h
  · exact (Stop.offset_of_ended h).symm
  · simpa using h.symm

lemma delimit_back (t : Tape α) (h : ∀ u ∈ t.behind, u ∉ stops) :
    (t.delimit stops).back = t.back.delimit stops := by
  obtain ⟨_ | ⟨u, behind⟩, ahead, stop⟩ := t
  · rfl
  · exact (delimit_of_not_mem behind ahead stops u stop (h u (by simp))).symm

/-- The front of a tape that the inner cursor stands on, up to a stop that is still ahead. -/
def DelimitOf (R : Anchored σ → Tape α → Prop) (s : Delimited σ α) (t : Tape α) : Prop :=
  ∃ whole, R s.inner whole ∧ (∀ u ∈ whole.behind, u ∉ s.stops) ∧ t = whole.delimit s.stops

variable {R : Anchored σ → Tape α → Prop} {s : Delimited σ α} {t whole : Tape α}

omit [DecidableEq α] [Cursor σ α] in
lemma Meets.insideDelimited {act : Action (Anchored σ) β} {P : Anchored σ → Prop}
    (h : Meets act s.inner result refused P) :
    Meets (Delimited.inside act) s result refused fun s' => P s'.inner ∧ s'.stops = s.stops :=
  h.within fun _ hinner => ⟨hinner, rfl⟩

lemma delimited_ready (hR : Simulation R) (h : DelimitOf R s t) :
    Meets Delimited.ready s t.more t.refusals (DelimitOf R · t) := by
  obtain ⟨⟨behind, ahead, stop⟩, hs, hclear, rfl⟩ := h
  -- Looking ahead in the inner cursor keeps the whole tape and the stops.
  have hkeep : ∀ s' : Delimited σ α, R s'.inner ⟨behind, ahead, stop⟩ ∧ s'.stops = s.stops →
      DelimitOf R s' (Tape.delimit s.stops ⟨behind, ahead, stop⟩) := by
    rintro s' ⟨h, hstops⟩
    exact ⟨_, h, by rwa [hstops], by rw [hstops]⟩
  have hmore := (hR.hasNext hs).insideDelimited
  unfold Delimited.ready
  cases ahead with
  | nil =>
    rw [delimit_nil] at hkeep ⊢
    cases stop with
    | ended offset => exact hmore.bind fun s' h => .answer (hkeep s' h)
    | rejected codec e => exact hmore.bind_error.mono hkeep
  | cons u rest =>
    apply hmore.bind
    intro s' h
    have hpeek := (hR.peekNext h.1).insideDelimited
    apply hpeek.bind
    intro s'' h'
    apply Meets.here
    have hstops : s''.stops = s.stops := h'.2.trans h.2
    have hdone := hkeep s'' ⟨h'.1, hstops⟩
    rw [hstops]
    by_cases hu : u ∈ s.stops
    · rw [delimit_of_mem _ _ _ _ _ hu] at hdone ⊢
      simp only [hu, not_true, decide_false]
      exact .answer hdone
    · have hcons : (Tape.delimit s.stops ⟨behind, u :: rest, stop⟩).ahead =
          u :: (Tape.delimit s.stops ⟨behind, u :: rest, stop⟩).forth.ahead := by
        rw [delimit_of_not_mem _ _ _ _ _ hu]
        rfl
      rw [Tape.more, Tape.refusals, hcons]
      simp only [hu, not_false_eq_true, decide_true]
      exact .answer hdone

theorem delimit_simulation (hR : Simulation R) :
    Simulation (DelimitOf R : Delimited σ α → Tape α → Prop) := by
  constructor
  · rintro s t ⟨whole, hs, -, rfl⟩
    have hi := hR.index hs
    exact hi
  · rintro s t ⟨whole, hs, -, rfl⟩
    have hroom := hR.room hs
    have htake := (List.takeWhile_prefix (· ∉ s.stops) (l := whole.ahead)).length_le
    simp only [Tape.units, Tape.delimit, List.length_append] at hroom ⊢
    exact Nat.le_trans (by omega) hroom
  · exact fun h => delimited_ready hR h
  · rintro s t ⟨whole, hs, hclear, rfl⟩
    exact (hR.hasPrevious hs).insideDelimited.mono
      fun s' h => ⟨whole, h.1, h.2 ▸ hclear, by rw [h.2]⟩
  · intro s t h
    refine Meets.whenMore (delimited_ready hR h) ?_ (fun _ s' h => h) ?_
    · rintro u rest hu s' ⟨whole, hs, hclear, rfl⟩
      obtain ⟨more, hwhole, -⟩ := exists_of_delimit _ _ _ hu
      have hpeek := (hR.peekNext hs).insideDelimited
      rw [hwhole] at hpeek
      exact hpeek.mono fun s'' h => ⟨whole, hwhole ▸ h.1, h.2 ▸ hclear, by rw [h.2]⟩
    · rintro s' offset ⟨whole, hs, -, rfl⟩ hnil hstop
      rw [delimit_stop _ hnil hstop]
      exact hR.index hs
  · rintro s t ⟨whole, hs, hclear, rfl⟩
    exact (hR.peekPrevious hs).insideDelimited.mono
      fun s' h => ⟨whole, h.1, h.2 ▸ hclear, by rw [h.2]⟩
  · intro s t h
    refine Meets.whenMore (delimited_ready hR h) ?_ ?_ ?_
    · rintro u rest hu s' ⟨whole, hs, hclear, rfl⟩
      obtain ⟨more, hwhole, hu⟩ := exists_of_delimit _ _ _ hu
      have hnext := (hR.next hs).insideDelimited
      rw [hwhole] at hnext hclear ⊢
      rw [delimit_forth _ _ _ _ _ hu]
      refine hnext.mono fun s'' h => ⟨_, h.1, ?_, by rw [h.2]; rfl⟩
      simpa [h.2, hu] using hclear
    · exact fun hnil s' h => by rwa [Tape.forth_of_nil hnil]
    · rintro s' offset ⟨whole, hs, -, rfl⟩ hnil hstop
      rw [delimit_stop _ hnil hstop]
      exact hR.index hs
  · rintro s t ⟨whole, hs, hclear, rfl⟩
    rw [delimit_back _ _ hclear]
    refine (hR.previous hs).insideDelimited.mono
      fun s' h => ⟨whole.back, h.1, ?_, by rw [h.2]⟩
    obtain ⟨_ | ⟨u, behind⟩, ahead, stop⟩ := whole
    · simp
    · simpa [h.2] using fun v hv => hclear v (by simp [hv])

end Delimited

instance [Viewed σ α] [DecidableEq α] : Viewed (Delimited σ α) α where
  Shows := DelimitOf Shows
  simulation := delimit_simulation simulation

theorem delimit_shows [Viewed σ α] [DecidableEq α] {s : σ} {t : Tape α} (h : Shows s t)
    (stops : List α) : Shows (Delimited.ofCursor s stops) (t.fresh.delimit stops) :=
  ⟨t.fresh, anchored_shows h, fun _ hu => absurd hu List.not_mem_nil, rfl⟩

/-- The tape with every unit replaced. -/
def Tape.map (f : α → β) (t : Tape α) : Tape β :=
  ⟨t.behind.map f, t.ahead.map f, t.stop⟩

section Mapped

variable {τ : Type} [Cursor τ UInt8] {R : Anchored τ → Tape UInt8 → Prop}

/-- The inner cursor stands on a tape whose bytes the table turns into those of `t`. -/
def MapOf (R : Anchored τ → Tape UInt8 → Prop) (s : Mapped τ) (t : Tape UInt8) : Prop :=
  ∃ whole, R s.inner whole ∧ t = whole.map s.table.apply

omit [Cursor τ UInt8] in
lemma Meets.insideMap {act : Action (Anchored τ) β} {s : Mapped τ} {P : Anchored τ → Prop}
    (h : Meets act s.inner result refused P) :
    Meets (Mapped.inside act) s result refused fun s' => P s'.inner ∧ s'.table = s.table :=
  h.within fun _ hinner => ⟨hinner, rfl⟩

omit [Cursor τ UInt8] in
lemma Meets.insideMapped {act : Action (Anchored τ) UInt8} {s : Mapped τ} {P : Anchored τ → Prop}
    {result : Except CodingError UInt8} (h : Meets act s.inner result refused P)
    (hlog : ∀ b, result = .ok b → refused = []) :
    Meets (Mapped.insideMapped act) s (result.map s.table.apply) refused
      fun s' => P s'.inner ∧ s'.table = s.table := by
  have hinside := h.insideMap (s := s)
  unfold Mapped.insideMapped
  cases result with
  | ok b =>
    rw [hlog b rfl] at hinside ⊢
    exact hinside.bind fun s' hs' => Meets.here (hs'.2 ▸ .answer ⟨hs'.1, rfl⟩)
  | error e => exact hinside.bind_error

lemma map_look (f : α → β) (t : Tape α) : (t.map f).more = t.more ∧
    (t.map f).refusals = t.refusals ∧ (t.map f).first = t.first.map f ∧
    (t.map f).last = t.last.map f ∧ (t.map f).forth = t.forth.map f ∧
    (t.map f).back = t.back.map f := by
  obtain ⟨_ | ⟨v, behind⟩, _ | ⟨u, rest⟩, stop⟩ := t <;> exact ⟨rfl, rfl, rfl, rfl, rfl, rfl⟩

lemma refusals_of_first {t : Tape α} {u : α} (h : t.first = .ok u) : t.refusals = [] := by
  obtain ⟨behind, _ | ⟨v, rest⟩, stop⟩ := t
  · simp [Tape.first] at h
  · rfl

theorem map_simulation (hR : Simulation R) : Simulation (MapOf R) := by
  constructor
  · rintro s t ⟨whole, hs, rfl⟩
    rw [Tape.map, List.length_map]
    exact hR.index hs
  · rintro s t ⟨whole, hs, rfl⟩
    have hroom := hR.room hs
    simp only [Tape.units, Tape.map, List.length_append, List.length_reverse,
      List.length_map] at hroom ⊢
    exact hroom
  · rintro s t ⟨whole, hs, rfl⟩
    obtain ⟨hmore, hrefusals, -⟩ := map_look s.table.apply whole
    rw [hmore, hrefusals]
    exact (hR.hasNext hs).insideMap.mono fun s' h => ⟨whole, h.1, by rw [h.2]⟩
  · rintro s t ⟨whole, hs, rfl⟩
    rw [Tape.map, List.isEmpty_map]
    exact (hR.hasPrevious hs).insideMap.mono fun s' h => ⟨whole, h.1, by rw [h.2]; rfl⟩
  · rintro s t ⟨whole, hs, rfl⟩
    obtain ⟨-, hrefusals, hfirst, -⟩ := map_look s.table.apply whole
    rw [hrefusals, hfirst]
    exact ((hR.peekNext hs).insideMapped fun _ => refusals_of_first).mono
      fun s' h => ⟨whole, h.1, by rw [h.2]⟩
  · rintro s t ⟨whole, hs, rfl⟩
    obtain ⟨-, -, -, hlast, -⟩ := map_look s.table.apply whole
    rw [hlast]
    exact ((hR.peekPrevious hs).insideMapped fun _ _ => rfl).mono
      fun s' h => ⟨whole, h.1, by rw [h.2]⟩
  · rintro s t ⟨whole, hs, rfl⟩
    obtain ⟨-, hrefusals, hfirst, -, hforth, -⟩ := map_look s.table.apply whole
    rw [hrefusals, hfirst, hforth]
    exact ((hR.next hs).insideMapped fun _ => refusals_of_first).mono
      fun s' h => ⟨whole.forth, h.1, by rw [h.2]⟩
  · rintro s t ⟨whole, hs, rfl⟩
    obtain ⟨-, -, -, hlast, -, hback⟩ := map_look s.table.apply whole
    rw [hlast, hback]
    exact ((hR.previous hs).insideMapped fun _ _ => rfl).mono
      fun s' h => ⟨whole.back, h.1, by rw [h.2]⟩

end Mapped

instance [Cursor σ UInt8] [Viewed σ UInt8] : Viewed (Mapped σ) UInt8 where
  Shows := MapOf Shows
  simulation := map_simulation simulation

theorem map_shows [Cursor σ UInt8] [Viewed σ UInt8] {s : σ} {t : Tape UInt8} (h : Shows s t)
    (table : ByteTable) : Shows (Mapped.ofCursor s table) (t.fresh.map table.apply) :=
  ⟨t.fresh, anchored_shows h, rfl⟩

end BaseText.Proofs
