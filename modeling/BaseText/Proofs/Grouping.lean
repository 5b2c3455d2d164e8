import BaseText.Proofs.Unrolling

/-!
# Grouped cursors seen as tapes

A grouped cursor is a place in the list that the groups of its source become. Wherever it stands in
the source, it holds a group that was read there, and the groups in front of that one are complete.
Reading a group follows `readGroup` step by step; looking ahead and looking back each come down to
reading one group.
-/

namespace BaseText.Proofs

variable {ρ σ α β γ : Type}

section Source

variable [Cursor σ α]

/-- The source has passed `n` of the units that were ahead of it. -/
def SourceAt (R : σ → Tape α → Prop) (base : Nat) (source : Tape α) (n : Nat) (a : Anchored σ) :
    Prop :=
  n ≤ source.ahead.length ∧ StandsOn R base a (source.place n)

variable {R : σ → Tape α → Prop} {base n m : Nat} {source : Tape α} {u : α} {a : Anchored σ}

lemma SourceAt.index (hR : Simulation R) (h : SourceAt R base source n a) :
    Anchored.index a = n :=
  ((standsOn_simulation hR base).index h.2).trans (Tape.place_index h.1)

lemma SourceAt.innerIndex (hR : Simulation R) (h : SourceAt R base source n a) :
    Anchored.innerIndex a = base + n := by
  rw [h.2.innerIndex hR, Tape.place_index h.1]

lemma SourceAt.hasNext (hR : Simulation R) (h : SourceAt R base source n a) :
    Meets Cursor.hasNext a (source.place n).more (source.place n).refusals
      (SourceAt R base source n) :=
  ((standsOn_simulation hR base).hasNext h.2).mono fun _ hs => ⟨h.1, hs⟩

lemma SourceAt.next (hR : Simulation R) (h : SourceAt R base source n a)
    (hu : source.ahead[n]? = some u) :
    Meets Cursor.next a (.ok u) [] (SourceAt R base source (n + 1)) := by
  have hstep := (standsOn_simulation hR base).next h.2
  obtain ⟨-, hrefusals, hfirst⟩ := Tape.look_of_cons (Tape.place_ahead hu)
  rw [hrefusals, hfirst, Tape.place_forth hu] at hstep
  exact hstep.mono fun _ hs => ⟨(List.getElem?_eq_some_iff.1 hu).1, hs⟩

lemma SourceAt.previous (hR : Simulation R) (h : SourceAt R base source (n + 1) a) :
    ∃ u, Meets Cursor.previous a (.ok u) [] (SourceAt R base source n) := by
  have hn : n < source.ahead.length := h.1
  have hu : source.ahead[n]? = some source.ahead[n] := List.getElem?_eq_getElem hn
  have hstep := (standsOn_simulation hR base).previous h.2
  rw [Tape.place_back hu, Tape.last, Tape.place_behind hu] at hstep
  exact ⟨_, hstep.mono fun _ hs => ⟨Nat.le_of_succ_le h.1, hs⟩⟩

lemma SourceAt.stepBack (hR : Simulation R) (h : SourceAt R base source (n + m) a) :
    Meets (Anchored.stepBack m) a (.ok ()) [] (SourceAt R base source n) := by
  induction m generalizing a with
  | zero => exact .answer h
  | succ m ih =>
    obtain ⟨u, hu⟩ := SourceAt.previous (n := n + m) hR h
    exact hu.bind fun _ hs => ih hs

/-- Seeking a place that has been passed moves back to it and never fails. -/
lemma SourceAt.seek (hR : Simulation R) (h : SourceAt R base source n a) (hm : m ≤ n) :
    Meets (Anchored.seek m) a (.ok ()) [] (SourceAt R base source m) := by
  unfold Anchored.seek
  apply Meets.here
  have hback := SourceAt.stepBack (n := m) (m := n - m) (a := a) hR
    (by rwa [Nat.add_sub_cancel' hm])
  rw [h.index hR]
  apply hback.bind
  intro a' h'
  apply Meets.here
  rw [h'.index hR, Nat.sub_self]
  exact .answer h'

end Source

section Reading

variable {R : σ → Tape α → Prop} {base n m : Nat} {source : Tape α} {s : Grouped ρ σ β}

/-- The same cursor, with its source at place `n`. -/
def Moved (R : σ → Tape α → Prop) (base : Nat) (source : Tape α) (s : Grouped ρ σ β) (n : Nat)
    (s' : Grouped ρ σ β) : Prop :=
  SourceAt R base source n s'.source ∧ s' = { s with source := s'.source }

lemma Moved.code_eq {s' : Grouped ρ σ β} (h : Moved R base source s n s') : s'.code = s.code := by
  rw [h.2]

lemma Moved.trans {s' s'' : Grouped ρ σ β} (h : Moved R base source s n s')
    (h' : Moved R base source s' m s'') : Moved R base source s m s'' :=
  ⟨h'.1, by rw [h'.2, h.2]⟩

lemma Meets.insideGrouped {act : Action (Anchored σ) γ} {result : Except CodingError γ}
    {refused : List Event} (h : Meets act s.source result refused (SourceAt R base source n)) :
    Meets (Grouped.inside act) s result refused (Moved R base source s n) :=
  h.within fun _ hinner => ⟨hinner, rfl⟩

variable [GroupCode ρ α β] [LawfulCode ρ]

lemma Meets.reject (cause : Cause) (offset : Nat) {P : Grouped ρ σ β → Prop} (h : P s) :
    Meets (Grouped.reject cause offset : Action (Grouped ρ σ β) γ) s (.error ⟨cause, offset⟩)
      [.rejected (LawfulCode.codec s.code) ⟨cause, offset⟩] P := by
  refine ⟨rfl, ?_, h⟩
  change rejections [GroupCode.rejected s.code ⟨cause, offset⟩] = _
  rw [LawfulCode.rejected_eq]
  rfl

variable [Cursor σ α]

/-- Reading units follows `readAhead`. -/
lemma grouped_readUnits (hR : Simulation R) (h : SourceAt R base source n s.source)
    {seen : List α} {left : Nat} {read : Except Refusal (List α)}
    (hread : readAhead s.code source.stop (base + n) seen left (source.ahead.drop n) = read) :
    Meets (Grouped.readUnits seen left) s (answerOf ((seen ++ ·) <$> read)) (refusedBy read)
      fun s' => ∃ m, n ≤ m ∧ m ≤ n + left ∧ Moved R base source s m s' ∧
        ∀ group, read = .ok group → m = n + group.length := by
  induction left generalizing s n seen read with
  | zero =>
    subst hread
    change Meets (pure seen) s (.ok (seen ++ [])) [] _
    rw [List.append_nil]
    exact .answer ⟨n, Nat.le_refl n, Nat.le_refl n, ⟨h, rfl⟩, by rintro group ⟨⟩; rfl⟩
  | succ left ih =>
    have hmore := (h.hasNext hR).insideGrouped
    unfold Grouped.readUnits
    apply Meets.here
    cases hahead : source.ahead.drop n with
    | nil =>
      rw [Tape.more, Tape.refusals, Tape.place, hahead] at hmore
      cases hstop : source.stop with
      | ended offset =>
        rw [hahead, hstop, readAhead] at hread
        rw [hstop] at hmore
        subst hread
        apply hmore.bind
        intro s' hs'
        change Meets (pure seen) s' (.ok (seen ++ [])) [] _
        rw [List.append_nil]
        exact .answer ⟨n, Nat.le_refl n, Nat.le_add_right _ _, hs', by rintro group ⟨⟩; rfl⟩
      | rejected codec e =>
        rw [hahead, hstop, readAhead] at hread
        rw [hstop] at hmore
        subst hread
        exact hmore.bind_error.mono fun s' hs' =>
          ⟨n, Nat.le_refl n, Nat.le_add_right _ _, hs', by rintro group ⟨⟩⟩
    | cons u rest =>
      have hu : source.ahead[n]? = some u := by
        rw [← List.head?_drop, hahead]
        rfl
      obtain ⟨hm, hr, -⟩ := Tape.look_of_cons (Tape.place_ahead hu)
      rw [hm, hr] at hmore
      apply hmore.bind
      intro s' hs'
      have hnext := (hs'.1.next hR hu).insideGrouped
      apply hnext.bind
      intro s'' hs''
      have hmoved := hs'.trans hs''
      rw [hahead, readAhead] at hread
      cases hrefuse : GroupCode.refuse? s.code seen u with
      | some cause =>
        simp only [hrefuse] at hread
        subst hread
        rw [← hmoved.code_eq, ← h.innerIndex hR]
        exact .reject _ _ ⟨n + 1, Nat.le_succ n, by omega, hmoved, by rintro group ⟨⟩⟩
      | none =>
        have hrest : source.ahead.drop (n + 1) = rest := by
          rw [← List.drop_drop, hahead]
          rfl
        simp only [hrefuse] at hread
        have hrest' : readAhead s''.code source.stop (base + (n + 1)) (seen ++ [u]) left
            (source.ahead.drop (n + 1)) =
              readAhead s.code source.stop (base + n + 1) (seen ++ [u]) left rest := by
          rw [hmoved.code_eq, hrest]
          rfl
        have htail := ih hs''.1 hrest'
        subst hread
        revert htail
        generalize readAhead s.code source.stop (base + n + 1) (seen ++ [u]) left rest = tail
        intro htail
        cases tail with
        | ok group =>
          change Meets (Grouped.readUnits (seen ++ [u]) left) s'' (.ok (seen ++ u :: group)) [] _
          have hcons : seen ++ u :: group = seen ++ [u] ++ group := by simp
          rw [hcons]
          apply htail.mono
          rintro s₃ ⟨m, hm, hleft, hs₃, hlength⟩
          refine ⟨m, Nat.le_of_succ_le hm, by omega, hmoved.trans hs₃, ?_⟩
          rintro _ ⟨⟩
          rw [hlength group rfl, List.length_cons]
          omega
        | error refusal =>
          apply htail.mono
          rintro s₃ ⟨m, hm, hleft, hs₃, -⟩
          exact ⟨m, Nat.le_of_succ_le hm, by omega, hmoved.trans hs₃, by rintro group ⟨⟩⟩

/-- The group at hand is put in place. -/
def holding (s : Grouped ρ σ β) (start : Nat) (piece : Piece β) (atEnd : Bool) :
    Grouped ρ σ β :=
  { s with
    group := { start, span := piece.span, units := piece.units, ending := piece.ending }
    passed := if atEnd then piece.units.length else 0 }

/-- What a reading of the group at `start` leaves of the cursor `s`. -/
inductive Loaded (R : σ → Tape α → Prop) (base : Nat) (source : Tape α) (s : Grouped ρ σ β)
    (start : Nat) (atEnd : Bool) : Except Refusal (Option (Piece β)) → Grouped ρ σ β → Prop
  | held {piece : Piece β} {s' : Grouped ρ σ β}
    (h : Moved R base source (holding s start piece atEnd) (start + piece.span) s') :
    Loaded R base source s start atEnd (.ok (some piece)) s'
  | nothing {s' : Grouped ρ σ β} (h : Moved R base source s start s') :
    Loaded R base source s start atEnd (.ok none) s'
  | refused {n : Nat} {refusal : Refusal} {s' : Grouped ρ σ β} (hn : start ≤ n)
    (hsize : n ≤ start + GroupCode.size s.code) (h : Moved R base source s n s') :
    Loaded R base source s start atEnd (.error refusal) s'

/-- Loading a group that starts at or before the place of the source follows `readGroup`. -/
lemma grouped_load (hR : Simulation R) (h : SourceAt R base source n s.source) {start : Nat}
    (hstart : start ≤ n) (atEnd : Bool) {read : Except Refusal (Option (Piece β))}
    (hread : readGroup s.code (base + start) (source.ahead.drop start) source.stop = read) :
    Meets (Grouped.load start atEnd) s (answerOf (Option.isSome <$> read)) (refusedBy read)
      (Loaded R base source s start atEnd read) := by
  unfold Grouped.load
  have hseek := (h.seek hR hstart).insideGrouped
  apply hseek.bind
  intro s' hs'
  apply Meets.here
  rw [hs'.code_eq]
  have hunits := grouped_readUnits hR hs'.1 (rfl : readAhead s'.code source.stop (base + start) []
    (GroupCode.size s.code) (source.ahead.drop start) = _)
  rw [hs'.code_eq] at hunits
  cases hr : readAhead s.code source.stop (base + start) [] (GroupCode.size s.code)
    (source.ahead.drop start) with
  | error refusal =>
    obtain rfl : .error refusal = read := by simpa [readGroup, hr] using hread
    rw [hr] at hunits
    apply hunits.bind_error.mono
    rintro s'' ⟨m, hm, hsize, hs'', -⟩
    exact .refused hm hsize (hs'.trans hs'')
  | ok group =>
    rw [hr] at hunits
    apply hunits.bind
    rintro s'' ⟨m, -, hsize, hs'', hlength⟩
    obtain rfl := hlength group rfl
    have hmoved := hs'.trans hs''
    cases group with
    | nil =>
      obtain rfl : .ok none = read := by simpa [readGroup, hr] using hread
      exact .answer (.nothing hmoved)
    | cons u more =>
      apply Meets.here
      simp only [List.nil_append]
      rw [hmoved.code_eq]
      cases hclose : GroupCode.close s.code (u :: more) with
      | error cause =>
        obtain rfl : .error ⟨LawfulCode.codec s.code, ⟨cause, base + start + (u :: more).length⟩⟩ =
            read := by simpa [readGroup, hr, hclose] using hread
        rw [← hmoved.code_eq, Nat.add_assoc, ← hmoved.1.innerIndex hR]
        exact .reject _ _ (.refused (Nat.le_add_right _ _) hsize hmoved)
      | ok closed =>
        obtain rfl : .ok (some ⟨(u :: more).length, closed.1, closed.2⟩) = read := by
          simpa [readGroup, hr, hclose] using hread
        refine Meets.changed (.answer (.held ⟨hmoved.1, ?_⟩))
        rw [hmoved.2]
        rfl

end Reading

section Groups

variable [GroupCode ρ α β] [LawfulCode ρ]

/-- The group was read at its start, or is the empty one in front of all groups. -/
def Holds (code : ρ) (base : Nat) (source : Tape α) (g : Group β) : Prop :=
  g = {} ∨ readGroup code (base + g.start) (source.ahead.drop g.start) source.stop =
    .ok (some ⟨g.span, g.units, g.ending⟩)

/-- The cursor holds a group, and has passed `i` units counted from the first group. -/
structure GroupsAt (R : σ → Tape α → Prop) (base : Nat) (code : ρ) (source : Tape α) (i : Nat)
    (s : Grouped ρ σ β) : Prop where
  code_eq : s.code = code
  stands : ∃ n, SourceAt R base source n s.source ∧ s.group.start + s.group.span ≤ n
  holds : Holds code base source s.group
  passed : s.passed ≤ s.group.units.length
  reaches : ∃ done, Reaches code base source.ahead source.stop s.group.start done ∧
    i = done.length + s.passed

/-- What the groups of a source become, with `i` units passed. -/
def groupTape (code : ρ) (base : Nat) (source : Tape α) (i : Nat) : Tape β :=
  (unroll code base source.ahead source.stop).counted.place i

variable {R : σ → Tape α → Prop} {base i : Nat} {code : ρ} {source : Tape α} {g : Group β}
  {s : Grouped ρ σ β} {done : List β}

/-- What follows the group at hand. -/
abbrev afterGroup (code : ρ) (base : Nat) (source : Tape α) (g : Group β) : Tape β :=
  (⟨g.span, g.units, g.ending⟩ : Piece β).next code (base + g.start) (source.ahead.drop g.start)
    source.stop

lemma Holds.unroll_eq (h : Holds code base source g)
    (hreaches : Reaches code base source.ahead source.stop g.start done) :
    (unroll code base source.ahead source.stop).ahead =
        done ++ g.units ++ (afterGroup code base source g).ahead ∧
      (unroll code base source.ahead source.stop).stop = (afterGroup code base source g).stop := by
  obtain ⟨hahead, hstop⟩ := hreaches.unroll_eq
  obtain rfl | hread := h
  · simpa [Piece.next] using And.intro hahead hstop
  · obtain ⟨hpiece, hpiece'⟩ := unroll_of_piece hread
    rw [hahead, hstop, hpiece, hpiece', List.append_assoc]
    exact ⟨rfl, rfl⟩

lemma Holds.reaches (h : Holds code base source g) (hmore : g.ending = .more)
    (hreaches : Reaches code base source.ahead source.stop g.start done) :
    Reaches code base source.ahead source.stop (g.start + g.span) (done ++ g.units) := by
  obtain rfl | hread := h
  · simpa using hreaches
  · exact hreaches.step (hmore ▸ hread)

lemma GroupsAt.unit_ahead (h : GroupsAt R base code source i s)
    (hpassed : s.passed < s.group.units.length) :
    (unroll code base source.ahead source.stop).counted.ahead[i]? =
      some s.group.units[s.passed] := by
  obtain ⟨done, hreaches, rfl⟩ := h.reaches
  change (unroll code base source.ahead source.stop).ahead[_]? = _
  rw [(h.holds.unroll_eq hreaches).1, List.append_assoc,
    List.getElem?_append_right (Nat.le_add_right _ _), Nat.add_sub_cancel_left,
    List.getElem?_append_left hpassed, List.getElem?_eq_getElem hpassed]

lemma GroupsAt.look_ahead (h : GroupsAt R base code source i s)
    (hpassed : s.passed = s.group.units.length) :
    (groupTape code base source i).ahead = (afterGroup code base source s.group).ahead ∧
      (groupTape code base source i).more = (afterGroup code base source s.group).more ∧
      (groupTape code base source i).refusals = (afterGroup code base source s.group).refusals := by
  obtain ⟨done, hreaches, rfl⟩ := h.reaches
  obtain ⟨hahead, hstop⟩ := h.holds.unroll_eq hreaches
  have htape : groupTape code base source (done.length + s.passed) =
      ⟨(groupTape code base source (done.length + s.passed)).behind,
        (afterGroup code base source s.group).ahead,
        (afterGroup code base source s.group).stop.atOffset
          (unroll code base source.ahead source.stop).ahead.length⟩ := by
    rw [← hstop]
    simp [groupTape, Tape.place, Tape.counted, hahead, hpassed]
  rw [htape]
  generalize afterGroup code base source s.group = next
  obtain ⟨behind, _ | ⟨u, rest⟩, stop⟩ := next
  · simp [Tape.more, Tape.refusals]
  · exact ⟨rfl, rfl, rfl⟩

lemma GroupsAt.of_held {s' : Grouped ρ σ β} {start : Nat} {piece : Piece β} {atEnd : Bool}
    (hcode : s.code = code)
    (hreaches : Reaches code base source.ahead source.stop start done)
    (hread : readGroup code (base + start) (source.ahead.drop start) source.stop = .ok (some piece))
    (h : Moved R base source (holding s start piece atEnd) (start + piece.span) s') :
    GroupsAt R base code source (done.length + if atEnd then piece.units.length else 0) s' := by
  obtain ⟨hsource, hs'⟩ := h
  rw [hs']
  refine ⟨hcode, ⟨_, hsource, Nat.le_refl _⟩, .inr hread, ?_, done, hreaches, rfl⟩
  change (if atEnd then _ else _) ≤ piece.units.length
  split
  · exact Nat.le_refl _
  · exact Nat.zero_le _

lemma GroupsAt.of_moved {s' : Grouped ρ σ β} {n : Nat} (h : GroupsAt R base code source i s)
    (hn : s.group.start + s.group.span ≤ n) (hs' : Moved R base source s n s') :
    GroupsAt R base code source i s' := by
  rw [hs'.2]
  exact ⟨h.code_eq, ⟨n, hs'.1, hn⟩, h.holds, h.passed, h.reaches⟩

/-- The cursor at the same place, with the next unit, if there is one, in the group at hand. -/
def HeldAhead (R : σ → Tape α → Prop) (base : Nat) (code : ρ) (source : Tape α) (i : Nat)
    (s s' : Grouped ρ σ β) : Prop :=
  GroupsAt R base code source i s' ∧ s'.index = s.index ∧
    ((groupTape code base source i : Tape β).ahead ≠ [] → s'.passed < s'.group.units.length)

lemma GroupsAt.le_length (h : GroupsAt R base code source i s) :
    i ≤ (unroll code base source.ahead source.stop).counted.ahead.length := by
  obtain ⟨done, hreaches, hi⟩ := h.reaches
  have hpassed := h.passed
  change i ≤ (unroll code base source.ahead source.stop).ahead.length
  rw [(h.holds.unroll_eq hreaches).1, List.length_append, List.length_append]
  omega

lemma GroupsAt.pass (h : GroupsAt R base code source i s) {passed j : Nat}
    (hpassed : passed ≤ s.group.units.length) (hj : j + s.passed = i + passed) :
    GroupsAt R base code source j { s with passed := passed, index := j } := by
  obtain ⟨done, hreaches, hi⟩ := h.reaches
  exact ⟨h.code_eq, h.stands, h.holds, hpassed, done, hreaches, by simp only; omega⟩

lemma GroupsAt.unit_behind (h : GroupsAt R base code source (i + 1) s) (hpassed : 0 < s.passed) :
    ∃ u, s.group.units[s.passed - 1]? = some u ∧
      (unroll code base source.ahead source.stop).counted.ahead[i]? = some u := by
  have hlt : s.passed - 1 < s.group.units.length := by
    have hle := h.passed
    omega
  have hbefore : GroupsAt R base code source i { s with passed := s.passed - 1, index := i } :=
    h.pass (by omega) (by omega)
  exact ⟨_, List.getElem?_eq_getElem hlt, hbefore.unit_ahead hlt⟩

lemma groupTape_behind (h : GroupsAt R base code source i s) :
    (groupTape code base source i : Tape β).behind.length = i :=
  Tape.place_index h.le_length

variable [Cursor σ α]

lemma grouped_loadAhead (hR : Simulation R) (h : GroupsAt R base code source i s)
    (hpassed : s.passed = s.group.units.length) (hmore : s.group.ending = .more) :
    Meets (Grouped.load (s.group.start + s.group.span) false) s
      (groupTape code base source i : Tape β).more (groupTape code base source i : Tape β).refusals
      (HeldAhead R base code source i s) := by
  obtain ⟨n, hsource, hn⟩ := h.stands
  obtain ⟨done, hdone, hi⟩ := h.reaches
  have hreaches := h.holds.reaches hmore hdone
  obtain ⟨hahead, hlook, hrefusals⟩ := h.look_ahead hpassed
  have hload := grouped_load hR hsource hn false rfl
  rw [h.code_eq] at hload
  rw [hlook, hrefusals]
  rw [afterGroup, Piece.next, hmore, List.drop_drop, Nat.add_assoc] at hahead
  rw [afterGroup, Piece.next, hmore]
  simp only [List.drop_drop, Nat.add_assoc]
  cases hread : readGroup code (base + (s.group.start + s.group.span))
    (source.ahead.drop (s.group.start + s.group.span)) source.stop with
  | error refusal => 
    rw [hread] at hload
    rw [unroll_of_refusal hread] at hahead ⊢
    apply hload.mono
    rintro s' (_ | _ | ⟨hm, -, hs'⟩)
    exact ⟨h.of_moved hm hs', by rw [hs'.2], fun hne => absurd hahead hne⟩
  | ok read =>
    rw [hread] at hload
    cases read with
    | none =>
      obtain ⟨-, offset, hstop⟩ := stop_of_readGroup_none hread
      rw [unroll_of_nothing hread] at hahead ⊢
      rw [hstop]
      apply hload.mono
      rintro s' (_ | ⟨hs'⟩ | _)
      exact ⟨h.of_moved (Nat.le_refl _) hs', by rw [hs'.2], fun hne => absurd hahead hne⟩
    | some piece =>
      obtain ⟨group, rest, hgroup⟩ := readGroup_reads hread
      obtain ⟨u, units, hunits⟩ := List.exists_cons_of_ne_nil hgroup.out.1
      have hcons := (unroll_of_piece hread).1
      rw [hunits] at hcons
      obtain ⟨hm, hr, -⟩ := Tape.look_of_cons hcons
      rw [hm, hr]
      apply hload.mono
      rintro s' (⟨hs'⟩ | _ | _)
      have hplace : (done ++ s.group.units).length + 0 = i := by
        rw [hi, hpassed, List.length_append, Nat.add_zero]
      have hindex : s'.index = s.index := by
        rw [hs'.2]
        rfl
      refine ⟨hplace ▸ GroupsAt.of_held h.code_eq hreaches hread hs', hindex, fun _ => ?_⟩
      rw [hs'.2]
      exact List.length_pos_iff.2 hgroup.out.1

/-- Behind a sealed group, whatever the source has is refused. -/
lemma grouped_refuseMore (hR : Simulation R) (h : GroupsAt R base code source i s)
    (hpassed : s.passed = s.group.units.length) (hsealed : s.group.ending = .sealed) :
    Meets (do
        Grouped.inside (Anchored.seek (s.group.start + s.group.span))
        if ← Grouped.inside Cursor.hasNext then
          let s ← Action.here
          Grouped.reject .trailingSymbols s.source.innerIndex
        else pure false) s
      (groupTape code base source i : Tape β).more (groupTape code base source i : Tape β).refusals
      (HeldAhead R base code source i s) := by
  obtain ⟨n, hsource, hn⟩ := h.stands
  obtain ⟨hahead, hlook, hrefusals⟩ := h.look_ahead hpassed
  rw [afterGroup, Piece.next, hsealed] at hahead
  rw [hlook, hrefusals, afterGroup, Piece.next, hsealed]
  simp only [List.drop_drop, Nat.add_assoc]
  have hdone : ∀ s', Moved R base source s (s.group.start + s.group.span) s' →
      HeldAhead R base code source i s s' := fun s' hs' =>
    ⟨h.of_moved (Nat.le_refl _) hs', by rw [hs'.2], fun hne => absurd hahead hne⟩
  have hseek := (hsource.seek hR hn).insideGrouped
  apply hseek.bind
  intro s' hs'
  have hmore := (hs'.1.hasNext hR).insideGrouped
  unfold Tape.place at hmore
  cases hrest : source.ahead.drop (s.group.start + s.group.span) with
  | nil =>
    rw [hrest] at hmore
    cases hstop : source.stop with
    | ended offset =>
      rw [hstop] at hmore
      exact hmore.bind fun s'' hs'' => .answer (hdone s'' (hs'.trans hs''))
    | rejected codec e =>
      rw [hstop] at hmore
      exact hmore.bind_error.mono fun s'' hs'' => hdone s'' (hs'.trans hs'')
  | cons u rest =>
    rw [hrest] at hmore
    apply hmore.bind
    intro s'' hs''
    apply Meets.here
    have hmoved := hs'.trans hs''
    have hreject : Meets (Grouped.reject _ _ : Action (Grouped ρ σ β) Bool) s'' _ _ _ :=
      .reject .trailingSymbols s''.source.innerIndex (hdone s'' hmoved)
    rw [hmoved.code_eq, h.code_eq, hmoved.1.innerIndex hR] at hreject
    rw [hmoved.1.innerIndex hR]
    exact hreject

/-- Looking ahead reads the next group where the one at hand is passed. -/
lemma grouped_readyAhead (hR : Simulation R) (h : GroupsAt R base code source i s) :
    Meets Grouped.readyAhead s (groupTape code base source i : Tape β).more
      (groupTape code base source i : Tape β).refusals (HeldAhead R base code source i s) := by
  unfold Grouped.readyAhead
  apply Meets.here
  by_cases hpassed : s.passed < s.group.units.length
  · rw [if_pos hpassed]
    obtain ⟨hm, hr, -⟩ := Tape.look_of_cons (Tape.place_ahead (h.unit_ahead hpassed))
    rw [groupTape, hm, hr]
    exact .answer ⟨h, rfl, fun _ => hpassed⟩
  · rw [if_neg hpassed]
    have hend : s.passed = s.group.units.length := by
      have hle := h.passed
      omega
    cases hending : s.group.ending with
    | more => exact grouped_loadAhead hR h hend hending
    | last =>
      obtain ⟨offset, hstop⟩ : ∃ offset, source.stop = .ended offset := by
        obtain hinitial | hread := h.holds
        · rw [hinitial] at hending
          cases hending
        · obtain ⟨group, rest, hgroup⟩ := readGroup_reads hread
          exact hgroup.stop_of_last hending
      obtain ⟨hahead, hlook, hrefusals⟩ := h.look_ahead hend
      rw [afterGroup, Piece.next, hending] at hahead
      rw [hlook, hrefusals, afterGroup, Piece.next, hending, hstop]
      exact .answer ⟨h, rfl, fun hne => absurd hahead hne⟩
    | «sealed» => exact grouped_refuseMore hR h hend hending

/-- The cursor at the same place, with the previous unit, if there is one, in the group at hand. -/
def HeldBack (R : σ → Tape α → Prop) (base : Nat) (code : ρ) (source : Tape α) (i : Nat)
    (s s' : Grouped ρ σ β) : Prop :=
  GroupsAt R base code source i s' ∧ s'.index = s.index ∧ (i ≠ 0 → 0 < s'.passed)

/-- Looking back reads the previous group again where nothing of the one at hand is passed. -/
lemma grouped_readyBack (hR : Simulation R) (h : GroupsAt R base code source i s) :
    Meets Grouped.readyBack s (.ok (decide (i ≠ 0))) [] (HeldBack R base code source i s) := by
  obtain ⟨done, hreaches, hi⟩ := h.reaches
  unfold Grouped.readyBack
  apply Meets.here
  by_cases hpassed : 0 < s.passed
  · rw [if_pos hpassed, decide_eq_true (by omega)]
    exact .answer ⟨h, rfl, fun _ => hpassed⟩
  · rw [if_neg hpassed]
    by_cases hstart : s.group.start = 0
    · rw [if_pos hstart]
      rw [hstart] at hreaches
      have hzero : i = 0 := by
        rw [hi, hreaches.done_of_zero, List.length_nil]
        omega
      subst hzero
      exact .answer ⟨h, rfl, fun hne => absurd rfl hne⟩
    · rw [if_neg hstart]
      refine .emit (LawfulCode.reread_quiet _ _) ?_
      obtain ⟨n, hsource, hn⟩ := h.stands
      obtain ⟨before, piece, hspan, hdone, hne, hbefore, hread⟩ := hreaches.last hstart
      have hle : s.group.start - GroupCode.size code ≤ n := by omega
      have hload := grouped_load hR hsource hle true rfl
      rw [h.code_eq, hread] at hload
      have hplace : before.length + piece.units.length = i := by
        rw [hi, hdone, List.length_append]
        omega
      have hpos := List.length_pos_iff.2 hne
      rw [h.code_eq, decide_eq_true (by omega)]
      apply hload.mono
      rintro s' (⟨hs'⟩ | _ | _)
      have hindex : s'.index = s.index := by
        rw [hs'.2]
        rfl
      refine ⟨hplace ▸ GroupsAt.of_held h.code_eq hbefore hread hs', hindex, fun _ => ?_⟩
      rw [hs'.2]
      exact hpos

lemma grouped_peekAhead (hR : Simulation R) (h : GroupsAt R base code source i s)
    (hi : s.index = i) :
    Meets Grouped.peekAhead s (groupTape code base source i : Tape β).first
      (groupTape code base source i : Tape β).refusals (HeldAhead R base code source i s) := by
  unfold Grouped.peekAhead
  refine Meets.whenMore (grouped_readyAhead hR h) ?_ (fun _ s' hs' => hs') ?_
  · intro u rest hu s' hs'
    have hpassed := hs'.2.2 (by rw [hu]; exact List.cons_ne_nil u rest)
    have hcons := Tape.place_ahead (hs'.1.unit_ahead hpassed)
    apply Meets.here
    rw [List.getElem?_eq_getElem hpassed, (List.cons.inj (hcons.symm.trans hu)).1]
    exact .answer hs'
  · intro s' offset hs' hnil hstop
    have hle := h.le_length
    have hend : (unroll code base source.ahead source.stop : Tape β).ahead.length ≤ i :=
      List.drop_eq_nil_iff.1 hnil
    rw [hs'.2.1, hi, ← Stop.offset_of_ended hstop]
    exact Nat.le_antisymm hle hend

lemma grouped_hasPrevious (hR : Simulation R) (h : GroupsAt R base code source i s) :
    Meets Grouped.readyBack s (.ok !(groupTape code base source i : Tape β).behind.isEmpty) []
      (HeldBack R base code source i s) := by
  have hback := grouped_readyBack hR h
  have hlength := groupTape_behind h
  have hany : decide (i ≠ 0) = !(groupTape code base source i : Tape β).behind.isEmpty := by
    generalize (groupTape code base source i : Tape β).behind = behind at hlength
    subst hlength
    cases behind <;> simp
  rwa [hany] at hback

lemma grouped_peekBack (hR : Simulation R) (h : GroupsAt R base code source i s)
    (hi : s.index = i) :
    Meets Grouped.peekBack s (groupTape code base source i : Tape β).last []
      (HeldBack R base code source i s) := by
  unfold Grouped.peekBack
  refine Meets.whenAny (grouped_hasPrevious hR h) ?_ ?_
  · intro u rest hu s' hs'
    have hlength := groupTape_behind h
    rw [hu] at hlength
    obtain ⟨j, rfl⟩ : ∃ j, i = j + 1 := ⟨rest.length, hlength.symm⟩
    have hpassed := hs'.2.2 (Nat.succ_ne_zero j)
    obtain ⟨v, hv, hplace⟩ := hs'.1.unit_behind hpassed
    have hcons := Tape.place_behind hplace
    apply Meets.here
    rw [if_pos hpassed, hv, (List.cons.inj (hcons.symm.trans hu)).1]
    exact .answer hs'
  · intro hnil s' hs'
    have hlength := groupTape_behind h
    rw [hnil] at hlength
    exact ⟨hs', by rw [hs'.2.1, hi, ← hlength]; rfl⟩

end Groups

section Simulation

variable [GroupCode ρ α β] [LawfulCode ρ] [Cursor σ α] {R : σ → Tape α → Prop}

/-- A place among the groups of a source. -/
def GroupsOf (R : σ → Tape α → Prop) (base : Nat) (code : ρ) (source : Tape α)
    (s : Grouped ρ σ β) (t : Tape β) : Prop :=
  ∃ i, GroupsAt R base code source i s ∧ s.index = i ∧ t = groupTape code base source i

theorem group_simulation (hR : Simulation R) (base : Nat) (code : ρ) (source : Tape α) :
    Simulation (GroupsOf R base code source : Grouped ρ σ β → Tape β → Prop) := by
  constructor
  · rintro s t ⟨i, h, hi, rfl⟩
    exact hi.trans (groupTape_behind h).symm
  · rintro s t ⟨i, h, hi, rfl⟩
    obtain ⟨n, ⟨hn, hstands⟩, -⟩ := h.stands
    have hroom := (standsOn_simulation hR base).room hstands
    rw [Tape.place_units] at hroom
    rw [groupTape, Tape.place_units]
    apply Nat.le_trans unroll_length
    rw [← h.code_eq]
    exact Nat.mul_le_mul_left _ hroom
  · rintro s t ⟨i, h, hi, rfl⟩
    exact (grouped_readyAhead hR h).mono fun s' hs' => ⟨i, hs'.1, hs'.2.1.trans hi, rfl⟩
  · rintro s t ⟨i, h, hi, rfl⟩
    exact (grouped_hasPrevious hR h).mono fun s' hs' => ⟨i, hs'.1, hs'.2.1.trans hi, rfl⟩
  · rintro s t ⟨i, h, hi, rfl⟩
    exact (grouped_peekAhead hR h hi).mono fun s' hs' => ⟨i, hs'.1, hs'.2.1.trans hi, rfl⟩
  · rintro s t ⟨i, h, hi, rfl⟩
    exact (grouped_peekBack hR h hi).mono fun s' hs' => ⟨i, hs'.1, hs'.2.1.trans hi, rfl⟩
  · rintro s t ⟨i, h, rfl, rfl⟩
    refine (grouped_peekAhead hR h rfl).countForth ?_ ?_
    · intro u rest hu s' hs'
      have hpassed := hs'.2.2 (by rw [hu]; exact List.cons_ne_nil u rest)
      rw [hs'.2.1]
      refine ⟨s.index + 1, hs'.1.pass hpassed (by omega), rfl, ?_⟩
      exact Tape.place_forth (hs'.1.unit_ahead hpassed)
    · intro hnil s' hs'
      exact ⟨s.index, hs'.1, hs'.2.1, Tape.forth_of_nil hnil⟩
  · rintro s t ⟨i, h, rfl, rfl⟩
    refine (grouped_peekBack hR h rfl).countBack ?_ ?_
    · intro u rest hu s' hs'
      have hlength := groupTape_behind h
      rw [hu] at hlength
      obtain ⟨j, hj⟩ : ∃ j, s.index = j + 1 := ⟨rest.length, hlength.symm⟩
      rw [hj] at hs' ⊢
      have hpassed := hs'.2.2 (Nat.succ_ne_zero j)
      obtain ⟨v, -, hplace⟩ := hs'.1.unit_behind hpassed
      have hle := hs'.1.passed
      rw [hs'.2.1, hj]
      exact ⟨j, hs'.1.pass (by omega) (by omega), rfl, Tape.place_back hplace⟩
    · intro hnil s' hs'
      exact ⟨s.index, hs'.1, hs'.2.1, Tape.back_of_nil hnil⟩

end Simulation

/-- A cursor that is wrapped where it stands has none of its groups at hand. -/
lemma groupsOf_start [GroupCode ρ α β] [LawfulCode ρ] [Cursor σ α] {R : σ → Tape α → Prop} {s : σ}
    {t : Tape α} (h : StandsOn R t.behind.length ({ inner := s } : Anchored σ) t.fresh) (code : ρ) :
    GroupsOf R t.behind.length code t.fresh (Grouped.ofCursor code s : Grouped ρ σ β)
      (unroll code t.behind.length t.ahead t.stop : Tape β).counted := by
  have hbehind : (unroll code t.behind.length t.ahead t.stop : Tape β).behind = [] := unroll_behind
  refine ⟨0, ⟨rfl, ⟨0, ⟨Nat.zero_le _, h⟩, Nat.le_refl 0⟩, .inl rfl, Nat.le_refl 0, [], .zero, rfl⟩,
    rfl, ?_⟩
  rw [groupTape, Tape.place, List.take_zero, List.drop_zero, List.reverse_nil, ← hbehind]
  rfl

instance [GroupCode ρ α β] [LawfulCode ρ] [Cursor σ α] [Viewed σ α] :
    Viewed (Grouped ρ σ β) β where
  Shows s t := ∃ place : Nat × ρ × Tape α, GroupsOf Shows place.1 place.2.1 place.2.2 s t
  simulation := .exists fun _ => group_simulation simulation _ _ _

theorem group_shows [GroupCode ρ α β] [LawfulCode ρ] [Cursor σ α] [Viewed σ α] {s : σ} {t : Tape α}
    (h : Shows s t) (code : ρ) :
    Shows (Grouped.ofCursor code s : Grouped ρ σ β)
      (unroll code t.behind.length t.ahead t.stop : Tape β).counted :=
  ⟨⟨t.behind.length, code, t.fresh⟩, groupsOf_start ⟨t.behind, h, rfl, rfl⟩ code⟩

end BaseText.Proofs
