import BaseText.Proofs.Draining
import BaseText.Proofs.Ends
import BaseText.Proofs.Invariants
import BaseText.Proofs.Lengths

/-!
# How far a source is read

A coding cursor reads its source by whole groups. It has read to the end of the group at hand,
whichever way it came there, and no further until it is refused something: then the units of the
refused group have been read as well, at most one group of them.
-/

namespace BaseText.Proofs

variable {ρ σ α β γ : Type}

lemma here_bind (next : σ → Action σ γ) (s : σ) : (Action.here >>= next) s = next s s := rfl

lemma cursor_of_ok {act : Action σ α} {s : σ} {a : α} (h : (act s).result = .ok a)
    (next : α → Action σ γ) : ((act >>= next) s).cursor = (next a (act s).cursor).cursor := by
  rw [Action.bind_run, h]

lemma cursor_then_asks (act : Action σ α) (f : σ → γ) (s : σ) :
    ((do let _ ← act; Action.asks f) s).cursor = (act s).cursor := by
  rw [Action.bind_run]
  cases (act s).result <;> rfl

section Reading

variable [GroupCode ρ α β] [LawfulCode ρ] [Cursor σ α] {R : σ → Tape α → Prop}
  {base i n slack : Nat} {code : ρ} {source : Tape α} {s s' : Grouped ρ σ β}

/-- The source has been read at most `slack` units beyond the group at hand. -/
def ReadTo (slack : Nat) (s : Grouped ρ σ β) : Prop :=
  s.source.index ≤ s.group.start + s.group.span + slack

omit [LawfulCode ρ] [Cursor σ α] [GroupCode ρ α β] in
lemma ReadTo.mono {slack' : Nat} (h : ReadTo slack s) (hle : slack ≤ slack') : ReadTo slack' s :=
  Nat.le_trans h (Nat.add_le_add_left hle _)

/-- The source has not been read beyond the slack, unless by a group that was refused. -/
def ReadToOr (slack : Nat) (code : ρ) (result : Except CodingError γ) (s : Grouped ρ σ β) : Prop :=
  ReadTo slack s ∨ ReadTo (GroupCode.size code) s ∧ ∃ e, result = .error e

omit [GroupCode ρ α β] [LawfulCode ρ] in
lemma Moved.readTo (hR : Simulation R) (h : Moved R base source s n s')
    (hn : n ≤ s.group.start + s.group.span + slack) : ReadTo slack s' := by
  have hindex : s'.source.index = n := h.1.index hR
  rw [ReadTo, hindex, h.2]
  exact hn

omit [LawfulCode ρ] in
/-- Reading the group behind the one at hand. -/
lemma Loaded.readTo (hR : Simulation R) {read : Except Refusal (Option (Piece β))} {atEnd : Bool}
    (h : Loaded R base source s (s.group.start + s.group.span) atEnd read s') :
    ReadToOr slack s.code (answerOf (Option.isSome <$> read)) s' := by
  cases h with
  | held h => exact .inl (h.readTo hR (Nat.le_add_right _ _))
  | nothing h => exact .inl (h.readTo hR (Nat.le_add_right _ _))
  | refused hn hsize h => exact .inr ⟨h.readTo hR hsize, _, rfl⟩

omit [LawfulCode ρ] in
/-- Looking for a unit behind the last group does not read it. -/
lemma refuseMore_moved (hR : Simulation R) (hsource : SourceAt R base source n s.source)
    {stop : Nat} (hstop : stop ≤ n) :
    Moved R base source s stop ((do
      Grouped.inside (Anchored.seek stop)
      if ← Grouped.inside Cursor.hasNext then
        let s ← Action.here
        Grouped.reject .trailingSymbols s.source.innerIndex
      else pure false : Action (Grouped ρ σ β) Bool) s).cursor := by
  have hseek := (hsource.seek hR hstop).insideGrouped
  rw [cursor_of_ok hseek.result]
  refine Keeps.bind ?_ (fun more => ?_) _ hseek.cursor
  · intro s' hs'
    exact hs'.trans ((hs'.1.hasNext hR).insideGrouped).cursor
  · split
    · exact Keeps.here fun _ hs' => hs'
    · exact fun _ hs' => hs'

lemma readyAhead_readTo (hR : Simulation R) (h : GroupsAt R base code source i s)
    (hs : ReadTo slack s) :
    ReadToOr slack code (Grouped.readyAhead s).result (Grouped.readyAhead s).cursor := by
  obtain ⟨n, hsource, hn⟩ := h.stands
  rw [Grouped.readyAhead, here_bind]
  by_cases hpassed : s.passed < s.group.units.length
  · rw [if_pos hpassed]
    exact .inl hs
  rw [if_neg hpassed]
  cases s.group.ending with
  | last => exact .inl hs
  | more =>
    have hload := grouped_load hR hsource hn false rfl
    have hread : ReadToOr slack s.code _ _ := hload.cursor.readTo hR
    rw [← hload.result, h.code_eq] at hread
    exact hread
  | «sealed» =>
    exact .inl ((refuseMore_moved hR hsource hn).readTo hR (Nat.le_add_right _ _))

/-- Looking back reads no more than the group that is then at hand. -/
lemma readyBack_readTo (hR : Simulation R) (h : GroupsAt R base code source i s)
    (hs : ReadTo slack s) : ReadTo slack (Grouped.readyBack s).cursor := by
  obtain ⟨n, hsource, hn⟩ := h.stands
  obtain ⟨done, hreaches, -⟩ := h.reaches
  rw [Grouped.readyBack, here_bind]
  by_cases hpassed : 0 < s.passed
  · rwa [if_pos hpassed]
  rw [if_neg hpassed]
  by_cases hstart : s.group.start = 0
  · rwa [if_pos hstart]
  rw [if_neg hstart]
  obtain ⟨before, piece, -, -, -, -, hread⟩ := hreaches.last hstart
  have hle : s.group.start - GroupCode.size s.code ≤ n := by omega
  have hload := grouped_load hR hsource hle true rfl
  rw [h.code_eq, hread] at hload
  rw [h.code_eq]
  change ReadTo slack (Grouped.load _ true s).cursor
  cases hload.cursor with
  | held hmoved => exact hmoved.readTo hR (Nat.le_add_right _ _)

end Reading

section Calls

/-- The action leaves the source and the group at hand alone. -/
def ReadsNothing (act : Action (Grouped ρ σ β) γ) : Prop :=
  ∀ s, (act s).cursor.source = s.source ∧ (act s).cursor.group = s.group

lemma ReadsNothing.bind {δ : Type} {act : Action (Grouped ρ σ β) γ}
    {next : γ → Action (Grouped ρ σ β) δ} (hact : ReadsNothing act)
    (hnext : ∀ c, ReadsNothing (next c)) : ReadsNothing (act >>= next) := by
  intro s
  obtain ⟨hsource, hgroup⟩ := hact s
  rw [Action.bind_run]
  cases (act s).result with
  | error e => exact ⟨hsource, hgroup⟩
  | ok c =>
    obtain ⟨hsource', hgroup'⟩ := hnext c (act s).cursor
    exact ⟨hsource'.trans hsource, hgroup'.trans hgroup⟩

/-- The action looks for a unit, and reads nothing afterwards. -/
def ReadsBy (look : Action (Grouped ρ σ β) Bool) (act : Action (Grouped ρ σ β) γ) : Prop :=
  ∃ rest, (∀ more, ReadsNothing (rest more)) ∧ act = look >>= rest

section ReadsBy

variable {look : Action (Grouped ρ σ β) Bool} {act : Action (Grouped ρ σ β) γ}

lemma ReadsBy.bind {δ : Type} {next : γ → Action (Grouped ρ σ β) δ} (h : ReadsBy look act)
    (hnext : ∀ c, ReadsNothing (next c)) : ReadsBy look (act >>= next) := by
  obtain ⟨rest, hrest, rfl⟩ := h
  exact ⟨fun more => rest more >>= next, fun more => (hrest more).bind hnext, bind_assoc _ _ _⟩

lemma ReadsBy.map {δ : Type} (h : ReadsBy look act) (f : γ → δ) : ReadsBy look (f <$> act) := by
  rw [← bind_pure_comp]
  exact h.bind fun _ _ => ⟨rfl, rfl⟩

lemma ReadsBy.self : ReadsBy look look :=
  ⟨pure, fun _ _ => ⟨rfl, rfl⟩, (bind_pure look).symm⟩

lemma ReadsBy.readTo {slack : Nat} {s : Grouped ρ σ β} (h : ReadsBy look act)
    (hs : ReadTo slack (look s).cursor) : ReadTo slack (act s).cursor := by
  obtain ⟨rest, hrest, rfl⟩ := h
  rw [Action.bind_run]
  cases (look s).result with
  | error e => exact hs
  | ok more =>
    obtain ⟨hsource, hgroup⟩ := hrest more (look s).cursor
    rw [ReadTo, hsource, hgroup]
    exact hs

lemma ReadsBy.error {s : Grouped ρ σ β} {e : CodingError} (h : ReadsBy look act)
    (he : (look s).result = .error e) : (act s).result = .error e := by
  obtain ⟨rest, -, rfl⟩ := h
  rw [Action.bind_run, he]

end ReadsBy

variable [GroupCode ρ α β] [Cursor σ α]

omit [GroupCode ρ α β] [Cursor σ α] in
/-- Behind a look, a unit of the group at hand is the answer. -/
lemma readsNothing_unit (more : Bool) (unit : Grouped ρ σ β → Option β) :
    ReadsNothing (do
      if more then
        let s ← Action.here
        match unit s with
        | some u => pure u
        | none => Action.exhausted Grouped.index
      else Action.exhausted Grouped.index) := by
  cases more with
  | false => exact fun _ => ⟨rfl, rfl⟩
  | true =>
    refine .bind (fun _ => ⟨rfl, rfl⟩) fun s => ?_
    split
    · exact fun _ => ⟨rfl, rfl⟩
    · exact fun _ => ⟨rfl, rfl⟩

lemma readsBy_peekAhead :
    ReadsBy Grouped.readyAhead (Grouped.peekAhead : Action (Grouped ρ σ β) β) :=
  ⟨_, fun more => readsNothing_unit more fun s => s.group.units[s.passed]?, rfl⟩

lemma readsBy_peekBack :
    ReadsBy Grouped.readyBack (Grouped.peekBack : Action (Grouped ρ σ β) β) :=
  ⟨_, fun more => readsNothing_unit more
    fun s => if 0 < s.passed then s.group.units[s.passed - 1]? else none, rfl⟩

/-- Every call but the one for the index looks ahead or back. -/
lemma readsBy_ask (call : Call) :
    ReadsBy Grouped.readyAhead (call.ask : Action (Grouped ρ σ β) (Reply β)) ∨
      ReadsBy Grouped.readyBack (call.ask : Action (Grouped ρ σ β) (Reply β)) ∨
      ReadsNothing (call.ask : Action (Grouped ρ σ β) (Reply β)) := by
  cases call with
  | hasNext => exact .inl (ReadsBy.self.map _)
  | peekNext => exact .inl (readsBy_peekAhead.map _)
  | next => exact .inl ((readsBy_peekAhead.bind fun _ _ => ⟨rfl, rfl⟩).map _)
  | hasPrevious => exact .inr (.inl (ReadsBy.self.map _))
  | peekPrevious => exact .inr (.inl (readsBy_peekBack.map _))
  | previous => exact .inr (.inl ((readsBy_peekBack.bind fun _ _ => ⟨rfl, rfl⟩).map _))
  | index => exact .inr (.inr fun _ => ⟨rfl, rfl⟩)

end Calls

section Runs

/-- There are no errors other than for the ends of the units. -/
def Undisturbed (results : List (Except CodingError γ)) : Prop :=
  ∀ e, .error e ∈ results → e.cause = .exhausted

variable [GroupCode ρ α β] [LawfulCode ρ] [Cursor σ α] {R : σ → Tape α → Prop}
  {base slack : Nat} {code : ρ} {source : Tape α} {s : Grouped ρ σ β} {t : Tape β}

lemma ask_readTo (hR : Simulation R) (hcode : RefusesMalformed code)
    (hplain : source.stop.IsPlain) (h : GroupsOf R base code source s t) (hs : ReadTo slack s)
    (call : Call)
    (hquiet : Undisturbed [(call.ask s).result] ∨ GroupCode.size code ≤ slack) :
    ReadTo slack (call.ask s).cursor := by
  obtain ⟨i, hat, -⟩ := h
  obtain hahead | hback | hnone := readsBy_ask (ρ := ρ) (σ := σ) (β := β) call
  · apply hahead.readTo
    obtain hread | ⟨hread, e, he⟩ := readyAhead_readTo hR hat hs
    · exact hread
    · obtain hquiet | hle := hquiet
      · have hcause : e.cause = .exhausted := hquiet e (by simp [hahead.error he])
        have hmore := (grouped_readyAhead hR hat).result.symm.trans he
        obtain ⟨cause, offset⟩ := e
        obtain rfl : cause = .exhausted := hcause
        exact absurd hmore (hat.endsAt hcode hplain).more
      · exact hread.mono hle
  · exact hback.readTo (readyBack_readTo hR hat hs)
  · obtain ⟨hsource, hgroup⟩ := hnone s
    rw [ReadTo, hsource, hgroup]
    exact hs

lemma after_readTo (hR : Simulation R) (hcode : RefusesMalformed code)
    (hplain : source.stop.IsPlain) (h : GroupsOf R base code source s t) (hs : ReadTo slack s)
    (calls : List Call)
    (hquiet : Undisturbed (answers calls s) ∨ GroupCode.size code ≤ slack) :
    ReadTo slack (after calls s) := by
  induction calls generalizing s t with
  | nil => exact hs
  | cons call calls ih =>
    have hcall := (call.ask_meets (group_simulation hR base code source) h).cursor
    have hread : ReadTo slack (call.ask s).cursor := by
      refine ask_readTo hR hcode hplain h hs call (hquiet.imp_left fun hq e he => hq e ?_)
      exact List.mem_cons.2 (.inl (List.mem_singleton.1 he))
    exact ih hcall hread (hquiet.imp_left fun hq e he => hq e (List.mem_cons_of_mem _ he))

end Runs

section Begun

/-- Of a source with `count` units, `m` groups of `size` units have been begun, of which each
becomes at most `full` units, and all but the last one so many. -/
structure Begun (size full count m : Nat) (s : Grouped ρ σ β) : Prop where
  span : s.group.start + s.group.span = min count (m * size)
  index_le : s.index ≤ m * full
  le_index : m = 0 ∨ (m - 1) * full ≤ s.index
  lt_index : 0 < s.passed → (m - 1) * full < s.index

lemma Begun.eq_ceilDiv {size full count m : Nat} {s : Grouped ρ σ β}
    (h : Begun size full count m s) (hpassed : 0 < s.passed) : m = s.index ⌈/⌉ full := by
  have hlt := h.lt_index hpassed
  have hle := h.index_le
  obtain _ | k := m
  · omega
  · rw [Nat.add_sub_cancel] at hlt
    rw [Nat.succ_mul] at hle
    rw [Nat.ceilDiv_eq_add_pred_div]
    refine (Nat.div_eq_of_lt_le ?_ ?_).symm
    · rw [Nat.succ_mul]
      omega
    · rw [Nat.succ_mul, Nat.succ_mul]
      omega

variable [GroupCode ρ α β] [LawfulCode ρ] {R : σ → Tape α → Prop} {base i full : Nat} {code : ρ}
  {source : Tape α} {s : Grouped ρ σ β}

lemma GroupsAt.exists_begun (h : GroupsAt R base code source i s) (hi : s.index = i)
    (hfull : MakesFull code full) (hmost : MakesAtMost code full) :
    ∃ m, Begun (GroupCode.size code) full source.ahead.length m s := by
  obtain ⟨done, hreaches, hdone⟩ := h.reaches
  have hpassed := h.passed
  obtain hinitial | hread := h.holds
  -- No group has been begun.
  · rw [hinitial] at hreaches hpassed
    have hnone : s.passed = 0 := Nat.le_zero.1 hpassed
    rw [hreaches.done_of_zero, hnone] at hdone
    refine ⟨0, by simp [hinitial], ?_, .inl rfl, fun hpos => ?_⟩
    · rw [hi, hdone]
      exact Nat.zero_le _
    · rw [hnone] at hpos
      exact absurd hpos (Nat.lt_irrefl 0)
  -- The groups in front of the one at hand are full. That one may be short.
  · obtain ⟨n, hstart, hlength⟩ := hreaches.exists_groups
    obtain ⟨group, rest, hgroup⟩ := readGroup_reads hread
    have hout : s.group.units.length ≤ full := hmost _ _ _ hgroup.length_le hgroup.closed
    have hspan : s.group.span = group.length := hgroup.span
    have hpos : 0 < group.length := List.length_pos_iff.2 hgroup.nonempty
    have hcount := congrArg List.length hgroup.units
    rw [List.length_drop, List.length_append] at hcount
    rw [hlength full hfull] at hdone
    refine ⟨n + 1, ?_, ?_, .inr ?_, fun hpos => ?_⟩
    · rw [Nat.succ_mul, hspan, hstart]
      obtain hsize | ⟨hsize, rfl, -⟩ := hgroup.size
      · omega
      · rw [List.length_nil] at hcount
        omega
    · rw [hi, hdone, Nat.succ_mul]
      omega
    · rw [hi, hdone, Nat.add_sub_cancel]
      omega
    · rw [hi, hdone, Nat.add_sub_cancel]
      omega

end Begun

section Steps

/-- The calls of a loop that looks for each unit before it takes it. -/
def steps : Nat → List Call
  | 0 => []
  | n + 1 => .hasNext :: .next :: steps n

lemma steps_snoc (n : Nat) : steps (n + 1) = steps n ++ [.hasNext, .next] := by
  induction n with
  | zero => rfl
  | succ n ih => exact congrArg (Call.hasNext :: Call.next :: ·) ih

lemma after_hasNext (t : Tape α) : (Call.hasNext.ask t).cursor = t := by
  rw [Call.ask, map_run]
  rfl

lemma after_steps (t : Tape α) (n : Nat) : after (steps n) t = t.past n := by
  induction n generalizing t with
  | zero => rfl
  | succ n ih =>
    rw [steps, after, after_hasNext, after, (ask_next t).2, ih]
    obtain ⟨behind, _ | ⟨u, rest⟩, stop⟩ := t <;> simp [Tape.past]

/-- Steps to units that are there are undisturbed. -/
lemma undisturbed_steps {t : Tape α} {n : Nat} (hn : n ≤ t.ahead.length) :
    Undisturbed (answers (steps n) t) := by
  induction n generalizing t with
  | zero => exact fun _ he => absurd he List.not_mem_nil
  | succ n ih =>
    obtain ⟨behind, _ | ⟨u, rest⟩, stop⟩ := t
    · exact absurd hn (Nat.not_succ_le_zero n)
    · rw [steps, answers, after_hasNext, answers, (ask_next _).1, (ask_next _).2, ask_hasNext]
      intro e he
      obtain he | he := List.mem_cons.1 he
      · cases he
      obtain he | he := List.mem_cons.1 he
      · cases he
      exact ih (Nat.le_of_succ_le_succ hn) e he

end Steps

section Loops

variable {τ : Type} [Cursor σ α] {part : τ → σ} {test : Action τ Bool} {step : Action τ β}
  {Left : Nat → τ → Prop}

/-- Where rounds are left, the loop moves the cursor in its state as a step forward does. -/
structure Rounds (part : τ → σ) (test : Action τ Bool) (step : Action τ β)
    (Left : Nat → τ → Prop) : Prop where
  test : ∀ {n x}, Left (n + 1) x → (Cursor.hasNext (part x)).result = .ok true →
    (test x).result = .ok true ∧ part (test x).cursor = (Cursor.hasNext (part x)).cursor ∧
      Left (n + 1) (test x).cursor
  step : ∀ {n x u}, Left (n + 1) x → (Cursor.next (part x)).result = .ok u →
    (∃ b, (step x).result = .ok b) ∧ part (step x).cursor = (Cursor.next (part x)).cursor ∧
      Left n (step x).cursor

/-- A loop with `n` rounds left makes `n` steps if there are so many units. -/
lemma Rounds.gather (h : Rounds part test step Left) {R : σ → Tape α → Prop} (hR : Simulation R)
    {x : τ} {t : Tape α} (hx : R (part x) t) {n : Nat} (hn : n ≤ t.ahead.length)
    (hleft : Left n x) (fuel : Nat) :
    ∃ y, Left 0 y ∧ part y = after (steps n) (part x) ∧
      (Action.gather test step (n + fuel) x).cursor = (Action.gather test step fuel y).cursor := by
  induction n generalizing x t with
  | zero => exact ⟨x, hleft, rfl, by rw [Nat.zero_add]⟩
  | succ n ih =>
    obtain ⟨behind, _ | ⟨u, rest⟩, stop⟩ := t
    · exact absurd hn (Nat.not_succ_le_zero n)
    have hmore := hR.hasNext hx
    obtain ⟨htest, hpart, hleft'⟩ := h.test hleft hmore.result
    have hx' := hmore.cursor
    rw [← hpart] at hx'
    have hnext := hR.next hx'
    obtain ⟨⟨b, hstep⟩, hpart', hleft''⟩ := h.step hleft' hnext.result
    have hx'' := hnext.cursor
    rw [← hpart'] at hx''
    obtain ⟨y, hy, hafter, hrest⟩ := ih hx'' (Nat.le_of_succ_le_succ hn) hleft''
    refine ⟨y, hy, ?_, ?_⟩
    · rw [hafter, hpart', hpart, steps, after, after, Call.ask, Call.ask, map_run, map_run]
    · rw [Nat.succ_add, Action.gather, cursor_of_ok htest, if_pos rfl, cursor_of_ok hstep, ← hrest,
        Action.bind_run]
      cases (Action.gather test step (n + fuel) _).result <;> rfl

variable [Viewed σ α] {s : σ} {t : Tape α}

/-- Filling a buffer makes as many steps as it has slots. -/
lemma fill_steps (h : Shows s t) {buffer : Array α} (hn : buffer.size ≤ t.ahead.length) :
    (Cursor.fill buffer s).1.cursor = after (steps buffer.size) s := by
  have hrounds : Rounds (Filling.cursor : Filling σ α → σ) (Filling.inside Cursor.hasNext)
      (Filling.step some) fun _ _ => True := by
    refine ⟨fun _ hmore => ⟨hmore, rfl, trivial⟩, fun {n x u} _ hnext => ?_⟩
    have hinside : (Filling.inside Cursor.next x).result = .ok u := hnext
    refine ⟨⟨(), ?_⟩, ?_, trivial⟩
    · rw [Filling.step, Action.bind_run, hinside]
      rfl
    · rw [Filling.step, cursor_of_ok hinside]
      rfl
  obtain ⟨y, -, hafter, hrest⟩ := hrounds.gather (x := { cursor := s, buffer }) simulation h hn
    trivial 0
  have hfill : (Cursor.fill buffer s).1.cursor = (Action.gather (Filling.inside Cursor.hasNext)
      (Filling.step some) buffer.size { cursor := s, buffer }).cursor.cursor :=
    congrArg Filling.cursor (cursor_then_asks _ Filling.filled _)
  rw [hfill]
  exact (congrArg Filling.cursor hrest).trans hafter

omit [Viewed σ α] in
lemma limited_of_lt {x : Limited σ} (h : x.index < x.bound) :
    Cursor.hasNext x = Limited.inside Cursor.hasNext x ∧
      Cursor.next x = Limited.inside Cursor.next x := by
  have hroom : ¬ x.bound ≤ x.index := Nat.not_le.2 h
  constructor
  · change (if x.bound ≤ x.index then _ else Limited.inside Cursor.hasNext) x = _
    rw [if_neg hroom]
  · change (if x.bound ≤ x.index then _ else Limited.inside Cursor.next) x = _
    rw [if_neg hroom]

omit [Viewed σ α] in
lemma limited_of_le {x : Limited σ} (h : x.bound ≤ x.index) :
    Cursor.hasNext x = ⟨.ok false, x, []⟩ := by
  change (if x.bound ≤ x.index then (pure false : Action (Limited σ) Bool) else _) x = _
  rw [if_pos h]
  rfl

omit [Viewed σ α] in
lemma rounds_limited : Rounds (fun x : Limited σ => x.inner.inner) Cursor.hasNext Cursor.next
    fun n x => x.index + n = x.bound := by
  refine ⟨fun {n x} hleft hmore => ?_, fun {n x u} hleft hnext => ?_⟩
  · rw [(limited_of_lt (by omega)).1]
    exact ⟨hmore, rfl, hleft⟩
  · have hinside : (Anchored.inside Cursor.next x.inner).result = .ok u := hnext
    have hanchored : (Cursor.next x.inner).result = .ok u := by
      change ((Anchored.inside Cursor.next >>= _) x.inner).result = _
      rw [Action.bind_run, hinside]
      rfl
    have hcursor : (Cursor.next x.inner).cursor =
        { inner := (Cursor.next x.inner.inner).cursor, index := x.index + 1 } := by
      change ((Anchored.inside Cursor.next >>= _) x.inner).cursor = _
      rw [cursor_of_ok hinside]
      rfl
    rw [(limited_of_lt (by omega)).2]
    refine ⟨⟨u, hanchored⟩, congrArg Anchored.inner hcursor, ?_⟩
    have hindex : (Cursor.next x.inner).cursor.index = x.index + 1 :=
      congrArg Anchored.index hcursor
    change (Cursor.next x.inner).cursor.index + n = x.bound
    rw [hindex]
    omega

/-- Taking `n` units makes `n` steps. -/
lemma take_steps (h : Shows s t) {n : Nat} (hn : n ≤ t.ahead.length) :
    (Cursor.take n s).cursor = after (steps n) s := by
  have hcapacity : n ≤ Cursor.capacity s := Nat.le_trans hn (simulation.ahead_le h)
  obtain ⟨y, hleft, hafter, hrest⟩ := rounds_limited.gather (x := Limited.ofCursor s n) simulation
    h hn (Nat.zero_add n) (Cursor.capacity s + 1 - n)
  rw [Nat.add_sub_cancel' (Nat.le_succ_of_le hcapacity)] at hrest
  -- At the bound, the loop ends without another look at the cursor.
  have hend (fuel : Nat) : (Action.gather Cursor.hasNext Cursor.next fuel y).cursor = y := by
    cases fuel with
    | zero => rfl
    | succ fuel =>
      rw [Action.gather, Action.bind_run, limited_of_le (Nat.le_of_eq hleft.symm)]
      rfl
  rw [hend] at hrest
  exact (congrArg (fun x : Limited σ => x.inner.inner) hrest).trans hafter

end Loops

section Fresh

variable [GroupCode ρ α β] [LawfulCode ρ] [Cursor σ α] [Viewed σ α] {R : σ → Tape α → Prop}
  {base full : Nat} {code : ρ} {source : Tape α} {s : Grouped ρ σ β} {t : Tape β}

omit [LawfulCode ρ] [Viewed σ α] in
/-- Behind a unit that has just been taken, the group at hand has been begun. -/
lemma passed_of_next {u : β} (h : (Cursor.next s).result = .ok u) :
    0 < (Cursor.next s).cursor.passed := by
  change (((Grouped.peekAhead : Action (Grouped ρ σ β) β) >>= _) s).result = .ok u at h
  change 0 < (((Grouped.peekAhead : Action (Grouped ρ σ β) β) >>= _) s).cursor.passed
  rw [Action.bind_run] at h ⊢
  cases hpeek : (Grouped.peekAhead s).result with
  | error e =>
    rw [hpeek] at h
    cases h
  | ok v => exact Nat.succ_pos _

omit [Viewed σ α] in
/-- Where the source of a cursor over groups has been moved by any calls. -/
lemma after_begun (hR : Simulation R) (hcode : RefusesMalformed code)
    (hplain : source.stop.IsPlain) (hfull : MakesFull code full) (hmost : MakesAtMost code full)
    (h : GroupsOf R base code source s t) (hs : ReadTo 0 s) (calls : List Call) :
    ∃ m, Begun (GroupCode.size code) full source.ahead.length m (after calls s) ∧
      min source.ahead.length (m * GroupCode.size code) ≤ (after calls s).source.index ∧
      (after calls s).source.index ≤
        min source.ahead.length (m * GroupCode.size code) + GroupCode.size code ∧
      (Undisturbed (answers calls s) →
        (after calls s).source.index = min source.ahead.length (m * GroupCode.size code)) := by
  have hafter := after_shows (group_simulation hR base code source) h calls
  obtain ⟨i, hat, hi, -⟩ := hafter
  obtain ⟨m, hbegun⟩ := hat.exists_begun hi hfull hmost
  obtain ⟨n, hsource, hn⟩ := hat.stands
  rw [hbegun.span] at hn
  have hindex : (after calls s).source.index = n := hsource.index hR
  have hslack : ReadTo (GroupCode.size code) (after calls s) :=
    after_readTo hR hcode hplain h (hs.mono (Nat.zero_le _)) calls (.inr (Nat.le_refl _))
  rw [ReadTo, hbegun.span] at hslack
  refine ⟨m, hbegun, hindex ▸ hn, hslack, fun hquiet => ?_⟩
  have hexact : ReadTo 0 (after calls s) := after_readTo hR hcode hplain h hs calls (.inl hquiet)
  rw [ReadTo, hbegun.span] at hexact
  exact Nat.le_antisymm hexact (hindex ▸ hn)

omit [Viewed σ α] in
/-- Steps forward move the source to the end of the group that the last of them leads into. -/
lemma steps_begun (hR : Simulation R) (hcode : RefusesMalformed code)
    (hplain : source.stop.IsPlain) (hfull : MakesFull code full) (hmost : MakesAtMost code full)
    (h : GroupsOf R base code source s t) (hs : ReadTo 0 s) (hstart : s.source.index = 0)
    (hbehind : t.behind = []) {n : Nat} (hn : n ≤ t.ahead.length) :
    (after (steps n) s).source.index =
      min source.ahead.length (n ⌈/⌉ full * GroupCode.size code) := by
  obtain _ | n := n
  · rw [zero_ceilDiv, Nat.zero_mul, Nat.min_zero]
    exact hstart
  have hgroups := group_simulation (ρ := ρ) (β := β) hR base code source
  obtain ⟨m, hbegun, -, -, hexact⟩ := after_begun hR hcode hplain hfull hmost h hs (steps (n + 1))
  have hquiet : Undisturbed (answers (steps (n + 1)) s) := by
    rw [answers_eq hgroups h]
    exact undisturbed_steps hn
  have hindex : (after (steps (n + 1)) s).index = n + 1 := by
    have hplace := hgroups.index (after_shows hgroups h (steps (n + 1)))
    rw [after_steps, Tape.past, hbehind, List.append_nil, List.length_reverse, List.length_take,
      Nat.min_eq_left hn] at hplace
    exact hplace
  have hpassed : 0 < (after (steps (n + 1)) s).passed := by
    have hlast := after_shows hgroups h (steps n ++ [.hasNext])
    rw [after_append _ _ t, after_steps, after, after_hasNext, after] at hlast
    have hfirst := past_ahead (List.getElem?_eq_getElem (show n < t.ahead.length from hn))
    have hnext := (hgroups.next hlast).result
    rw [(Tape.look_of_cons hfirst).2.2] at hnext
    have htaken := passed_of_next hnext
    have hcursor (x : Grouped ρ σ β) : (Call.next.ask x).cursor = (Cursor.next x).cursor := by
      rw [Call.ask, map_run]
    rw [after_append, after, after] at htaken
    rwa [steps_snoc, after_append, after, after, after, hcursor]
  rw [hexact hquiet, hbegun.eq_ceilDiv hpassed, hindex]

end Fresh

section Stacks

variable {k j : Kind}

/-- The coding cursor `c` reads the `count` units that `s` has ahead by groups of `size` units, of
which each becomes at most `full` units, and only as many groups as it must. -/
structure ReadsByGroups (s : AnyStack k) (c : AnyStack j) (size full count : Nat) : Prop where
  /-- After any calls so many groups have been read as the index leads into, or one more if the
  calls met anything but the ends of the units. -/
  run : ∀ calls, ∃ m passed inner, (after calls c).inner? 0 = some ⟨k, inner⟩ ∧
    StepsAhead s passed inner ∧ Cursor.index (after calls c) ≤ m * full ∧
    (m = 0 ∨ (m - 1) * full ≤ Cursor.index (after calls c)) ∧
    min count (m * size) ≤ passed ∧ passed ≤ min count (m * size) + size ∧
    (Undisturbed (answers calls c) → passed = min count (m * size))
  /-- Filling a buffer reads what its units need. -/
  fill : ∀ units stop, Gives c units stop → ∀ buffer, buffer.size ≤ units.length →
    ∃ inner, (Cursor.fill buffer c).1.cursor.inner? 0 = some ⟨k, inner⟩ ∧
      StepsAhead s (min count (buffer.size ⌈/⌉ full * size)) inner
  /-- Taking so many units reads what they need. -/
  take : ∀ units stop, Gives c units stop → ∀ n ≤ units.length,
    ∃ inner, (Cursor.take n c).cursor.inner? 0 = some ⟨k, inner⟩ ∧
      StepsAhead s (min count (n ⌈/⌉ full * size)) inner

variable {s : AnyStack k} {t : Tape k.Carrier} [GroupCode ρ k.Carrier j.Carrier] [LawfulCode ρ]
  {code : ρ}

lemma GroupsOf.stepsAhead {c : Grouped ρ (Stack s.depth k) j.Carrier} {u : Tape j.Carrier}
    (ht : Shows s t) (h : GroupsOf (Along t) t.behind.length code t.fresh c u) :
    StepsAhead s c.source.index ⟨s.depth, c.source.inner⟩ := by
  obtain ⟨i, hat, -⟩ := h
  obtain ⟨n, ⟨-, hstands⟩, -⟩ := hat.stands
  exact hstands.stepsAhead ht

/-- A layer that keeps a cursor over groups of a stack. -/
lemma readsByGroups_of_wraps {full : Nat} (ht : Shows s t)
    {f : Grouped ρ (Stack s.depth k) j.Carrier → AnyStack j} (hwraps : Wraps f)
    (hinner : ∀ c, (f c).inner? 0 = some ⟨k, s.depth, c.source.inner⟩)
    (hindex : ∀ c, Cursor.index (f c) = c.index)
    (hshows : Shows (f (.ofCursor code s.stack))
      (unroll code t.behind.length t.ahead t.stop).counted)
    (hcode : RefusesMalformed code) (hfull : MakesFull code full)
    (hmost : MakesAtMost code full) :
    ReadsByGroups s (f (.ofCursor code s.stack)) (GroupCode.size code) full t.ahead.length := by
  have hR := along_simulation (σ := Stack s.depth k) t
  have hstart := groupsOf_start (β := j.Carrier) (standsOn_start (s := s.stack) ht) code
  have hgroups := group_simulation (ρ := ρ) (β := j.Carrier) hR t.behind.length code t.fresh
  have hplain : t.fresh.stop.IsPlain := (stack_endsAt (n := s.depth) ht).stop
  have hread : ReadTo 0 (Grouped.ofCursor code s.stack : Grouped ρ (Stack s.depth k) j.Carrier) :=
    Nat.le_refl 0
  have hbehind :
      (unroll code t.behind.length t.ahead t.stop : Tape j.Carrier).counted.behind = [] :=
    unroll_behind
  -- Where the steps of a loop lead.
  have hsteps (n : Nat)
      (hn : n ≤ (unroll code t.behind.length t.ahead t.stop : Tape j.Carrier).ahead.length) :
      ∃ inner, (after (steps n) (f (.ofCursor code s.stack))).inner? 0 = some ⟨k, inner⟩ ∧
        StepsAhead s (min t.ahead.length (n ⌈/⌉ full * GroupCode.size code)) inner := by
    have hplace := (after_shows hgroups hstart (steps n)).stepsAhead ht
    rw [steps_begun hR hcode hplain hfull hmost hstart hread rfl hbehind hn] at hplace
    rw [hwraps.after]
    exact ⟨_, hinner _, hplace⟩
  refine ⟨fun calls => ?_, fun units stop hgives buffer hn => ?_, fun units stop hgives n hn => ?_⟩
  · obtain ⟨m, hbegun, hle, hslack, hexact⟩ :=
      after_begun hR hcode hplain hfull hmost hstart hread calls
    have hplace := (after_shows hgroups hstart calls).stepsAhead ht
    rw [answers_eq simulation hshows, ← answers_eq hgroups hstart, hwraps.after, hindex]
    exact ⟨m, _, _, hinner _, hplace, hbegun.index_le, hbegun.le_index, hle, hslack, hexact⟩
  · obtain ⟨rfl, -⟩ := hgives.tape_eq hshows
    rw [fill_steps hshows hn]
    exact hsteps _ hn
  · obtain ⟨rfl, -⟩ := hgives.tape_eq hshows
    rw [take_steps hshows hn]
    exact hsteps _ hn

/-- Coding cursors over any stack read it by whole groups, and leave it where the units that have
been filled or taken from them end. -/
theorem coding_readsByGroups :
    (∀ {s : AnyStack .char}, Reachable s → (∃ symbols stop, Gives s symbols stop) ∧
        ∀ symbols stop, Gives s symbols stop → ∀ d : Decoding,
          ReadsByGroups s (s.decode d) d.codec.groupSymbols d.codec.groupBytes symbols.length) ∧
      ∀ {s : AnyStack .byte}, Reachable s → (∃ bytes stop, Gives s bytes stop) ∧
        ∀ bytes stop, Gives s bytes stop → ∀ e : Encoding,
          ReadsByGroups s (s.encode e) e.codec.groupBytes e.codec.groupSymbols bytes.length := by
  constructor
  · intro s hreach
    obtain ⟨t, ht⟩ := reachable_shows hreach
    refine ⟨exists_gives hreach, fun symbols stop hgives d => ?_⟩
    obtain ⟨rfl, -⟩ := hgives.tape_eq ht
    let : Cursor (Stack s.depth .char) Char := Stack.instCursor s.depth .char
    exact readsByGroups_of_wraps (j := .byte) ht (f := fun c => ⟨s.depth + 1, .decoded c⟩)
      ⟨fun _ => rfl, fun _ => rfl, fun _ => rfl, fun _ => rfl, fun _ => rfl, fun _ => rfl⟩
      (fun _ => rfl) (fun _ => rfl) (shows_decode ht d) (decoding_refusesMalformed d)
      (decoding_makesFull d) (decoding_makesAtMost d)
  · intro s hreach
    obtain ⟨t, ht⟩ := reachable_shows hreach
    refine ⟨exists_gives hreach, fun bytes stop hgives e => ?_⟩
    obtain ⟨rfl, -⟩ := hgives.tape_eq ht
    let : Cursor (Stack s.depth .byte) UInt8 := Stack.instCursor s.depth .byte
    exact readsByGroups_of_wraps (j := .char) ht (f := fun c => ⟨s.depth + 1, .encoded c⟩)
      ⟨fun _ => rfl, fun _ => rfl, fun _ => rfl, fun _ => rfl, fun _ => rfl, fun _ => rfl⟩
      (fun _ => rfl) (fun _ => rfl) (shows_encode ht e) (encoding_refusesMalformed e)
      (encoding_makesFull e) (encoding_makesAtMost e)

/-- Two symbols are taken from the first three of four bytes, behind which no group can be read. All
four symbols are read for a single byte. -/
theorem coding_readsByGroups_brokenBytes :
    Gives brokenBytes [0x68, 0x65, 0x6c, 0x6c] (.rejected .base16 ⟨.invalidCharacter, 8⟩) ∧
      ReadsByGroups brokenBytes (brokenBytes.encode { codec := .base64 .base64 }) 3 4 4 ∧
      (∃ inner, (Cursor.take 2 (brokenBytes.encode { codec := .base64 .base64 })).cursor.inner? 0 =
        some ⟨.byte, inner⟩ ∧ StepsAhead brokenBytes 3 inner) ∧
      ∃ inner, (Cursor.take 1 (paddedSymbols.decode { codec := .base64 .base64 })).cursor.inner? 0 =
        some ⟨.char, inner⟩ ∧ StepsAhead paddedSymbols 4 inner := by
  have hgives : Gives brokenBytes [0x68, 0x65, 0x6c, 0x6c]
      (.rejected .base16 ⟨.invalidCharacter, 8⟩) := rfl
  have hencoded : Gives (brokenBytes.encode { codec := .base64 .base64 }) ['a', 'G', 'V', 's']
      (.rejected .base16 ⟨.invalidCharacter, 8⟩) := rfl
  have hsymbols : Gives paddedSymbols ['Z', 'm', '8', '='] (.ended 4) := rfl
  have hdecoded : Gives (paddedSymbols.decode { codec := .base64 .base64 }) [0x66, 0x6f]
      (.ended 4) := rfl
  have hbytes := (coding_readsByGroups.2 (.decode (.slice (k := .char) _) _)).2 _ _ hgives
    { codec := .base64 .base64 }
  have hchars := (coding_readsByGroups.1 (.slice (k := .char) _)).2 _ _ hsymbols
    { codec := .base64 .base64 }
  exact ⟨hgives, hbytes, hbytes.take _ _ hencoded 2 (by decide),
    hchars.take _ _ hdecoded 1 (by decide)⟩

end Stacks

end BaseText.Proofs
