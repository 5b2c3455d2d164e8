import BaseText.Cursor.Buffer
import BaseText.Proofs.Stacks

/-!
# Runs

A run asks a cursor one question after the other. Cursors that show the same tape give the same
answers in every run, and a stack shows a tape in every state that can be reached: after any run,
under any layers put on at any moment, and without them when they are taken off again.
-/

namespace BaseText.Proofs

/-- What a cursor can be asked. -/
inductive Call where
  | hasNext
  | hasPrevious
  | peekNext
  | peekPrevious
  | next
  | previous
  | index
deriving DecidableEq, Repr

/-- What a cursor answers. -/
inductive Reply (α : Type) where
  | truth (b : Bool)
  | unit (u : α)
  | index (i : Nat)
deriving DecidableEq

section Answers

variable {σ α β : Type} [Cursor σ α]

/-- Asks a cursor. -/
def Call.ask : Call → Action σ (Reply α)
  | hasNext => .truth <$> Cursor.hasNext
  | hasPrevious => .truth <$> Cursor.hasPrevious
  | peekNext => .unit <$> Cursor.peekNext
  | peekPrevious => .unit <$> Cursor.peekPrevious
  | next => .unit <$> Cursor.next
  | previous => .unit <$> Cursor.previous
  | index => Action.asks fun s => .index (Cursor.index s)

/-- The cursor after some calls. -/
def after : List Call → σ → σ
  | [], s => s
  | call :: calls, s => after calls (call.ask s).cursor

/-- The answers to some calls. -/
def answers : List Call → σ → List (Except CodingError (Reply α))
  | [], _ => []
  | call :: calls, s => (call.ask s).result :: answers calls (call.ask s).cursor

omit [Cursor σ α] in
lemma map_run {γ : Type} (f : γ → β) (act : Action σ γ) (s : σ) :
    (f <$> act) s = ⟨f <$> (act s).result, (act s).cursor, (act s).log⟩ := by
  rw [← bind_pure_comp, Action.bind_run]
  cases (act s).result with
  | ok a => exact congrArg (Outcome.mk _ _) (List.append_nil _)
  | error e => rfl

omit [Cursor σ α] in
lemma Meets.map {γ : Type} {act : Action σ γ} {actT : Action (Tape α) γ} {s : σ} {t : Tape α}
    {R : σ → Tape α → Prop} (f : γ → β)
    (h : Meets act s (actT t).result (actT t).log (R · (actT t).cursor)) :
    Meets (f <$> act) s ((f <$> actT) t).result ((f <$> actT) t).log
      (R · ((f <$> actT) t).cursor) := by
  rw [map_run f actT t]
  exact ⟨by rw [map_run, h.result], by rw [map_run]; exact h.log, by rw [map_run]; exact h.cursor⟩

/-- A call is answered, logged and followed as on the tape. -/
lemma Call.ask_meets {R : σ → Tape α → Prop} (hR : Simulation R) {s : σ} {t : Tape α} (h : R s t)
    (call : Call) :
    Meets call.ask s (call.ask t).result (call.ask t).log (R · (call.ask t).cursor) := by
  cases call with
  | hasNext => exact .map Reply.truth (hR.hasNext h)
  | hasPrevious => exact .map Reply.truth (hR.hasPrevious h)
  | peekNext => exact .map Reply.unit (hR.peekNext h)
  | peekPrevious => exact .map Reply.unit (hR.peekPrevious h)
  | next => exact .map Reply.unit (hR.next h)
  | previous => exact .map Reply.unit (hR.previous h)
  | index => exact ⟨by rw [Call.ask, Action.asks_run, hR.index h]; rfl, rfl, h⟩

theorem answers_eq {R : σ → Tape α → Prop} (hR : Simulation R) {s : σ} {t : Tape α} (h : R s t)
    (calls : List Call) : answers calls s = answers calls t := by
  induction calls generalizing s t with
  | nil => rfl
  | cons call calls ih =>
    have hcall := call.ask_meets hR h
    rw [answers, answers, hcall.result, ih hcall.cursor]

lemma after_shows {R : σ → Tape α → Prop} (hR : Simulation R) {s : σ} {t : Tape α} (h : R s t)
    (calls : List Call) : R (after calls s) (after calls t) := by
  induction calls generalizing s t with
  | nil => exact h
  | cons call calls ih => exact ih (call.ask_meets hR h).cursor

end Answers

section Longer

variable {σ α β γ : Type} [Cursor σ α]

/-- The action moves the cursor that `part` finds in its state, and only by calls. -/
def Follows {τ : Type} (part : τ → σ) (act : Action τ β) : Prop :=
  ∀ s, ∃ calls, part (act s).cursor = after calls (part s)

lemma after_append (calls more : List Call) (s : σ) :
    after (calls ++ more) s = after more (after calls s) := by
  induction calls generalizing s with
  | nil => rfl
  | cons call calls ih => exact ih (call.ask s).cursor

/-- A call as the cursor's own answer gives it, before it becomes a reply. -/
lemma follows_of_ask {act : Action σ β} {f : β → Reply α} (call : Call)
    (h : call.ask = f <$> act) : Follows id act := by
  intro s
  refine ⟨[call], ?_⟩
  rw [after, after, h, map_run]
  rfl

variable {τ : Type} {part : τ → σ}

lemma Follows.of_stays {act : Action τ β} (h : ∀ s, part (act s).cursor = part s) :
    Follows part act :=
  fun s => ⟨[], h s⟩

lemma Follows.bind {act : Action τ β} {next : β → Action τ γ} (hact : Follows part act)
    (hnext : ∀ b, Follows part (next b)) : Follows part (act >>= next) := by
  intro s
  obtain ⟨calls, hcalls⟩ := hact s
  rw [Action.bind_run]
  cases (act s).result with
  | error e => exact ⟨calls, hcalls⟩
  | ok b =>
    obtain ⟨more, hmore⟩ := hnext b (act s).cursor
    refine ⟨calls ++ more, ?_⟩
    rw [after_append, ← hcalls]
    exact hmore

lemma Follows.map {act : Action τ β} (f : β → γ) (h : Follows part act) :
    Follows part (f <$> act) := by
  intro s
  rw [map_run]
  exact h s

lemma Follows.attempt {act : Action τ β} (h : Follows part act) :
    Follows part act.attempt :=
  fun s => h s

lemma Follows.gather {test : Action τ Bool} {step : Action τ β} (htest : Follows part test)
    (hstep : Follows part step) (fuel : Nat) : Follows part (Action.gather test step fuel) := by
  induction fuel with
  | zero => exact .of_stays fun s => rfl
  | succ fuel ih =>
    unfold Action.gather
    apply htest.bind
    intro more
    cases more with
    | false => exact .of_stays fun s => rfl
    | true => exact hstep.bind fun b => ih.bind fun rest => .of_stays fun s => rfl

lemma follows_hasNext : Follows (σ := σ) id Cursor.hasNext := follows_of_ask .hasNext rfl

lemma follows_next : Follows (σ := σ) id Cursor.next := follows_of_ask .next rfl

theorem follows_collect : Follows (σ := σ) id Cursor.collect :=
  fun s => follows_hasNext.gather follows_next _ s

theorem follows_rewind : Follows (σ := σ) id Cursor.rewind :=
  fun s => ((follows_of_ask .hasPrevious rfl).gather (follows_of_ask .previous rfl) _).map _ s

theorem follows_iterate (n : Nat) : Follows (σ := σ) id (Cursor.iterate n) := by
  induction n with
  | zero => exact .of_stays fun s => rfl
  | succ n ih =>
    unfold Cursor.iterate
    have hstep : Follows (σ := σ) id (do
        if ← (Cursor.hasNext : Action σ Bool) then some <$> Cursor.next else pure none) := by
      apply follows_hasNext.bind
      intro more
      cases more with
      | false => exact .of_stays fun s => rfl
      | true => exact follows_next.map some
    apply hstep.attempt.bind
    intro answer
    rcases answer with e | _ | u
    · exact .of_stays fun s => rfl
    · exact ih.map _
    · exact ih.map _

lemma Follows.inside {act : Action σ β} (h : Follows id act) :
    Follows Filling.cursor (Filling.inside act : Action (Filling σ γ) β) :=
  fun s => h s.cursor

theorem follows_fill (buffer : Array α) (s : σ) :
    ∃ calls, (Cursor.fill buffer s).1.cursor = after calls s := by
  have hstep : Follows (σ := σ) Filling.cursor (Filling.step (α := α) some) := by
    apply follows_next.inside.bind
    intro u
    exact .of_stays fun s => rfl
  have hfill : Follows (σ := σ) Filling.cursor (Filling.fill : Action (Filling σ α) Nat) :=
    .bind (.of_stays fun s => rfl) fun slots =>
      (follows_hasNext.inside.gather hstep slots).bind fun _ => .of_stays fun s => rfl
  exact hfill { cursor := s, buffer }

end Longer

section Draining

variable {σ α : Type} [Cursor σ α] {R : σ → Tape α → Prop} {s : σ} {t : Tape α}

/-- All units ahead, or the rejection that they end with. -/
def Tape.drained (t : Tape α) : Except CodingError (List α) :=
  match t.stop with
  | .ended _ => .ok t.ahead
  | .rejected _ e => .error e

/-- The place behind all units. -/
def Tape.toEnd (t : Tape α) : Tape α := ⟨t.ahead.reverse ++ t.behind, [], t.stop⟩

/-- The place in front of all units. -/
def Tape.toStart (t : Tape α) : Tape α := ⟨[], t.units, t.stop⟩

omit [Cursor σ α] in
lemma Tape.drained_counted (t : Tape α) : t.counted.drained = t.drained := by
  obtain ⟨behind, ahead, stop⟩ := t
  cases stop <;> rfl

omit [Cursor σ α] in
lemma Tape.toEnd_cons (behind rest : List α) (u : α) (stop : Stop) :
    Tape.toEnd ⟨behind, u :: rest, stop⟩ = Tape.toEnd ⟨u :: behind, rest, stop⟩ := by
  simp [Tape.toEnd]

omit [Cursor σ α] in
@[simp] lemma Tape.toStart_forth (t : Tape α) : t.forth.toStart = t.toStart := by
  rw [toStart, toStart, units_forth]
  rcases t with ⟨behind, _ | ⟨u, rest⟩, stop⟩ <;> rfl

omit [Cursor σ α] in
@[simp] lemma Tape.toStart_back (t : Tape α) : t.back.toStart = t.toStart := by
  rw [toStart, toStart, units_back]
  rcases t with ⟨_ | ⟨u, behind⟩, ahead, stop⟩ <;> rfl

omit [Cursor σ α] in
lemma Tape.toStart_after (t : Tape α) (calls : List Call) :
    (after calls t).toStart = t.toStart := by
  induction calls generalizing t with
  | nil => rfl
  | cons call calls ih =>
    rw [after, ih]
    cases call <;> simp only [Call.ask, map_run, Action.asks_run]
    case next => exact toStart_forth t
    case previous => exact toStart_back t
    all_goals rfl

omit [Cursor σ α] in
/-- A place on a tape is known by the number of units behind it. -/
lemma Tape.eq_of_toStart {t t' : Tape α} (hstart : t'.toStart = t.toStart)
    (hlength : t'.behind.length = t.behind.length) : t' = t := by
  obtain ⟨behind, ahead, stop⟩ := t
  obtain ⟨behind', ahead', stop'⟩ := t'
  obtain ⟨-, hunits, rfl⟩ := Tape.mk.inj hstart
  obtain ⟨hbehind, rfl⟩ := List.append_inj hunits (by simpa using hlength)
  obtain rfl : behind' = behind := List.reverse_inj.1 hbehind
  rfl

lemma gather_shows (hR : Simulation R) {behind ahead : List α} {stop : Stop} {fuel : Nat}
    (h : R s ⟨behind, ahead, stop⟩) (hfuel : ahead.length < fuel) :
    Meets (Action.gather Cursor.hasNext Cursor.next fuel) s
      (Tape.drained ⟨behind, ahead, stop⟩) stop.refusals
      (R · (Tape.toEnd ⟨behind, ahead, stop⟩)) := by
  induction fuel generalizing s behind ahead with
  | zero => omega
  | succ fuel ih =>
    have hmore := hR.hasNext h
    unfold Action.gather
    cases ahead with
    | nil =>
      cases stop with
      | ended offset => exact hmore.bind fun _ hs => .answer hs
      | rejected codec e => exact hmore.bind_error
    | cons u rest =>
      apply hmore.bind
      intro s' hs'
      have hnext := hR.next hs'
      apply hnext.bind
      intro s'' hs''
      have hrest := ih hs'' (by simpa using hfuel)
      rw [Tape.toEnd_cons]
      cases stop with
      | ended offset => exact hrest.bind fun _ hs => .answer hs
      | rejected codec e => exact hrest.bind_error

/-- Collecting gives what is ahead on the tape. -/
theorem collect_shows (hR : Simulation R) (h : R s t) :
    Meets Cursor.collect s t.drained t.stop.refusals (R · t.toEnd) :=
  have hgather := gather_shows hR h (Nat.lt_succ_of_le (hR.ahead_le h))
  ⟨hgather.result, hgather.log, hgather.cursor⟩

lemma gatherBack_shows (hR : Simulation R) {behind ahead : List α} {stop : Stop} {fuel : Nat}
    (h : R s ⟨behind, ahead, stop⟩) (hfuel : behind.length < fuel) :
    Meets (Action.gather Cursor.hasPrevious Cursor.previous fuel) s (.ok behind) []
      (R · ⟨[], behind.reverse ++ ahead, stop⟩) := by
  induction fuel generalizing s behind ahead with
  | zero => omega
  | succ fuel ih =>
    have hany := hR.hasPrevious h
    unfold Action.gather
    cases behind with
    | nil => exact hany.bind fun _ hs => .answer hs
    | cons u rest =>
      apply hany.bind
      intro s' hs'
      have hprevious := hR.previous hs'
      apply hprevious.bind
      intro s'' hs''
      have hrest := ih hs'' (by simpa using hfuel)
      rw [List.reverse_cons, List.append_assoc]
      exact hrest.bind fun _ hs => .answer hs

/-- Rewinding counts what is behind on the tape, and never fails. -/
theorem rewind_shows (hR : Simulation R) (h : R s t) :
    Meets Cursor.rewind s (.ok t.behind.length) [] (R · t.toStart) := by
  have hindex := hR.index h
  have hback := gatherBack_shows hR h (Nat.lt_succ_self t.behind.length)
  have hrun : Cursor.rewind s = (List.length <$>
      Action.gather Cursor.hasPrevious Cursor.previous (t.behind.length + 1)) s := by
    rw [Cursor.rewind, hindex]
  rw [map_run] at hrun
  exact ⟨by rw [hrun, hback.result]; rfl, by rw [hrun]; exact hback.log,
    by rw [hrun]; exact hback.cursor⟩

end Draining

/-- The stacks that can be built from sources, in every state of every run: layers are put on and
taken off at any moment. -/
inductive Reachable : {k : Kind} → AnyStack k → Prop
  | slice {k : Kind} (units : List k.Carrier) :
    Reachable (.ofSource (.sequence (.ofList units)))
  | buffer {k : Kind} (units : List k.Carrier) :
    Reachable (.ofSource (.buffer (.ofList units)))
  | text (text : String) : Reachable (.ofSource (.text (.ofString text)))
  | chain {k : Kind} (members : List (AnyStack k)) (h : ∀ m ∈ members, Reachable m) :
    Reachable (.chain members)
  | limit {k : Kind} {s : AnyStack k} (h : Reachable s) (bound : Nat) : Reachable (s.limit bound)
  | delimit {k : Kind} {s : AnyStack k} (h : Reachable s) (stops : List k.Carrier) :
    Reachable (s.delimit stops)
  | filter {k : Kind} {s : AnyStack k} (h : Reachable s) (hidden : k.Carrier → Bool) :
    Reachable (s.filter hidden)
  | map {s : AnyStack .byte} (h : Reachable s) (table : ByteTable) : Reachable (s.map table)
  | encode {s : AnyStack .byte} (h : Reachable s) (e : Encoding) : Reachable (s.encode e)
  | decode {s : AnyStack .char} (h : Reachable s) (d : Decoding) : Reachable (s.decode d)
  | call {k : Kind} {s : AnyStack k} (h : Reachable s) (call : Call) :
    Reachable (call.ask s).cursor
  | rewind {k : Kind} {s : AnyStack k} (h : Reachable s) : Reachable (Cursor.rewind s).cursor
  | collect {k : Kind} {s : AnyStack k} (h : Reachable s) : Reachable (Cursor.collect s).cursor
  | iterate {k : Kind} {s : AnyStack k} (h : Reachable s) (n : Nat) :
    Reachable (Cursor.iterate n s).cursor
  | fill {k : Kind} {s : AnyStack k} (h : Reachable s) (buffer : Array k.Carrier) :
    Reachable (Cursor.fill buffer s).1.cursor
  | inner {k : Kind} {s : AnyStack k} (h : Reachable s) {member : Nat}
    {inner : (k : Kind) × AnyStack k} (hinner : s.inner? member = some inner) : Reachable inner.2

lemma exists_members {k : Kind} {members : List (AnyStack k)}
    (h : ∀ m ∈ members, ∃ t : Tape k.Carrier, Shows m t) :
    ∃ shown : List (Member (σ := AnyStack k) (α := k.Carrier) Shows),
      shown.map Member.cursor = members := by
  induction members with
  | nil => exact ⟨[], rfl⟩
  | cons m rest ih =>
    obtain ⟨t, ht⟩ := h m (by simp)
    obtain ⟨shown, rfl⟩ := ih fun m hm => h m (List.mem_cons_of_mem _ hm)
    exact ⟨⟨m, t, ht⟩ :: shown, rfl⟩

lemma shows_after {k : Kind} {s s' : AnyStack k} (h : ∃ t : Tape k.Carrier, Shows s t)
    (hafter : ∃ calls, s' = after calls s) : ∃ t : Tape k.Carrier, Shows s' t := by
  obtain ⟨t, ht⟩ := h
  obtain ⟨calls, rfl⟩ := hafter
  exact ⟨_, after_shows simulation ht calls⟩

/-- Every stack that can be reached shows a tape. -/
theorem reachable_shows {k : Kind} {s : AnyStack k} (h : Reachable s) :
    ∃ t : Tape k.Carrier, Shows s t := by
  induction h with
  | slice units => exact ⟨_, sequence_shows units⟩
  | buffer units => exact ⟨_, sequence_shows units⟩
  | text text => exact ⟨_, text_shows text⟩
  | chain members h ih =>
    obtain ⟨shown, rfl⟩ := exists_members ih
    exact ⟨_, shows_chain shown⟩
  | limit h bound ih =>
    obtain ⟨t, ht⟩ := ih
    exact ⟨_, shows_limit ht bound⟩
  | delimit h stops ih =>
    obtain ⟨t, ht⟩ := ih
    exact ⟨_, shows_delimit ht stops⟩
  | filter h hidden ih =>
    obtain ⟨t, ht⟩ := ih
    exact ⟨_, shows_filter ht hidden⟩
  | map h table ih =>
    obtain ⟨t, ht⟩ := ih
    exact ⟨_, shows_map ht table⟩
  | encode h e ih =>
    obtain ⟨t, ht⟩ := ih
    exact ⟨_, shows_encode ht e⟩
  | decode h d ih =>
    obtain ⟨t, ht⟩ := ih
    exact ⟨_, shows_decode ht d⟩
  | call h call ih =>
    obtain ⟨t, ht⟩ := ih
    exact ⟨_, (call.ask_meets simulation ht).cursor⟩
  | rewind h ih => exact shows_after ih (follows_rewind _)
  | collect h ih => exact shows_after ih (follows_collect _)
  | iterate h n ih => exact shows_after ih (follows_iterate n _)
  | fill h buffer ih => exact shows_after ih (follows_fill buffer _)
  | inner h hinner ih =>
    obtain ⟨t, ht⟩ := ih
    exact shows_inner ht hinner

end BaseText.Proofs
