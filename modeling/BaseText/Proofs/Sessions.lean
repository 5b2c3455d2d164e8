import BaseText.Proofs.Ahead

/-!
# Sessions

A session makes calls on a stack and puts layers over it in between. Calls that only look, and steps
that fail, may be left out of a session: nothing that comes after them can tell. A rejection is
therefore met again by whoever asks again in the same place, and what was read before it can be
gone over in both directions.
-/

namespace BaseText.Proofs

/-- All calls but the two steps. -/
def Call.isLook : Call → Bool
  | hasNext | hasPrevious | peekNext | peekPrevious | index => true
  | next | previous => false

/-- The calls that tell whether a unit is ahead, and which. -/
def Call.looksAhead : List Call := [hasNext, peekNext, next]

section Stays

variable {α : Type} {t : Tape α} {call : Call} {e : CodingError}

/-- Looking moves nothing, and neither does a step that fails. -/
lemma ask_stays (h : call.isLook ∨ ∃ e, (call.ask t).result = .error e) :
    (call.ask t).cursor = t := by
  cases call with
  | hasNext | hasPrevious | peekNext | peekPrevious =>
    rw [Call.ask, map_run]
    rfl
  | index => rfl
  | next =>
    obtain ⟨hresult, hcursor⟩ := ask_next t
    obtain hlook | ⟨e, he⟩ := h
    · cases hlook
    · rw [hresult] at he
      rw [hcursor]
      obtain ⟨behind, _ | ⟨u, rest⟩, stop⟩ := t
      · rfl
      · cases he
  | previous =>
    obtain ⟨hresult, hcursor⟩ := ask_previous t
    obtain hlook | ⟨e, he⟩ := h
    · cases hlook
    · rw [hresult] at he
      rw [hcursor]
      obtain ⟨_ | ⟨u, behind⟩, ahead, stop⟩ := t
      · rfl
      · cases he

lemma after_eq {calls : List Call} (h : (after calls t).behind.length = t.behind.length) :
    after calls t = t :=
  -- Calls change the place on the tape and nothing else.
  Tape.eq_of_toStart (Tape.toStart_after t calls) h

/-- Only the end of a tape can tell of malformed input, and it tells whoever asks. -/
lemma looksAhead_of_malformed (hcall : call ∈ Call.looksAhead)
    (he : e.isMalformed = true) (h : (call.ask t).result = .error e) :
    ∀ retry ∈ Call.looksAhead, (retry.ask t).result = .error e := by
  -- A unit ahead answers all three calls, and a plain end is not malformed.
  obtain ⟨behind, codec, rfl⟩ : ∃ behind codec, t = ⟨behind, [], .rejected codec e⟩ := by
    obtain ⟨behind, _ | ⟨u, rest⟩, ⟨offset⟩ | ⟨codec, e'⟩⟩ := t
    all_goals
      simp only [Call.looksAhead, List.mem_cons, List.not_mem_nil, or_false] at hcall
      obtain rfl | rfl | rfl := hcall <;> rw [Call.ask, map_run] at h <;> cases h
    · cases he
    · cases he
    all_goals exact ⟨behind, codec, rfl⟩
  intro retry hretry
  simp only [Call.looksAhead, List.mem_cons, List.not_mem_nil, or_false] at hretry
  obtain rfl | rfl | rfl := hretry <;> rw [Call.ask, map_run] <;> rfl

lemma retries_of_malformed (hcall : call ∈ Call.looksAhead) (he : e.isMalformed = true)
    (h : (call.ask t).result = .error e) {retries : List Call}
    (hretries : ∀ retry ∈ retries, retry ∈ Call.looksAhead) :
    answers retries t = retries.map (fun _ => .error e) ∧ after retries t = t := by
  induction retries with
  | nil => exact ⟨rfl, rfl⟩
  | cons retry retries ih =>
    have hretry := looksAhead_of_malformed hcall he h retry (hretries retry (by simp))
    have hstays : (retry.ask t).cursor = t := ask_stays (.inr ⟨e, hretry⟩)
    obtain ⟨hanswers, hafter⟩ := ih fun retry hr => hretries retry (List.mem_cons_of_mem _ hr)
    rw [answers, after, hstays, hretry, hanswers, hafter]
    exact ⟨rfl, rfl⟩

end Stays

/-- A layer to put over a stack, or stacks to put it between. -/
inductive Cover : Kind → Kind → Type
  | limit {k : Kind} (bound : Nat) : Cover k k
  | delimit {k : Kind} (stops : List k.Carrier) : Cover k k
  | filter {k : Kind} (hidden : k.Carrier → Bool) : Cover k k
  | map (table : ByteTable) : Cover .byte .byte
  | encode (e : Encoding) : Cover .byte .char
  | decode (d : Decoding) : Cover .char .byte
  | chain {k : Kind} (before behind : List (AnyStack k))
    (h : ∀ m ∈ before ++ behind, Reachable m) : Cover k k

variable {k k' k'' : Kind}

def Cover.over : Cover k k' → AnyStack k → AnyStack k'
  | limit bound, s => s.limit bound
  | delimit stops, s => s.delimit stops
  | filter hidden, s => s.filter hidden
  | map table, s => s.map table
  | encode e, s => s.encode e
  | decode d, s => s.decode d
  | chain before behind _, s => .chain (before ++ s :: behind)

/-- Calls on a stack, each of them marked as kept or left out, and layers put over it in between. -/
inductive Session : Kind → Kind → Type
  | done {k : Kind} : Session k k
  | ask {k k' : Kind} (call : Call) (kept : Bool) (next : Session k k') : Session k k'
  | cover {k k' k'' : Kind} (layer : Cover k k') (next : Session k' k'') : Session k k''

namespace Session

/-- The answers to the calls that are kept. All calls are made. -/
def answers {k k' : Kind} :
    Session k k' → AnyStack k → List ((k : Kind) × Except CodingError (Reply k.Carrier))
  | done, _ => []
  | @ask k _ call true next, s => ⟨k, (call.ask s).result⟩ :: next.answers (call.ask s).cursor
  | ask call false next, s => next.answers (call.ask s).cursor
  | cover layer next, s => next.answers (layer.over s)

/-- The stack that all calls and layers lead to. -/
def result {k k' : Kind} : Session k k' → AnyStack k → AnyStack k'
  | done, s => s
  | ask call _ next, s => next.result (call.ask s).cursor
  | cover layer next, s => next.result (layer.over s)

/-- The session without the calls that are left out. -/
def kept {k k' : Kind} : Session k k' → Session k k'
  | done => done
  | ask call true next => ask call true next.kept
  | ask _ false next => next.kept
  | cover layer next => cover layer next.kept

/-- The calls that are left out look, or fail where they are made. -/
def MayLeaveOut {k k' : Kind} : Session k k' → AnyStack k → Prop
  | done, _ => True
  | ask call kept next, s =>
    (kept = false → call.isLook ∨ ∃ e, (call.ask s).result = .error e) ∧
      next.MayLeaveOut (call.ask s).cursor
  | cover layer next, s => next.MayLeaveOut (layer.over s)

end Session

/-- A chain shows the tape of one member between those of the others. -/
lemma chain_over_shows (before behind : List (AnyStack k))
    (hmembers : ∀ m ∈ before ++ behind, Reachable m) :
    ∃ front rear : List (Tape k.Carrier), ∀ {s : AnyStack k} {t : Tape k.Carrier}, Shows s t →
      Shows (AnyStack.chain (before ++ s :: behind)) (rowOf (front ++ t :: rear)) := by
  obtain ⟨front, rfl⟩ := exists_members fun m hm =>
    reachable_shows (hmembers m (List.mem_append_left _ hm))
  obtain ⟨rear, rfl⟩ := exists_members fun m hm =>
    reachable_shows (hmembers m (List.mem_append_right _ hm))
  refine ⟨front.map Member.tape, rear.map Member.tape, fun {s t} h => ?_⟩
  have hchain := shows_chain (front ++ ⟨s, t, h⟩ :: rear)
  rw [List.map_append, List.map_append] at hchain
  exact hchain

lemma Cover.over_shows (layer : Cover k k') (t : Tape k.Carrier) :
    ∃ t' : Tape k'.Carrier, ∀ s : AnyStack k, Shows s t → Shows (layer.over s) t' := by
  cases layer with
  | limit bound => exact ⟨_, fun s h => shows_limit h bound⟩
  | delimit stops => exact ⟨_, fun s h => shows_delimit h stops⟩
  | filter hidden => exact ⟨_, fun s h => shows_filter h hidden⟩
  | map table => exact ⟨_, fun s h => shows_map h table⟩
  | encode e => exact ⟨_, fun s h => shows_encode h e⟩
  | decode d => exact ⟨_, fun s h => shows_decode h d⟩
  | chain before behind hmembers =>
    obtain ⟨front, rear, hchain⟩ := chain_over_shows before behind hmembers
    exact ⟨_, fun s h => hchain h⟩

/-- Two stacks that show one tape go through a session alike, also if one of them is spared the
calls that are left out. -/
lemma session_shows {s s' : AnyStack k} {t : Tape k.Carrier} (session : Session k k')
    (h : Shows s t) (h' : Shows s' t) (hout : session.MayLeaveOut s) :
    session.kept.answers s' = session.answers s ∧
      ∃ t', Shows (session.result s) t' ∧ Shows (session.kept.result s') t' := by
  induction session with
  | done => exact ⟨rfl, t, h, h'⟩
  | ask call kept next ih =>
    obtain ⟨hcall, hnext⟩ := hout
    have hask := call.ask_meets simulation h
    have hask' := call.ask_meets simulation h'
    cases kept with
    | true =>
      obtain ⟨hanswers, hresult⟩ := ih hask.cursor hask'.cursor hnext
      refine ⟨?_, hresult⟩
      rw [Session.kept, Session.answers, Session.answers, hask.result, hask'.result, hanswers]
    | false =>
      -- Only one of the two stacks is asked, so the tape must not move.
      have hstays : (call.ask t).cursor = t := ask_stays (by rw [← hask.result]; exact hcall rfl)
      exact ih (hstays ▸ hask.cursor) h' hnext
  | cover layer next ih =>
    obtain ⟨t', ht'⟩ := layer.over_shows t
    exact ih (ht' s h) (ht' s' h') hout

/-- Over `n` units, back over them and over them again, more calls behind the last each time. -/
def Call.overAndBack (n : Nat) (more : List Call) : List Call :=
  List.replicate n next ++ more ++ List.replicate n previous ++ List.replicate n next ++ more

/-- Looks and failed steps leave no trace, whatever is done to the stack afterwards. -/
structure Traceless (s : AnyStack k) : Prop where
  /-- They may be left out of any session. -/
  session : ∀ {k' : Kind} (session : Session k k'), session.MayLeaveOut s →
    session.kept.answers s = session.answers s ∧
      Cursor.index (session.kept.result s) = Cursor.index (session.result s)
  /-- Malformed input is met again by whoever asks again in the same place. -/
  retry : ∀ e : CodingError, e.isMalformed = true →
    ∀ call ∈ Call.looksAhead, (call.ask s).result = .error e →
      ∀ calls, Cursor.index (after calls s) = Cursor.index s →
        ∀ retry ∈ Call.looksAhead, (retry.ask (after calls s)).result = .error e
  /-- The units that are given before it are given again on the way back and on the way forth. -/
  again : ∀ (units : List k.Carrier) (e : CodingError), e.isMalformed = true →
    ∀ call ∈ Call.looksAhead,
      answers (List.replicate units.length .next ++ [call]) s = given units ++ [.error e] →
        ∀ retries : List Call, (∀ retry ∈ retries, retry ∈ Call.looksAhead) →
          answers (Call.overAndBack units.length retries) s =
            given units ++ retries.map (fun _ => .error e) ++ given units.reverse ++ given units ++
              retries.map fun _ => .error e

lemma traceless_retry {s : AnyStack k} {t : Tape k.Carrier} (h : Shows s t) {e : CodingError}
    (he : e.isMalformed = true) {call : Call} (hcall : call ∈ Call.looksAhead)
    (herror : (call.ask s).result = .error e) {calls : List Call}
    (hindex : Cursor.index (after calls s) = Cursor.index s) :
    ∀ retry ∈ Call.looksAhead, (retry.ask (after calls s)).result = .error e := by
  have hafter := after_shows simulation h calls
  rw [simulation.index h, simulation.index hafter] at hindex
  rw [after_eq hindex] at hafter
  rw [(call.ask_meets simulation h).result] at herror
  intro retry hretry
  rw [(retry.ask_meets simulation hafter).result]
  exact looksAhead_of_malformed hcall he herror retry hretry

lemma traceless_again {t : Tape k.Carrier} {units : List k.Carrier} {e : CodingError}
    (he : e.isMalformed = true) {call : Call} (hcall : call ∈ Call.looksAhead)
    (hgiven : answers (List.replicate units.length .next ++ [call]) t = given units ++ [.error e])
    {retries : List Call} (hretries : ∀ retry ∈ retries, retry ∈ Call.looksAhead) :
    answers (Call.overAndBack units.length retries) t =
      given units ++ retries.map (fun _ => .error e) ++ given units.reverse ++ given units ++
        retries.map fun _ => .error e := by
  obtain ⟨rest, hahead, herror⟩ := exists_of_given hgiven
  obtain ⟨behind, ahead, stop⟩ := t
  obtain rfl : ahead = units ++ rest := hahead
  obtain ⟨hanswers, hafter⟩ := retries_of_malformed hcall he herror hretries
  have hback := answers_previous behind units.reverse rest stop
    (List.replicate units.length .next ++ retries)
  rw [List.length_reverse, List.reverse_reverse] at hback
  simp only [Call.overAndBack, List.append_assoc]
  rw [answers_next, answers_append, hanswers, hafter, hback, answers_next, hanswers]

/-- In every state of every stack, wherever a codec rejects its input, looks and failed steps leave
no trace. -/
theorem reachable_traceless {s : AnyStack k} (h : Reachable s) : Traceless s := by
  obtain ⟨t, ht⟩ := reachable_shows h
  refine ⟨?_, ?_, ?_⟩
  · intro k' session hout
    obtain ⟨hanswers, t', hresult, hkept⟩ := session_shows session ht ht hout
    exact ⟨hanswers, by rw [simulation.index hkept, simulation.index hresult]⟩
  · intro e he call hcall herror calls hindex
    exact traceless_retry ht he hcall herror hindex
  · intro units e he call hcall hgiven retries hretries
    rw [answers_eq simulation ht] at hgiven ⊢
    exact traceless_again he hcall hgiven hretries

/-- Hexadecimal digits with a character that is none behind the first byte. -/
def brokenDigits : AnyStack .byte :=
  (AnyStack.ofSource (k := .char) (.sequence (.ofList ['6', '8', 'x', '6']))).decode
    { codec := .base16 }

/-- Looking ahead and stepping into the broken group, before and under another codec. -/
def brokenSession : Session .byte .char :=
  .ask .hasNext false <| .ask .next true <| .ask .next false <| .ask .peekNext true <|
    .ask .previous true <| .cover (.encode { codec := .base16 }) <| .ask .hasPrevious false <|
      .ask .next true <| .ask .next true <| .ask .hasNext false <| .ask .next true .done

/-- A session over malformed input, of which half of the calls are left out. -/
theorem traceless_of_brokenDigits :
    brokenSession.MayLeaveOut brokenDigits ∧
      brokenSession.kept.answers brokenDigits =
        [⟨.byte, .ok (.unit 0x68)⟩, ⟨.byte, .error ⟨.invalidCharacter, 2⟩⟩,
          ⟨.byte, .ok (.unit 0x68)⟩, ⟨.char, .ok (.unit '6')⟩, ⟨.char, .ok (.unit '8')⟩,
          ⟨.char, .error ⟨.invalidCharacter, 2⟩⟩] := by
  have hout : brokenSession.MayLeaveOut brokenDigits :=
    ⟨fun _ => .inl rfl, fun h => (by cases h), fun _ => .inr ⟨_, rfl⟩, fun h => (by cases h),
      fun h => (by cases h), fun _ => .inl rfl, fun h => (by cases h), fun h => (by cases h),
      fun _ => .inl rfl, fun h => (by cases h), trivial⟩
  have hreach : Reachable brokenDigits := .decode (.slice (k := .char) _) _
  have htraceless := reachable_traceless hreach
  exact ⟨hout, (htraceless.session brokenSession hout).1.trans rfl⟩

end BaseText.Proofs
