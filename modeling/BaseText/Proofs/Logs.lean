import BaseText.Proofs.Draining
import BaseText.Proofs.Ends

/-!
# What the log tells of a rejection

Every error but exhaustion is a rejection that one decoding in the stack has made. However many
layers hand the error on, and however often they ask each other on the way, the log has one line
about it, in the name of the codec that rejects; and it has no such line where nothing is rejected.
-/

namespace BaseText.Proofs

variable {σ α β : Type}

/-- The error that reading a cursor to its end comes to, if it does. -/
def failure? [Cursor σ α] (s : σ) : Option CodingError :=
  match (Cursor.collect s).result with
  | .ok _ => none
  | .error e => some e

/-- The cursor that was anchored, back at its anchor. -/
def origin [Cursor σ α] (a : Anchored σ) : σ := after (List.replicate a.index .previous) a.inner

/-- The member `a` is the first one that fails, and it does with the error `e`. -/
def FirstFailing [Cursor σ α] (members : List (Anchored σ)) (a : Anchored σ) (e : CodingError) :
    Prop :=
  ∃ before rest, members = before ++ a :: rest ∧ (∀ b ∈ before, failure? b.inner = none) ∧
    failure? a.inner = some e

/-- What the stack has ahead ends with an error for which a decoding under this codec rejects it. A
chain ends with the first member that fails. A decoding rejects what it cannot read of the symbols
it is over; if it can read them, their own end is handed on. -/
def RejectedBy : (n : Nat) → {k : Kind} → Stack n k → Codec → CodingError → Prop
  | 0, _, _, _, _ => False
  | n + 1, _, .plain c, codec, e => RejectedBy n c codec e
  | n + 1, _, .limited c, codec, e => RejectedBy n c.inner.inner codec e
  | n + 1, _, .delimited c, codec, e => RejectedBy n c.inner.inner codec e
  | n + 1, _, .filtered c, codec, e => RejectedBy n c.inner codec e
  | n + 1, _, .mapped c, codec, e => RejectedBy n c.inner.inner codec e
  | n + 1, _, .chained c, codec, e =>
    ∃ a, FirstFailing c.members.toList a e ∧ RejectedBy n a.inner codec e
  | n + 1, _, .encoded c, codec, e => RejectedBy n c.source.inner codec e
  | n + 1, _, .decoded c, codec, e =>
    ∃ symbols stop, Gives (origin c.source) symbols stop ∧
      match rejection? c.code symbols stop with
      | some own =>
        codec = c.code.codec ∧ e = ⟨own.cause, Cursor.index (origin c.source) + own.offset⟩
      | none => stop.more = .error e ∧ RejectedBy n c.source.inner codec e

section Tapes

variable {behind units ahead : List α} {stop : Stop}

lemma after_previous :
    after (List.replicate units.length .previous) (⟨units ++ behind, ahead, stop⟩ : Tape α) =
      ⟨behind, units.reverse ++ ahead, stop⟩ := by
  induction units generalizing ahead with
  | nil => rfl
  | cons u units ih =>
    have hcursor := (ask_previous (⟨u :: (units ++ behind), ahead, stop⟩ : Tape α)).2
    rw [List.length_cons, List.replicate_succ, List.cons_append, after, hcursor, Tape.back_cons, ih,
      List.reverse_cons, List.append_assoc]
    rfl

variable [Cursor σ α]

/-- Back at its anchor, the cursor has all units of its tape ahead. -/
lemma StandsOn.origin {R : σ → Tape α → Prop} (hR : Simulation R) {base : Nat} {a : Anchored σ}
    {t : Tape α} (h : StandsOn R base a t) :
    ∃ before, R (origin a) ⟨before, t.units, t.stop⟩ ∧ before.length = base := by
  obtain ⟨before, hs, hbase, hindex⟩ := h
  refine ⟨before, ?_, hbase⟩
  have hback := after_shows hR hs (List.replicate a.index .previous)
  rw [hindex, after_previous] at hback
  rw [BaseText.Proofs.origin, hindex]
  exact hback

lemma failure_eq [Viewed σ α] {s : σ} {t : Tape α} (h : Shows s t) :
    failure? s = match t.stop with
      | .ended _ => none
      | .rejected _ e => some e := by
  rw [failure?, (collect_shows simulation h).result]
  obtain ⟨behind, ahead, ended | ⟨codec, e⟩⟩ := t <;> rfl

lemma anchored_failure_eq [Viewed σ α] {a : Anchored σ} {t : Tape α} (h : Shows a t) :
    failure? a.inner = match t.stop with
      | .ended _ => none
      | .rejected _ e => some e := by
  obtain ⟨base, before, hs, -⟩ := h
  rw [failure_eq hs]

end Tapes

section Members

variable [Cursor σ α] {members : List (Anchored σ)} {a a' : Anchored σ} {codec : Codec}
  {e e' : CodingError}

lemma FirstFailing.unique (h : FirstFailing members a e) (h' : FirstFailing members a' e') :
    a' = a ∧ e' = e := by
  obtain ⟨before, rest, rfl, hbefore, hfails⟩ := h
  obtain ⟨before', rest', hmembers, hbefore', hfails'⟩ := h'
  induction before generalizing before' with
  | nil =>
    cases before' with
    | nil =>
      obtain ⟨rfl, -⟩ := List.cons.inj hmembers
      exact ⟨rfl, Option.some.inj (hfails'.symm.trans hfails)⟩
    | cons b before' =>
      obtain ⟨rfl, -⟩ := List.cons.inj hmembers
      rw [hbefore' _ (by simp)] at hfails
      cases hfails
  | cons b before ih =>
    cases before' with
    | nil =>
      obtain ⟨rfl, -⟩ := List.cons.inj hmembers
      rw [hbefore _ (by simp)] at hfails'
      cases hfails'
    | cons b' before' =>
      obtain ⟨-, htail⟩ := List.cons.inj hmembers
      exact ih (fun b hb => hbefore b (List.mem_cons_of_mem _ hb)) before' htail
        fun b hb => hbefore' b (List.mem_cons_of_mem _ hb)

variable [Viewed σ α] {s : Chained σ} {m : Member (σ := Anchored σ) (α := α) Shows}
  {drained rest : List (Member (σ := Anchored σ) (α := α) Shows)}

/-- Members in a row are rejected for the first of them that is. -/
lemma exists_rejecting
    (h : (m.tape.followedBy (rest.map Member.tape)).stop = .rejected codec e) :
    ∃ before u after, m :: rest = before ++ u :: after ∧
      (∀ v ∈ before, ∃ o, v.tape.stop = .ended o) ∧ u.tape.stop = .rejected codec e := by
  induction rest generalizing m with
  | nil => exact ⟨[], m, [], rfl, by simp, h⟩
  | cons next rest ih =>
    rw [List.map_cons, Tape.followedBy] at h
    cases hstop : m.tape.stop with
    | ended o =>
      rw [hstop] at h
      obtain ⟨before, u, after, hrow, hbefore, hu⟩ := ih h
      refine ⟨m :: before, u, after, congrArg (m :: ·) hrow, ?_, hu⟩
      intro v hv
      obtain rfl | hv := List.mem_cons.1 hv
      · exact ⟨o, hstop⟩
      · exact hbefore v hv
    | rejected codec' e'' =>
      rw [hstop] at h
      exact ⟨[], m, next :: rest, rfl, by simp, h⟩

lemma ChainAt.firstFailing (hat : ChainAt Shows s drained m rest)
    (h : (m.tape.followedBy (rest.map Member.tape)).stop = .rejected codec e) :
    ∃ u : Member (σ := Anchored σ) (α := α) Shows,
      u.tape.stop = .rejected codec e ∧ FirstFailing s.members.toList u.cursor e := by
  obtain ⟨before, u, after, hrow, hbefore, hu⟩ := exists_rejecting h
  have hfails := anchored_failure_eq u.shows
  rw [hu] at hfails
  refine ⟨u, hu, (drained.reverse ++ before).map Member.cursor, after.map Member.cursor, ?_, ?_,
    hfails⟩
  · rw [hat.members, hrow, ← List.append_assoc, List.map_append, List.map_cons]
  · intro b hb
    obtain ⟨v, hv, rfl⟩ := List.mem_map.1 hb
    have hended : ∃ o, v.tape.stop = .ended o := by
      obtain hv | hv := List.mem_append.1 hv
      · exact (hat.drained v (List.mem_reverse.1 hv)).2
      · exact hbefore v hv
    obtain ⟨o, ho⟩ := hended
    rw [anchored_failure_eq v.shows, ho]

end Members

section Stacks

variable {n : Nat} {k : Kind} {codec codec' : Codec} {e e' : CodingError}

lemma Stop.rejected_of_atOffset {stop : Stop} {offset : Nat}
    (h : stop.atOffset offset = .rejected codec e) : stop = .rejected codec e := by
  cases stop with
  | ended _ => cases h
  | rejected _ _ => exact h

/-- What a decoding rejects is told by the symbols it is over, seen from where they start. -/
lemma rejectedBy_decoded {c : Decoded (Stack n .char)} {base i : Nat} {d : Decoding}
    {source : Tape Char} (hat : GroupsAt Shows base d source i c) :
    RejectedBy (n + 1) (.decoded c) codec e ↔
      match rejection? d source.ahead source.stop with
      | some own => codec = d.codec ∧ e = ⟨own.cause, base + own.offset⟩
      | none => source.stop.more = .error e ∧ RejectedBy n c.source.inner codec e := by
  obtain ⟨place, ⟨hle, hstands⟩, -⟩ := hat.stands
  obtain ⟨before, horigin, hbase⟩ := hstands.origin simulation
  rw [Tape.place_units] at horigin
  have hgives := Gives.of_shows horigin
  have hindex : Cursor.index (origin c.source) = base := (simulation.index horigin).trans hbase
  rw [RejectedBy, hindex, hat.code_eq]
  constructor
  · rintro ⟨symbols, stop, hgives', h⟩
    obtain ⟨rfl, hmore⟩ := hgives'.tape_eq horigin
    change source.stop.more = stop.more at hmore
    rw [← rejection_congr hmore, ← hmore] at h
    exact h
  · intro h
    exact ⟨_, _, hgives, h⟩

/-- A stack that ends with a rejection is rejected by this codec and for this error only. -/
theorem rejectedBy_iff {c : Stack n k} {t : Tape k.Carrier} (h : Shows c t)
    (hstop : t.stop = .rejected codec e) :
    RejectedBy n c codec' e' ↔ codec' = codec ∧ e' = e := by
  induction n generalizing k t codec e codec' e' with
  | zero =>
    have hsource : SourceShows c t := h
    cases c with
    | sequence c | buffer c | text c =>
      rw [hsource.stop] at hstop
      cases hstop
  | succ n ih =>
    -- What an anchored stack ends with is what the stack itself ends with.
    have hanchored {k : Kind} {a : Anchored (Stack n k)} {t : Tape k.Carrier} (ha : Shows a t)
        (hstop : t.stop = .rejected codec e) :
        RejectedBy n a.inner codec' e' ↔ codec' = codec ∧ e' = e := by
      obtain ⟨base, before, hs, -⟩ := ha
      exact ih hs hstop
    have hlayer : LayerShows (S := Stack n) c t := h
    cases c with
    | plain c => exact ih hlayer hstop
    | limited c =>
      obtain ⟨whole, hs, hle, rfl⟩ := hlayer
      rw [Tape.limit] at hstop
      split_ifs at hstop
      exact hanchored hs hstop
    | delimited c =>
      obtain ⟨whole, hs, -, rfl⟩ := hlayer
      rw [Tape.delimit] at hstop
      split_ifs at hstop
      exact hanchored hs (Stop.rejected_of_atOffset hstop)
    | filtered c =>
      obtain ⟨before, seen, ahead, stop, hat⟩ := hlayer
      rw [hat.visible] at hstop
      exact ih hat.inner (Stop.rejected_of_atOffset hstop)
    | chained c =>
      obtain ⟨hindex, ⟨-, rfl⟩ | ⟨drained, m, rest, hat, rfl, -⟩⟩ := hlayer
      · cases hstop
      · obtain ⟨u, hu, hfirst⟩ := hat.firstFailing (Stop.rejected_of_atOffset hstop)
        constructor
        · rintro ⟨a, hfirst', ha⟩
          obtain ⟨rfl, rfl⟩ := hfirst.unique hfirst'
          exact (hanchored u.shows hu).1 ha
        · rintro ⟨rfl, rfl⟩
          exact ⟨u.cursor, hfirst, (hanchored u.shows hu).2 ⟨rfl, rfl⟩⟩
    | mapped c =>
      obtain ⟨whole, hs, rfl⟩ := hlayer
      exact hanchored hs hstop
    | encoded c =>
      obtain ⟨⟨base, encoding, source⟩, i, hat, hindex, rfl⟩ := hlayer
      obtain ⟨place, ⟨-, hs⟩, -⟩ := hat.stands
      obtain ⟨text, -, hview⟩ := unroll_encoding encoding base source.ahead source.stop
      have hend := Stop.rejected_of_atOffset hstop
      rw [hview] at hend
      exact hanchored ⟨base, hs⟩ hend
    | decoded c =>
      obtain ⟨⟨base, d, source⟩, i, hat, hindex, rfl⟩ := hlayer
      obtain ⟨place, ⟨-, hs⟩, -⟩ := hat.stands
      obtain ⟨bytes, -, hview⟩ := unroll_isView d base source.ahead source.stop
      have hend := Stop.rejected_of_atOffset hstop
      rw [hview, shownStop] at hend
      rw [rejectedBy_decoded hat]
      cases hown : rejection? d source.ahead source.stop with
      | some own =>
        rw [hown] at hend
        obtain ⟨rfl, rfl⟩ := Stop.rejected.inj hend
        exact Iff.rfl
      | none =>
        rw [hown] at hend
        have hinner := hanchored ⟨base, hs⟩ hend
        change source.stop.more = .error e' ∧ RejectedBy n c.source.inner codec' e' ↔ _
        rw [hinner, show source.stop = .rejected codec e from hend]
        constructor
        · exact fun h => h.2
        · rintro ⟨rfl, rfl⟩
          exact ⟨rfl, rfl, rfl⟩

end Stacks

/-- The events that the log shows at the debug level. -/
def debugEvents (log : List Event) : List Event := log.filter (·.level == "DEBUG")

lemma debugEvents_eq (log : List Event) : debugEvents log = rejections log := by
  have hlevel : (fun event : Event => event.level == "DEBUG") = Event.isRejection := by
    funext event
    cases event <;> rfl
  rw [debugEvents, rejections, hlevel]

/-- The lines that the log shows at the debug level. -/
def debugLines (log : List Event) : List String :=
  (log.map Event.line).filter fun line => "DEBUG".toList.isPrefixOf line.toList

/-- The line about a rejection tells the codec, the place and the cause. -/
def rejectionLine (codec : Codec) (e : CodingError) : String :=
  "DEBUG cursor_codec: " ++ codec.record ++ " rejected at symbol " ++ toString e.offset ++ ": " ++
    e.cause.label

lemma line_eq (event : Event) : event.line = event.level ++ (" cursor_codec: " ++ event.text) :=
  String.append_assoc

-- The definitions are opened by `delta` here: their equations would compare texts by letters.
lemma text_rejected (codec : Codec) (e : CodingError) :
    (Event.rejected codec e).text =
      codec.record ++ " rejected at symbol " ++ toString e.offset ++ ": " ++ e.cause.label := by
  delta Event.text
  rfl

lemma line_rejected (codec : Codec) (e : CodingError) :
    (Event.rejected codec e).line = rejectionLine codec e := by
  have hhead : "DEBUG" ++ " cursor_codec: " = "DEBUG cursor_codec: " := by simp
  have hlevel : (Event.rejected codec e).level = "DEBUG" := rfl
  rw [line_eq, hlevel, text_rejected, ← String.append_assoc, hhead]
  delta rejectionLine
  simp only [String.append_assoc]

/-- The lines at the debug level are those about rejections. -/
lemma isPrefixOf_line (event : Event) :
    "DEBUG".toList.isPrefixOf event.line.toList = event.isRejection := by
  have hdebug : "DEBUG".toList = ['D', 'E', 'B', 'U', 'G'] := by decide
  have htrace : "TRACE".toList = ['T', 'R', 'A', 'C', 'E'] := by decide
  rw [line_eq, String.toList_append, hdebug]
  cases event with
  | rejected codec e =>
    change List.isPrefixOf _ ("DEBUG".toList ++ _) = true
    rw [hdebug]
    rfl
  | rereadBytes start | rereadSymbols start =>
    change List.isPrefixOf _ ("TRACE".toList ++ _) = false
    rw [htrace]
    rfl

lemma debugLines_eq (log : List Event) : debugLines log = (rejections log).map Event.line := by
  have hline : (fun event : Event => "DEBUG".toList.isPrefixOf event.line.toList) =
      Event.isRejection := funext isPrefixOf_line
  rw [debugLines, List.filter_map, rejections, ← hline]
  rfl

/-- Nothing is shown at the debug level. -/
def LogsNothing (log : List Event) : Prop := debugEvents log = [] ∧ debugLines log = []

/-- At the debug level the log has one line, that this error was rejected, and it names the only
codec that does reject what the stack has ahead. -/
def LogsRejection {k : Kind} (s : AnyStack k) (e : CodingError) (log : List Event) : Prop :=
  ∃ codec, debugEvents log = [.rejected codec e] ∧ debugLines log = [rejectionLine codec e] ∧
    ∀ codec' e', RejectedBy s.depth s.stack codec' e' ↔ codec' = codec ∧ e' = e

/-- A rejection is logged for an error other than exhaustion, and nothing at the debug level
otherwise. -/
def LogsTruly {k : Kind} (s : AnyStack k) (result : Except CodingError β) (log : List Event) :
    Prop :=
  match result with
  | .ok _ => LogsNothing log
  | .error e => if e.cause = .exhausted then LogsNothing log else LogsRejection s e log

section Logs

variable {k : Kind} {s : AnyStack k} {t : Tape k.Carrier} {result : Except CodingError β}
  {log : List Event}

lemma logsNothing_of_quiet (hlog : rejections log = []) : LogsNothing log :=
  ⟨by rw [debugEvents_eq, hlog], by rw [debugLines_eq, hlog]; rfl⟩

lemma logsTruly_of_ok {b : β} (hresult : result = .ok b) (hlog : rejections log = []) :
    LogsTruly s result log := by
  subst hresult
  exact logsNothing_of_quiet hlog

/-- Nothing is logged of answers and of exhaustion. -/
lemma logsTruly_of_quiet (hlog : rejections log = [])
    (hresult : ∀ e, result = .error e → e.cause = .exhausted) : LogsTruly s result log := by
  cases result with
  | ok b => exact logsTruly_of_ok rfl hlog
  | error e =>
    rw [LogsTruly, if_pos (hresult e rfl)]
    exact logsNothing_of_quiet hlog

lemma logsRejection_of_stop {codec : Codec} {e : CodingError} (h : Shows s t)
    (hstop : t.stop = .rejected codec e) (hlog : rejections log = t.stop.refusals) :
    LogsRejection s e log := by
  rw [hstop] at hlog
  refine ⟨codec, ?_, ?_, fun codec' e' => rejectedBy_iff (n := s.depth) h hstop⟩
  · rw [debugEvents_eq, hlog]
    rfl
  · rw [debugLines_eq, hlog, ← line_rejected]
    rfl

/-- What meets the end of a tape is logged as the end is. -/
lemma logsTruly_of_stop (h : Shows s t) (hlog : rejections log = t.stop.refusals)
    (hrejected : ∀ codec e, t.stop = .rejected codec e → result = .error e)
    (hended : ∀ o, t.stop = .ended o → ∀ e, result = .error e → e.cause = .exhausted) :
    LogsTruly s result log := by
  cases hstop : t.stop with
  | ended o =>
    rw [hstop] at hlog
    exact logsTruly_of_quiet hlog (hended o hstop)
  | rejected codec e =>
    have hplain := (stack_endsAt (n := s.depth) h).stop
    rw [hstop] at hplain
    have hcause : e.cause ≠ .exhausted := by
      intro hcause
      rw [Stop.IsPlain, CodingError.isMalformed, CodingError.family, hcause] at hplain
      cases hplain
    rw [hrejected codec e hstop, LogsTruly, if_neg hcause]
    exact logsRejection_of_stop h hstop hlog

lemma logsTruly_yields (h : Shows s t) {b : β} (hresult : result = t.stop.yields b)
    (hlog : rejections log = t.stop.refusals) : LogsTruly s result log := by
  apply logsTruly_of_stop h hlog
  · intro codec e hstop
    rw [hresult, hstop]
    rfl
  · intro o hstop e he
    rw [hresult, hstop] at he
    cases he

lemma logsTruly_call (h : Shows s t) (call : Call) :
    LogsTruly s (call.ask s).result (call.ask s).log := by
  have hask := call.ask_meets simulation h
  have hresult := hask.result
  have hlog := hask.log
  generalize (call.ask s).result = result at hresult ⊢
  generalize (call.ask s).log = log at hlog ⊢
  cases call <;> simp only [Call.ask, map_run, Action.asks_run] at hresult hlog
  case index | hasPrevious => exact logsTruly_of_ok hresult hlog
  case peekPrevious | previous =>
    apply logsTruly_of_quiet hlog
    rintro e rfl
    obtain ⟨_ | ⟨v, behind⟩, ahead, stop⟩ := t <;> cases hresult
    rfl
  case hasNext | peekNext | next =>
    obtain ⟨behind, _ | ⟨u, ahead⟩, stop⟩ := t
    · apply logsTruly_of_stop h hlog
      · rintro codec e rfl
        exact hresult
      · rintro o rfl e rfl
        cases hresult <;> rfl
    · apply logsTruly_of_quiet hlog
      rintro e rfl
      cases hresult

lemma logsTruly_collect (h : Shows s t) :
    LogsTruly s (Cursor.collect s).result (Cursor.collect s).log := by
  have hcollect := collect_shows simulation h
  exact logsTruly_yields h (hcollect.result.trans t.drained_eq) hcollect.log

lemma logsTruly_fill (h : Shows s t) (buffer : Array k.Carrier) :
    LogsTruly s (Cursor.fill buffer s).1.result (Cursor.fill buffer s).1.log := by
  obtain ⟨hresult, hlog, -⟩ := fill_meets simulation h buffer
  change (Cursor.fill buffer s).1.result = _ at hresult
  change rejections (Cursor.fill buffer s).1.log = _ at hlog
  split_ifs at hresult hlog with hroom
  · exact logsTruly_of_ok hresult hlog
  · exact logsTruly_yields h hresult hlog

lemma logsTruly_rewind (h : Shows s t) :
    LogsTruly s (Cursor.rewind s).result (Cursor.rewind s).log := by
  have hrewind := rewind_shows simulation h
  exact logsTruly_of_ok hrewind.result hrewind.log

lemma logsTruly_collectString {s : AnyStack .char} {t : Tape Char} (h : Shows s t) :
    LogsTruly s (Cursor.collectString s).result (Cursor.collectString s).log := by
  have hcollect := collect_shows simulation h
  rw [collectString_eq, map_run]
  refine logsTruly_yields h ?_ hcollect.log (b := String.ofList t.ahead)
  rw [hcollect.result, Tape.drained_eq]
  exact t.stop.map_yields String.ofList t.ahead

lemma error_mem_iterated {units : List α} {stop : Stop} {n : Nat} {e : CodingError} :
    some (.error e) ∈ iterated units stop n ↔ units.length < n ∧ stop.more = .error e := by
  induction n generalizing units with
  | zero => simp [iterated]
  | succ n ih =>
    cases units with
    | cons u units =>
      rw [iterated_cons, List.mem_cons, ih]
      simp
    | nil =>
      cases stop with
      | ended o => simp [iterated_ended, Stop.more]
      | rejected codec e' => simp [iterated_rejected, Stop.more, eq_comm]

/-- An iteration gives a rejection at most once, and it is logged exactly if it is given. -/
lemma logs_iterate (h : Shows s t) (n : Nat) :
    ∃ given, (Cursor.iterate n s).result = .ok given ∧
      (∀ e, some (.error e) ∈ given → LogsRejection s e (Cursor.iterate n s).log) ∧
      ((∀ e, some (.error e) ∉ given) → LogsNothing (Cursor.iterate n s).log) := by
  have hiterate := iterate_shows simulation h n
  have hlog := hiterate.log
  refine ⟨_, hiterate.result, ?_, ?_⟩
  · intro e he
    obtain ⟨hlength, hmore⟩ := error_mem_iterated.1 he
    rw [if_neg (Nat.not_le.2 hlength)] at hlog
    cases hstop : t.stop with
    | ended o =>
      rw [hstop] at hmore
      cases hmore
    | rejected codec e' =>
      rw [hstop] at hmore
      cases hmore
      exact logsRejection_of_stop h hstop hlog
  · intro hnone
    apply logsNothing_of_quiet
    rw [hlog]
    split_ifs with hlength
    · rfl
    · cases hstop : t.stop with
      | ended o => rfl
      | rejected codec e =>
        refine absurd (error_mem_iterated.2 ⟨Nat.not_le.1 hlength, ?_⟩) (hnone e)
        rw [hstop]
        rfl

end Logs

/-- The log tells the truth about rejections. A call, a whole reading and a whole way back have one
line at the debug level exactly if they fail with an error other than exhaustion: that this error
was rejected, and by the codec that rejects it. An iteration has this line exactly if it gives an
error. -/
theorem rejections_logged :
    (∀ (k : Kind) (s : AnyStack k), Reachable s →
      (∀ call : Call, LogsTruly s (call.ask s).result (call.ask s).log) ∧
      (∀ buffer, LogsTruly s (Cursor.fill buffer s).1.result (Cursor.fill buffer s).1.log) ∧
      LogsTruly s (Cursor.rewind s).result (Cursor.rewind s).log ∧
      LogsTruly s (Cursor.collect s).result (Cursor.collect s).log ∧
      ∀ n, ∃ given, (Cursor.iterate n s).result = .ok given ∧
        (∀ e, some (.error e) ∈ given → LogsRejection s e (Cursor.iterate n s).log) ∧
        ((∀ e, some (.error e) ∉ given) → LogsNothing (Cursor.iterate n s).log)) ∧
    ∀ s : AnyStack .char, Reachable s →
      LogsTruly s (Cursor.collectString s).result (Cursor.collectString s).log := by
  refine ⟨?_, ?_⟩
  · intro k s hs
    obtain ⟨t, ht⟩ := reachable_shows hs
    exact ⟨logsTruly_call ht, logsTruly_fill ht, logsTruly_rewind ht, logsTruly_collect ht,
      logs_iterate ht⟩
  · intro s hs
    obtain ⟨t, ht⟩ := reachable_shows hs
    exact logsTruly_collectString ht

/-- Bytes read from broken digits, written in Base64 and read back, behind the three of them that
are a complete group. -/
def brokenBelow : AnyStack .byte :=
  after [.next, .next, .next]
    ((brokenBytes.encode { codec := .base64 .base64 }).decode { codec := .base64 .base64 })

/-- A rejection of digits that Base64 hands on is logged in the name of the digits. -/
theorem rejections_logged_brokenBelow :
    (Call.peekNext.ask brokenBelow).result = .error ⟨.invalidCharacter, 8⟩ ∧
      debugEvents (Call.peekNext.ask brokenBelow).log =
        [.rejected .base16 ⟨.invalidCharacter, 8⟩] ∧
      debugLines (Call.peekNext.ask brokenBelow).log =
        ["DEBUG cursor_codec: Base16 rejected at symbol 8: InvalidCharacter"] ∧
      RejectedBy brokenBelow.depth brokenBelow.stack .base16 ⟨.invalidCharacter, 8⟩ := by
  have hreach : Reachable brokenBelow :=
    .call (.call (.call (.decode (.encode (.decode (.slice (k := .char) _) _) _) _) _) _) _
  have hcall := ((rejections_logged.1 .byte brokenBelow hreach).1 .peekNext)
  have hresult : (Call.peekNext.ask brokenBelow).result = .error ⟨.invalidCharacter, 8⟩ := by
    decide +kernel
  have hlog : debugEvents (Call.peekNext.ask brokenBelow).log =
      [.rejected .base16 ⟨.invalidCharacter, 8⟩] := by
    decide +kernel
  have hline : rejectionLine .base16 ⟨.invalidCharacter, 8⟩ =
      "DEBUG cursor_codec: Base16 rejected at symbol 8: InvalidCharacter" := by
    decide +kernel
  rw [hresult] at hcall
  obtain ⟨codec, hevent, hlines, hby⟩ : LogsRejection brokenBelow _ _ := hcall
  rw [hlog] at hevent
  obtain rfl : .base16 = codec := (Event.rejected.inj (List.cons.inj hevent).1).1
  rw [hline] at hlines
  exact ⟨hresult, hlog, hlines, (hby _ _).2 ⟨rfl, rfl⟩⟩

end BaseText.Proofs
