import BaseText.Proofs.Ahead

/-!
# Alike tapes

Two tapes that differ only in what the log is told at their end answer alike, and stay alike under
every call and under every layer that is no codec.
-/

namespace BaseText.Proofs

/-- Callers are told the same. Only the log names the codec that rejects. -/
structure Stop.Alike (stop stop' : Stop) : Prop where
  more : stop.more = stop'.more
  error : stop.error = stop'.error

/-- The tapes differ at most in what is logged at their end. -/
structure Tape.Alike {α : Type} (t t' : Tape α) : Prop where
  behind : t.behind = t'.behind
  ahead : t.ahead = t'.ahead
  stop : t.stop.Alike t'.stop

section Alike

variable {α : Type} {t t' : Tape α} {stop stop' : Stop}

lemma Stop.Alike.refl (stop : Stop) : stop.Alike stop := ⟨rfl, rfl⟩

lemma Stop.Alike.ite {p : Prop} [Decidable p] {other other' : Stop} (h : stop.Alike stop')
    (hother : other.Alike other') :
    (if p then stop else other).Alike (if p then stop' else other') := by
  split
  · exact h
  · exact hother

lemma Tape.Alike.refl (t : Tape α) : t.Alike t := ⟨rfl, rfl, .refl _⟩

lemma Stop.alike_atOffset (h : stop.more = stop'.more) (offset : Nat) :
    (stop.atOffset offset).Alike (stop'.atOffset offset) := by
  cases stop <;> cases stop' <;> cases h <;> exact ⟨rfl, rfl⟩

/-- Of the way in which counted units end, what asking for more tells is all there is to tell. -/
lemma alike_counted (h : stop.more = stop'.more) (units : List α) :
    (Tape.counted { ahead := units, stop := stop }).Alike
      (Tape.counted { ahead := units, stop := stop' }) :=
  ⟨rfl, rfl, Stop.alike_atOffset h _⟩

lemma ask_alike (h : t.Alike t') (call : Call) :
    (call.ask t).result = (call.ask t').result ∧
      (call.ask t).cursor.Alike (call.ask t').cursor := by
  obtain ⟨behind, ahead, stop⟩ := t
  obtain ⟨behind', ahead', stop'⟩ := t'
  obtain ⟨rfl, rfl, hstop⟩ := h
  have hstays : Tape.Alike ⟨behind, ahead, stop⟩ ⟨behind, ahead, stop'⟩ := ⟨rfl, rfl, hstop⟩
  have hmore := hstop.more
  have herror := hstop.error
  cases call <;> rw [Call.ask]
  case index => exact ⟨rfl, hstays⟩
  all_goals rw [map_run, map_run]
  case hasPrevious | peekPrevious => exact ⟨rfl, hstays⟩
  case previous => cases behind <;> exact ⟨rfl, rfl, rfl, hstop⟩
  case hasNext =>
    cases ahead with
    | nil => exact ⟨congrArg (Reply.truth <$> ·) hmore, hstays⟩
    | cons u rest => exact ⟨rfl, hstays⟩
  case peekNext | next =>
    cases ahead with
    | nil => exact ⟨congrArg (Reply.unit <$> Except.error ·) herror, hstays⟩
    | cons u rest => exact ⟨rfl, rfl, rfl, hstop⟩

lemma answers_alike (h : t.Alike t') (calls : List Call) : answers calls t = answers calls t' := by
  induction calls generalizing t t' with
  | nil => rfl
  | cons call calls ih =>
    obtain ⟨hresult, hcursor⟩ := ask_alike h call
    rw [answers, answers, hresult, ih hcursor]

/-- Of the way in which units end, the answers tell what asking for more tells. -/
lemma answers_stop (h : stop.more = stop'.more) (units : List α) (calls : List Call) :
    answers calls ({ ahead := units, stop := stop } : Tape α).counted =
      answers calls ({ ahead := units, stop := stop' } : Tape α).counted :=
  answers_alike (alike_counted h units) calls

lemma limit_alike (h : t.Alike t') (n : Nat) : (t.fresh.limit n).Alike (t'.fresh.limit n) := by
  obtain ⟨behind, ahead, stop⟩ := t
  obtain ⟨behind', ahead', stop'⟩ := t'
  obtain ⟨rfl, rfl, hstop⟩ := h
  exact ⟨rfl, rfl, .ite (.refl _) hstop⟩

lemma delimit_alike [DecidableEq α] (h : t.Alike t') (stops : List α) :
    (t.fresh.delimit stops).Alike (t'.fresh.delimit stops) := by
  obtain ⟨behind, ahead, stop⟩ := t
  obtain ⟨behind', ahead', stop'⟩ := t'
  obtain ⟨rfl, rfl, hstop⟩ := h
  exact ⟨rfl, rfl, .ite (Stop.alike_atOffset hstop.more _) (.refl _)⟩

lemma map_alike {β : Type} (h : t.Alike t') (f : α → β) :
    (t.fresh.map f).Alike (t'.fresh.map f) :=
  ⟨rfl, congrArg (List.map f) h.ahead, h.stop⟩

lemma visibleTape_alike (h : t.Alike t') (hidden : α → Bool) :
    (visibleTape hidden [] t.ahead t.stop).Alike (visibleTape hidden [] t'.ahead t'.stop) := by
  rw [h.ahead]
  exact ⟨rfl, rfl, Stop.alike_atOffset h.stop.more _⟩

lemma fresh_alike (h : t.Alike t') : t.fresh.Alike t'.fresh := ⟨rfl, h.ahead, h.stop⟩

lemma followedBy_alike (h : t.Alike t') (rest : List (Tape α)) :
    (t.followedBy rest).Alike (t'.followedBy rest) := by
  obtain ⟨behind, ahead, stop⟩ := t
  obtain ⟨behind', ahead', stop'⟩ := t'
  obtain ⟨rfl, rfl, hstop⟩ := h
  cases rest with
  | nil => exact ⟨rfl, rfl, hstop⟩
  | cons next rest =>
    have hmore := hstop.more
    cases stop <;> cases stop' <;> cases hmore
    · exact .refl _
    · exact ⟨rfl, rfl, hstop⟩

/-- One of the tapes in a row may be replaced, whichever it is. -/
lemma followedBy_alike_replace (h : t.Alike t') (first : Tape α) (front rear : List (Tape α)) :
    (first.followedBy (front ++ t :: rear)).Alike (first.followedBy (front ++ t' :: rear)) := by
  induction front generalizing first with
  | nil =>
    have hrow := followedBy_alike h rear
    rw [List.nil_append, List.nil_append, Tape.followedBy, Tape.followedBy]
    cases first.stop with
    | ended offset => exact ⟨rfl, congrArg (first.ahead ++ ·) hrow.ahead, hrow.stop⟩
    | rejected codec e => exact .refl _
  | cons next front ih =>
    rw [List.cons_append, List.cons_append, Tape.followedBy, Tape.followedBy]
    cases first.stop with
    | ended offset =>
      exact ⟨rfl, congrArg (first.ahead ++ ·) (ih next).ahead, (ih next).stop⟩
    | rejected codec e => exact .refl _

lemma chainTape_alike {row row' : List (Tape α)} (hbehind : t.behind = t'.behind)
    (h : (t.followedBy row).Alike (t'.followedBy row')) :
    (chainTape [] t row).Alike (chainTape [] t' row') := by
  rw [chainTape, chainTape, hbehind, h.ahead]
  exact ⟨rfl, rfl, Stop.alike_atOffset h.stop.more _⟩

lemma rowOf_alike (h : t.Alike t') (front rear : List (Tape α)) :
    (rowOf (front ++ t :: rear)).Alike (rowOf (front ++ t' :: rear)) := by
  cases front with
  | nil => exact chainTape_alike rfl (followedBy_alike (fresh_alike h) _)
  | cons first front =>
    have hrow := followedBy_alike_replace (fresh_alike h) first.fresh (front.map Tape.fresh)
      (rear.map Tape.fresh)
    rw [← List.map_cons, ← List.map_cons, ← List.map_append, ← List.map_append] at hrow
    exact chainTape_alike rfl hrow

end Alike

end BaseText.Proofs
