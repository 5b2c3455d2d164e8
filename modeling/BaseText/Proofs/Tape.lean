import BaseText.Cursor
import Mathlib.Tactic.Common

/-!
# Tapes

A tape is the plainest cursor: the units behind it, nearest first, the units ahead of it, and the
way these end. `Simulation R` says that a cursor answers every question as the tapes do that `R`
relates it to. `Viewed` names such a relation for a type of cursors, and whatever is computed by
asking a cursor is then computed on a list.
-/

namespace BaseText.Proofs

/-- How the units ahead of a cursor end. -/
inductive Stop where
  /-- There are no more of them. An attempt to go on is told the offset. -/
  | ended (offset : Nat)
  /-- A codec rejects what follows. -/
  | rejected (codec : Codec) (error : CodingError)

namespace Stop

/-- Whether there is more, asked at the end. -/
def more : Stop → Except CodingError Bool
  | ended _ => .ok false
  | rejected _ e => .error e

/-- What becomes of an attempt to go on. -/
def error : Stop → CodingError
  | ended offset => .exhausted offset
  | rejected _ e => e

/-- The rejection that a look ahead meets. -/
def refusals : Stop → List Event
  | ended _ => []
  | rejected codec e => [.rejected codec e]

/-- The same stop for a cursor that counts `offset` units up to it. -/
def atOffset (offset : Nat) : Stop → Stop
  | ended _ => ended offset
  | rejected codec e => rejected codec e

lemma offset_of_ended {stop : Stop} {n offset : Nat} (h : stop.atOffset n = .ended offset) :
    n = offset := by
  cases stop with
  | ended _ => exact Stop.ended.inj h
  | rejected codec e => cases h

@[simp] lemma more_atOffset (offset : Nat) (stop : Stop) :
    (stop.atOffset offset).more = stop.more := by
  cases stop <;> rfl

@[simp] lemma refusals_atOffset (offset : Nat) (stop : Stop) :
    (stop.atOffset offset).refusals = stop.refusals := by
  cases stop <;> rfl

end Stop

/-- A list of units and a place in it. -/
structure Tape (α : Type) where
  behind : List α := []
  ahead : List α
  stop : Stop

namespace Tape

variable {α : Type}

/-- All units, in their order. -/
def units (t : Tape α) : List α := t.behind.reverse ++ t.ahead

/-- Whether a unit is ahead. -/
def more (t : Tape α) : Except CodingError Bool :=
  match t.ahead with
  | _ :: _ => .ok true
  | [] => t.stop.more

/-- The rejection that a look ahead meets. -/
def refusals (t : Tape α) : List Event :=
  match t.ahead with
  | _ :: _ => []
  | [] => t.stop.refusals

/-- The unit ahead. -/
def first (t : Tape α) : Except CodingError α :=
  match t.ahead with
  | u :: _ => .ok u
  | [] => .error t.stop.error

/-- The unit behind. -/
def last (t : Tape α) : Except CodingError α :=
  match t.behind with
  | u :: _ => .ok u
  | [] => .error (.exhausted 0)

/-- The place after the unit ahead. -/
def forth (t : Tape α) : Tape α :=
  match t.ahead with
  | u :: rest => { t with behind := u :: t.behind, ahead := rest }
  | [] => t

/-- The place before the unit behind. -/
def back (t : Tape α) : Tape α :=
  match t.behind with
  | u :: rest => { t with behind := rest, ahead := u :: t.ahead }
  | [] => t

/-- What a cursor has ahead, seen from where it stands. -/
def fresh (t : Tape α) : Tape α := { t with behind := [] }

instance : Cursor (Tape α) α where
  hasNext t := ⟨t.more, t, t.refusals⟩
  hasPrevious t := ⟨.ok !t.behind.isEmpty, t, []⟩
  peekNext t := ⟨t.first, t, t.refusals⟩
  peekPrevious t := ⟨t.last, t, []⟩
  next t := ⟨t.first, t.forth, t.refusals⟩
  previous t := ⟨t.last, t.back, []⟩
  index t := t.behind.length
  capacity t := t.units.length

variable (behind rest : List α) (u : α) (stop : Stop)

@[simp] lemma forth_cons : forth ⟨behind, u :: rest, stop⟩ = ⟨u :: behind, rest, stop⟩ := rfl

@[simp] lemma forth_nil : forth (⟨behind, [], stop⟩ : Tape α) = ⟨behind, [], stop⟩ := rfl

@[simp] lemma back_cons : back ⟨u :: behind, rest, stop⟩ = ⟨behind, u :: rest, stop⟩ := rfl

@[simp] lemma back_nil : back ⟨[], rest, stop⟩ = ⟨[], rest, stop⟩ := rfl

lemma look_of_cons {t : Tape α} {u : α} {rest : List α} (h : t.ahead = u :: rest) :
    t.more = .ok true ∧ t.refusals = [] ∧ t.first = .ok u := by
  rw [more, refusals, first, h]
  exact ⟨rfl, rfl, rfl⟩

lemma forth_of_nil {t : Tape α} (h : t.ahead = []) : t.forth = t := by
  rw [forth, h]

lemma back_of_nil {t : Tape α} (h : t.behind = []) : t.back = t := by
  rw [back, h]

@[simp] lemma units_forth (t : Tape α) : t.forth.units = t.units := by
  rcases t with ⟨behind, _ | ⟨u, rest⟩, stop⟩ <;> simp [units]

@[simp] lemma units_back (t : Tape α) : t.back.units = t.units := by
  rcases t with ⟨_ | ⟨u, behind⟩, ahead, stop⟩ <;> simp [units]

/-- The tape with the first `i` of the units ahead behind the place, and nothing else there. -/
def place (t : Tape α) (i : Nat) : Tape α :=
  ⟨(t.ahead.take i).reverse, t.ahead.drop i, t.stop⟩

/-- The tape whose end is told the number of units ahead. -/
def counted (t : Tape α) : Tape α := { t with stop := t.stop.atOffset t.ahead.length }

section Place

variable {t : Tape α} {i : Nat}

lemma place_index (h : i ≤ t.ahead.length) : (t.place i).behind.length = i := by
  simp [place, h]

lemma place_units : (t.place i).units = t.ahead := by
  simp [place, units]

lemma place_ahead {u : α} (h : t.ahead[i]? = some u) :
    (t.place i).ahead = u :: t.ahead.drop (i + 1) := by
  obtain ⟨hi, rfl⟩ := List.getElem?_eq_some_iff.1 h
  exact List.drop_eq_getElem_cons hi

lemma place_behind {u : α} (h : t.ahead[i]? = some u) :
    (t.place (i + 1)).behind = u :: (t.place i).behind := by
  simp [place, List.take_add_one, h]

lemma place_forth {u : α} (h : t.ahead[i]? = some u) : (t.place i).forth = t.place (i + 1) := by
  rw [forth, place_ahead h]
  simp [place, List.take_add_one, h]

lemma place_back {u : α} (h : t.ahead[i]? = some u) : (t.place (i + 1)).back = t.place i := by
  rw [back, place_behind h]
  change (⟨_, u :: t.ahead.drop (i + 1), _⟩ : Tape α) = t.place i
  rw [← place_ahead h]
  rfl

end Place

end Tape

section Outcomes

variable {σ τ α β : Type}

/-- The rejections among some events. -/
def rejections (log : List Event) : List Event := log.filter Event.isRejection

@[simp] lemma rejections_nil : rejections [] = [] := rfl

@[simp] lemma rejections_append (log more : List Event) :
    rejections (log ++ more) = rejections log ++ rejections more :=
  List.filter_append _ _

/-- From `s` the action has this result and these rejections, and leaves a cursor such that `P`. -/
structure Meets (act : Action σ α) (s : σ) (result : Except CodingError α) (refused : List Event)
    (P : σ → Prop) : Prop where
  result : (act s).result = result
  log : rejections (act s).log = refused
  cursor : P (act s).cursor

variable {act : Action σ α} {s : σ} {result : Except CodingError α} {refused : List Event}
  {P Q : σ → Prop}

lemma Meets.mono (h : Meets act s result refused P) (hPQ : ∀ s, P s → Q s) :
    Meets act s result refused Q :=
  ⟨h.result, h.log, hPQ _ h.cursor⟩

lemma Meets.answer {a : α} (h : P s) : Meets (pure a) s (.ok a) [] P :=
  ⟨rfl, rfl, h⟩

lemma Meets.exhausted {index : σ → Nat} {i : Nat} (hi : index s = i) (h : P s) :
    Meets (Action.exhausted index : Action σ α) s (.error (.exhausted i)) [] P :=
  ⟨by rw [Action.exhausted_run, hi], rfl, h⟩

/-- What follows a success starts from a cursor that the success leaves. -/
lemma Meets.bind {a : α} (h : Meets act s (.ok a) [] P) {next : α → Action σ β}
    {result : Except CodingError β} (hnext : ∀ s', P s' → Meets (next a) s' result refused Q) :
    Meets (act >>= next) s result refused Q := by
  have hn := hnext _ h.cursor
  have hrun := Action.bind_run act next s
  rw [h.result] at hrun
  refine ⟨by rw [hrun]; exact hn.result, ?_, by rw [hrun]; exact hn.cursor⟩
  rw [hrun, rejections_append, h.log, hn.log, List.nil_append]

lemma Meets.bind_error {e : CodingError} (h : Meets act s (.error e) refused P)
    {next : α → Action σ β} : Meets (act >>= next) s (.error e) refused P := by
  have hrun := Action.bind_run act next s
  rw [h.result] at hrun
  exact ⟨by rw [hrun], by rw [hrun]; exact h.log, by rw [hrun]; exact h.cursor⟩

lemma Meets.here {next : σ → Action σ α} (h : Meets (next s) s result refused P) :
    Meets (Action.here >>= next) s result refused P :=
  (⟨rfl, rfl, rfl⟩ : Meets Action.here s (.ok s) [] (· = s)).bind fun _ hs => hs ▸ h

lemma Meets.changed {f : σ → σ} {next : Unit → Action σ α}
    (h : Meets (next ()) (f s) result refused P) :
    Meets (Action.change f >>= next) s result refused P :=
  (⟨rfl, rfl, rfl⟩ : Meets (Action.change f) s (.ok ()) [] (· = f s)).bind fun _ hs => hs ▸ h

/-- Events other than rejections do not count. -/
lemma Meets.emit {event : Event} (hevent : event.isRejection = false) {next : Unit → Action σ α}
    (h : Meets (next ()) s result refused P) :
    Meets (Action.emit event >>= next) s result refused P :=
  (⟨rfl, by simp [rejections, hevent], rfl⟩ : Meets (Action.emit event) s (.ok ()) [] (· = s)).bind
    fun _ hs => hs ▸ h

lemma Meets.change {a : α} {f : σ → σ} (h : Meets act s (.ok a) [] P) (hf : ∀ s', P s' → Q (f s')) :
    Meets (do let a ← act; Action.change f; pure a) s (.ok a) [] Q :=
  h.bind fun s' hs' => (⟨rfl, rfl, hf s' hs'⟩ : Meets (Action.change f) s' _ _ Q).bind
    fun _ => .answer

lemma Meets.whenMore {t : Tape β} {test : Action σ Bool} {act : Action σ β} {index : σ → Nat}
    (htest : Meets test s t.more t.refusals P)
    (hact : ∀ u rest, t.ahead = u :: rest → ∀ s', P s' → Meets act s' (.ok u) [] Q)
    (hend : t.ahead = [] → ∀ s', P s' → Q s')
    (hindex : ∀ s' offset, P s' → t.ahead = [] → t.stop = .ended offset → index s' = offset) :
    Meets (do if ← test then act else Action.exhausted index) s t.first t.refusals Q := by
  obtain ⟨behind, _ | ⟨u, rest⟩, stop⟩ := t
  · cases stop with
    | ended offset =>
      exact htest.bind fun s' h => .exhausted (hindex s' _ h rfl rfl) (hend rfl s' h)
    | rejected codec e => exact htest.bind_error.mono fun s' h => hend rfl s' h
  · exact htest.bind fun s' h => hact u rest rfl s' h

lemma Meets.whenAny {t : Tape β} {test : Action σ Bool} {act : Action σ β} {index : σ → Nat}
    (htest : Meets test s (.ok !t.behind.isEmpty) [] P)
    (hact : ∀ u rest, t.behind = u :: rest → ∀ s', P s' → Meets act s' (.ok u) [] Q)
    (hstart : t.behind = [] → ∀ s', P s' → Q s' ∧ index s' = 0) :
    Meets (do if ← test then act else Action.exhausted index) s t.last [] Q := by
  obtain ⟨_ | ⟨u, rest⟩, ahead, stop⟩ := t
  · exact htest.bind fun s' h => .exhausted (hstart rfl s' h).2 (hstart rfl s' h).1
  · exact htest.bind fun s' h => hact u rest rfl s' h

lemma Meets.countForth {t : Tape α} {f : σ → σ} (h : Meets act s t.first t.refusals P)
    (hcons : ∀ u rest, t.ahead = u :: rest → ∀ s', P s' → Q (f s'))
    (hnil : t.ahead = [] → ∀ s', P s' → Q s') :
    Meets (do let u ← act; Action.change f; pure u) s t.first t.refusals Q := by
  obtain ⟨behind, _ | ⟨u, rest⟩, stop⟩ := t
  · exact h.bind_error.mono (hnil rfl)
  · exact h.change (hcons u rest rfl)

lemma Meets.countBack {t : Tape α} {f : σ → σ} (h : Meets act s t.last [] P)
    (hcons : ∀ u rest, t.behind = u :: rest → ∀ s', P s' → Q (f s'))
    (hnil : t.behind = [] → ∀ s', P s' → Q s') :
    Meets (do let u ← act; Action.change f; pure u) s t.last [] Q := by
  obtain ⟨_ | ⟨u, rest⟩, ahead, stop⟩ := t
  · exact h.bind_error.mono (hnil rfl)
  · exact h.change (hcons u rest rfl)

lemma Meets.within {part : σ → τ} {put : σ → τ → σ} {act : Action τ α} {P : τ → Prop}
    (h : Meets act (part s) result refused P) (hput : ∀ inner, P inner → Q (put s inner)) :
    Meets (Action.within part put act) s result refused Q :=
  ⟨h.result, h.log, hput _ h.cursor⟩

end Outcomes

section Simulations

variable {σ α : Type} [Cursor σ α]

/-- Related to a tape, a cursor answers as the tape does, and stays related to the tape that comes
of the same question. -/
structure Simulation (R : σ → Tape α → Prop) : Prop where
  index : ∀ {s t}, R s t → Cursor.index s = t.behind.length
  room : ∀ {s t}, R s t → t.units.length ≤ Cursor.capacity s
  hasNext : ∀ {s t}, R s t → Meets Cursor.hasNext s t.more t.refusals (R · t)
  hasPrevious : ∀ {s t}, R s t → Meets Cursor.hasPrevious s (.ok !t.behind.isEmpty) [] (R · t)
  peekNext : ∀ {s t}, R s t → Meets Cursor.peekNext s t.first t.refusals (R · t)
  peekPrevious : ∀ {s t}, R s t → Meets Cursor.peekPrevious s t.last [] (R · t)
  next : ∀ {s t}, R s t → Meets Cursor.next s t.first t.refusals (R · t.forth)
  previous : ∀ {s t}, R s t → Meets Cursor.previous s t.last [] (R · t.back)

lemma Simulation.ahead_le {R : σ → Tape α → Prop} (hR : Simulation R) {s : σ}
    {behind ahead : List α} {stop : Stop} (h : R s ⟨behind, ahead, stop⟩) :
    ahead.length ≤ Cursor.capacity s := by
  have hroom := hR.room h
  rw [Tape.units, List.length_append] at hroom
  exact Nat.le_trans (Nat.le_add_left _ _) hroom

lemma Simulation.exists {ι : Type} {R : ι → σ → Tape α → Prop} (h : ∀ i, Simulation (R i)) :
    Simulation fun s t => ∃ i, R i s t where
  index := fun ⟨i, hs⟩ => (h i).index hs
  room := fun ⟨i, hs⟩ => (h i).room hs
  hasNext := fun ⟨i, hs⟩ => ((h i).hasNext hs).mono fun _ hs => ⟨i, hs⟩
  hasPrevious := fun ⟨i, hs⟩ => ((h i).hasPrevious hs).mono fun _ hs => ⟨i, hs⟩
  peekNext := fun ⟨i, hs⟩ => ((h i).peekNext hs).mono fun _ hs => ⟨i, hs⟩
  peekPrevious := fun ⟨i, hs⟩ => ((h i).peekPrevious hs).mono fun _ hs => ⟨i, hs⟩
  next := fun ⟨i, hs⟩ => ((h i).next hs).mono fun _ hs => ⟨i, hs⟩
  previous := fun ⟨i, hs⟩ => ((h i).previous hs).mono fun _ hs => ⟨i, hs⟩

/-- Cursors that move along a list, and the tapes they are seen as. -/
class Viewed (σ : Type) (α : outParam Type) [Cursor σ α] where
  Shows : σ → Tape α → Prop
  simulation : Simulation Shows

export Viewed (Shows simulation)

end Simulations

end BaseText.Proofs
