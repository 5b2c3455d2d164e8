import BaseText.Proofs.Runs

/-!
# What calls do to a cursor

A call that is made on a stack is made on its outermost layer. What each question keeps of a cursor
is kept by every run.
-/

namespace BaseText.Proofs

section Wraps

variable {σ τ α β : Type} [Cursor σ α] [Cursor τ β]

/-- Every question that is put to `f s` moves the `s` in it. -/
structure Wraps (f : σ → τ) : Prop where
  hasNext : ∀ s, (Cursor.hasNext (f s)).cursor = f (Cursor.hasNext s).cursor
  hasPrevious : ∀ s, (Cursor.hasPrevious (f s)).cursor = f (Cursor.hasPrevious s).cursor
  peekNext : ∀ s, (Cursor.peekNext (f s)).cursor = f (Cursor.peekNext s).cursor
  peekPrevious : ∀ s, (Cursor.peekPrevious (f s)).cursor = f (Cursor.peekPrevious s).cursor
  next : ∀ s, (Cursor.next (f s)).cursor = f (Cursor.next s).cursor
  previous : ∀ s, (Cursor.previous (f s)).cursor = f (Cursor.previous s).cursor

lemma Wraps.after {f : σ → τ} (h : Wraps f) (calls : List Call) (s : σ) :
    after calls (f s) = f (after calls s) := by
  induction calls generalizing s with
  | nil => rfl
  | cons call calls ih =>
    rw [BaseText.Proofs.after, BaseText.Proofs.after, ← ih]
    congr 1
    cases call <;> rw [Call.ask, Call.ask]
    case index => rfl
    all_goals rw [map_run, map_run]
    case hasNext => exact h.hasNext s
    case hasPrevious => exact h.hasPrevious s
    case peekNext => exact h.peekNext s
    case peekPrevious => exact h.peekPrevious s
    case next => exact h.next s
    case previous => exact h.previous s

variable {k : Kind} (n : Nat)

lemma wraps_limited : Wraps fun c : Limited (Stack n k) => (⟨n + 1, .limited c⟩ : AnyStack k) :=
  ⟨fun _ => rfl, fun _ => rfl, fun _ => rfl, fun _ => rfl, fun _ => rfl, fun _ => rfl⟩

lemma wraps_delimited :
    Wraps fun c : Delimited (Stack n k) k.Carrier => (⟨n + 1, .delimited c⟩ : AnyStack k) :=
  ⟨fun _ => rfl, fun _ => rfl, fun _ => rfl, fun _ => rfl, fun _ => rfl, fun _ => rfl⟩

lemma wraps_filtered :
    Wraps fun c : Filtered (Stack n k) k.Carrier => (⟨n + 1, .filtered c⟩ : AnyStack k) :=
  ⟨fun _ => rfl, fun _ => rfl, fun _ => rfl, fun _ => rfl, fun _ => rfl, fun _ => rfl⟩

lemma wraps_chained : Wraps fun c : Chained (Stack n k) => (⟨n + 1, .chained c⟩ : AnyStack k) :=
  ⟨fun _ => rfl, fun _ => rfl, fun _ => rfl, fun _ => rfl, fun _ => rfl, fun _ => rfl⟩

end Wraps

section Keeps

variable {σ α β γ : Type} [Cursor σ α]

/-- What `P` says of a cursor is kept by the action, whatever that comes to. -/
def Keeps (P : σ → Prop) (act : Action σ β) : Prop :=
  ∀ s, P s → P (act s).cursor

variable {P : σ → Prop}

omit [Cursor σ α] in
lemma Keeps.bind {act : Action σ β} {next : β → Action σ γ} (hact : Keeps P act)
    (hnext : ∀ b, Keeps P (next b)) : Keeps P (act >>= next) := by
  intro s hs
  have hs' := hact s hs
  rw [Action.bind_run]
  cases (act s).result with
  | error e => exact hs'
  | ok b => exact hnext b _ hs'

omit [Cursor σ α] in
lemma Keeps.here {next : σ → Action σ β} (h : ∀ s, P s → P (next s s).cursor) :
    Keeps P (Action.here >>= next) := by
  intro s hs
  rw [Action.bind_run]
  exact h s hs

omit [Cursor σ α] in
lemma Keeps.map {act : Action σ β} (h : Keeps P act) (f : β → γ) : Keeps P (f <$> act) := by
  intro s hs
  rw [map_run]
  exact h s hs

/-- The questions of a cursor keep what `P` says of it. -/
structure CallsKeep (P : σ → Prop) : Prop where
  hasNext : Keeps P Cursor.hasNext
  hasPrevious : Keeps P Cursor.hasPrevious
  peekNext : Keeps P Cursor.peekNext
  peekPrevious : Keeps P Cursor.peekPrevious
  next : Keeps P Cursor.next
  previous : Keeps P Cursor.previous

lemma CallsKeep.after (h : CallsKeep P) {s : σ} (hs : P s) (calls : List Call) :
    P (after calls s) := by
  induction calls generalizing s with
  | nil => exact hs
  | cons call calls ih =>
    apply ih
    cases call with
    | hasNext => exact h.hasNext.map Reply.truth s hs
    | hasPrevious => exact h.hasPrevious.map Reply.truth s hs
    | peekNext => exact h.peekNext.map Reply.unit s hs
    | peekPrevious => exact h.peekPrevious.map Reply.unit s hs
    | next => exact h.next.map Reply.unit s hs
    | previous => exact h.previous.map Reply.unit s hs
    | index => exact hs

/-- A simulation is kept by the calls that it is about. -/
lemma Simulation.callsKeep {R : σ → Tape α → Prop} (hR : Simulation R) :
    CallsKeep fun s => ∃ t, R s t where
  hasNext := fun _ ⟨_, h⟩ => ⟨_, (hR.hasNext h).cursor⟩
  hasPrevious := fun _ ⟨_, h⟩ => ⟨_, (hR.hasPrevious h).cursor⟩
  peekNext := fun _ ⟨_, h⟩ => ⟨_, (hR.peekNext h).cursor⟩
  peekPrevious := fun _ ⟨_, h⟩ => ⟨_, (hR.peekPrevious h).cursor⟩
  next := fun _ ⟨_, h⟩ => ⟨_, (hR.next h).cursor⟩
  previous := fun _ ⟨_, h⟩ => ⟨_, (hR.previous h).cursor⟩

end Keeps

end BaseText.Proofs
