import BaseText.Event

/-!
# Actions on a cursor

An action moves or inspects a cursor. It always leaves a cursor behind, also when it fails, and
it may add events to the log. Actions compose as a monad: a failure skips what follows it and
keeps the state and the log reached so far.
-/

namespace BaseText

/-- What an action on a cursor of type `σ` comes to. -/
structure Outcome (σ α : Type) where
  result : Except CodingError α
  cursor : σ
  log : List Event

/-- A fallible action on a cursor of type `σ` that answers with an `α`. -/
def Action (σ α : Type) : Type := σ → Outcome σ α

namespace Action

variable {σ τ α β : Type}

def answer (a : α) : Action σ α := fun s => ⟨.ok a, s, []⟩

/-- Runs `act`, and `next` on its answer unless it failed. -/
def andThen (act : Action σ α) (next : α → Action σ β) : Action σ β := fun s =>
  match act s with
  | ⟨.error e, s, log⟩ => ⟨.error e, s, log⟩
  | ⟨.ok a, s, log⟩ =>
    match next a s with
    | ⟨result, s, more⟩ => ⟨result, s, log ++ more⟩

instance : Monad (Action σ) where
  pure := answer
  bind := andThen

@[simp] theorem pure_run (a : α) (s : σ) : (pure a : Action σ α) s = ⟨.ok a, s, []⟩ := rfl

theorem bind_run (act : Action σ α) (next : α → Action σ β) (s : σ) :
    (act >>= next) s =
      match (act s).result with
      | .error e => ⟨.error e, (act s).cursor, (act s).log⟩
      | .ok a => ⟨(next a (act s).cursor).result, (next a (act s).cursor).cursor,
          (act s).log ++ (next a (act s).cursor).log⟩ := by
  change andThen act next s = _
  unfold andThen
  rcases act s with ⟨_ | _, _, _⟩ <;> rfl

@[ext] theorem ext {act act' : Action σ α} (h : ∀ s, act s = act' s) : act = act' := funext h

instance : LawfulMonad (Action σ) := LawfulMonad.mk' (Action σ)
  (by
    intro α act
    ext s
    change andThen act answer s = act s
    unfold andThen answer
    rcases act s with ⟨_ | _, _, _⟩ <;> simp)
  (by
    intro α β a next
    ext s
    change andThen (answer a) next s = next a s
    simp [andThen, answer])
  (by
    intro α β γ act next last
    ext s
    change andThen (andThen act next) last s = andThen act (fun a => andThen (next a) last) s
    unfold andThen
    rcases act s with ⟨_ | a, s', log⟩
    · rfl
    · dsimp only
      rcases next a s' with ⟨_ | b, s'', log'⟩
      · rfl
      · simp [List.append_assoc])

/-- Fails and leaves the cursor as it is. -/
def fail (e : CodingError) : Action σ α := fun s => ⟨.error e, s, []⟩

@[simp] theorem fail_run (e : CodingError) (s : σ) :
    (fail e : Action σ α) s = ⟨.error e, s, []⟩ := rfl

/-- Fails because there is no unit on the side asked for. -/
def exhausted (index : σ → Nat) : Action σ α := fun s => ⟨.error (.exhausted (index s)), s, []⟩

@[simp] theorem exhausted_run (index : σ → Nat) (s : σ) :
    (exhausted index : Action σ α) s = ⟨.error (.exhausted (index s)), s, []⟩ := rfl

def here : Action σ σ := fun s => ⟨.ok s, s, []⟩

@[simp] theorem here_run (s : σ) : (here : Action σ σ) s = ⟨.ok s, s, []⟩ := rfl

def asks (f : σ → α) : Action σ α := fun s => ⟨.ok (f s), s, []⟩

@[simp] theorem asks_run (f : σ → α) (s : σ) : asks f s = ⟨.ok (f s), s, []⟩ := rfl

def change (f : σ → σ) : Action σ Unit := fun s => ⟨.ok (), f s, []⟩

@[simp] theorem change_run (f : σ → σ) (s : σ) : change f s = ⟨.ok (), f s, []⟩ := rfl

def emit (event : Event) : Action σ Unit := fun s => ⟨.ok (), s, [event]⟩

@[simp] theorem emit_run (event : Event) (s : σ) :
    (emit event : Action σ Unit) s = ⟨.ok (), s, [event]⟩ := rfl

def attempt (act : Action σ α) : Action σ (Except CodingError α) := fun s =>
  match act s with
  | ⟨result, s, log⟩ => ⟨.ok result, s, log⟩

@[simp] theorem attempt_run (act : Action σ α) (s : σ) :
    attempt act s = ⟨.ok (act s).result, (act s).cursor, (act s).log⟩ := rfl

def within (part : σ → τ) (put : σ → τ → σ) (act : Action τ α) : Action σ α := fun s =>
  match act (part s) with
  | ⟨result, inner, log⟩ => ⟨result, put s inner, log⟩

@[simp] theorem within_run (part : σ → τ) (put : σ → τ → σ) (act : Action τ α) (s : σ) :
    within part put act s =
      ⟨(act (part s)).result, put s (act (part s)).cursor, (act (part s)).log⟩ :=
  rfl

/-- Repeats `step` as long as `test` says so, at most `fuel` times, and collects its answers. -/
def gather (test : Action σ Bool) (step : Action σ α) : Nat → Action σ (List α)
  | 0 => pure []
  | fuel + 1 => do
    if ← test then
      let a ← step
      let rest ← gather test step fuel
      pure (a :: rest)
    else pure []

end Action

end BaseText
