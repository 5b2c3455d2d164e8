import BaseText.Proofs.Runs

/-!
# What is ahead of a cursor

Asked for one unit after the other, a cursor gives what its tape has ahead, and asked back it gives
the same units in the other direction. So what a stack has ahead, and how that ends, is a matter of
its answers alone.
-/

namespace BaseText.Proofs

variable {σ α : Type} [Cursor σ α]

/-- The answers that give these units. -/
def given (units : List α) : List (Except CodingError (Reply α)) :=
  units.map fun u => .ok (.unit u)

lemma answers_append (calls more : List Call) (s : σ) :
    answers (calls ++ more) s = answers calls s ++ answers more (after calls s) := by
  induction calls generalizing s with
  | nil => rfl
  | cons call calls ih => exact congrArg _ (ih (call.ask s).cursor)

section Walking

variable {behind units rest : List α} {stop : Stop} {t : Tape α}

omit [Cursor σ α] in
lemma ask_next (t : Tape α) :
    (Call.next.ask t).result = Reply.unit <$> t.first ∧ (Call.next.ask t).cursor = t.forth := by
  rw [Call.ask, map_run]
  exact ⟨rfl, rfl⟩

omit [Cursor σ α] in
lemma ask_previous (t : Tape α) :
    (Call.previous.ask t).result = Reply.unit <$> t.last ∧
      (Call.previous.ask t).cursor = t.back := by
  rw [Call.ask, map_run]
  exact ⟨rfl, rfl⟩

omit [Cursor σ α] in
/-- Going forth gives the units ahead. -/
lemma answers_next (behind units rest : List α) (stop : Stop) (calls : List Call) :
    answers (List.replicate units.length .next ++ calls)
        (⟨behind, units ++ rest, stop⟩ : Tape α) =
      given units ++ answers calls (⟨units.reverse ++ behind, rest, stop⟩ : Tape α) := by
  induction units generalizing behind with
  | nil => rfl
  | cons u units ih =>
    obtain ⟨hresult, hcursor⟩ := ask_next (⟨behind, u :: (units ++ rest), stop⟩ : Tape α)
    rw [List.length_cons, List.replicate_succ, List.cons_append, List.cons_append, answers,
      hresult, hcursor, Tape.forth_cons, ih, List.reverse_cons, List.append_assoc]
    rfl

omit [Cursor σ α] in
/-- Going back gives the units behind, nearest first. -/
lemma answers_previous (behind units ahead : List α) (stop : Stop) (calls : List Call) :
    answers (List.replicate units.length .previous ++ calls)
        (⟨units ++ behind, ahead, stop⟩ : Tape α) =
      given units ++ answers calls (⟨behind, units.reverse ++ ahead, stop⟩ : Tape α) := by
  induction units generalizing ahead with
  | nil => rfl
  | cons u units ih =>
    obtain ⟨hresult, hcursor⟩ := ask_previous (⟨u :: (units ++ behind), ahead, stop⟩ : Tape α)
    rw [List.length_cons, List.replicate_succ, List.cons_append, List.cons_append, answers,
      hresult, hcursor, Tape.back_cons, ih, List.reverse_cons, List.append_assoc]
    rfl

omit [Cursor σ α] in
/-- Units that are given are those ahead, and the next question is asked behind them. -/
lemma exists_of_given {call : Call} {last : Except CodingError (Reply α)}
    (h : answers (List.replicate units.length .next ++ [call]) t = given units ++ [last]) :
    ∃ rest, t.ahead = units ++ rest ∧
      (call.ask (⟨units.reverse ++ t.behind, rest, t.stop⟩ : Tape α)).result = last := by
  induction units generalizing t with
  | nil =>
    have hlast := List.cons.inj h
    exact ⟨t.ahead, rfl, hlast.1⟩
  | cons u units ih =>
    obtain ⟨hresult, hcursor⟩ := ask_next t
    rw [List.length_cons, List.replicate_succ, List.cons_append, answers, hresult, hcursor] at h
    obtain ⟨hhead, htail⟩ := List.cons.inj h
    obtain ⟨behind, _ | ⟨v, more⟩, stop⟩ := t
    · cases hhead
    · obtain rfl : v = u := Reply.unit.inj (Except.ok.inj hhead)
      obtain ⟨rest, hahead, hcall⟩ := ih htail
      refine ⟨rest, congrArg (v :: ·) hahead, ?_⟩
      rw [List.reverse_cons, List.append_assoc]
      exact hcall

end Walking

/-- Asked for one unit after the other, the cursor gives these, and then tells how they end. -/
def Gives (s : σ) (units : List α) (stop : Stop) : Prop :=
  answers (List.replicate units.length .next ++ [.hasNext]) s =
    given units ++ [Reply.truth <$> stop.more]

omit [Cursor σ α] in
lemma ask_hasNext (t : Tape α) : (Call.hasNext.ask t).result = Reply.truth <$> t.more := by
  rw [Call.ask, map_run]
  rfl

omit [Cursor σ α] in
lemma more_ne_true (stop : Stop) : stop.more ≠ .ok true := by
  cases stop <;> simp [Stop.more]

/-- Of the way in which units end, asking for more after them tells whether it is by a rejection,
and by which. -/
lemma Gives.of_more {s : σ} {units : List α} {stop stop' : Stop} (h : Gives s units stop)
    (hmore : stop.more = stop'.more) : Gives s units stop' := by
  rwa [Gives, ← hmore]

/-- What a cursor gives is what its tape has ahead. -/
lemma Gives.of_shows [Viewed σ α] {s : σ} {t : Tape α} (h : Shows s t) :
    Gives s t.ahead t.stop := by
  have htape := answers_next t.behind t.ahead [] t.stop [.hasNext]
  rw [List.append_nil] at htape
  rw [Gives, answers_eq simulation h]
  exact htape.trans (congrArg (given t.ahead ++ [·]) (ask_hasNext _))

/-- A text gives its characters. -/
lemma text_gives (text : String) :
    Gives (AnyStack.ofSource (.text (.ofString text))) text.toList (.ended text.toList.length) :=
  have hshows : Shows (AnyStack.ofSource (.text (.ofString text))) (Tape.ofList text.toList) :=
    text_shows text
  Gives.of_shows hshows

lemma Gives.tape_eq [Viewed σ α] {s : σ} {t : Tape α} {units : List α} {stop : Stop}
    (hgives : Gives s units stop) (h : Shows s t) :
    t.ahead = units ∧ t.stop.more = stop.more := by
  rw [Gives, answers_eq simulation h] at hgives
  obtain ⟨rest, hahead, hmore⟩ := exists_of_given hgives
  rw [ask_hasNext] at hmore
  cases rest with
  | nil =>
    refine ⟨by rw [hahead, List.append_nil], ?_⟩
    change Reply.truth <$> t.stop.more = Reply.truth <$> stop.more at hmore
    cases hstop : t.stop.more <;> cases hstop' : stop.more <;> simp_all
  | cons u rest =>
    have hne := more_ne_true stop
    change Except.ok (Reply.truth true) = Reply.truth <$> stop.more at hmore
    cases hstop : stop.more <;> simp_all

end BaseText.Proofs
