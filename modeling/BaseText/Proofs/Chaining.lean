import BaseText.Cursor.Chained
import BaseText.Proofs.Windows
import Mathlib.Algebra.Order.BigOperators.Group.List
import Mathlib.Algebra.Order.Ring.Nat

/-!
# Chains seen as tapes

A chain shows the tapes of its members one after the other, up to the first that a codec rejects.
The members in front of the current one are drained and those after it are untouched, so that any
member with nothing on one of its sides can give up its place to its neighbour on that side.
-/

namespace BaseText.Proofs

variable {σ α β : Type}

/-- The tape that goes on with further ones where it plainly ends. -/
def Tape.followedBy (t : Tape α) : List (Tape α) → Tape α
  | [] => t
  | next :: rest =>
    match t.stop with
    | .ended _ =>
      let more := next.followedBy rest
      { t with ahead := t.ahead ++ more.ahead, stop := more.stop }
    | .rejected _ _ => t

/-- The tape `t` between the drained tapes in front of it, nearest first, and those after it. -/
def chainTape (drained : List (Tape α)) (t : Tape α) (rest : List (Tape α)) : Tape α :=
  let row := t.followedBy rest
  let behind := t.behind ++ (drained.map Tape.behind).flatten
  ⟨behind, row.ahead, row.stop.atOffset (behind.length + row.ahead.length)⟩

section Row

variable (drained rest : List (Tape α)) (t next : Tape α)

lemma followedBy_cons (u : α) (behind ahead : List α) (stop : Stop) :
    (Tape.mk behind (u :: ahead) stop).followedBy rest =
      ⟨behind, u :: ((Tape.mk (u :: behind) ahead stop).followedBy rest).ahead,
        ((Tape.mk (u :: behind) ahead stop).followedBy rest).stop⟩ := by
  cases rest with
  | nil => rfl
  | cons next rest => cases stop <;> rfl

/-- A drained member and an untouched neighbour may be divided between on either side. -/
lemma chainTape_onward {offset : Nat} (hahead : t.ahead = []) (hstop : t.stop = .ended offset)
    (hnext : next.behind = []) :
    chainTape drained t (next :: rest) = chainTape (t :: drained) next rest := by
  simp [chainTape, Tape.followedBy, hahead, hstop, hnext]

lemma chainTape_forth (u : α) (behind ahead : List α) (stop : Stop) :
    (chainTape drained ⟨behind, u :: ahead, stop⟩ rest).forth =
      chainTape drained ⟨u :: behind, ahead, stop⟩ rest := by
  rw [chainTape, chainTape, followedBy_cons]
  simp [Nat.add_assoc, Nat.add_comm 1]

lemma chainTape_back (u : α) (behind ahead : List α) (stop : Stop) :
    (chainTape drained ⟨u :: behind, ahead, stop⟩ rest).back =
      chainTape drained ⟨behind, u :: ahead, stop⟩ rest := by
  rw [chainTape, chainTape, followedBy_cons]
  simp [Nat.add_assoc, Nat.add_comm 1]

lemma chainTape_ahead (u : α) (behind ahead : List α) (stop : Stop) :
    ∃ row, (chainTape drained ⟨behind, u :: ahead, stop⟩ rest).ahead = u :: row := by
  rw [chainTape, followedBy_cons]
  exact ⟨_, rfl⟩

lemma chainTape_look (h : t.ahead = [] → (∃ offset, t.stop = .ended offset) → rest = []) :
    (chainTape drained t rest).more = t.more ∧ (chainTape drained t rest).refusals = t.refusals ∧
      (t.ahead = [] → (chainTape drained t rest).ahead = []) := by
  obtain ⟨behind, _ | ⟨u, ahead⟩, stop⟩ := t
  · cases stop with
    | ended offset =>
      rw [h rfl ⟨offset, rfl⟩]
      exact ⟨rfl, rfl, fun _ => rfl⟩
    | rejected codec e => cases rest <;> exact ⟨rfl, rfl, fun _ => rfl⟩
  · rw [chainTape, followedBy_cons]
    exact ⟨rfl, rfl, fun hnil => by cases hnil⟩

lemma followedBy_ahead_length :
    (t.followedBy rest).ahead.length ≤ t.ahead.length + (rest.map (·.ahead.length)).sum := by
  induction rest generalizing t with
  | nil => simp [Tape.followedBy]
  | cons next rest ih =>
    have hnext := ih next
    unfold Tape.followedBy
    cases t.stop with
    | ended offset => simp; omega
    | rejected codec e => simp

end Row

/-- A cursor and the tape that it shows. -/
structure Member (R : σ → Tape α → Prop) where
  cursor : σ
  tape : Tape α
  shows : R cursor tape

/-- The members of a chain: the current one, the drained ones in front of it, nearest first, and
the untouched ones after it. -/
structure ChainAt (R : Anchored σ → Tape α → Prop) (s : Chained σ) (drained : List (Member R))
    (m : Member R) (rest : List (Member R)) : Prop where
  members : s.members.toList = (drained.reverse ++ m :: rest).map Member.cursor
  current : s.current = drained.length
  drained : ∀ d ∈ drained, d.tape.ahead = [] ∧ ∃ offset, d.tape.stop = .ended offset
  untouched : ∀ f ∈ rest, f.tape.behind = []

/-- The tape of a chain. -/
abbrev rowTape {R : Anchored σ → Tape α → Prop} (drained : List (Member R)) (m : Member R)
    (rest : List (Member R)) : Tape α :=
  chainTape (drained.map Member.tape) m.tape (rest.map Member.tape)

/-- The chain at index `i` shows the tape, and `settled` holds of the place among its members. -/
def ChainWith (R : Anchored σ → Tape α → Prop) (settled : List (Member R) → Member R → Prop)
    (i : Nat) (s : Chained σ) (t : Tape α) : Prop :=
  s.index = i ∧ ((s.members = #[] ∧ s.current = 0) ∧ t = ⟨[], [], .ended 0⟩ ∨
    ∃ drained m rest, ChainAt R s drained m rest ∧ t = rowTape drained m rest ∧ settled drained m)

/-- The chain of the tapes that the members show. -/
def ChainOf (R : Anchored σ → Tape α → Prop) (s : Chained σ) (t : Tape α) : Prop :=
  ChainWith R (fun _ _ => True) t.behind.length s t

section Members

variable {R : Anchored σ → Tape α → Prop} {s : Chained σ} {t : Tape α}
  {drained rest : List (Member R)} {m : Member R}

lemma ChainWith.weaken {settled : List (Member R) → Member R → Prop}
    (h : ChainWith R settled t.behind.length s t) : ChainOf R s t := by
  obtain ⟨hi, hnone | ⟨drained, m, rest, hat, ht, -⟩⟩ := h
  · exact ⟨hi, .inl hnone⟩
  · exact ⟨hi, .inr ⟨drained, m, rest, hat, ht, trivial⟩⟩

lemma ChainWith.count {settled : List (Member R) → Member R → Prop} {i : Nat}
    (h : ChainWith R settled i s t) (count : Nat) :
    ChainWith R settled count { s with index := count } t := by
  obtain ⟨-, hnone | ⟨drained, m, rest, hat, ht, hsettled⟩⟩ := h
  · exact ⟨rfl, .inl hnone⟩
  · exact ⟨rfl, .inr ⟨drained, m, rest, ⟨hat.1, hat.2, hat.3, hat.4⟩, ht, hsettled⟩⟩

lemma ChainAt.current_eq (h : ChainAt R s drained m rest) :
    s.members[s.current]? = some m.cursor := by
  rw [← Array.getElem?_toList, h.members, h.current]
  simp

lemma ChainAt.set_current (h : ChainAt R s drained m rest) (m' : Member R) :
    ChainAt R { s with members := s.members.setIfInBounds s.current m'.cursor }
      drained m' rest := by
  refine ⟨?_, h.current, h.drained, h.untouched⟩
  rw [Array.toList_setIfInBounds, h.members, h.current]
  simp

lemma ChainAt.onward {next : Member R} {offset : Nat} (h : ChainAt R s drained m (next :: rest))
    (hahead : m.tape.ahead = []) (hstop : m.tape.stop = .ended offset) :
    ChainAt R { s with current := s.current + 1 } (m :: drained) next rest := by
  refine ⟨by simp [h.members], by simp [h.current], ?_, ?_⟩
  · intro d hd
    obtain rfl | hd := List.mem_cons.1 hd
    · exact ⟨hahead, offset, hstop⟩
    · exact h.drained d hd
  · exact fun f hf => h.untouched f (List.mem_cons_of_mem _ hf)

lemma ChainAt.backward {d : Member R} (h : ChainAt R s (d :: drained) m rest)
    (hbehind : m.tape.behind = []) :
    ChainAt R { s with current := drained.length } drained d (m :: rest) := by
  refine ⟨by simp [h.members], rfl, fun d' hd' => h.drained d' (List.mem_cons_of_mem _ hd'), ?_⟩
  intro f hf
  obtain rfl | hf := List.mem_cons.1 hf
  · exact hbehind
  · exact h.untouched f hf

lemma ChainAt.rowTape_backward {d : Member R} (h : ChainAt R s (d :: drained) m rest)
    (hbehind : m.tape.behind = []) :
    rowTape drained d (m :: rest) = rowTape (d :: drained) m rest := by
  obtain ⟨hahead, offset, hstop⟩ := h.drained d (by simp)
  exact chainTape_onward _ _ _ _ hahead hstop hbehind

lemma Meets.insideChain {act : Action (Anchored σ) β} {result : Except CodingError β}
    {refused : List Event} {t' : Tape α} (h : ChainAt R s drained m rest)
    (hact : Meets act m.cursor result refused (R · t')) :
    Meets (Chained.inside act) s result refused fun s' =>
      s'.index = s.index ∧ ∃ m', m'.tape = t' ∧ ChainAt R s' drained m' rest := by
  unfold Chained.inside
  apply Meets.here
  rw [h.current_eq]
  exact Meets.within hact fun c hc => ⟨rfl, ⟨c, t', hc⟩, rfl, h.set_current ⟨c, t', hc⟩⟩

end Members

section Searches

variable [Cursor σ α] {R : Anchored σ → Tape α → Prop} {s : Chained σ} {t : Tape α}
  {drained rest : List (Member R)} {m : Member R}

/-- The chain with the unit ahead, if there is one, in the current member. -/
def ReadyAhead (R : Anchored σ → Tape α → Prop) (s : Chained σ) (t : Tape α) : Prop :=
  ChainWith R (fun _ m => m.tape.ahead = [] → t.ahead = []) t.behind.length s t

/-- The chain with the unit behind, if there is one, in the current member. -/
def ReadyBack (R : Anchored σ → Tape α → Prop) (s : Chained σ) (t : Tape α) : Prop :=
  ChainWith R (fun drained m => m.tape.behind = [] → drained = []) t.behind.length s t

/-- Where the current member has the unit ahead, or the stop, the search ends with it. -/
lemma Meets.settledHere (hR : Simulation R) (h : ChainAt R s drained m rest)
    (ht : t = rowTape drained m rest) (hi : s.index = t.behind.length)
    (hhere : m.tape.ahead = [] → (∃ offset, m.tape.stop = .ended offset) → rest = [])
    {go : Action (Chained σ) Bool}
    (hgo : rest = [] → go = pure false) :
    Meets (do if ← Chained.inside Cursor.hasNext then pure true else go) s t.more t.refusals
      (ReadyAhead R · t) := by
  obtain ⟨hmore, hrefusals, hend⟩ := chainTape_look (drained.map Member.tape)
    (rest.map Member.tape) m.tape fun ha hs => by rw [hhere ha hs, List.map_nil]
  rw [← rowTape, ← ht] at hmore hrefusals hend
  rw [hmore, hrefusals]
  have hdone : ∀ s' : Chained σ, (s'.index = s.index ∧ ∃ m', m'.tape = m.tape ∧
      ChainAt R s' drained m' rest) → ReadyAhead R s' t := by
    rintro s' ⟨hi', m', hm', h'⟩
    rw [← hm'] at hend
    exact ⟨hi'.trans hi, .inr ⟨drained, m', rest, h', by rw [ht, rowTape, rowTape, hm'], hend⟩⟩
  have hask := Meets.insideChain h (hR.hasNext m.shows)
  revert hask hhere
  generalize m.tape = tape at hdone ⊢
  intro hhere hask
  obtain ⟨behind, _ | ⟨u, ahead⟩, stop⟩ := tape
  · cases stop with
    | ended offset =>
      rw [hgo (hhere rfl ⟨offset, rfl⟩)]
      exact hask.bind fun s' hs' => .answer (hdone s' hs')
    | rejected codec e => exact hask.bind_error.mono hdone
  · exact hask.bind fun s' hs' => .answer (hdone s' hs')

/-- The search ahead passes the drained members and keeps the tape. -/
lemma chained_settleAheadFrom (hR : Simulation R) (h : ChainAt R s drained m rest)
    (ht : t = rowTape drained m rest) (hi : s.index = t.behind.length) :
    Meets (Chained.settleAheadFrom (rest.length + 1)) s t.more t.refusals (ReadyAhead R · t) := by
  induction rest generalizing s drained m with
  | nil => exact Meets.settledHere hR h ht hi (fun _ _ => rfl) fun _ => rfl
  | cons next rest ih =>
    by_cases hdry : m.tape.ahead = [] ∧ ∃ offset, m.tape.stop = .ended offset
    · obtain ⟨hahead, offset, hstop⟩ := hdry
      have hask := Meets.insideChain h (hR.hasNext m.shows)
      rw [Tape.more, Tape.refusals, hahead, hstop] at hask
      apply hask.bind
      rintro s' ⟨hi', m', hm', h'⟩
      rw [← hm'] at hahead hstop
      rw [if_neg (by simp), if_neg (by simp)]
      have hrow : t = rowTape (m' :: drained) next rest := by
        rw [ht, rowTape, rowTape, ← hm']
        exact chainTape_onward _ _ _ _ hahead hstop (h.untouched next (by simp))
      exact .changed (ih (h'.onward hahead hstop) hrow (hi'.trans hi))
    · apply Meets.settledHere hR h ht hi
      · exact fun hahead hstop => absurd ⟨hahead, hstop⟩ hdry
      · exact fun hnil => by cases hnil

lemma chained_settleAhead (hR : Simulation R) (h : ChainOf R s t) :
    Meets Chained.settleAhead s t.more t.refusals (ReadyAhead R · t) := by
  unfold Chained.settleAhead
  apply Meets.here
  obtain ⟨hi, ⟨hnone, rfl⟩ | ⟨drained, m, rest, hat, ht, -⟩⟩ := h
  · rw [hnone.1, Array.size_empty, Nat.zero_sub]
    exact .answer ⟨hi, .inl ⟨hnone, rfl⟩⟩
  · have hsize : s.members.size - s.current = rest.length + 1 := by
      rw [← Array.length_toList, hat.members, hat.current]
      simp
    rw [hsize]
    exact chained_settleAheadFrom hR hat ht hi

omit [Cursor σ α] in
lemma ChainAt.taken_eq (h : ChainAt R s drained m rest) : s.taken s.current = m.cursor.index := by
  rw [Chained.taken, h.current_eq]

/-- The search back passes the untouched members and keeps the tape. -/
lemma chained_lastTaken (hR : Simulation R)
    (h : ChainAt R { s with current := drained.length } drained m rest)
    (ht : t = rowTape drained m rest) (hi : s.index = t.behind.length) :
    ReadyBack R { s with current := s.lastTaken drained.length } t := by
  induction drained generalizing m rest with
  | nil => exact ⟨hi, .inr ⟨[], m, rest, h, ht, fun _ => rfl⟩⟩
  | cons d drained ih =>
    have htaken : s.taken (drained.length + 1) = m.tape.behind.length :=
      h.taken_eq.trans (hR.index m.shows)
    rw [List.length_cons, Chained.lastTaken, htaken]
    by_cases hbehind : m.tape.behind = []
    · rw [if_neg (by simp [hbehind])]
      exact ih (h.backward hbehind) (ht.trans (h.rowTape_backward hbehind).symm)
    · rw [if_pos (List.length_pos_iff.2 hbehind)]
      exact ⟨hi, .inr ⟨d :: drained, m, rest, h, ht, fun hnil => absurd hnil hbehind⟩⟩

lemma chained_settleBack (hR : Simulation R) (h : ChainOf R s t) :
    Meets Chained.settleBack s (.ok !t.behind.isEmpty) [] (ReadyBack R · t) := by
  unfold Chained.settleBack
  refine .changed (Meets.here ?_)
  have hready : ReadyBack R { s with current := s.lastTaken s.current } t := by
    obtain ⟨hi, ⟨hnone, ht⟩ | ⟨drained, m, rest, hat, ht, -⟩⟩ := h
    · exact ⟨hi, .inl ⟨⟨hnone.1, by rw [hnone.2]; rfl⟩, ht⟩⟩
    · have hcurrent := hat.current
      have hat' : ChainAt R { s with current := drained.length } drained m rest := by
        rwa [← hcurrent]
      rw [hcurrent]
      exact chained_lastTaken hR hat' ht hi
  have htaken : decide (0 < ({ s with current := s.lastTaken s.current } : Chained σ).taken
      (s.lastTaken s.current)) = !t.behind.isEmpty := by
    obtain ⟨-, ⟨hnone, rfl⟩ | ⟨drained, m, rest, hat, rfl, hsettled⟩⟩ := hready
    · simp only at hnone
      simp [Chained.taken, hnone.1]
    · have hcount := hat.taken_eq.trans (hR.index m.shows)
      simp only at hcount
      rw [hcount]
      cases hbehind : m.tape.behind with
      | nil => simp [chainTape, hbehind, hsettled hbehind]
      | cons u more => simp [chainTape, hbehind]
  rw [htaken]
  exact .answer hready

end Searches

section Simulation

variable [Cursor σ α] {R : Anchored σ → Tape α → Prop} {s : Chained σ} {t : Tape α}
  {act : Action (Anchored σ) α}

lemma chainTape_stop {drained rest : List (Tape α)} {m : Tape α} {offset : Nat}
    (hnil : (chainTape drained m rest).ahead = [])
    (hstop : (chainTape drained m rest).stop = .ended offset) :
    (chainTape drained m rest).behind.length = offset := by
  rw [chainTape] at hnil hstop ⊢
  simp only at hnil hstop ⊢
  rw [hnil] at hstop
  exact Stop.offset_of_ended hstop

/-- An action on the unit ahead is one on the first member that has a unit ahead. -/
lemma Meets.insideAhead (hR : Simulation R) (h : ChainOf R s t) (move : Tape α → Tape α)
    (hact : ∀ {a t}, R a t → Meets act a t.first t.refusals (R · (move t)))
    (hmove : ∀ drained u behind ahead stop rest,
      chainTape drained (move ⟨behind, u :: ahead, stop⟩) rest =
        move (chainTape drained ⟨behind, u :: ahead, stop⟩ rest))
    (hend : t.ahead = [] → move t = t) :
    Meets (Chained.insideAhead act) s t.first t.refusals
      (ChainWith R (fun _ _ => True) t.behind.length · (move t)) := by
  refine Meets.whenMore (chained_settleAhead hR h) ?_ ?_ ?_
  · rintro u row hu s' ⟨hi, ⟨-, rfl⟩ | ⟨drained, m, rest, hat, rfl, hsettled⟩⟩
    · cases hu
    · obtain ⟨v, more, hm⟩ := List.exists_cons_of_ne_nil
        fun hnil => List.cons_ne_nil u row (hu.symm.trans (hsettled hnil))
      have htape : m.tape = ⟨m.tape.behind, v :: more, m.tape.stop⟩ := by rw [← hm]
      have hmoved := hmove (drained.map Member.tape) v m.tape.behind more m.tape.stop
        (rest.map Member.tape)
      obtain ⟨row', hrow⟩ := chainTape_ahead (drained.map Member.tape) (rest.map Member.tape) v
        m.tape.behind more m.tape.stop
      rw [← htape] at hmoved hrow
      obtain ⟨hfirst, hrefusals⟩ : m.tape.first = .ok u ∧ m.tape.refusals = [] := by
        rw [htape, ← (List.cons.inj (hu.symm.trans hrow)).1]
        exact ⟨rfl, rfl⟩
      have hstep := Meets.insideChain hat (hact m.shows)
      rw [hfirst, hrefusals] at hstep
      apply hstep.mono
      rintro s'' ⟨hi'', m', hm', hat'⟩
      refine ⟨hi''.trans hi, .inr ⟨drained, m', rest, hat', ?_, trivial⟩⟩
      rw [rowTape, ← hmoved, ← hm']
  · exact fun hnil s' hready => (hend hnil).symm ▸ hready.weaken
  · rintro s' offset ⟨hi, ⟨-, rfl⟩ | ⟨drained, m, rest, -, rfl, -⟩⟩ hnil hstop
    · cases hstop
      exact hi
    · exact hi.trans (chainTape_stop hnil hstop)

lemma Meets.insideBack (hR : Simulation R) (h : ChainOf R s t) (move : Tape α → Tape α)
    (hact : ∀ {a t}, R a t → Meets act a t.last [] (R · (move t)))
    (hmove : ∀ drained u behind ahead stop rest,
      chainTape drained (move ⟨u :: behind, ahead, stop⟩) rest =
        move (chainTape drained ⟨u :: behind, ahead, stop⟩ rest))
    (hstart : t.behind = [] → move t = t) :
    Meets (Chained.insideBack act) s t.last []
      (ChainWith R (fun _ _ => True) t.behind.length · (move t)) := by
  refine Meets.whenAny (chained_settleBack hR h) ?_ ?_
  · rintro u row hu s' ⟨hi, ⟨-, rfl⟩ | ⟨drained, m, rest, hat, rfl, hsettled⟩⟩
    · cases hu
    · have hne : m.tape.behind ≠ [] := by
        intro hnil
        rw [hsettled hnil] at hu
        simp [chainTape, hnil] at hu
      obtain ⟨v, more, hm⟩ := List.exists_cons_of_ne_nil hne
      have htape : m.tape = ⟨v :: more, m.tape.ahead, m.tape.stop⟩ := by rw [← hm]
      have hmoved := hmove (drained.map Member.tape) v more m.tape.ahead m.tape.stop
        (rest.map Member.tape)
      rw [← htape] at hmoved
      have hlast : m.tape.last = .ok u := by
        rw [rowTape, htape] at hu
        rw [htape, ← (List.cons.inj hu).1]
        rfl
      have hstep := Meets.insideChain hat (hact m.shows)
      rw [hlast] at hstep
      apply hstep.mono
      rintro s'' ⟨hi'', m', hm', hat'⟩
      refine ⟨hi''.trans hi, .inr ⟨drained, m', rest, hat', ?_, trivial⟩⟩
      rw [rowTape, ← hmoved, ← hm']
  · intro hnil s' hready
    refine ⟨(hstart hnil).symm ▸ hready.weaken, ?_⟩
    rw [hready.1, hnil]
    rfl

lemma chainTape_length (drained : List (Tape α)) (m : Tape α) (rest : List (Tape α)) :
    (chainTape drained m rest).units.length ≤
      ((drained.reverse ++ m :: rest).map (·.units.length)).sum := by
  have hahead := followedBy_ahead_length rest m
  have hrest : (rest.map (·.ahead.length)).sum ≤ (rest.map (·.units.length)).sum :=
    List.sum_le_sum fun t _ => by simp [Tape.units]
  have hdrained : (drained.map (·.behind.length)).sum ≤ (drained.map (·.units.length)).sum :=
    List.sum_le_sum fun t _ => by simp [Tape.units]
  have hbehind : ((drained.map Tape.behind).flatten).length =
      (drained.map (·.behind.length)).sum := by
    rw [List.length_flatten, List.map_map]
    rfl
  simp only [List.map_append, List.map_cons, List.sum_append, List.sum_cons, List.map_reverse,
    List.sum_reverse]
  rw [chainTape, Tape.units, Tape.units]
  simp only [List.length_append, List.length_reverse] at hbehind ⊢
  omega

theorem chain_simulation (hR : Simulation R) : Simulation (ChainOf R) := by
  constructor
  · exact fun h => h.1
  · rintro s t ⟨-, ⟨-, rfl⟩ | ⟨drained, m, rest, hat, rfl, -⟩⟩
    · simp [Tape.units]
    · have hcapacity : Cursor.capacity s = (s.members.toList.map Cursor.capacity).sum := by
        rw [List.sum_eq_foldr, List.foldr_map]
        rfl
      have hroom : ((drained.reverse ++ m :: rest).map (·.tape.units.length)).sum ≤
          ((drained.reverse ++ m :: rest).map (Cursor.capacity ·.cursor)).sum :=
        List.sum_le_sum fun m _ => hR.room m.shows
      rw [hcapacity, hat.members]
      apply Nat.le_trans (chainTape_length _ _ _)
      simpa [Function.comp_def] using hroom
  · exact fun h => (chained_settleAhead hR h).mono fun _ hs => hs.weaken
  · exact fun h => (chained_settleBack hR h).mono fun _ hs => hs.weaken
  · exact fun h => Meets.insideAhead hR h id hR.peekNext (fun _ _ _ _ _ _ => rfl) fun _ => rfl
  · exact fun h => Meets.insideBack hR h id hR.peekPrevious (fun _ _ _ _ _ _ => rfl) fun _ => rfl
  · intro s t h
    have hstep := Meets.insideAhead hR h Tape.forth hR.next
      (fun _ _ _ _ _ _ => (chainTape_forth ..).symm) Tape.forth_of_nil
    refine hstep.countForth ?_ ?_
    · intro u rest hu s' hs'
      have hi : s'.index + 1 = t.forth.behind.length := by rw [hs'.1, Tape.forth, hu]; rfl
      rw [ChainOf, ← hi]
      exact hs'.count _
    · intro hnil s' hs'
      rw [Tape.forth_of_nil hnil] at hs' ⊢
      exact hs'
  · intro s t h
    have hstep := Meets.insideBack hR h Tape.back hR.previous
      (fun _ _ _ _ _ _ => (chainTape_back ..).symm) Tape.back_of_nil
    refine hstep.countBack ?_ ?_
    · intro u rest hu s' hs'
      have hi : s'.index - 1 = t.back.behind.length := by rw [hs'.1, Tape.back, hu]; rfl
      rw [ChainOf, ← hi]
      exact hs'.count _
    · intro hnil s' hs'
      rw [Tape.back_of_nil hnil] at hs' ⊢
      exact hs'

end Simulation

instance [Cursor σ α] [Viewed σ α] : Viewed (Chained σ) α where
  Shows := ChainOf Shows
  simulation := chain_simulation simulation

/-- The tapes one after the other, from where they stand. -/
def rowOf : List (Tape α) → Tape α
  | [] => ⟨[], [], .ended 0⟩
  | t :: rest => chainTape [] t.fresh (rest.map Tape.fresh)

theorem chain_shows [Cursor σ α] [Viewed σ α] (members : List (Member (σ := σ) (α := α) Shows)) :
    Shows (Chained.ofCursors (members.map Member.cursor)) (rowOf (members.map Member.tape)) := by
  cases members with
  | nil => exact ⟨rfl, .inl ⟨⟨rfl, rfl⟩, rfl⟩⟩
  | cons m rest =>
    let anchor : Member (σ := σ) (α := α) Shows → Member (σ := Anchored σ) (α := α) Shows :=
      fun m => ⟨{ inner := m.cursor }, m.tape.fresh, anchored_shows m.shows⟩
    refine ⟨rfl, .inr ⟨[], anchor m, rest.map anchor, ⟨?_, rfl, ?_, ?_⟩, ?_, trivial⟩⟩
    · simp [Chained.ofCursors, anchor, Function.comp_def]
    · simp
    · simp [anchor, Tape.fresh]
    · simp [rowOf, rowTape, anchor, Function.comp_def]

end BaseText.Proofs
