import BaseText.Proofs.Runs

/-!
# What an exhausted stack names

At its start a stack names its own index. At its end most layers do so too, but a limit that is
short of its bound and a map hand on what the stack under them says, and that one counts from
another place if it had been moved before. Nothing else ends a stack but malformed input.
-/

namespace BaseText.Proofs

variable {ρ σ α β : Type}

/-- Where units do not plainly end, it is for malformed input. -/
def Stop.IsPlain : Stop → Prop
  | ended _ => True
  | rejected _ e => e.isMalformed = true

lemma Stop.IsPlain.atOffset {stop : Stop} (h : stop.IsPlain) (offset : Nat) :
    (stop.atOffset offset).IsPlain := by
  cases stop with
  | ended _ => trivial
  | rejected codec e => exact h

/-- A group code refuses nothing but malformed input. -/
structure RefusesMalformed [GroupCode ρ α β] (code : ρ) : Prop where
  refuse : ∀ {seen u cause}, GroupCode.refuse? code seen u = some cause → cause.family = .malformed
  close : ∀ {units cause}, GroupCode.close code units = .error cause → cause.family = .malformed

lemma isMalformed_of_family {cause : Cause} (h : cause.family = .malformed) (offset : Nat) :
    (⟨cause, offset⟩ : CodingError).isMalformed = true := by
  simp [CodingError.isMalformed, CodingError.family, h]

section Codes

variable [GroupCode ρ α β] [LawfulCode ρ] {code : ρ} {stop : Stop} {offset : Nat}
  {units : List α} {refusal : Refusal}

lemma readAhead_malformed (hcode : RefusesMalformed code) (hstop : stop.IsPlain)
    {left : Nat} {seen : List α} (h : readAhead code stop offset seen left units = .error refusal) :
    refusal.error.isMalformed = true := by
  induction left generalizing offset seen units with
  | zero => cases h
  | succ left ih =>
    cases units with
    | nil =>
      cases stop with
      | ended _ => cases h
      | rejected codec e =>
        cases h
        exact hstop
    | cons u rest =>
      cases hrefuse : GroupCode.refuse? code seen u with
      | some cause =>
        rw [readAhead_of_refused hrefuse] at h
        cases h
        exact isMalformed_of_family (hcode.refuse hrefuse) offset
      | none =>
        rw [readAhead_of_accepted hrefuse] at h
        cases hmore : readAhead code stop (offset + 1) (seen ++ [u]) left rest with
        | ok more =>
          rw [hmore] at h
          cases h
        | error refusal' =>
          rw [hmore] at h
          cases h
          exact ih hmore

lemma readGroup_malformed (hcode : RefusesMalformed code) (hstop : stop.IsPlain)
    (h : (readGroup code offset units stop : Except Refusal (Option (Piece β))) = .error refusal) :
    refusal.error.isMalformed = true := by
  unfold readGroup at h
  cases hread : readAhead code stop offset [] (GroupCode.size code) units with
  | error refusal' =>
    rw [hread] at h
    cases h
    exact readAhead_malformed hcode hstop hread
  | ok group =>
    rw [hread] at h
    rcases group with _ | ⟨u, more⟩
    · cases h
    · cases hclose : GroupCode.close code (u :: more) with
      | ok closed => simp [hclose] at h
      | error cause =>
        simp only [hclose] at h
        cases h
        exact isMalformed_of_family (hcode.close hclose) _

/-- Groups end as their source does, or with malformed input. -/
lemma unroll_isPlain (hcode : RefusesMalformed code) (hstop : stop.IsPlain) :
    (unroll code offset units stop : Tape β).stop.IsPlain := by
  fun_induction unroll with
  | case1 _ _ refusal hread => exact readGroup_malformed hcode hstop hread
  | case2 => exact hstop
  | case3 _ _ _ _ _ _ ih => exact ih
  | case4 => exact hstop
  | case5 _ units span =>
    cases units.drop span with
    | nil => exact hstop
    | cons u rest => rfl

end Codes

lemma encoding_refusesMalformed (e : Encoding) : RefusesMalformed e where
  refuse h := by cases h
  close {bytes cause} h := by
    rw [encoding_close] at h
    split at h <;> cases h

lemma decoding_fault {d : Decoding} {symbols : List Char} {cause : Cause}
    (h : GroupCode.close d symbols = .error cause) : d.fault? symbols = some cause := by
  by_cases hnone : symbols.length < d.codec.groupSymbols → d.fault? symbols = none
  · rw [decoding_close_of_none hnone] at h
    cases h
  · obtain ⟨hshort, hsome⟩ := Classical.not_imp.1 hnone
    obtain ⟨found, hfound⟩ := Option.ne_none_iff_exists'.1 hsome
    rw [decoding_close_of_some hshort hfound] at h
    rwa [← Except.error.inj h]

lemma decoding_refusesMalformed (d : Decoding) : RefusesMalformed d where
  refuse {seen u cause} h := by
    change d.refuse? seen u = some cause at h
    unfold Decoding.refuse? at h
    split_ifs at h <;> cases h <;> rfl
  close {symbols cause} h := by
    have hfault := decoding_fault h
    unfold Decoding.fault? at hfault
    split_ifs at hfault <;> cases hfault <;> rfl

/-- At its end the tape names `offset`, unless that is for malformed input. -/
structure EndsAt (t : Tape α) (offset : Nat) : Prop where
  ended : t.ahead = [] → ∀ named, t.stop = .ended named → named = offset
  stop : t.stop.IsPlain

lemma endsAt_of_ended {t : Tape α} (h : t.stop = .ended t.units.length) :
    EndsAt t t.behind.length := by
  refine ⟨fun hnil named hnamed => ?_, by rw [h]; trivial⟩
  obtain rfl : t.units.length = named := Stop.ended.inj (h.symm.trans hnamed)
  rw [Tape.units, hnil, List.append_nil, List.length_reverse]

lemma endsAt_limit {t : Tape α} {offset bound : Nat} (h : EndsAt t offset)
    (hle : t.behind.length ≤ bound) :
    EndsAt (t.limit bound) (if bound ≤ t.behind.length then t.behind.length else offset) := by
  have hplain : (t.limit bound).stop.IsPlain := by
    unfold Tape.limit
    split
    · trivial
    · exact h.stop
  refine ⟨fun hnil named hnamed => ?_, hplain⟩
  by_cases hfull : bound ≤ t.behind.length
  · rw [limit_of_length_eq (Nat.le_antisymm hle hfull)] at hnamed
    rw [if_pos hfull, ← Stop.ended.inj hnamed]
    exact Nat.le_antisymm hfull hle
  · rw [if_neg hfull]
    have hdry : t.ahead = [] := by
      refine (List.take_eq_nil_iff.1 hnil).resolve_left ?_
      omega
    have hshort : ¬ bound ≤ t.units.length := by
      simpa [Tape.units, hdry] using hfull
    simp only [Tape.limit, if_neg hshort] at hnamed
    exact h.ended hdry named hnamed

lemma endsAt_delimit [DecidableEq α] {t : Tape α} {offset : Nat} (h : EndsAt t offset)
    (stops : List α) : EndsAt (t.delimit stops) t.behind.length := by
  refine ⟨fun hnil named hnamed => delimit_stop stops hnil hnamed, ?_⟩
  simp only [Tape.delimit]
  split
  · exact h.stop.atOffset _
  · trivial

lemma endsAt_visible {hidden : α → Bool} {seen ahead : List α} {stop : Stop}
    (h : stop.IsPlain) : EndsAt (visibleTape hidden seen ahead stop)
      (visibleTape hidden seen ahead stop).behind.length := by
  refine ⟨fun hnil named hnamed => ?_, h.atOffset _⟩
  have hafter : ahead.filter (!hidden ·) = [] := hnil
  rw [visibleTape] at hnamed ⊢
  rw [← Stop.offset_of_ended hnamed, hafter, List.length_nil, Nat.add_zero]

lemma followedBy_isPlain {t : Tape α} {rest : List (Tape α)} (ht : t.stop.IsPlain)
    (hrest : ∀ next ∈ rest, next.stop.IsPlain) : (t.followedBy rest).stop.IsPlain := by
  induction rest generalizing t with
  | nil => exact ht
  | cons next rest ih =>
    have hmore := ih (hrest next (by simp)) fun next hnext => hrest next (by simp [hnext])
    unfold Tape.followedBy
    cases hstop : t.stop with
    | ended _ => exact hmore
    | rejected codec e => simpa only [hstop] using ht

lemma endsAt_chain {drained rest : List (Tape α)} {t : Tape α} (ht : t.stop.IsPlain)
    (hrest : ∀ next ∈ rest, next.stop.IsPlain) :
    EndsAt (chainTape drained t rest) (chainTape drained t rest).behind.length :=
  ⟨fun hnil _ hnamed => (chainTape_stop hnil hnamed).symm,
    (followedBy_isPlain ht hrest).atOffset _⟩

lemma endsAt_map {t : Tape α} {offset : Nat} (h : EndsAt t offset) (f : α → β) :
    EndsAt (t.map f) offset :=
  ⟨fun hnil => h.ended (List.map_eq_nil_iff.1 hnil), h.stop⟩

lemma GroupsAt.endsAt [GroupCode ρ α β] [LawfulCode ρ] [Cursor σ α] {R : σ → Tape α → Prop}
    {base i : Nat} {code : ρ} {source : Tape α} {s : Grouped ρ σ β}
    (h : GroupsAt R base code source i s) (hcode : RefusesMalformed code)
    (hsource : source.stop.IsPlain) : EndsAt (groupTape code base source i : Tape β) i := by
  refine ⟨fun hnil named hnamed => ?_, (unroll_isPlain hcode hsource).atOffset _⟩
  have hle := h.le_length
  have hend : (unroll code base source.ahead source.stop : Tape β).ahead.length ≤ i :=
    List.drop_eq_nil_iff.1 hnil
  rw [← Stop.offset_of_ended hnamed]
  exact Nat.le_antisymm hend hle

/-- What a stack that is exhausted at its end names. -/
def endIndex : (n : Nat) → {k : Kind} → Stack n k → Nat
  | 0, _, s => Cursor.index s
  | n + 1, _, .plain c => endIndex n c
  | n + 1, _, .limited c => if c.bound ≤ c.index then c.index else endIndex n c.inner.inner
  | n + 1, _, .mapped c => endIndex n c.inner.inner
  | _ + 1, _, .delimited c => c.index
  | _ + 1, _, .filtered c => c.index
  | _ + 1, _, .chained c => c.index
  | _ + 1, _, .encoded c => c.index
  | _ + 1, _, .decoded c => c.index

/-- Every layer that hands on the end of the stack under it counts as that stack does. -/
def InStep : (n : Nat) → {k : Kind} → Stack n k → Prop
  | 0, _, _ => True
  | n + 1, _, .plain c => InStep n c
  | n + 1, _, .limited c =>
    c.bound ≤ c.index ∨ Cursor.index c.inner.inner = c.index ∧ InStep n c.inner.inner
  | n + 1, _, .mapped c => Cursor.index c.inner.inner = c.index ∧ InStep n c.inner.inner
  | _ + 1, _, .delimited _ => True
  | _ + 1, _, .filtered _ => True
  | _ + 1, _, .chained _ => True
  | _ + 1, _, .encoded _ => True
  | _ + 1, _, .decoded _ => True

section Stacks

variable {n : Nat} {k : Kind}

lemma source_endsAt {c : Source k} {t : Tape k.Carrier} (h : SourceShows c t) :
    EndsAt t (Cursor.index c) := by
  rw [source_index h]
  cases c with
  | sequence c | buffer c | text c => exact endsAt_of_ended h.stop

theorem stack_endsAt {c : Stack n k} {t : Tape k.Carrier} (h : Shows c t) :
    EndsAt t (endIndex n c) := by
  induction n generalizing k t with
  | zero => exact source_endsAt h
  | succ n ih =>
    -- What an anchored stack ends with is what the stack itself ends with.
    have hanchored {k : Kind} {a : Anchored (Stack n k)} {t : Tape k.Carrier} (ha : Shows a t) :
        EndsAt t (endIndex n a.inner) := by
      obtain ⟨base, before, hs, -⟩ := ha
      exact ⟨(ih hs).ended, (ih hs).stop⟩
    have hlayer : LayerShows (S := Stack n) c t := h
    cases c with
    | plain c => exact ih hlayer
    | limited c =>
      obtain ⟨whole, hs, hle, rfl⟩ := hlayer
      have hindex : c.index = whole.behind.length := simulation.index hs
      rw [endIndex, hindex]
      exact endsAt_limit (hanchored hs) hle
    | delimited c =>
      obtain ⟨whole, hs, -, rfl⟩ := hlayer
      have hindex : c.index = whole.behind.length := simulation.index hs
      rw [endIndex, hindex]
      exact endsAt_delimit (hanchored hs) c.stops
    | filtered c =>
      obtain ⟨before, seen, ahead, stop, hat⟩ := hlayer
      rw [endIndex, hat.index, hat.visible]
      exact endsAt_visible (ih hat.inner).stop
    | chained c =>
      obtain ⟨hindex, ⟨-, rfl⟩ | ⟨drained, m, rest, -, rfl, -⟩⟩ := hlayer
      · rw [endIndex, hindex]
        exact endsAt_of_ended rfl
      · rw [endIndex, hindex]
        refine endsAt_chain (hanchored m.shows).stop fun next hnext => ?_
        obtain ⟨member, -, rfl⟩ := List.mem_map.1 hnext
        exact (hanchored member.shows).stop
    | mapped c =>
      obtain ⟨whole, hs, rfl⟩ := hlayer
      exact endsAt_map (hanchored hs) c.table.apply
    | encoded c =>
      obtain ⟨⟨base, e, source⟩, i, hat, hindex, rfl⟩ := hlayer
      obtain ⟨place, ⟨-, hs⟩, -⟩ := hat.stands
      rw [endIndex, hindex]
      exact hat.endsAt (encoding_refusesMalformed e) (hanchored ⟨base, hs⟩).stop
    | decoded c =>
      obtain ⟨⟨base, d, source⟩, i, hat, hindex, rfl⟩ := hlayer
      obtain ⟨place, ⟨-, hs⟩, -⟩ := hat.stands
      rw [endIndex, hindex]
      exact hat.endsAt (decoding_refusesMalformed d) (hanchored ⟨base, hs⟩).stop

/-- An anchored stack has passed as many units as it counts, and those before its anchor. -/
lemma index_le_innerIndex {a : Anchored (Stack n k)} {t : Tape k.Carrier} (h : Shows a t) :
    a.index ≤ Cursor.index a.inner := by
  obtain ⟨base, hs⟩ := h
  have hinner : Cursor.index a.inner = base + t.behind.length := hs.innerIndex simulation
  have hindex : a.index = t.behind.length := (standsOn_simulation simulation base).index hs
  omega

lemma index_le_endIndex {c : Stack n k} {t : Tape k.Carrier} (h : Shows c t) :
    Cursor.index c ≤ endIndex n c ∧ (endIndex n c = Cursor.index c ↔ InStep n c) := by
  induction n generalizing k t with
  | zero => exact ⟨Nat.le_refl _, iff_of_true rfl trivial⟩
  | succ n ih =>
    have hanchored {k : Kind} {a : Anchored (Stack n k)} {t : Tape k.Carrier} (ha : Shows a t) :
        a.index ≤ endIndex n a.inner ∧
          (endIndex n a.inner = a.index ↔ Cursor.index a.inner = a.index ∧ InStep n a.inner) := by
      have hle := index_le_innerIndex ha
      obtain ⟨base, before, hs, -⟩ := ha
      obtain ⟨hend, hstep⟩ := ih hs
      refine ⟨Nat.le_trans hle hend, ?_⟩
      rw [← hstep]
      omega
    have hlayer : LayerShows (S := Stack n) c t := h
    cases c with
    | plain c => exact ih hlayer
    | limited c =>
      obtain ⟨whole, hs, -⟩ := hlayer
      obtain ⟨hle, hstep⟩ := hanchored hs
      change c.index ≤ (if _ then _ else _) ∧ ((if _ then _ else _) = c.index ↔ _)
      by_cases hfull : c.bound ≤ c.index
      · rw [if_pos hfull]
        exact ⟨Nat.le_refl _, iff_of_true rfl (.inl hfull)⟩
      · rw [if_neg hfull]
        exact ⟨hle, hstep.trans (or_iff_right hfull).symm⟩
    | mapped c =>
      obtain ⟨whole, hs, -⟩ := hlayer
      exact hanchored hs
    | delimited c | filtered c | chained c | encoded c | decoded c =>
      exact ⟨Nat.le_refl _, iff_of_true rfl trivial⟩

end Stacks

section Exhausted

variable {t : Tape α} {offset named : Nat}

lemma EndsAt.first (h : EndsAt t offset) (hfirst : t.first = .error (.exhausted named)) :
    named = offset := by
  have hstop := h.stop
  obtain ⟨behind, _ | ⟨u, rest⟩, ended | ⟨codec, e⟩⟩ := t
  · exact h.ended rfl named (by cases hfirst; rfl)
  · cases hfirst
    cases hstop
  · cases hfirst
  · cases hfirst

lemma EndsAt.more (h : EndsAt t offset) : t.more ≠ .error (.exhausted named) := by
  have hstop := h.stop
  intro hmore
  obtain ⟨behind, _ | ⟨u, rest⟩, ended | ⟨codec, e⟩⟩ := t
  · cases hmore
  · cases hmore
    cases hstop
  · cases hmore
  · cases hmore

lemma last_exhausted (hlast : t.last = .error (.exhausted named)) : named = t.behind.length := by
  obtain ⟨_ | ⟨u, behind⟩, ahead, stop⟩ := t
  · cases hlast
    rfl
  · cases hlast

lemma error_of_map {γ : Type} {f : β → γ} {result : Except CodingError β} {e : CodingError}
    (h : f <$> result = .error e) : result = .error e := by
  cases result with
  | ok b => cases h
  | error e' => exact congrArg _ (Except.error.inj h)

end Exhausted

section Offsets

variable {k : Kind} {s : AnyStack k} {call : Call} {offset : Nat}

/-- A stack that is exhausted at its start names its own index. One that is exhausted at its end
names the index of the first stack under it that does not hand the error on, which is its own
exactly if no limit and no map on the way was put on a stack that had been moved. -/
theorem exhausted_offset (h : Reachable s)
    (hcall : (call.ask s).result = .error (.exhausted offset)) :
    call ∈ [.peekPrevious, .previous] ∧ offset = Cursor.index s ∨
      call ∈ [.peekNext, .next] ∧ offset = endIndex s.depth s.stack ∧
        Cursor.index s ≤ offset ∧ (offset = Cursor.index s ↔ InStep s.depth s.stack) := by
  obtain ⟨t, ht⟩ := reachable_shows h
  have hends : EndsAt t (endIndex s.depth s.stack) := stack_endsAt (n := s.depth) ht
  have hindex : Cursor.index s = t.behind.length := simulation.index ht
  have hle := index_le_endIndex (n := s.depth) ht
  rw [(call.ask_meets simulation ht).result] at hcall
  -- Ahead, the tape tells what is named; behind, it is the start of the tape.
  have hahead (hfirst : t.first = .error (.exhausted offset)) :
      offset = endIndex s.depth s.stack ∧ Cursor.index s ≤ offset ∧
        (offset = Cursor.index s ↔ InStep s.depth s.stack) := by
    obtain rfl := hends.first hfirst
    exact ⟨rfl, hle⟩
  have hbehind (hlast : t.last = .error (.exhausted offset)) : offset = Cursor.index s :=
    (last_exhausted hlast).trans hindex.symm
  cases call <;> rw [Call.ask] at hcall
  case index => cases hcall
  all_goals
    rw [map_run] at hcall
    replace hcall := error_of_map hcall
  case hasNext => exact absurd hcall hends.more
  case hasPrevious => cases hcall
  case peekNext | next => exact .inr ⟨by simp, hahead hcall⟩
  case peekPrevious | previous => exact .inl ⟨by simp, hbehind hcall⟩

/-- The last of two bytes, under a limit that it falls short of, has been read. -/
def spentLimit : AnyStack .byte :=
  (Call.next.ask ((Call.next.ask (AnyStack.ofSource (k := .byte)
    (.sequence (.ofList [0x01, 0x02])))).cursor.limit 5)).cursor

lemma spentLimit_reachable : Reachable spentLimit :=
  .call (.limit (.call (.slice (k := .byte) _) .next) 5) .next

theorem exhausted_offset_spentLimit :
    (Call.next.ask spentLimit).result = .error (.exhausted 2) ∧ Cursor.index spentLimit = 1 ∧
      ¬ InStep spentLimit.depth spentLimit.stack := by
  have hcall : (Call.next.ask spentLimit).result = .error (.exhausted 2) := rfl
  obtain ⟨hback, -⟩ | ⟨-, -, -, hstep⟩ := exhausted_offset spentLimit_reachable hcall
  · simp at hback
  · exact ⟨hcall, rfl, fun hin => absurd (hstep.2 hin) (by decide)⟩

/-- An exhausted stack need not name its own index. -/
theorem exhausted_elsewhere :
    ¬ ∀ (k : Kind) (s : AnyStack k), Reachable s → ∀ (call : Call) (offset : Nat),
      (call.ask s).result = .error (.exhausted offset) → offset = Cursor.index s := by
  intro hown
  have hindex := hown .byte spentLimit spentLimit_reachable .next 2 rfl
  cases hindex

end Offsets

end BaseText.Proofs
