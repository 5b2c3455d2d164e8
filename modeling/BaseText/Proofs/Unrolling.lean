import BaseText.Cursor.Grouped
import BaseText.Proofs.Windows

/-!
# What groups become

A group code turns units, group by group, into one list of units that ends as its source ends or
with the first group that is refused. Here this is a function of the units and of the way they
end: `readGroup` reads the group in front of them, and `unroll` all groups.
-/

namespace BaseText.Proofs

variable {ρ σ α β γ : Type}

/-- A codec refuses some units. -/
structure Refusal where
  codec : Codec
  error : CodingError

/-- The result of an action that comes to `r`. -/
def answerOf : Except Refusal γ → Except CodingError γ
  | .ok a => .ok a
  | .error refusal => .error refusal.error

/-- The rejections of an action that comes to `r`. -/
def refusedBy : Except Refusal γ → List Event
  | .ok _ => []
  | .error refusal => [.rejected refusal.codec refusal.error]

/-- Some units of a source and what the group code makes of them. -/
structure Piece (β : Type) where
  span : Nat
  units : List β
  ending : Ending

section Reading

variable [GroupCode ρ α β]

/-- No unit is refused after those in front of it. -/
def Accepted (code : ρ) (units : List α) : Prop :=
  ∀ seen u rest, units = seen ++ u :: rest → GroupCode.refuse? code seen u = none

lemma Accepted.snoc {code : ρ} {units : List α} {u : α} (h : Accepted code units)
    (hu : GroupCode.refuse? code units u = none) : Accepted code (units ++ [u]) := by
  intro seen v rest hseen
  obtain rfl | ⟨front, w, rfl⟩ := List.eq_nil_or_concat rest
  · obtain ⟨rfl, hlast⟩ := List.append_inj' hseen rfl
    obtain rfl := List.singleton_inj.1 hlast
    exact hu
  · rw [List.concat_eq_append, ← List.cons_append, ← List.append_assoc] at hseen
    exact h seen v front (List.append_inj' hseen rfl).1

/-- What is needed of a group code to be read and moved along. -/
class LawfulCode (ρ : Type) {α β : outParam Type} [GroupCode ρ α β] where
  codec : ρ → Codec
  size_pos : ∀ code : ρ, 0 < GroupCode.size code
  rejected_eq : ∀ (code : ρ) e, GroupCode.rejected code e = .rejected (codec code) e
  reread_quiet : ∀ (code : ρ) start, (GroupCode.reread code start).isRejection = false
  close_units : ∀ (code : ρ) units out ending, units ≠ [] → units.length ≤ GroupCode.size code →
    Accepted code units → GroupCode.close code units = .ok (out, ending) →
    out ≠ [] ∧ out.length ≤ GroupCode.growth code * units.length
  close_more : ∀ (code : ρ) units out, GroupCode.close code units = .ok (out, .more) →
    units.length = GroupCode.size code
  close_last : ∀ (code : ρ) units out, GroupCode.close code units = .ok (out, .last) →
    units.length ≠ GroupCode.size code

variable [LawfulCode ρ] (code : ρ)

/-- At most `left` units of a group, of which `seen` have been read. -/
def readAhead (stop : Stop) : Nat → List α → Nat → List α → Except Refusal (List α)
  | _, _, 0, _ => .ok []
  | _, _, _ + 1, [] =>
    match stop with
    | .ended _ => .ok []
    | .rejected codec e => .error ⟨codec, e⟩
  | offset, seen, left + 1, u :: rest =>
    match GroupCode.refuse? code seen u with
    | some cause => .error ⟨LawfulCode.codec code, ⟨cause, offset⟩⟩
    | none => (u :: ·) <$> readAhead stop (offset + 1) (seen ++ [u]) left rest

/-- The group in front of some units, of which the first stands at `offset`. -/
def readGroup (offset : Nat) (units : List α) (stop : Stop) : Except Refusal (Option (Piece β)) :=
  match readAhead code stop offset [] (GroupCode.size code) units with
  | .error refusal => .error refusal
  | .ok [] => .ok none
  | .ok (u :: more) =>
    match GroupCode.close code (u :: more) with
    | .error cause => .error ⟨LawfulCode.codec code, ⟨cause, offset + (u :: more).length⟩⟩
    | .ok (out, ending) => .ok (some ⟨(u :: more).length, out, ending⟩)

variable {code} {stop : Stop}

lemma readAhead_of_refused {offset left : Nat} {seen rest : List α} {u : α} {cause : Cause}
    (h : GroupCode.refuse? code seen u = some cause) :
    readAhead code stop offset seen (left + 1) (u :: rest) =
      .error ⟨LawfulCode.codec code, ⟨cause, offset⟩⟩ := by
  rw [readAhead]
  simp only [h]

lemma readAhead_of_accepted {offset left : Nat} {seen rest : List α} {u : α}
    (h : GroupCode.refuse? code seen u = none) :
    readAhead code stop offset seen (left + 1) (u :: rest) =
      (u :: ·) <$> readAhead code stop (offset + 1) (seen ++ [u]) left rest := by
  rw [readAhead]
  simp only [h]

/-- Units that are not refused are read one after the other. -/
lemma readAhead_append {offset left : Nat} {seen group rest : List α}
    (h : ∀ i u tail, group = i ++ u :: tail → GroupCode.refuse? code (seen ++ i) u = none) :
    readAhead code stop offset seen (group.length + left) (group ++ rest) =
      (group ++ ·) <$> readAhead code stop (offset + group.length) (seen ++ group) left rest := by
  induction group generalizing offset seen with
  | nil =>
    rw [List.append_nil, List.nil_append, List.length_nil, Nat.zero_add, Nat.add_zero]
    cases readAhead code stop offset seen left rest <;> rfl
  | cons u group ih =>
    have hu := h [] u group rfl
    rw [List.append_nil] at hu
    have hrest : readAhead code stop (offset + 1) (seen ++ [u]) (group.length + left)
        (group ++ rest) = _ := ih fun i v tail hi => by
      have hv := h (u :: i) v tail (by rw [hi]; rfl)
      rwa [List.append_assoc]
    have hleft : (u :: group).length + left = group.length + left + 1 := by
      rw [List.length_cons]
      omega
    have hoffset : offset + 1 + group.length = offset + (u :: group).length := by
      rw [List.length_cons]
      omega
    rw [hleft, List.cons_append, readAhead_of_accepted hu, hrest, hoffset, ← List.append_cons]
    cases readAhead code stop (offset + (u :: group).length) (seen ++ u :: group) left rest <;> rfl

/-- What is read is accepted, stands in front, and is short only where the units plainly end. -/
structure ReadsTo (code : ρ) (stop : Stop) (seen : List α) (left : Nat) (units group : List α) :
    Prop where
  accepted : ∀ i u rest, group = i ++ u :: rest → GroupCode.refuse? code (seen ++ i) u = none
  front : ∃ rest, units = group ++ rest ∧
    (group.length = left ∨ group.length < left ∧ rest = [] ∧ ∃ offset, stop = .ended offset)

lemma readAhead_reads {offset left : Nat} {seen units group : List α}
    (h : readAhead code stop offset seen left units = .ok group) :
    ReadsTo code stop seen left units group := by
  induction left generalizing offset seen units group with
  | zero =>
    obtain rfl : [] = group := by simpa [readAhead] using h
    exact ⟨fun i u rest hi => by simp at hi, units, rfl, .inl rfl⟩
  | succ left ih =>
    cases units with
    | nil =>
      cases stop with
      | ended o =>
        obtain rfl : [] = group := by simpa [readAhead] using h
        exact ⟨fun i u rest hi => by simp at hi, [], rfl, .inr ⟨by simp, rfl, o, rfl⟩⟩
      | rejected codec e => simp [readAhead] at h
    | cons u rest =>
      cases hrefuse : GroupCode.refuse? code seen u with
      | some cause => simp [readAhead_of_refused hrefuse] at h
      | none =>
        rw [readAhead_of_accepted hrefuse] at h
        cases hmore : readAhead code stop (offset + 1) (seen ++ [u]) left rest with
        | error e => simp [hmore] at h
        | ok more =>
          obtain rfl : u :: more = group := by simpa [hmore] using h
          have hreads := ih hmore
          refine ⟨?_, ?_⟩
          · rintro (_ | ⟨v, i⟩) w tail hi
            · obtain ⟨rfl, rfl⟩ := List.cons.inj hi
              rwa [List.append_nil]
            · obtain ⟨rfl, htail⟩ := List.cons.inj hi
              have hw := hreads.accepted i w tail htail
              rwa [List.append_assoc] at hw
          · obtain ⟨tail, rfl, hlength⟩ := hreads.front
            exact ⟨tail, rfl, by simpa using hlength⟩

/-- What a group is read from. -/
structure ReadsGroup (code : ρ) (units : List α) (stop : Stop) (piece : Piece β)
    (group rest : List α) : Prop where
  units : units = group ++ rest
  nonempty : group ≠ []
  span : piece.span = group.length
  accepted : Accepted code group
  closed : GroupCode.close code group = .ok (piece.units, piece.ending)
  size : group.length = GroupCode.size code ∨
    group.length < GroupCode.size code ∧ rest = [] ∧ ∃ offset, stop = .ended offset

lemma readGroup_reads {offset : Nat} {units : List α} {piece : Piece β}
    (h : readGroup code offset units stop = .ok (some piece)) :
    ∃ group rest, ReadsGroup code units stop piece group rest := by
  unfold readGroup at h
  cases hread : readAhead code stop offset [] (GroupCode.size code) units with
  | error refusal => simp [hread] at h
  | ok group =>
    obtain ⟨haccepted, rest, hunits, hsize⟩ := readAhead_reads hread
    rcases group with _ | ⟨u, more⟩
    · simp [hread] at h
    · cases hclose : GroupCode.close code (u :: more) with
      | error cause => simp [hread, hclose] at h
      | ok closed =>
        obtain rfl : (⟨(u :: more).length, closed.1, closed.2⟩ : Piece β) = piece := by
          simpa [hread, hclose] using h
        exact ⟨u :: more, rest, hunits, by simp, rfl, haccepted, hclose, hsize⟩

lemma stop_of_readGroup_none {offset : Nat} {units : List α}
    (h : (readGroup code offset units stop : Except Refusal (Option (Piece β))) = .ok none) :
    units = [] ∧ ∃ offset, stop = .ended offset := by
  unfold readGroup at h
  cases hread : readAhead code stop offset [] (GroupCode.size code) units with
  | error refusal => simp [hread] at h
  | ok group =>
    obtain ⟨-, rest, hunits, hsize⟩ := readAhead_reads hread
    rcases group with _ | ⟨u, more⟩
    · have hpos := LawfulCode.size_pos code
      obtain hsize | ⟨-, hrest, hstop⟩ := hsize
      · rw [← hsize] at hpos
        exact absurd hpos (Nat.lt_irrefl 0)
      · exact ⟨hunits.trans hrest, hstop⟩
    · cases hclose : GroupCode.close code (u :: more) <;> simp [hread, hclose] at h

namespace ReadsGroup

variable {units group rest : List α} {piece : Piece β}

omit [LawfulCode ρ] in
lemma drop (h : ReadsGroup code units stop piece group rest) : units.drop piece.span = rest := by
  rw [h.units, h.span, List.drop_left]

omit [LawfulCode ρ] in
lemma span_pos (h : ReadsGroup code units stop piece group rest) : 0 < piece.span := by
  rw [h.span]
  exact List.length_pos_iff.2 h.nonempty

omit [LawfulCode ρ] in
lemma span_le (h : ReadsGroup code units stop piece group rest) : piece.span ≤ units.length := by
  rw [h.units, h.span, List.length_append]
  exact Nat.le_add_right _ _

omit [LawfulCode ρ] in
lemma length_le (h : ReadsGroup code units stop piece group rest) :
    group.length ≤ GroupCode.size code := by
  obtain hsize | ⟨hsize, -⟩ := h.size
  · exact Nat.le_of_eq hsize
  · exact Nat.le_of_lt hsize

lemma out (h : ReadsGroup code units stop piece group rest) : piece.units ≠ [] ∧
    piece.units.length ≤ GroupCode.growth code * piece.span := by
  rw [h.span]
  exact LawfulCode.close_units _ _ _ _ h.nonempty h.length_le h.accepted h.closed

lemma span_of_more (h : ReadsGroup code units stop piece group rest)
    (hmore : piece.ending = .more) : piece.span = GroupCode.size code := by
  rw [h.span]
  exact LawfulCode.close_more _ _ _ (hmore ▸ h.closed)

lemma stop_of_last (h : ReadsGroup code units stop piece group rest)
    (hlast : piece.ending = .last) : ∃ offset, stop = .ended offset := by
  obtain hsize | ⟨-, -, hstop⟩ := h.size
  · exact absurd hsize (LawfulCode.close_last _ _ _ (hlast ▸ h.closed))
  · exact hstop

end ReadsGroup

/-- The stop after a group that says itself that it is the last: whatever follows is refused. -/
def sealedStop (codec : Codec) (offset : Nat) (stop : Stop) : List α → Stop
  | [] => stop
  | _ :: _ => .rejected codec ⟨.trailingSymbols, offset⟩

variable (code) in
/-- What the groups of some units become, of which the first stands at `offset`. -/
def unroll (offset : Nat) (units : List α) (stop : Stop) : Tape β :=
  match _hread : readGroup code offset units stop with
  | .error refusal => ⟨[], [], .rejected refusal.codec refusal.error⟩
  | .ok none => ⟨[], [], stop⟩
  | .ok (some ⟨span, out, .more⟩) =>
    let next := unroll (offset + span) (units.drop span) stop
    { next with ahead := out ++ next.ahead }
  | .ok (some ⟨_, out, .last⟩) => ⟨[], out, stop⟩
  | .ok (some ⟨span, out, .sealed⟩) =>
    ⟨[], out, sealedStop (LawfulCode.codec code) (offset + span) stop (units.drop span)⟩
  termination_by units.length
  decreasing_by
    obtain ⟨group, rest, hgroup⟩ := readGroup_reads _hread
    have hpos := hgroup.span_pos
    have hle := hgroup.span_le
    simp only [List.length_drop] at hpos hle ⊢
    omega

variable (code) in
/-- What follows a piece that was read in front of some units. -/
def Piece.next (piece : Piece β) (offset : Nat) (units : List α) (stop : Stop) : Tape β :=
  match piece.ending with
  | .more => unroll code (offset + piece.span) (units.drop piece.span) stop
  | .last => ⟨[], [], stop⟩
  | .sealed =>
    ⟨[], [], sealedStop (LawfulCode.codec code) (offset + piece.span) stop (units.drop piece.span)⟩

section Unroll

variable {offset : Nat} {units : List α}

lemma unroll_of_refusal {refusal : Refusal}
    (h : readGroup code offset units stop = .error refusal) :
    unroll code offset units stop = ⟨[], [], .rejected refusal.codec refusal.error⟩ := by
  rw [unroll]
  split <;> simp_all

lemma unroll_of_nothing (h : readGroup code offset units stop = .ok none) :
    unroll code offset units stop = ⟨[], [], stop⟩ := by
  rw [unroll]
  split <;> simp_all

lemma unroll_of_piece {piece : Piece β} (h : readGroup code offset units stop = .ok (some piece)) :
    (unroll code offset units stop).ahead =
        piece.units ++ (piece.next code offset units stop).ahead ∧
      (unroll code offset units stop).stop = (piece.next code offset units stop).stop := by
  obtain ⟨span, out, ending⟩ := piece
  rw [unroll]
  cases ending <;> split <;> simp_all [Piece.next]

lemma unroll_behind : (unroll code offset units stop).behind = [] := by
  fun_induction unroll with
  | case3 _ _ _ _ _ _ ih => exact ih
  | _ => rfl

/-- The bound by which the capacity of a grouped cursor is computed. -/
lemma unroll_length :
    (unroll code offset units stop).ahead.length ≤ GroupCode.growth code * units.length := by
  fun_induction unroll with
  | case1 => simp
  | case2 => simp
  | case3 offset units span out hread next ih =>
    obtain ⟨group, rest, hgroup⟩ := readGroup_reads hread
    have hspan : span ≤ units.length := hgroup.span_le
    have hout : out.length ≤ GroupCode.growth code * span := hgroup.out.2
    rw [List.length_append]
    calc out.length + next.ahead.length
        ≤ GroupCode.growth code * span + GroupCode.growth code * (units.drop span).length :=
          Nat.add_le_add hout ih
      _ = GroupCode.growth code * units.length := by
          rw [← Nat.mul_add, List.length_drop, Nat.add_sub_cancel' hspan]
  | case4 offset units span out hread =>
    obtain ⟨group, rest, hgroup⟩ := readGroup_reads hread
    exact Nat.le_trans hgroup.out.2 (Nat.mul_le_mul_left _ hgroup.span_le)
  | case5 offset units span out hread =>
    obtain ⟨group, rest, hgroup⟩ := readGroup_reads hread
    exact Nat.le_trans hgroup.out.2 (Nat.mul_le_mul_left _ hgroup.span_le)

end Unroll

/-- The complete groups in front of the place `start` become `done`. -/
inductive Reaches (code : ρ) (offset : Nat) (units : List α) (stop : Stop) : Nat → List β → Prop
  | zero : Reaches code offset units stop 0 []
  | step {start span : Nat} {done out : List β} (h : Reaches code offset units stop start done)
    (hread : readGroup code (offset + start) (units.drop start) stop =
      .ok (some ⟨span, out, .more⟩)) :
    Reaches code offset units stop (start + span) (done ++ out)

/-- The groups from a place on follow what the groups in front of it become. -/
lemma Reaches.unroll_eq {offset start : Nat} {units : List α} {done : List β}
    (h : Reaches code offset units stop start done) :
    (unroll code offset units stop).ahead =
        done ++ (unroll code (offset + start) (units.drop start) stop).ahead ∧
      (unroll code offset units stop).stop =
        (unroll code (offset + start) (units.drop start) stop).stop := by
  induction h with
  | zero => simp
  | step h hread ih =>
    obtain ⟨hahead, hstop⟩ := unroll_of_piece hread
    simp only [Piece.next, List.drop_drop, Nat.add_assoc] at hahead hstop
    rw [ih.1, ih.2, hahead, hstop, List.append_assoc]
    exact ⟨rfl, rfl⟩

lemma Reaches.done_of_zero {offset : Nat} {units : List α} {done : List β}
    (h : Reaches code offset units stop 0 done) : done = [] := by
  generalize hstart : 0 = start at h
  cases h with
  | zero => rfl
  | step h hread =>
    obtain ⟨group, rest, hgroup⟩ := readGroup_reads hread
    have hpos := hgroup.span_pos
    simp only at hpos
    omega

lemma Reaches.last {offset start : Nat} {units : List α} {done : List β}
    (h : Reaches code offset units stop start done) (hstart : start ≠ 0) :
    ∃ before piece, start = start - GroupCode.size code + piece.span ∧
      done = before ++ piece.units ∧ piece.units ≠ [] ∧
      Reaches code offset units stop (start - GroupCode.size code) before ∧
      readGroup code (offset + (start - GroupCode.size code))
        (units.drop (start - GroupCode.size code)) stop = .ok (some piece) := by
  cases h with
  | zero => exact absurd rfl hstart
  | @step start span before out h hread =>
    obtain ⟨group, rest, hgroup⟩ := readGroup_reads hread
    have hspan : span = GroupCode.size code := hgroup.span_of_more rfl
    rw [← hspan, Nat.add_sub_cancel]
    exact ⟨before, ⟨span, out, .more⟩, rfl, rfl, hgroup.out.1, h, hread⟩

end Reading

end BaseText.Proofs
