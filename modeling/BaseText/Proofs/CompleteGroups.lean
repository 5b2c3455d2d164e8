import BaseText.Proofs.Unrolling

/-!
# Complete groups and what follows them

Units are complete groups, each of which another group may follow, and a last group of one of three
shapes: it is refused, it is complete but nothing may follow it, or it is too short. Neither the
offset at which the units start nor the way they end has a say in this, so the units of a grouped
cursor in the middle of a source are those of the same groups read on their own.
-/

namespace BaseText.Proofs

variable {ρ α β : Type} [GroupCode ρ α β] {code : ρ} {units group tail : List α} {out : List β}
  {offset : Nat} {stop : Stop}

/-- The units are complete groups that become `out`, and another group may follow them. -/
inductive Complete (code : ρ) : List α → List β → Prop
  | nil : Complete code [] []
  | cons {group units : List α} {out more : List β} (hsize : group.length = GroupCode.size code)
    (haccepted : Accepted code group) (hclose : GroupCode.close code group = .ok (out, .more))
    (h : Complete code units more) : Complete code (group ++ units) (out ++ more)

/-- Units that do not start with a complete group that another one may follow. -/
inductive LastGroup (code : ρ) : List α → Prop
  | refused {seen tail : List α} {u : α} {cause : Cause} (hsize : seen.length < GroupCode.size code)
    (haccepted : Accepted code seen) (hrefuse : GroupCode.refuse? code seen u = some cause) :
    LastGroup code (seen ++ u :: tail)
  | full {group tail : List α} (hsize : group.length = GroupCode.size code)
    (haccepted : Accepted code group)
    (hclose : ∀ out, GroupCode.close code group ≠ .ok (out, .more)) :
    LastGroup code (group ++ tail)
  | short {group : List α} (hsize : group.length < GroupCode.size code)
    (haccepted : Accepted code group) : LastGroup code group

lemma Complete.of_group (hsize : group.length = GroupCode.size code)
    (haccepted : Accepted code group) (hclose : GroupCode.close code group = .ok (out, .more)) :
    Complete code group out := by
  have hgroup := Complete.cons hsize haccepted hclose .nil
  rwa [List.append_nil, List.append_nil] at hgroup

lemma Complete.dvd_length (h : Complete code units out) :
    GroupCode.size code ∣ units.length := by
  induction h with
  | nil => exact Nat.dvd_zero _
  | cons hsize haccepted hclose h ih =>
    rw [List.length_append, hsize]
    exact Nat.dvd_add (Nat.dvd_refl _) ih

variable [LawfulCode ρ]

lemma readAhead_of_group (haccepted : Accepted code group) (stop : Stop) (offset left : Nat)
    (rest : List α) :
    readAhead code stop offset [] (group.length + left) (group ++ rest) =
      (group ++ ·) <$> readAhead code stop (offset + group.length) group left rest :=
  readAhead_append fun i u tail hi => haccepted i u tail hi

/-- Behind units that are too few, one more unit at least is asked for. -/
lemma readAhead_of_short (hsize : group.length < GroupCode.size code)
    (haccepted : Accepted code group) :
    ∃ left, ∀ (stop : Stop) offset rest,
      readAhead code stop offset [] (GroupCode.size code) (group ++ rest) =
        (group ++ ·) <$> readAhead code stop (offset + group.length) group (left + 1) rest := by
  obtain ⟨left, hleft⟩ : ∃ left, GroupCode.size code = group.length + (left + 1) :=
    ⟨GroupCode.size code - group.length - 1, by omega⟩
  refine ⟨left, fun stop offset rest => ?_⟩
  rw [hleft]
  exact readAhead_of_group haccepted stop offset (left + 1) rest

/-- A refusal is due to one of the next units, and to those in front of it. -/
lemma exists_of_refusal {o left : Nat} {seen : List α} {refusal : Refusal}
    (h : readAhead code (.ended o) offset seen left units = .error refusal) :
    ∃ more u tail cause, units = more ++ u :: tail ∧ more.length < left ∧
      (∀ i v rest, more = i ++ v :: rest → GroupCode.refuse? code (seen ++ i) v = none) ∧
      GroupCode.refuse? code (seen ++ more) u = some cause := by
  induction left generalizing offset seen units refusal with
  | zero => cases h
  | succ left ih =>
    cases units with
    | nil => cases h
    | cons u rest =>
      cases hrefuse : GroupCode.refuse? code seen u with
      | some cause =>
        exact ⟨[], u, rest, cause, rfl, Nat.succ_pos left, fun i v rest hi => by simp at hi,
          by rwa [List.append_nil]⟩
      | none =>
        rw [readAhead_of_accepted hrefuse] at h
        cases hread : readAhead code (.ended o) (offset + 1) (seen ++ [u]) left rest with
        | ok more => rw [hread] at h; cases h
        | error refusal' =>
          obtain ⟨more, v, tail, cause, rfl, hlength, haccepted, hcause⟩ := ih hread
          refine ⟨u :: more, v, tail, cause, rfl, Nat.succ_lt_succ hlength, ?_, ?_⟩
          · rintro (_ | ⟨w, i⟩) w' rest hi
            · obtain ⟨rfl, -⟩ := List.cons.inj hi
              rwa [List.append_nil]
            · obtain ⟨rfl, htail⟩ := List.cons.inj hi
              have hw := haccepted i w' rest htail
              rwa [List.append_assoc] at hw
          · rwa [List.append_assoc] at hcause

/-- All units start with as many complete groups as there are. -/
theorem exists_complete (code : ρ) (units : List α) :
    ∃ front rest out, units = front ++ rest ∧ Complete code front out ∧ LastGroup code rest := by
  induction hn : units.length using Nat.strongRecOn generalizing units with
  | ind n ih =>
    subst hn
    -- Any offset and any plain end will do: neither has a say in what is accepted.
    cases hread : readAhead code (.ended 0) 0 [] (GroupCode.size code) units with
    | error refusal =>
      obtain ⟨seen, u, tail, cause, rfl, hsize, haccepted, hrefuse⟩ := exists_of_refusal hread
      exact ⟨[], _, [], rfl, .nil, .refused hsize haccepted hrefuse⟩
    | ok group =>
      obtain ⟨haccepted, tail, rfl, hsize⟩ := readAhead_reads hread
      obtain hsize | ⟨hsize, rfl, -⟩ := hsize
      · by_cases hclose : ∃ out, GroupCode.close code group = .ok (out, .more)
        · obtain ⟨out, hclose⟩ := hclose
          have hpos := LawfulCode.size_pos code
          obtain ⟨front, rest, more, rfl, hcomplete, hlast⟩ := ih tail.length
            (by rw [List.length_append]; omega) tail rfl
          exact ⟨group ++ front, rest, out ++ more, (List.append_assoc ..).symm,
            .cons hsize haccepted hclose hcomplete, hlast⟩
        · exact ⟨[], group ++ tail, [], rfl, .nil,
            .full hsize haccepted fun out h => hclose ⟨out, h⟩⟩
      · rw [List.append_nil]
        exact ⟨[], group, [], rfl, .nil, .short hsize haccepted⟩

lemma readGroup_of_read (hread : readAhead code stop offset [] (GroupCode.size code) units =
      .ok group) (hgroup : group ≠ []) :
    readGroup code offset units stop =
      match GroupCode.close code group with
      | .error cause => .error ⟨LawfulCode.codec code, ⟨cause, offset + group.length⟩⟩
      | .ok (out, ending) => .ok (some ⟨group.length, out, ending⟩) := by
  obtain ⟨u, more, rfl⟩ := List.exists_cons_of_ne_nil hgroup
  cases hclose : GroupCode.close code (u :: more) <;> simp only [readGroup, hread, hclose]

lemma readGroup_of_full (hsize : group.length = GroupCode.size code)
    (haccepted : Accepted code group) :
    readGroup code offset (group ++ tail) stop =
      match GroupCode.close code group with
      | .error cause => .error ⟨LawfulCode.codec code, ⟨cause, offset + group.length⟩⟩
      | .ok (out, ending) => .ok (some ⟨group.length, out, ending⟩) := by
  have hpos := LawfulCode.size_pos code
  refine readGroup_of_read ?_ (List.ne_nil_of_length_pos (by omega))
  have hread := readAhead_of_group haccepted stop offset 0 tail
  rw [hsize, Nat.add_zero] at hread
  rw [hread, readAhead]
  exact congrArg Except.ok (List.append_nil group)

lemma unroll_eq_of_piece {piece : Piece β}
    (h : readGroup code offset units stop = .ok (some piece)) :
    unroll code offset units stop =
      ⟨[], piece.units ++ (piece.next code offset units stop).ahead,
        (piece.next code offset units stop).stop⟩ := by
  obtain ⟨hahead, hstop⟩ := unroll_of_piece h
  have hbehind : (unroll code offset units stop : Tape β).behind = [] := unroll_behind
  rw [← hbehind, ← hahead, ← hstop]

/-- Complete groups come in front of what the rest becomes, wherever they stand. -/
lemma Complete.unroll_eq (h : Complete code units out) (offset : Nat) (rest : List α)
    (stop : Stop) :
    unroll code offset (units ++ rest) stop =
      ⟨[], out ++ (unroll code (offset + units.length) rest stop).ahead,
        (unroll code (offset + units.length) rest stop).stop⟩ := by
  induction h generalizing offset with
  | nil =>
    have hbehind : (unroll code offset rest stop : Tape β).behind = [] := unroll_behind
    rw [List.nil_append, List.nil_append, List.length_nil, Nat.add_zero, ← hbehind]
  | @cons group units out more hsize haccepted hclose h ih =>
    have hread : readGroup code offset (group ++ (units ++ rest)) stop =
        .ok (some ⟨group.length, out, .more⟩) := by
      rw [readGroup_of_full hsize haccepted, hclose]
    rw [List.append_assoc, unroll_eq_of_piece hread]
    simp only [Piece.next, List.drop_left]
    rw [ih, List.append_assoc, List.length_append, Nat.add_assoc]

lemma unroll_of_refused {seen : List α} {u : α} {cause : Cause}
    (hsize : seen.length < GroupCode.size code) (haccepted : Accepted code seen)
    (hrefuse : GroupCode.refuse? code seen u = some cause) :
    unroll code offset (seen ++ u :: tail) stop =
      ⟨[], [], .rejected (LawfulCode.codec code) ⟨cause, offset + seen.length⟩⟩ := by
  obtain ⟨left, hread⟩ := readAhead_of_short hsize haccepted
  have hgroup : readGroup code offset (seen ++ u :: tail) stop =
      .error ⟨LawfulCode.codec code, ⟨cause, offset + seen.length⟩⟩ := by
    rw [readGroup, hread, readAhead_of_refused hrefuse]
    rfl
  exact unroll_of_refusal hgroup

lemma unroll_of_sealed (hsize : group.length = GroupCode.size code)
    (haccepted : Accepted code group) (hclose : GroupCode.close code group = .ok (out, .sealed)) :
    unroll code offset (group ++ tail) stop =
      ⟨[], out, sealedStop (LawfulCode.codec code) (offset + group.length) stop tail⟩ := by
  have hread : readGroup code offset (group ++ tail) stop =
      .ok (some ⟨group.length, out, .sealed⟩) := by
    rw [readGroup_of_full hsize haccepted, hclose]
  rw [unroll_eq_of_piece hread]
  simp only [Piece.next, List.drop_left, List.append_nil]

lemma unroll_of_short_rejected {codec : Codec} {e : CodingError}
    (hsize : group.length < GroupCode.size code) (haccepted : Accepted code group) :
    unroll code offset group (.rejected codec e) = ⟨[], [], .rejected codec e⟩ := by
  obtain ⟨left, hread⟩ := readAhead_of_short hsize haccepted
  have hgroup : readGroup code offset (group ++ []) (.rejected codec e) = .error ⟨codec, e⟩ := by
    rw [readGroup, hread]
    rfl
  rw [List.append_nil] at hgroup
  exact unroll_of_refusal hgroup

/-- What units become that are too few and plainly end. -/
def shortTape (code : ρ) (offset o : Nat) (group : List α) : Tape β :=
  match group with
  | [] => ⟨[], [], .ended o⟩
  | u :: more =>
    match GroupCode.close code (u :: more) with
    | .error cause =>
      ⟨[], [], .rejected (LawfulCode.codec code) ⟨cause, offset + (u :: more).length⟩⟩
    | .ok (out, _) => ⟨[], out, .ended o⟩

lemma shortTape_of_error {o : Nat} {cause : Cause} (hgroup : group ≠ [])
    (hclose : GroupCode.close code group = .error cause) :
    shortTape code offset o group =
      (⟨[], [], .rejected (LawfulCode.codec code) ⟨cause, offset + group.length⟩⟩ : Tape β) := by
  obtain ⟨u, more, rfl⟩ := List.exists_cons_of_ne_nil hgroup
  rw [shortTape, hclose]

lemma shortTape_of_ok {o : Nat} {ending : Ending} (hgroup : group ≠ [])
    (hclose : GroupCode.close code group = .ok (out, ending)) :
    shortTape code offset o group = ⟨[], out, .ended o⟩ := by
  obtain ⟨u, more, rfl⟩ := List.exists_cons_of_ne_nil hgroup
  rw [shortTape, hclose]

/-- Units that are too few are refused at their end, if at all. -/
lemma offset_of_shortTape {o : Nat} {codec : Codec} {e : CodingError}
    (h : (shortTape code offset o group : Tape β).stop = .rejected codec e) :
    e.offset = offset + group.length := by
  cases group with
  | nil => cases h
  | cons u more =>
    rw [shortTape] at h
    cases hclose : GroupCode.close code (u :: more) with
    | error cause =>
      rw [hclose] at h
      obtain ⟨-, rfl⟩ := Stop.rejected.inj h
      rfl
    | ok closed =>
      rw [hclose] at h
      cases h

lemma unroll_of_short_ended {o : Nat} (hsize : group.length < GroupCode.size code)
    (haccepted : Accepted code group) :
    unroll code offset group (.ended o) = shortTape code offset o group := by
  obtain ⟨left, hshort⟩ := readAhead_of_short hsize haccepted
  have hread : readAhead code (.ended o) offset [] (GroupCode.size code) (group ++ []) =
      .ok (group ++ []) := hshort (.ended o) offset []
  rw [List.append_nil] at hread
  cases group with
  | nil =>
    have hgroup : (readGroup code offset [] (.ended o) : Except Refusal (Option (Piece β))) =
        .ok none := by rw [readGroup, hread]
    exact unroll_of_nothing hgroup
  | cons u more =>
    have hgroup := readGroup_of_read hread (List.cons_ne_nil u more)
    rw [shortTape]
    cases hclose : GroupCode.close code (u :: more) with
    | error cause =>
      rw [hclose] at hgroup
      exact unroll_of_refusal hgroup
    | ok closed =>
      obtain ⟨out, ending⟩ := closed
      rw [hclose] at hgroup
      have hnext : Piece.next code (⟨(u :: more).length, out, ending⟩ : Piece β) offset (u :: more)
          (.ended o) = ⟨[], [], .ended o⟩ := by
        cases ending with
        | more => exact absurd (LawfulCode.close_more _ _ _ hclose) (Nat.ne_of_lt hsize)
        | last => rfl
        | «sealed» => rw [Piece.next, List.drop_length]; rfl
      rw [unroll_eq_of_piece hgroup, hnext]
      exact congrArg (Tape.mk [] · (.ended o)) (List.append_nil out)

lemma unroll_nil (code : ρ) (offset : Nat) (stop : Stop) :
    unroll code offset [] stop = ⟨[], [], stop⟩ := by
  have hsize := LawfulCode.size_pos code
  have haccepted : Accepted code ([] : List α) := fun i u rest hi => by simp at hi
  cases stop with
  | ended o => exact unroll_of_short_ended hsize haccepted
  | rejected codec e => exact unroll_of_short_rejected hsize haccepted

lemma Complete.unroll_alone (h : Complete code units out) (offset : Nat) (stop : Stop) :
    unroll code offset units stop = ⟨[], out, stop⟩ := by
  have hunroll := h.unroll_eq offset [] stop
  rwa [List.append_nil, unroll_nil, List.append_nil] at hunroll

end BaseText.Proofs
