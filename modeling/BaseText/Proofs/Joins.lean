import BaseText.Proofs.Calls
import BaseText.Proofs.Indistinct
import BaseText.Proofs.Places

/-!
# Joins

A chain answers as one list would: the units of its members in order, up to the first member that
rejects what follows. Every member is moved along its own units ahead only. Those in front of the
one that is read are drained, those after it are where they were put into the chain, and what they
all have moved is the index of the chain.
-/

namespace BaseText.Proofs

section Parts

variable {α : Type}

/-- The units of the parts one after the other, up to the first part that ends with a rejection, and
how they end. -/
def joined : List (List α × Stop) → List α × Stop
  | [] => ([], .ended 0)
  | (units, .ended _) :: rest => (units ++ (joined rest).1, (joined rest).2)
  | (units, .rejected codec e) :: _ => (units, .rejected codec e)

/-- The tape has the units of the part ahead, and they end alike. -/
structure IsPart (t : Tape α) (part : List α × Stop) : Prop where
  ahead : t.ahead = part.1
  more : t.stop.more = part.2.more

lemma followedBy_joined {t : Tape α} {part : List α × Stop} (h : IsPart t part)
    {rest : List (Tape α)} {parts : List (List α × Stop)}
    (hrest : List.Forall₂ IsPart rest parts) :
    IsPart (t.followedBy rest) (joined (part :: parts)) := by
  induction hrest generalizing t part with
  | nil =>
    obtain ⟨units, stop⟩ := part
    obtain ⟨behind, ahead, stop'⟩ := t
    obtain ⟨rfl, hmore⟩ := h
    cases stop' <;> cases stop <;> cases hmore
    · exact ⟨(List.append_nil _).symm, rfl⟩
    · exact ⟨rfl, rfl⟩
  | cons hnext hrest ih =>
    obtain ⟨units, stop⟩ := part
    obtain ⟨behind, ahead, stop'⟩ := t
    obtain ⟨rfl, hmore⟩ := h
    cases stop' <;> cases stop <;> cases hmore
    · exact ⟨congrArg (_ ++ ·) (ih hnext).ahead, (ih hnext).more⟩
    · exact ⟨rfl, rfl⟩

lemma rowOf_joined {tapes : List (Tape α)} {parts : List (List α × Stop)}
    (h : List.Forall₂ IsPart tapes parts) : IsPart (rowOf tapes) (joined parts) := by
  cases h with
  | nil => exact ⟨rfl, rfl⟩
  | @cons t part rest parts hfirst hrest =>
    have hfresh : List.Forall₂ IsPart (rest.map Tape.fresh) parts :=
      List.forall₂_map_left_iff.2 (hrest.imp fun _ _ hpart => ⟨hpart.ahead, hpart.more⟩)
    have hrow := followedBy_joined (t := t.fresh) ⟨hfirst.ahead, hfirst.more⟩ hfresh
    exact ⟨hrow.ahead, (Stop.more_atOffset _ _).trans hrow.more⟩

lemma rowOf_counted (tapes : List (Tape α)) :
    rowOf tapes =
      Tape.counted { ahead := (rowOf tapes).ahead, stop := (rowOf tapes).stop } := by
  cases tapes with
  | nil => rfl
  | cons t rest =>
    simp only [rowOf, chainTape, Tape.counted, Tape.fresh, List.map_nil, List.flatten_nil,
      List.append_nil, List.length_nil, Nat.zero_add]
    cases (Tape.followedBy _ _).stop <;> rfl

end Parts

section Members

variable {σ α β : Type} [Cursor σ α]

/-- Of every member holds what is asked of it. -/
structure Each (asked : List (Anchored σ → Prop)) (s : Chained σ) : Prop where
  size : s.members.size = asked.length
  holds : ∀ (i : Nat) (P : Anchored σ → Prop) (a : Anchored σ),
    asked[i]? = some P → s.members[i]? = some a → P a

variable {asked : List (Anchored σ → Prop)} {s : Chained σ}

omit [Cursor σ α] in
lemma Each.set (h : Each asked s) {member : Anchored σ} {i : Nat}
    (hmember : ∀ P, asked[i]? = some P → P member) :
    Each asked { s with members := s.members.setIfInBounds i member } := by
  refine ⟨by simpa using h.size, fun j P a hP ha => ?_⟩
  rw [Array.getElem?_setIfInBounds] at ha
  split at ha
  · next hj =>
    split at ha
    · cases ha
      exact hmember P (hj ▸ hP)
    · cases ha
  · exact h.holds j P a hP ha

omit [Cursor σ α] in
lemma Each.count (h : Each asked s) (current index : Nat) :
    Each asked { s with current, index } :=
  ⟨h.size, h.holds⟩

omit [Cursor σ α] in
lemma Keeps.insideChained {act : Action (Anchored σ) β} (h : ∀ P ∈ asked, Keeps P act) :
    Keeps (Each asked) (Chained.inside act) := by
  refine Keeps.here fun s hs => ?_
  cases hmember : s.members[s.current]? with
  | none => exact hs
  | some member =>
    exact hs.set fun P hP => h P (List.mem_of_getElem? hP) _ (hs.holds _ _ _ hP hmember)

variable (hasked : ∀ P ∈ asked, CallsKeep P)

include hasked

lemma keeps_settleAheadFrom (left : Nat) :
    Keeps (Each asked) (Chained.settleAheadFrom left) := by
  induction left with
  | zero => exact fun _ hs => hs
  | succ left ih =>
    refine (Keeps.insideChained fun P hP => (hasked P hP).hasNext).bind fun more => ?_
    split
    · exact fun _ hs => hs
    · split
      · exact fun _ hs => hs
      · exact Keeps.bind (fun _ hs => hs.count _ _) fun _ => ih

lemma keeps_chainAhead {act : Action (Anchored σ) β} (hact : ∀ P ∈ asked, Keeps P act) :
    Keeps (Each asked) (Chained.insideAhead act) := by
  refine Keeps.bind (Keeps.here fun s hs => keeps_settleAheadFrom hasked _ s hs) fun more => ?_
  split
  · exact .insideChained hact
  · exact fun _ hs => hs

omit hasked [Cursor σ α] in
lemma keeps_chainBack {act : Action (Anchored σ) β} (hact : ∀ P ∈ asked, Keeps P act) :
    Keeps (Each asked) (Chained.insideBack act) := by
  refine Keeps.bind (fun _ hs => hs.count _ _) fun any => ?_
  split
  · exact .insideChained hact
  · exact fun _ hs => hs

/-- A chain asks nothing of its members but what any cursor may be asked. -/
theorem callsKeep_each : CallsKeep (Each asked) where
  hasNext := Keeps.here fun s hs => keeps_settleAheadFrom hasked _ s hs
  hasPrevious _ hs := hs.count _ _
  peekNext := keeps_chainAhead hasked fun P hP => (hasked P hP).peekNext
  peekPrevious := keeps_chainBack fun P hP => (hasked P hP).peekPrevious
  next := (keeps_chainAhead hasked fun P hP => (hasked P hP).next).bind fun _ =>
    Keeps.bind (fun _ hs => hs.count _ _) fun _ _ hs => hs
  previous := (keeps_chainBack fun P hP => (hasked P hP).previous).bind fun _ =>
    Keeps.bind (fun _ hs => hs.count _ _) fun _ _ hs => hs

end Members

section Moved

variable {σ α : Type} {R : Anchored σ → Tape α → Prop} {s : Chained σ} {t : Tape α}
  {drained rest : List (Member R)} {m : Member R} {a : Anchored σ} {i : Nat}

lemma ChainAt.exists_drained (h : ChainAt R s drained m rest) (ha : s.members[i]? = some a)
    (hi : i < s.current) : ∃ d ∈ drained, d.cursor = a := by
  rw [← Array.getElem?_toList, h.members, List.getElem?_map,
    List.getElem?_append_left (by simpa [h.current] using hi)] at ha
  obtain ⟨d, hd, rfl⟩ := Option.map_eq_some_iff.1 ha
  exact ⟨d, List.mem_reverse.1 (List.mem_of_getElem? hd), rfl⟩

lemma ChainAt.exists_untouched (h : ChainAt R s drained m rest) (ha : s.members[i]? = some a)
    (hi : s.current < i) : ∃ f ∈ rest, f.cursor = a := by
  obtain ⟨j, rfl⟩ : ∃ j, i = drained.length + (j + 1) :=
    ⟨i - drained.length - 1, by have := h.current; omega⟩
  rw [← Array.getElem?_toList, h.members, List.getElem?_map,
    List.getElem?_append_right (by simp), List.length_reverse, Nat.add_sub_cancel_left,
    List.getElem?_cons_succ] at ha
  obtain ⟨f, hf, rfl⟩ := Option.map_eq_some_iff.1 ha
  exact ⟨f, List.mem_of_getElem? hf, rfl⟩

variable [Cursor σ α]

/-- The index of a chain is what all its members have moved. -/
lemma ChainOf.index_eq_sum (hR : Simulation R) (h : ChainOf R s t) :
    s.index = (s.members.toList.map Anchored.index).sum := by
  have hindex : ∀ m : Member R, m.cursor.index = m.tape.behind.length :=
    fun m => hR.index m.shows
  obtain ⟨hi, ⟨⟨hnone, -⟩, rfl⟩ | ⟨drained, m, rest, hat, rfl, -⟩⟩ := h
  · rw [hi, hnone]
    rfl
  · have huntouched : (rest.map (·.cursor.index)).sum = 0 := by
      refine List.sum_eq_zero fun i hi => ?_
      obtain ⟨f, hf, rfl⟩ := List.mem_map.1 hi
      rw [hindex, hat.untouched f hf]
      rfl
    have hdrained : ((drained.map (·.tape.behind)).flatten).length =
        (drained.map (·.cursor.index)).sum := by
      rw [List.length_flatten, List.map_map]
      congr 1
      exact List.map_congr_left fun d _ => (hindex d).symm
    rw [hi, hat.members]
    simp only [rowTape, chainTape, List.length_append, List.map_map, Function.comp_def,
      List.map_append, List.map_cons, List.map_reverse, List.sum_append, List.sum_cons,
      List.sum_reverse] at hdrained ⊢
    rw [hdrained, huntouched, hindex m]
    omega

lemma ChainOf.hasNext_of_lt (hR : Simulation R) (h : ChainOf R s t) (ha : s.members[i]? = some a)
    (hi : i < s.current) : (Cursor.hasNext a).result = .ok false := by
  obtain ⟨-, ⟨⟨hnone, -⟩, -⟩ | ⟨drained, m, rest, hat, -, -⟩⟩ := h
  · rw [hnone] at ha
    cases ha
  · obtain ⟨d, hd, rfl⟩ := hat.exists_drained ha hi
    obtain ⟨hahead, offset, hstop⟩ := hat.drained d hd
    rw [(hR.hasNext d.shows).result, Tape.more, hahead, hstop]
    rfl

lemma ChainOf.index_of_gt (hR : Simulation R) (h : ChainOf R s t) (ha : s.members[i]? = some a)
    (hi : s.current < i) : a.index = 0 := by
  obtain ⟨-, ⟨⟨hnone, -⟩, -⟩ | ⟨drained, m, rest, hat, -, -⟩⟩ := h
  · rw [hnone] at ha
    cases ha
  · obtain ⟨f, hf, rfl⟩ := hat.exists_untouched ha hi
    have hindex : f.cursor.index = f.tape.behind.length := hR.index f.shows
    rw [hindex, hat.untouched f hf]
    rfl

end Moved

section Anchors

variable {σ α : Type} [Cursor σ α] [Viewed σ α]

/-- The cursor under the anchor stands on the tape `start`, and was put under it there. -/
def Anchor (start : Tape α) (a : Anchored σ) : Prop :=
  ∃ t, StandsOn (Along start) start.behind.length a t

lemma callsKeep_anchor (start : Tape α) : CallsKeep (Anchor (σ := σ) start) :=
  (anchored_simulation start).callsKeep

lemma each_start (members : List (Member (σ := σ) (α := α) Shows)) :
    Each ((members.map Member.tape).map Anchor)
      (Chained.ofCursors (members.map Member.cursor)) := by
  refine ⟨by simp [Chained.ofCursors], fun i P a hP ha => ?_⟩
  simp only [Chained.ofCursors, List.getElem?_toArray, List.getElem?_map, Option.map_map,
    Option.map_eq_some_iff] at hP ha
  obtain ⟨m, hm, rfl⟩ := hP
  obtain ⟨m', hm', rfl⟩ := ha
  obtain rfl : m = m' := Option.some.inj (hm.symm.trans hm')
  exact ⟨m.tape.fresh, standsOn_start m.shows⟩

end Anchors

variable {k : Kind}

/-- Where the members of a chain stand when its index is `index` and it reads member `current`. -/
structure Standing (members standing : List (AnyStack k)) (current index : Nat) : Prop where
  length : standing.length = members.length
  /-- Each of them has moved along its units ahead, or not at all. -/
  steps : ∀ (i : Nat) m m', members[i]? = some m → standing[i]? = some m' →
    StepsAhead m (Cursor.index m' - Cursor.index m) m'
  index : index = (List.zipWith (fun m m' => Cursor.index m' - Cursor.index m)
    members standing).sum
  drained : ∀ (i : Nat) m', standing[i]? = some m' → i < current →
    (Cursor.hasNext m').result = .ok false
  untouched : ∀ (i : Nat) m m', members[i]? = some m → standing[i]? = some m' → current < i →
    Cursor.index m' = Cursor.index m

/-- The members of a chain as stacks of their own. -/
def memberStacks {n : Nat} (c : Chained (Stack n k)) : List (AnyStack k) :=
  c.members.toList.map fun a => ⟨n, a.inner⟩

section Standing

variable {n : Nat} {c : Chained (Stack n k)}
  {members : List (Member (σ := AnyStack k) (α := k.Carrier) Shows)}

lemma Each.stepsAhead (h : Each ((members.map Member.tape).map Anchor) c) {i : Nat}
    {m : Member (σ := AnyStack k) (α := k.Carrier) Shows} {a : Anchored (Stack n k)}
    (hm : members[i]? = some m) (ha : c.members[i]? = some a) :
    StepsAhead m.cursor a.index ⟨n, a.inner⟩ := by
  obtain ⟨t, ht⟩ := h.holds i (Anchor m.tape) a (by simp [hm]) ha
  exact ht.stepsAhead m.shows

lemma getElem?_memberStacks {i : Nat} {m' : AnyStack k} (h : (memberStacks c)[i]? = some m') :
    ∃ a, c.members[i]? = some a ∧ m' = ⟨n, a.inner⟩ := by
  rw [memberStacks, List.getElem?_map, Array.getElem?_toList] at h
  obtain ⟨a, ha, rfl⟩ := Option.map_eq_some_iff.1 h
  exact ⟨a, ha, rfl⟩

lemma Each.moved (h : Each ((members.map Member.tape).map Anchor) c) {i : Nat} {m m' : AnyStack k}
    (hm : (members.map Member.cursor)[i]? = some m) (hm' : (memberStacks c)[i]? = some m') :
    ∃ a, c.members[i]? = some a ∧ m' = ⟨n, a.inner⟩ ∧ StepsAhead m a.index m' := by
  obtain ⟨a, ha, rfl⟩ := getElem?_memberStacks hm'
  rw [List.getElem?_map] at hm
  obtain ⟨x, hx, rfl⟩ := Option.map_eq_some_iff.1 hm
  exact ⟨a, ha, rfl, h.stepsAhead hx ha⟩

lemma standing_of_each (h : Each ((members.map Member.tape).map Anchor) c)
    {t : Tape k.Carrier} (hc : ChainOf Shows c t) :
    Standing (members.map Member.cursor) (memberStacks c) c.current c.index := by
  have hlength : (memberStacks c).length = (members.map Member.cursor).length := by
    simpa [memberStacks] using h.size
  refine ⟨hlength, fun i m m' hm hm' => ?_, ?_, fun i m' hm' hi => ?_, fun i m m' hm hm' hi => ?_⟩
  · obtain ⟨a, -, -, hsteps⟩ := h.moved hm hm'
    rwa [hsteps.index, Nat.add_sub_cancel_left]
  · have hmoved : List.zipWith (fun m m' => Cursor.index m' - Cursor.index m)
        (members.map Member.cursor) (memberStacks c) = c.members.toList.map Anchored.index := by
      refine List.ext_getElem ?_ fun i hi hi' => ?_
      · rw [List.length_zipWith, ← hlength, Nat.min_self, memberStacks, List.length_map,
          List.length_map]
      · rw [List.length_zipWith, Nat.lt_min] at hi
        obtain ⟨a, ha, -, hsteps⟩ := h.moved (List.getElem?_eq_getElem hi.1)
          (List.getElem?_eq_getElem hi.2)
        rw [← Array.getElem?_toList] at ha
        obtain ⟨_, rfl⟩ := List.getElem?_eq_some_iff.1 ha
        rw [List.getElem_zipWith, hsteps.index, Nat.add_sub_cancel_left, List.getElem_map]
    rw [hc.index_eq_sum simulation, hmoved]
  · obtain ⟨a, ha, rfl⟩ := getElem?_memberStacks hm'
    exact hc.hasNext_of_lt simulation ha hi
  · obtain ⟨a, ha, rfl, hsteps⟩ := h.moved hm hm'
    rw [hsteps.index, hc.index_of_gt simulation ha hi, Nat.add_zero]

end Standing

/-- Each member gives the units of its part, and then tells how they end. -/
def GiveParts (members : List (AnyStack k)) (parts : List (List k.Carrier × Stop)) : Prop :=
  List.Forall₂ (fun m part => Gives m part.1 part.2) members parts

/-- The chain answers as the list of all units in the parts would, and its members stand where they
would if the units had been taken from them one after the other. -/
structure ChainView (members : List (AnyStack k)) (parts : List (List k.Carrier × Stop)) :
    Prop where
  answers : ∀ calls, answers calls (AnyStack.chain members) =
    answers calls (Tape.counted { ahead := (joined parts).1, stop := (joined parts).2 })
  standing : ∀ calls, ∃ standing current,
    (∀ i, (after calls (AnyStack.chain members)).inner? i = standing[i]?.map (⟨k, ·⟩)) ∧
      (after calls (AnyStack.chain members)).current? = some current ∧
        Standing members standing current (Cursor.index (after calls (AnyStack.chain members)))
  /-- No codec over the chain tells where it is cut. -/
  codec : ∀ {uncut : AnyStack k}, Reachable uncut → Cursor.index uncut = 0 →
    Gives uncut (joined parts).1 (joined parts).2 →
      ∀ {k' k'' : Kind} (codec : Cover k k'), codec.isCodec → ∀ session : Session k' k'',
        session.answers (codec.over (AnyStack.chain members)) =
          session.answers (codec.over uncut)

lemma chain_standing (members : List (Member (σ := AnyStack k) (α := k.Carrier) Shows))
    (calls : List Call) : ∃ standing current,
      (∀ i, (after calls (AnyStack.chain (members.map Member.cursor))).inner? i =
        standing[i]?.map (⟨k, ·⟩)) ∧
      (after calls (AnyStack.chain (members.map Member.cursor))).current? = some current ∧
      Standing (members.map Member.cursor) standing current
        (Cursor.index (after calls (AnyStack.chain (members.map Member.cursor)))) := by
  let c := Chained.ofCursors ((chainMembers members).map Member.cursor)
  have hchain : AnyStack.chain (members.map Member.cursor) = ⟨_ + 1, Layer.chained c⟩ := by
    rw [AnyStack.chain, ← chainMembers_cursor]
  -- What the chain shows does not tell where its members were put in, so that is kept apart.
  have heach : Each ((members.map Member.tape).map Anchor) (after calls c) := by
    have hstart := each_start (chainMembers members)
    rw [chainMembers_tape] at hstart
    refine (callsKeep_each fun P hP => ?_).after hstart calls
    obtain ⟨start, -, rfl⟩ := List.mem_map.1 hP
    exact callsKeep_anchor start
  have hc : ChainOf Shows (after calls c) _ :=
    after_shows (chain_simulation simulation) (chain_shows (chainMembers members)) calls
  rw [hchain, (wraps_chained _).after]
  refine ⟨memberStacks (after calls c), (after calls c).current, fun i => ?_, rfl,
    standing_of_each heach hc⟩
  rw [memberStacks, List.getElem?_map, Array.getElem?_toList, Option.map_map]
  rfl

lemma parts_of_gives {parts : List (List k.Carrier × Stop)}
    {members : List (Member (σ := AnyStack k) (α := k.Carrier) Shows)}
    (h : GiveParts (members.map Member.cursor) parts) :
    List.Forall₂ IsPart (members.map Member.tape) parts := by
  rw [GiveParts, List.forall₂_map_left_iff] at h
  rw [List.forall₂_map_left_iff]
  exact h.imp fun m part hgives =>
    ⟨(hgives.tape_eq m.shows).1, (hgives.tape_eq m.shows).2⟩

/-- A chain shows the units of its members in order, whatever has been taken from them before and
wherever one of them is empty or rejects what follows. Through a codec it cannot be told from a
stack that has all these units itself. -/
theorem chain_view (members : List (AnyStack k)) (h : ∀ m ∈ members, Reachable m) :
    (∃ parts, GiveParts members parts) ∧
      ∀ parts, GiveParts members parts → ChainView members parts := by
  obtain ⟨shown, rfl⟩ := exists_members fun m hm => reachable_shows (h m hm)
  refine ⟨⟨shown.map fun m => (m.tape.ahead, m.tape.stop), ?_⟩, fun parts hparts => ?_⟩
  · rw [GiveParts, List.forall₂_map_left_iff, List.forall₂_map_right_iff, List.forall₂_same]
    exact fun m _ => Gives.of_shows m.shows
  · have hrow := rowOf_joined (parts_of_gives hparts)
    have hshows := shows_chain shown
    have hgives := (Gives.of_shows hshows).of_more hrow.more
    rw [hrow.ahead] at hgives
    refine ⟨fun calls => ?_, chain_standing shown,
      fun huncut hindex huncutGives _ _ _ hcodec session => ?_⟩
    · rw [answers_eq simulation hshows, rowOf_counted, hrow.ahead]
      exact answers_stop hrow.more _ calls
    · exact codec_session (.chain _ h) huncut hindex.symm hgives huncutGives hcodec session

/-- A text in three pieces, the first of which is past a character that is not meant and the second
of which is empty. -/
def pieces : List (AnyStack .char) :=
  [(Call.next.ask (AnyStack.ofSource (k := .char) (.sequence (.ofList ['>', 'Z'])))).cursor,
    .ofSource (.buffer (.ofList [])), .ofSource (.sequence (.ofList ['m', '8', '=']))]

/-- Decoders do not tell the pieces. -/
theorem chain_view_pieces :
    GiveParts pieces [(['Z'], .ended 2), ([], .ended 0), (['m', '8', '='], .ended 3)] ∧
      ChainView pieces [(['Z'], .ended 2), ([], .ended 0), (['m', '8', '='], .ended 3)] ∧
      ∀ (d : Decoding) {k : Kind} (session : Session .byte k),
        session.answers ((AnyStack.chain pieces).decode d) =
          session.answers ((AnyStack.ofSource (.text (.ofString "Zm8="))).decode d) := by
  have hgive : GiveParts pieces [(['Z'], .ended 2), ([], .ended 0), (['m', '8', '='], .ended 3)] :=
    .cons rfl (.cons rfl (.cons rfl .nil))
  have hreach : ∀ m ∈ pieces, Reachable m := by
    intro m hm
    obtain rfl | rfl | rfl : m = _ ∨ m = _ ∨ m = _ := by simpa [pieces] using hm
    · exact .call (.slice (k := .char) _) .next
    · exact .buffer _
    · exact .slice (k := .char) _
  have hview := (chain_view pieces hreach).2 _ hgive
  exact ⟨hgive, hview, fun d _ session =>
    hview.codec (.text "Zm8=") rfl ((text_gives "Zm8=").of_more rfl) (.decode d) rfl session⟩

end BaseText.Proofs
