import BaseText.Proofs.Safety

/-!
# What holds of the fields of a stack

Layers keep counts and places that have to agree with each other and with what they are counts and
places of. They do in every state that can be reached, in every layer and in every member of a
chain, and there every call stays in range.
-/

namespace BaseText.Proofs

/-- A cursor over groups of `size` units, which become `full` units if they are complete and not
more than `capacity` in any case. -/
structure GroupFits {ρ σ β : Type} (size full capacity : Nat) (s : Grouped ρ σ β) : Prop where
  start_dvd : size ∣ s.group.start
  start_le : s.group.start = 0 ∨ size ≤ s.group.start
  passed : s.passed ≤ s.group.units.length
  length_le : s.group.units.length ≤ capacity
  nonempty : s.group.units = [] → s.group = {}
  index : s.index = s.group.start / size * full + s.passed

section Groups

variable {ρ σ α β : Type} [GroupCode ρ α β] [LawfulCode ρ] [GuardedCode ρ] [FittingCode ρ]
  [Cursor σ α] [Viewed σ α] {code : ρ}

lemma groupFits_of_shows {s : Grouped ρ σ β} {t : Tape β} (h : Shows s t) {full : Nat}
    (hfull : MakesFull s.code full) :
    GroupFits (GroupCode.size s.code) full (GuardedCode.capacity s.code) s := by
  obtain ⟨⟨base, code, source⟩, i, hat, hi, -⟩ := h
  obtain ⟨rfl, -, hholds, hpassed, done, hreaches, hdone⟩ := hat
  obtain ⟨n, hstart, hlength⟩ := hreaches.exists_groups
  have hsize : 0 < GroupCode.size s.code := LawfulCode.size_pos s.code
  refine ⟨⟨n, by rw [hstart, Nat.mul_comm]⟩, ?_, hpassed, hholds.length_le, ?_, ?_⟩
  · by_cases hzero : s.group.start = 0
    · exact .inl hzero
    · exact .inr (hreaches.size_le hzero)
  · intro hnil
    obtain hinitial | hread := hholds
    · exact hinitial
    · obtain ⟨group, rest, hgroup⟩ := readGroup_reads hread
      exact absurd hnil hgroup.out.1
  · rw [hi, hdone, hlength full hfull, hstart, Nat.mul_div_cancel _ hsize]

end Groups

lemma encoding_makesFull (e : Encoding) : MakesFull e e.codec.groupSymbols := by
  intro bytes out _ hclose
  have hlength : bytes.length = e.codec.groupBytes := LawfulCode.close_more e bytes out hclose
  rw [encoding_close, if_pos hlength] at hclose
  rw [← (Prod.mk.inj (Except.ok.inj hclose)).1, length_dataSymbols, hlength]
  cases e.codec <;> simp [Codec.symbolCount, Codec.bits, Codec.groupBytes, Codec.groupSymbols]

lemma decoding_makesFull (d : Decoding) : MakesFull d d.codec.groupBytes := by
  intro symbols out haccepted hclose
  obtain ⟨data, pads, hpadded, -⟩ := padded_of_accepted haccepted
  obtain ⟨-, rfl, hending⟩ := decoding_close_ok hclose
  rw [hpadded.ending_eq] at hending
  by_cases hpads : pads = 0
  · by_cases hdata : data.length = d.codec.groupSymbols
    · rw [hpadded.groupBytes_eq, length_bytesOfValues, length_valuesOf hpadded.data, hdata,
        byteCount_group]
    · simp [hpads, hdata] at hending
  · simp [hpads] at hending

/-- What holds of a stack, layer by layer. -/
def Fits : (n : Nat) → {k : Kind} → Stack n k → Prop
  | 0, _, .sequence c | 0, _, .buffer c => c.index ≤ c.units.size
  | 0, _, .text c => c.pos.offset.IsValid c.text
  | n + 1, _, .plain c => Fits n c
  | n + 1, _, .limited c => c.index ≤ c.bound ∧ Fits n c.inner.inner
  | n + 1, _, .delimited c => Fits n c.inner.inner
  | n + 1, _, .filtered c => Fits n c.inner
  | n + 1, _, .chained c =>
    (c.members = #[] ∨ c.current < c.members.size) ∧ ∀ m ∈ c.members, Fits n m.inner
  | n + 1, _, .mapped c => Fits n c.inner.inner
  | n + 1, _, .encoded c =>
    GroupFits c.code.codec.groupBytes c.code.codec.groupSymbols 8 c ∧ Fits n c.source.inner
  | n + 1, _, .decoded c =>
    GroupFits c.code.codec.groupSymbols c.code.codec.groupBytes 5 c ∧ Fits n c.source.inner

lemma fits_of_shows {n : Nat} {k : Kind} {c : Stack n k} {t : Tape k.Carrier} (h : Shows c t) :
    Fits n c := by
  induction n generalizing k t with
  | zero =>
    have hsource : SourceShows c t := h
    cases c with
    | sequence c | buffer c => exact SequenceShows.index_le hsource
    | text c => exact c.pos.isValid
  | succ n ih =>
    have hlayer : LayerShows (S := Stack n) c t := h
    cases c with
    | plain c => exact ih hlayer
    | limited c =>
      obtain ⟨whole, hs, hle, -⟩ := hlayer
      have hi : c.index = whole.behind.length := simulation.index hs
      obtain ⟨_, hinner⟩ := Shown.anchored ⟨whole, hs⟩
      exact ⟨hi ▸ hle, ih hinner⟩
    | delimited c =>
      obtain ⟨whole, hs, -⟩ := hlayer
      obtain ⟨_, hinner⟩ := Shown.anchored ⟨whole, hs⟩
      exact ih hinner
    | filtered c =>
      obtain ⟨before, seen, ahead, stop, hs, -⟩ := hlayer
      exact ih hs
    | chained c =>
      have hmembers := (Shown.members ⟨t, hlayer⟩).1
      refine ⟨?_, fun m hm => ?_⟩
      · obtain ⟨-, ⟨⟨hnone, -⟩, -⟩ | ⟨drained, m, rest, hat, -⟩⟩ := hlayer
        · exact .inl hnone
        · exact .inr (Array.getElem?_eq_some_iff.1 hat.current_eq).1
      · obtain ⟨_, hinner⟩ := (hmembers m hm).anchored
        exact ih hinner
    | mapped c =>
      obtain ⟨whole, hs, -⟩ := hlayer
      obtain ⟨_, hinner⟩ := Shown.anchored ⟨whole, hs⟩
      exact ih hinner
    | encoded c =>
      obtain ⟨_, hinner⟩ := (Shown.grouped ⟨t, hlayer⟩).anchored
      exact ⟨groupFits_of_shows hlayer (encoding_makesFull c.code), ih hinner⟩
    | decoded c =>
      obtain ⟨_, hinner⟩ := (Shown.grouped ⟨t, hlayer⟩).anchored
      exact ⟨groupFits_of_shows hlayer (decoding_makesFull c.code), ih hinner⟩

/-- Every call on every stack stays in range in every state that can be reached, and the fields of
all its layers fit each other there. -/
theorem reachable_inRange {k : Kind} {s : AnyStack k} (h : Reachable s) :
    (∀ call : Call, (call.guarded : Guarded (AnyStack k) (Reply k.Carrier)).run = call.ask ∧
      call.guarded.safe s) ∧ Fits s.depth s.stack := by
  obtain ⟨t, ht⟩ := reachable_shows h
  have hsafe := InRange.safe s ⟨t, ht⟩
  refine ⟨fun call => ⟨call.guarded_run, ?_⟩, fits_of_shows ht⟩
  cases call with
  | hasNext => exact ⟨hsafe.hasNext, fun _ _ => trivial⟩
  | hasPrevious => exact ⟨hsafe.hasPrevious, fun _ _ => trivial⟩
  | peekNext => exact ⟨hsafe.peekNext, fun _ _ => trivial⟩
  | peekPrevious => exact ⟨hsafe.peekPrevious, fun _ _ => trivial⟩
  | next => exact ⟨hsafe.next, fun _ _ => trivial⟩
  | previous => exact ⟨hsafe.previous, fun _ _ => trivial⟩
  | index => trivial

/-- Four of five bytes in Base64, of which the second group has been begun and left again. -/
def turnedBytes : AnyStack .char :=
  after [.next, .next, .next, .next, .next, .previous, .previous]
    (((AnyStack.ofSource (k := .byte) (.sequence (.ofList [1, 2, 3, 4, 5]))).limit 4).encode
      { codec := .base64 .base64 })

lemma turnedBytes_reachable : Reachable turnedBytes :=
  .call (.call (.call (.call (.call (.call (.call (.encode (.limit (.slice (k := .byte) _) _) _)
    .next) .next) .next) .next) .next) .previous) .previous

theorem inRange_turnedBytes :
    Cursor.index turnedBytes = 3 ∧
      (∀ call : Call, (call.guarded : Guarded (AnyStack .char) (Reply Char)).run = call.ask ∧
        call.guarded.safe turnedBytes) ∧ Fits turnedBytes.depth turnedBytes.stack :=
  ⟨rfl, reachable_inRange turnedBytes_reachable⟩

end BaseText.Proofs
